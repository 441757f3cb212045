import PolicyEngine.Memory.Reservations

/-!
# What the critical sections of WriteData do

One inversion lemma for each of the two sections under the lock, and from them one
for every step of a WriteData call.
-/

open PolicyEngine.Lib Function

namespace PolicyEngine.Memory

variable {s s' : Store} {request : WriteDataRequest} {fingerprint : Bytes}

/-! ## Answers and candidates -/

/-- Answers that commit nothing: errors, and the replay of an earlier commit. -/
inductive EarlyAnswer (s : Store) (request : WriteDataRequest) (fingerprint : Bytes) : Result WriteDataResponse → Prop
  | error (e : ErrorCategory) : EarlyAnswer s request fingerprint (.error e)
  | replay (previous : IdempotencyState) :
      idempotencyRecord (s.data request.namespace_) request.idempotencyKey = some previous →
      previous.fingerprint = fingerprint →
      EarlyAnswer s request fingerprint (.ok ⟨previous.response.generation, true⟩)

/-- What a candidate is, over the data it was built from. -/
structure CandidateFor (s : Store) (request : WriteDataRequest) (c : Candidate) : Prop where
  base : ∃ ptr, c.base = baseVersion (s.data request.namespace_) ptr
  expected : ((s.data request.namespace_).map (·.generation)).getD 0 = request.expectedGeneration
  mutations : applyMutations c.base request = some (c.version.tuples, c.version.attributes)
  generation : c.version.generation = request.expectedGeneration + 1

variable {result : Result WriteDataResponse}

/-- Early answers depend on the data only. -/
theorem EarlyAnswer.of_data_eq (h : EarlyAnswer s request fingerprint result) (hd : s.data = s'.data) :
    EarlyAnswer s' request fingerprint result := by
  cases h with
  | error e => exact .error e
  | replay previous hp hf => exact .replay previous (hd ▸ hp) hf

theorem answerPrevious_early {previous}
    (h : idempotencyRecord (s.data request.namespace_) request.idempotencyKey = some previous) :
    EarlyAnswer s request fingerprint (answerPrevious previous fingerprint) := by
  unfold answerPrevious newWriteDataResponse
  split
  · exact .error _
  next hf =>
    split
    · exact .error _
    · exact .replay previous h (not_not.1 hf)

theorem buildCandidate_inl {r} (h : buildCandidate s request fingerprint r = .inl result) :
    EarlyAnswer s request fingerprint result := by
  simp only [buildCandidate] at h
  split at h
  next previous hp =>
    cases h
    exact answerPrevious_early hp
  next =>
    -- every other early answer is an error
    repeat' split at h
    all_goals first | (cases h; exact .error _) | cases h

variable {c : Candidate}

theorem buildCandidate_inr {r} (h : buildCandidate s request fingerprint r = .inr c) :
    CandidateFor s request c ∧ c.fingerprint = fingerprint ∧ c.reservation = r ∧
      idempotencyRecord (s.data request.namespace_) request.idempotencyKey = none := by
  simp only [buildCandidate] at h
  split at h
  · cases h
  next hnone =>
    split at h
    · cases h
    split at h
    · cases h
    next hgen =>
      split at h
      · cases h
      split at h
      · cases h
      split at h
      · cases h
      next tuples attributes hmut =>
        split at h
        · cases h
        next =>
          cases h
          have hgen' := not_not.1 hgen
          exact ⟨⟨⟨_, rfl⟩, hgen', hmut, by rw [← hgen']⟩, rfl, rfl, hnone⟩

theorem recheckCandidate_inl (h : recheckCandidate s request c = .inl result) :
    EarlyAnswer s request c.fingerprint result := by
  simp only [recheckCandidate] at h
  split at h
  · cases h; exact .error _
  split at h
  · cases h; exact .error _
  split at h
  next previous hp =>
    cases h
    exact answerPrevious_early hp
  next => split at h <;> cases h; exact .error _

theorem recheckCandidate_inr {state} (h : recheckCandidate s request c = .inr state) :
    state = s.data request.namespace_ ∧
      idempotencyRecord (s.data request.namespace_) request.idempotencyKey = none := by
  simp only [recheckCandidate] at h
  split at h
  · cases h
  split at h
  · cases h
  split at h
  · cases h
  next hnone =>
    split at h
    · cases h
    · cases h
      exact ⟨rfl, hnone⟩

/-! ## The first critical section -/

/-- Another call holds the key, the call is answered early, or it has reserved and built a candidate. -/
theorem writeDataLocked_cases (s : Store) (request : WriteDataRequest) (fingerprint : Bytes) :
    (writeDataLocked s request fingerprint).1 = s.lock.unlock ∧
      ((∃ done, (writeDataLocked s request fingerprint).2 = .waiting fingerprint done) ∨
        (writeDataLocked s request fingerprint).2 = .returned (.error .conflict)) ∨
    (∃ result, EarlyAnswer s request fingerprint result ∧
      (writeDataLocked s request fingerprint).2 = .returned result ∧
      (writeDataLocked s request fingerprint).1 =
        { s with mu := false, nextRef := s.nextRef + 1, closed := s.nextRef :: s.closed }) ∨
    (∃ c, CandidateFor s request c ∧ c.fingerprint = fingerprint ∧ c.reservation.key = dataKey request.namespace_ ∧
      c.reservation.done = s.nextRef ∧ s.reservations (dataKey request.namespace_) = none ∧
      (writeDataLocked s request fingerprint).2 = .built c ∧
      (writeDataLocked s request fingerprint).1 =
        { s with
          mu := false
          reservations := update s.reservations (dataKey request.namespace_) (some c.reservation)
          nextRef := s.nextRef + 3 }) := by
  rcases Store.reserveCommitLocked_cases s.lock (dataKey request.namespace_) with ⟨pending, hp, he⟩ | ⟨hn, he⟩
  · left
    simp only [writeDataLocked, he, hp]
    split
    · exact ⟨rfl, .inl ⟨_, rfl⟩⟩
    · exact ⟨rfl, .inr rfl⟩
  · right
    simp only [writeDataLocked, he]
    generalize hb : buildCandidate _ _ _ _ = b
    cases b with
    | inl result =>
      left
      refine ⟨result, ?_, rfl, ?_⟩
      · exact (buildCandidate_inl hb).of_data_eq rfl
      · -- reserving and releasing again leaves the reservations as they were
        rw [Store.releaseCommitReservationLocked_held (by simp [Store.markReservation])]
        have hupd : update s.reservations (dataKey request.namespace_) none = s.reservations := by
          rw [← hn]
          exact update_eq_self _ _
        simp [Store.markReservation, Store.lock, Store.unlock, hupd]
    | inr c =>
      right
      obtain ⟨hc, hf, hr, -⟩ := buildCandidate_inr hb
      refine ⟨c, ⟨hc.base, hc.expected, hc.mutations, hc.generation⟩, hf, ?_, ?_, hn, rfl, ?_⟩
      · rw [hr]
      · rw [hr]; rfl
      · rw [hr]
        simp [Store.markReservation, Store.lock, Store.unlock]

/-! ## The second critical section -/

theorem publishCandidate_eq (s : Store) (request : WriteDataRequest) (c : Candidate) (state : Option DataState)
    (event : EventRecord) (t : Time) :
    publishCandidate s request c state event t =
      { s with
        data := update s.data request.namespace_
          (some ⟨c.version.generation, c.version,
            update ((state.map (·.idempotency)).getD fun _ => none) request.idempotencyKey
              (some ⟨c.fingerprint, c.response⟩)⟩)
        waiters := (publishCandidate s request c state event t).waiters
        closed := (publishCandidate s request c state event t).closed
        events := (publishCandidate s request c state event t).events } := by
  simp only [publishCandidate]
  rw [Store.appendEventLocked_eq, Store.notifyGenerationWaitersLocked_eq]

variable [Primitives]

/-- Nothing but the effective time changes, or the candidate is published. -/
theorem writeDataCommit_cases (s : Store) (ctx : Ctx) (request : WriteDataRequest) (c : Candidate) (now : Time) :
    (∃ t, (writeDataCommit s ctx request c now).1 = { s with mu := false, effectiveTime := t } ∧
      EarlyAnswer s request c.fingerprint (writeDataCommit s ctx request c now).2) ∨
    (∃ event, idempotencyRecord (s.data request.namespace_) request.idempotencyKey = none ∧
      (s.lock.effectiveTimeLocked now).1.newEventLocked (dataWrittenEvent request c.version.generation)
        (s.lock.effectiveTimeLocked now).2 = .ok event ∧
      writeDataCommit s ctx request c now =
        ((publishCandidate (s.lock.effectiveTimeLocked now).1 request c (s.data request.namespace_) event
          (s.lock.effectiveTimeLocked now).2).unlock, .ok c.response)) := by
  unfold writeDataCommit
  dsimp only
  split
  · exact .inl ⟨_, rfl, .error _⟩
  split
  · exact .inl ⟨_, rfl, .error _⟩
  split
  next result hr => exact .inl ⟨_, rfl, (recheckCandidate_inl hr).of_data_eq rfl⟩
  next state hr =>
    obtain ⟨rfl, hnone⟩ := recheckCandidate_inr hr
    split
    next =>
      refine .inl ⟨(s.lock.effectiveTimeLocked now).2, ?_, .error _⟩
      rw [Store.effectiveTimeLocked_fst]
      rfl
    next event he => exact .inr ⟨event, hnone, he, rfl⟩

/-! ## Steps -/

/-- The candidate a call has built and not yet tried to commit. -/
def WritePc.candidate? : WritePc → Option Candidate
  | .built c | .clock c | .clocked c _ | .committing c _ => some c
  | _ => none

/-- The answer a call has settled on. -/
def WritePc.result? : WritePc → Option (Result WriteDataResponse)
  | .releasing _ result | .returned result => some result
  | _ => none

/-- Everything a step of a WriteData call can do. -/
inductive WriteStep (s : Store) (request : WriteDataRequest) : WritePc → Store → WritePc → Prop
  | start {f : Bytes} : fingerprintWriteData request = .ok f →
      WriteStep s request .entry s (.reserve f)
  | reserve {f : Bytes} : WriteStep s request (.reserve f) s (.locking f)
  | wake {f : Bytes} {done : Chan} : WriteStep s request (.waiting f done) s (.reserve f)
  | refuse {pc : WritePc} (e : ErrorCategory) : pc.holds = none → pc.result? = none → WriteStep s request pc s (.returned (.error e))
  | wait {f : Bytes} (done : Chan) :
      WriteStep s request (.locking f) s.lock.unlock (.waiting f done)
  | contend {f : Bytes} (e : ErrorCategory) :
      WriteStep s request (.locking f) s.lock.unlock (.returned (.error e))
  | answer {f : Bytes} {result : Result WriteDataResponse} : EarlyAnswer s request f result →
      WriteStep s request (.locking f)
        { s with mu := false, nextRef := s.nextRef + 1, closed := s.nextRef :: s.closed } (.returned result)
  | build {f : Bytes} {c : Candidate} : CandidateFor s request c → c.fingerprint = f →
      c.reservation.key = dataKey request.namespace_ → c.reservation.done = s.nextRef →
      s.reservations (dataKey request.namespace_) = none →
      WriteStep s request (.locking f)
        { s with
          mu := false
          reservations := Function.update s.reservations (dataKey request.namespace_) (some c.reservation)
          nextRef := s.nextRef + 3 } (.built c)
  | check {c : Candidate} : WriteStep s request (.built c) s (.clock c)
  | read {c : Candidate} (t : Time) : WriteStep s request (.clock c) s (.clocked c t)
  | recheck {c : Candidate} {t : Time} : WriteStep s request (.clocked c t) s (.committing c t)
  | abandon {pc : WritePc} {c : Candidate} (e : ErrorCategory) : pc.candidate? = some c →
      WriteStep s request pc s (.releasing c.reservation (.error e))
  | decline {c : Candidate} {t : Time} {result : Result WriteDataResponse} (time : Time) : EarlyAnswer s request c.fingerprint result →
      WriteStep s request (.committing c t) { s with mu := false, effectiveTime := time }
        (.releasing c.reservation result)
  | commit {c : Candidate} {t : Time} {event : EventRecord} : idempotencyRecord (s.data request.namespace_) request.idempotencyKey = none →
      (s.lock.effectiveTimeLocked t).1.newEventLocked (dataWrittenEvent request c.version.generation)
        (s.lock.effectiveTimeLocked t).2 = .ok event →
      WriteStep s request (.committing c t)
        (publishCandidate (s.lock.effectiveTimeLocked t).1 request c (s.data request.namespace_) event
          (s.lock.effectiveTimeLocked t).2).unlock (.releasing c.reservation (.ok c.response))
  | release {r : CommitReservation} {result : Result WriteDataResponse} :
      WriteStep s request (.releasing r result) (releaseCommitReservation s r) (.returned result)

theorem writeDataStep_cases {ctx input pc pc'} (h : writeDataStep s ctx request input pc = some (s', pc')) :
    WriteStep s request pc s' pc' := by
  cases pc with
  | entry =>
    simp only [writeDataStep] at h
    split at h
    · cases h; exact .refuse _ rfl rfl
    split at h
    · cases h; exact .refuse _ rfl rfl
    next hf => cases h; exact .start hf
  | reserve fingerprint =>
    simp only [writeDataStep] at h
    split at h
    · cases h; exact .refuse _ rfl rfl
    · cases h; exact .reserve
  | locking fingerprint =>
    simp only [writeDataStep] at h
    split at h
    · cases h
    have hp := Option.some.inj h
    obtain ⟨rfl, rfl⟩ : (writeDataLocked s request fingerprint).1 = s' ∧
        (writeDataLocked s request fingerprint).2 = pc' := by rw [hp]; exact ⟨rfl, rfl⟩
    rcases writeDataLocked_cases s request fingerprint with ⟨hs, ⟨done, hpc⟩ | hpc⟩ | ⟨result, hr, hpc, hs⟩ |
      ⟨c, hc, hf, hkey, hdone, hn, hpc, hs⟩
    · rw [hs, hpc]; exact .wait done
    · rw [hs, hpc]; exact .contend _
    · rw [hs, hpc]; exact .answer hr
    · rw [hs, hpc]; exact .build hc hf hkey hdone hn
  | waiting fingerprint done =>
    simp only [writeDataStep] at h
    split at h
    · cases h; exact .refuse _ rfl rfl
    split at h
    · cases h; exact .wake
    · cases h
  | built c =>
    simp only [writeDataStep] at h
    split at h
    · cases h; exact .abandon _ rfl
    · cases h; exact .check
  | clock c =>
    simp only [writeDataStep] at h
    split at h
    · cases h; exact .abandon _ rfl
    · cases h; exact .read _
  | clocked c t =>
    simp only [writeDataStep] at h
    split at h
    · cases h; exact .abandon _ rfl
    · cases h; exact .recheck
  | committing c t =>
    simp only [writeDataStep] at h
    split at h
    · cases h
    have hp := Option.some.inj h
    simp only [Prod.mk.injEq] at hp
    obtain ⟨rfl, rfl⟩ := hp
    rcases writeDataCommit_cases s ctx request c t with ⟨time, hs, hr⟩ | ⟨event, hnone, he, hp⟩
    · rw [hs]; exact .decline _ hr
    · rw [hp]; exact .commit hnone he
  | releasing r result =>
    simp only [writeDataStep] at h
    split at h
    · cases h
    · cases h; exact .release
  | returned result => cases h

end PolicyEngine.Memory
