import PolicyEngine.Memory.Reservations

/-!
# What the critical sections of Activate and PutRevision do

Inversion lemmas for the steps of the two calls that change policy state.
-/

open PolicyEngine.Lib Function

namespace PolicyEngine.Memory

variable {s s' : Store}

/-- A reservation taken and released again leaves only a used-up identity and a closed channel. -/
theorem release_reserved {key s₁ r} (h : s.lock.reserveCommitLocked key = (s₁, some r)) :
    (s₁.releaseCommitReservationLocked r).unlock =
      { s with mu := false, nextRef := s.nextRef + 1, closed := s.nextRef :: s.closed } := by
  rcases Store.reserveCommitLocked_cases s.lock key with ⟨pending, -, he⟩ | ⟨hn, he⟩
  · rw [he] at h
    cases h
  · rw [he] at h
    cases h
    have hupd : update s.reservations key none = s.reservations := by
      conv_rhs => rw [← update_eq_self key s.reservations]
      exact congrArg _ hn.symm
    rw [Store.releaseCommitReservationLocked_held (by simp)]
    simp [Store.lock, Store.unlock, hupd]

/-- What a taken reservation is. -/
theorem reserved_eq {key s₁ r} (h : s.lock.reserveCommitLocked key = (s₁, some r)) :
    r.key = key ∧ r.done = s.nextRef ∧ s.reservations key = none ∧
      s₁ = { s with
        mu := true
        reservations := update s.reservations key (some r)
        nextRef := s.nextRef + 1 } := by
  rcases Store.reserveCommitLocked_cases s.lock key with ⟨pending, -, he⟩ | ⟨hn, he⟩
  · rw [he] at h
    cases h
  · rw [he] at h
    cases h
    exact ⟨rfl, rfl, hn, rfl⟩

/-! ## Activate -/

theorem publishActivation_eq (s : Store) (a : Activation) (event : EventRecord) (t : Time) :
    publishActivation s a event t =
      { s with
        slots := update s.slots a.namespace_
          (update (s.slots a.namespace_) a.slot (some (SlotState.push (s.slots a.namespace_ a.slot) a)))
        events := (publishActivation s a event t).events } := by
  simp only [publishActivation]
  rw [Store.appendEventLocked_eq]

def ActivatePc.result? : ActivatePc → Option (Result Activation)
  | .releasing _ result | .returned result => some result
  | _ => none

/-- The generation a call has been promised and not yet tried to commit. -/
def ActivatePc.candidate? : ActivatePc → Option (CommitReservation × Nat)
  | .built r g | .clock r g | .clocked r g _ | .committing r g _ => some (r, g)
  | _ => none

variable [Primitives] {request : ActivateRequest}

/-- Everything a step of an Activate call can do. -/
inductive ActivateStep (s : Store) (request : ActivateRequest) : ActivatePc → Store → ActivatePc → Prop
  | start : newActivateRequest request.namespace_ request.slot request.targetRevisionID request.expectation =
        .ok request → ActivateStep s request .entry s .locking
  | refuse {pc : ActivatePc} (e : ErrorCategory) : pc.holds = none → pc.result? = none →
      ActivateStep s request pc s (.returned (.error e))
  | contend (e : ErrorCategory) : ActivateStep s request .locking s.lock.unlock (.returned (.error e))
  | answer (e : ErrorCategory) :
      ActivateStep s request .locking
        { s with mu := false, nextRef := s.nextRef + 1, closed := s.nextRef :: s.closed } (.returned (.error e))
  | build {r : CommitReservation} {g : Nat} : nextSlotGeneration s request = .ok g →
      r.key = slotKey request.namespace_ request.slot → r.done = s.nextRef →
      s.reservations (slotKey request.namespace_ request.slot) = none →
      ActivateStep s request .locking
        { s with
          mu := false
          reservations := Function.update s.reservations (slotKey request.namespace_ request.slot) (some r)
          nextRef := s.nextRef + 1 } (.built r g)
  | check {r : CommitReservation} {g : Nat} : ActivateStep s request (.built r g) s (.clock r g)
  | read {r : CommitReservation} {g : Nat} (t : Time) : ActivateStep s request (.clock r g) s (.clocked r g t)
  | recheck {r : CommitReservation} {g : Nat} {t : Time} :
      ActivateStep s request (.clocked r g t) s (.committing r g t)
  | abandon {pc : ActivatePc} {r : CommitReservation} {g : Nat} (e : ErrorCategory) : pc.candidate? = some (r, g) →
      ActivateStep s request pc s (.releasing r (.error e))
  | decline {r : CommitReservation} {g : Nat} {t : Time} (time : Time) (e : ErrorCategory) :
      ActivateStep s request (.committing r g t) { s with mu := false, effectiveTime := time } (.releasing r (.error e))
  | commit {r : CommitReservation} {g : Nat} {t : Time} {a : Activation} {event : EventRecord} :
      nextSlotGeneration s request = .ok g →
      newActivation request.namespace_ request.slot request.targetRevisionID g (s.lock.effectiveTimeLocked t).2 =
        .ok a →
      (s.lock.effectiveTimeLocked t).1.newEventLocked (slotActivatedEvent request g) (s.lock.effectiveTimeLocked t).2 =
        .ok event →
      ActivateStep s request (.committing r g t)
        (publishActivation (s.lock.effectiveTimeLocked t).1 a event (s.lock.effectiveTimeLocked t).2).unlock
        (.releasing r (.ok a))
  | release {r : CommitReservation} {result : Result Activation} :
      ActivateStep s request (.releasing r result) (releaseCommitReservation s r) (.returned result)

theorem activateLocked_cases (s : Store) (request : ActivateRequest) :
    ActivateStep s request .locking (activateLocked s request).1 (activateLocked s request).2 := by
  unfold activateLocked
  dsimp only
  split
  next s₁ he =>
    rcases Store.reserveCommitLocked_cases s.lock (slotKey request.namespace_ request.slot) with ⟨_, -, h⟩ | ⟨-, h⟩
    · rw [h] at he
      cases he
      exact .contend _
    · rw [h] at he
      cases he
  next s₁ r he =>
    split
    next e _ =>
      rw [release_reserved he]
      exact .answer e
    next g hg =>
      obtain ⟨g', hg', hseq⟩ := bind_eq_ok.1 hg
      obtain ⟨_, _, hok⟩ := bind_eq_ok.1 hseq
      obtain rfl := Except.ok.inj hok
      obtain ⟨hkey, hdone, hn, rfl⟩ := reserved_eq he
      exact .build hg' hkey hdone hn

theorem activateCommit_cases (s : Store) (ctx : Ctx) (request : ActivateRequest) (r : CommitReservation) (g : Nat)
    (t : Time) :
    ActivateStep s request (.committing r g t) (activateCommit s ctx request r g t).1
      (.releasing r (activateCommit s ctx request r g t).2) := by
  unfold activateCommit
  dsimp only
  split
  · exact .decline _ _
  split
  · exact .decline _ _
  split
  · exact .decline _ _
  next hchecked =>
    obtain ⟨g', hg', hseq⟩ := bind_eq_ok.1 hchecked
    obtain ⟨hreq, -⟩ := check_eq_ok.1 hseq
    obtain rfl : g' = g := by simpa using hreq
    split
    next e _ =>
      rw [Store.effectiveTimeLocked_fst]
      exact .decline (s.lock.effectiveTimeLocked t).2 e
    next a event hprep =>
      obtain ⟨a', ha, h1⟩ := bind_eq_ok.1 hprep
      obtain ⟨a'', hresp, h2⟩ := bind_eq_ok.1 h1
      obtain ⟨ev, hev, h3⟩ := bind_eq_ok.1 h2
      obtain ⟨rfl, rfl⟩ := Prod.mk.inj (Except.ok.inj h3)
      obtain rfl : a'' = a' := by
        simp only [newActivateResponse, newActivation_valid ha, if_true] at hresp
        exact (Except.ok.inj hresp).symm
      exact .commit hg' ha hev

theorem activateStep_cases {ctx input pc pc'} (h : activateStep s ctx request input pc = some (s', pc')) :
    ActivateStep s request pc s' pc' := by
  cases pc with
  | entry =>
    simp only [activateStep] at h
    split at h
    · cases h; exact .refuse _ rfl rfl
    split at h
    · cases h; exact .refuse _ rfl rfl
    next r hr =>
      cases h
      obtain ⟨rfl, -⟩ := newActivateRequest_eq_ok.1 hr
      exact .start hr
  | locking =>
    simp only [activateStep] at h
    split at h
    · cases h
    have hp := activateLocked_cases s request
    rw [Option.some.inj h] at hp
    exact hp
  | built r g =>
    simp only [activateStep] at h
    split at h
    · cases h; exact .abandon (g := g) _ rfl
    · cases h; exact .check
  | clock r g =>
    simp only [activateStep] at h
    split at h
    · cases h; exact .abandon (g := g) _ rfl
    · cases h; exact .read _
  | clocked r g t =>
    simp only [activateStep] at h
    split at h
    · cases h; exact .abandon (g := g) _ rfl
    · cases h; exact .recheck
  | committing r g t =>
    simp only [activateStep] at h
    split at h
    · cases h
    obtain ⟨rfl, rfl⟩ := Prod.mk.inj (Option.some.inj h)
    exact activateCommit_cases s ctx request r g t
  | releasing r result =>
    simp only [activateStep] at h
    split at h
    · cases h
    · cases h; exact .release
  | returned result => cases h

/-! ## PutRevision -/

omit [Primitives] in
theorem publishRevision_eq (s : Store) (record : RevisionRecord) (event : EventRecord) (t : Time) :
    publishRevision s record event t =
      { s with
        revisions := update s.revisions record.metadata.namespace_
          (update (s.revisions record.metadata.namespace_) record.metadata.id (some record))
        revisionOrder := (publishRevision s record event t).revisionOrder
        events := (publishRevision s record event t).events } := by
  simp only [publishRevision]
  rw [Store.appendEventLocked_eq]

def PutPc.result? : PutPc → Option (Result PutRevisionResult)
  | .releasing _ result | .returned result => some result
  | _ => none

def PutPc.candidate? : PutPc → Option CommitReservation
  | .built r | .clock r | .clocked r _ | .committing r _ => some r
  | _ => none

/-- Answers that publish nothing. -/
def PutRefusal (result : Result PutRevisionResult) : Prop := ∀ r, result = .ok r → r.created = false

/-- Everything a step of a PutRevision call can do. -/
inductive PutStep (s : Store) (write : RevisionWrite) : PutPc → Store → PutPc → Prop
  | start : putRevisionPrepare write = .ok () → PutStep s write .entry s .locking
  | wake {done : Chan} : PutStep s write (.waiting done) s .locking
  | refuse {pc : PutPc} (e : ErrorCategory) : pc.holds = none → pc.result? = none →
      PutStep s write pc s (.returned (.error e))
  | reply {existing : RevisionRecord} :
      PutStep s write (.found existing) s (.returned (answerExisting existing write))
  | wait (done : Chan) : PutStep s write .locking s.lock.unlock (.waiting done)
  | contend (e : ErrorCategory) : PutStep s write .locking s.lock.unlock (.returned (.error e))
  | answer (e : ErrorCategory) :
      PutStep s write .locking
        { s with mu := false, nextRef := s.nextRef + 1, closed := s.nextRef :: s.closed } (.returned (.error e))
  | find {existing : RevisionRecord} : s.revisions write.metadata.namespace_ write.metadata.id = some existing →
      PutStep s write .locking
        { s with mu := false, nextRef := s.nextRef + 1, closed := s.nextRef :: s.closed } (.found existing)
  | build {r : CommitReservation} : r.key = revisionKey write.metadata.namespace_ → r.done = s.nextRef →
      s.reservations (revisionKey write.metadata.namespace_) = none →
      PutStep s write .locking
        { s with
          mu := false
          reservations := Function.update s.reservations (revisionKey write.metadata.namespace_) (some r)
          nextRef := s.nextRef + 1 } (.built r)
  | check {r : CommitReservation} : PutStep s write (.built r) s (.clock r)
  | read {r : CommitReservation} (t : Time) : PutStep s write (.clock r) s (.clocked r t)
  | recheck {r : CommitReservation} {t : Time} : PutStep s write (.clocked r t) s (.committing r t)
  | abandon {pc : PutPc} {r : CommitReservation} (e : ErrorCategory) : pc.candidate? = some r →
      PutStep s write pc s (.releasing r (.error e))
  | decline {r : CommitReservation} {t : Time} {result : Result PutRevisionResult} (time : Time) : PutRefusal result →
      PutStep s write (.committing r t) { s with mu := false, effectiveTime := time } (.releasing r result)
  | commit {r : CommitReservation} {t : Time} {event : EventRecord} :
      s.revisions write.metadata.namespace_ write.metadata.id = none →
      (s.lock.effectiveTimeLocked t).1.newEventLocked (revisionPublishedEvent write)
        (s.lock.effectiveTimeLocked t).2 = .ok event →
      PutStep s write (.committing r t)
        (publishRevision (s.lock.effectiveTimeLocked t).1 write event (s.lock.effectiveTimeLocked t).2).unlock
        (.releasing r (.ok ⟨write, true⟩))
  | release {r : CommitReservation} {result : Result PutRevisionResult} :
      PutStep s write (.releasing r result) (releaseCommitReservation s r) (.returned result)

theorem answerExisting_refusal (existing write : RevisionRecord) : PutRefusal (answerExisting existing write) := by
  intro r h
  unfold answerExisting newPutRevisionResult at h
  split at h
  · cases h
  split at h
  · cases h; rfl
  · cases h

theorem putRevisionLocked_cases (s : Store) (write : RevisionWrite) :
    PutStep s write .locking (putRevisionLocked s write).1 (putRevisionLocked s write).2 := by
  unfold putRevisionLocked
  dsimp only
  split
  next s₁ he =>
    rcases Store.reserveCommitLocked_cases s.lock (revisionKey write.metadata.namespace_) with ⟨_, hp, h⟩ | ⟨-, h⟩
    · rw [h] at he
      cases he
      simp only [hp]
      exact .wait _
    · rw [h] at he
      cases he
  next s₁ r he =>
    split
    next existing hex =>
      rw [release_reserved he]
      obtain ⟨-, -, -, rfl⟩ := reserved_eq he
      exact .find hex
    next =>
      split
      next e _ =>
        rw [release_reserved he]
        exact .answer e
      next =>
        obtain ⟨hkey, hdone, hn, rfl⟩ := reserved_eq he
        exact .build hkey hdone hn

theorem putRevisionCommit_cases (s : Store) (ctx : Ctx) (write : RevisionWrite) (r : CommitReservation) (t : Time) :
    PutStep s write (.committing r t) (putRevisionCommit s ctx write r t).1
      (.releasing r (putRevisionCommit s ctx write r t).2) := by
  have herror (e : ErrorCategory) : PutRefusal (.error e) := fun _ h => nomatch h
  unfold putRevisionCommit
  dsimp only
  split
  · exact .decline _ (herror _)
  split
  · exact .decline _ (herror _)
  split
  next existing _ => exact .decline _ (answerExisting_refusal existing write)
  next hnone =>
    split
    · exact .decline _ (herror _)
    split
    next e _ =>
      rw [Store.effectiveTimeLocked_fst]
      exact .decline (s.lock.effectiveTimeLocked t).2 (herror e)
    next event hev => exact .commit hnone hev

theorem putRevisionStep_cases {ctx write input pc pc'} (h : putRevisionStep s ctx write input pc = some (s', pc')) :
    PutStep s write pc s' pc' := by
  cases pc with
  | entry =>
    simp only [putRevisionStep] at h
    split at h
    · cases h; exact .refuse _ rfl rfl
    split at h
    · cases h; exact .refuse _ rfl rfl
    next hp => cases h; exact .start hp
  | locking =>
    simp only [putRevisionStep] at h
    split at h
    · cases h
    have hp := putRevisionLocked_cases s write
    rw [Option.some.inj h] at hp
    exact hp
  | waiting done =>
    simp only [putRevisionStep] at h
    split at h
    · cases h; exact .refuse _ rfl rfl
    split at h
    · cases h; exact .wake
    · cases h
  | found existing =>
    simp only [putRevisionStep] at h
    split at h
    · cases h; exact .refuse _ rfl rfl
    · cases h; exact .reply
  | built r =>
    simp only [putRevisionStep] at h
    split at h
    · cases h; exact .abandon _ rfl
    · cases h; exact .check
  | clock r =>
    simp only [putRevisionStep] at h
    split at h
    · cases h; exact .abandon _ rfl
    · cases h; exact .read _
  | clocked r t =>
    simp only [putRevisionStep] at h
    split at h
    · cases h; exact .abandon _ rfl
    · cases h; exact .recheck
  | committing r t =>
    simp only [putRevisionStep] at h
    split at h
    · cases h
    obtain ⟨rfl, rfl⟩ := Prod.mk.inj (Option.some.inj h)
    exact putRevisionCommit_cases s ctx write r t
  | releasing r result =>
    simp only [putRevisionStep] at h
    split at h
    · cases h
    · cases h; exact .release
  | returned result => cases h

end PolicyEngine.Memory
