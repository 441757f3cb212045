import PolicyEngine.Memory.Policy
import PolicyEngine.Memory.WriteData

/-!
# Calls that hold reservations exclude each other

In every reachable state a held reservation is the one stored under its key, and
no two calls hold the same one.
-/

open PolicyEngine.Lib Function

namespace PolicyEngine.Memory

variable [Primitives] {s s' : Store}

/-! ## Read-only calls -/

/-- What listing events and opening snapshots leave alone. -/
structure ReaderFrame (s s' : Store) : Prop where
  revisions : s'.revisions = s.revisions
  revisionOrder : s'.revisionOrder = s.revisionOrder
  slots : s'.slots = s.slots
  data : s'.data = s.data
  reservations : s'.reservations = s.reservations
  nextRef : s.nextRef ≤ s'.nextRef

omit [Primitives] in
theorem ReaderFrame.refl (s : Store) : ReaderFrame s s := ⟨rfl, rfl, rfl, rfl, rfl, Nat.le_refl _⟩

variable {ctx : Ctx} {input : Input}

theorem listEventsStep_frame {request pc pc'} (h : listEventsStep s ctx request input pc = some (s', pc')) :
    ReaderFrame s s' := by
  cases pc with
  | entry =>
    simp only [listEventsStep] at h
    repeat' split at h
    all_goals cases h; exact .refl s
  | clock position =>
    simp only [listEventsStep] at h
    repeat' split at h
    all_goals cases h; exact .refl s
  | locking position t =>
    simp only [listEventsStep] at h
    split at h
    · cases h; exact .refl s
    split at h
    · cases h
    · cases h
      rw [Store.pruneEventsLocked_eq, Store.effectiveTimeLocked_fst]
      exact ⟨rfl, rfl, rfl, rfl, rfl, Nat.le_refl _⟩
  | listed position values expired =>
    simp only [listEventsStep] at h
    repeat' split at h
    all_goals cases h; exact .refl s
  | returned result => cases h

omit [Primitives] in
theorem registerGenerationWaitLocked_frame (s : Store) (ns : Bytes) :
    ReaderFrame s (s.registerGenerationWaitLocked ns).1 := by
  unfold Store.registerGenerationWaitLocked
  split
  · exact ⟨rfl, rfl, rfl, rfl, rfl, Nat.le_refl _⟩
  · exact ⟨rfl, rfl, rfl, rfl, rfl, Nat.le_succ _⟩

omit [Primitives] in
theorem unregisterGenerationWaitLocked_frame (s : Store) (ns : Bytes) (changed : Chan) :
    ReaderFrame s (s.unregisterGenerationWaitLocked ns changed) := by
  unfold Store.unregisterGenerationWaitLocked
  split
  · exact .refl s
  · split
    · exact .refl s
    · exact ⟨rfl, rfl, rfl, rfl, rfl, Nat.le_refl _⟩

omit [Primitives] in
theorem openSnapshotLocked_frame (s : Store) (request : SnapshotRequest) :
    ReaderFrame s (openSnapshotLocked s request).1 := by
  unfold openSnapshotLocked
  dsimp only
  split
  · exact ⟨rfl, rfl, rfl, rfl, rfl, Nat.le_succ _⟩
  · have h := registerGenerationWaitLocked_frame s.lock request.namespace_
    exact ⟨h.revisions, h.revisionOrder, h.slots, h.data, h.reservations, h.nextRef⟩

omit [Primitives] in
theorem openSnapshotStep_frame {request pc pc'} (h : openSnapshotStep s ctx request input pc = some (s', pc')) :
    ReaderFrame s s' := by
  cases pc with
  | entry =>
    simp only [openSnapshotStep] at h
    repeat' split at h
    all_goals cases h; exact .refl s
  | locking =>
    simp only [openSnapshotStep] at h
    split at h
    · cases h; exact .refl s
    split at h
    · cases h
    · have hf := openSnapshotLocked_frame s request
      rw [Option.some.inj h] at hf
      exact hf
  | opened view =>
    simp only [openSnapshotStep] at h
    split at h <;> cases h <;> exact .refl s
  | waiting changed =>
    simp only [openSnapshotStep] at h
    repeat' split at h
    all_goals cases h; try exact .refl s
  | unregistering changed error =>
    have hf := unregisterGenerationWaitLocked_frame s.lock request.namespace_ changed
    simp only [openSnapshotStep] at h
    repeat' split at h
    all_goals cases h; try exact ⟨hf.revisions, hf.revisionOrder, hf.slots, hf.data, hf.reservations, hf.nextRef⟩
  | returned result => cases h

/-! ## Every step treats reservations one of three ways -/

/-- The step of one call, seen by which operation makes it. -/
inductive OperationStep (s s' : Store) : Operation → Operation → Prop
  | writeData {request : WriteDataRequest} {pc pc' : WritePc} : WriteStep s request pc s' pc' →
      OperationStep s s' (.writeData request pc) (.writeData request pc')
  | activate {request : ActivateRequest} {pc pc' : ActivatePc} : ActivateStep s request pc s' pc' →
      OperationStep s s' (.activate request pc) (.activate request pc')
  | putRevision {write : RevisionWrite} {pc pc' : PutPc} : PutStep s write pc s' pc' →
      OperationStep s s' (.putRevision write pc) (.putRevision write pc')
  | listEvents {request : ListEventsRequest} {pc pc' : ListEventsPc} : ReaderFrame s s' →
      OperationStep s s' (.listEvents request pc) (.listEvents request pc')
  | openSnapshot {request : SnapshotRequest} {pc pc' : SnapshotPc} : ReaderFrame s s' →
      OperationStep s s' (.openSnapshot request pc) (.openSnapshot request pc')

variable {o : Operation}

theorem Operation.step_cases {o' : Operation} (h : o.step s ctx input = some (s', o')) : OperationStep s s' o o' := by
  cases o with
  | writeData request pc =>
    simp only [Operation.step, Option.map_eq_some_iff, Prod.exists, Prod.mk.injEq] at h
    obtain ⟨_, pc', hstep, rfl, rfl⟩ := h
    exact .writeData (writeDataStep_cases hstep)
  | activate request pc =>
    simp only [Operation.step, Option.map_eq_some_iff, Prod.exists, Prod.mk.injEq] at h
    obtain ⟨_, pc', hstep, rfl, rfl⟩ := h
    exact .activate (activateStep_cases hstep)
  | putRevision write pc =>
    simp only [Operation.step, Option.map_eq_some_iff, Prod.exists, Prod.mk.injEq] at h
    obtain ⟨_, pc', hstep, rfl, rfl⟩ := h
    exact .putRevision (putRevisionStep_cases hstep)
  | listEvents request pc =>
    simp only [Operation.step, Option.map_eq_some_iff, Prod.exists, Prod.mk.injEq] at h
    obtain ⟨_, pc', hstep, rfl, rfl⟩ := h
    exact .listEvents (listEventsStep_frame hstep)
  | openSnapshot request pc =>
    simp only [Operation.step, Option.map_eq_some_iff, Prod.exists, Prod.mk.injEq] at h
    obtain ⟨_, pc', hstep, rfl, rfl⟩ := h
    exact .openSnapshot (openSnapshotStep_frame hstep)

omit [Primitives] in
theorem releaseCommitReservation_nextRef (s : Store) (r : CommitReservation) :
    (releaseCommitReservation s r).nextRef = s.nextRef := by
  unfold releaseCommitReservation Store.releaseCommitReservationLocked
  split <;> rfl

omit [Primitives] in
theorem WritePc.holds_of_candidate {pc : WritePc} {c : Candidate} (h : pc.candidate? = some c) :
    pc.holds = some c.reservation := by
  cases pc <;> cases h <;> rfl

theorem WriteStep.holding {request : WriteDataRequest} {pc pc' : WritePc} (h : WriteStep s request pc s' pc') :
    s.nextRef ≤ s'.nextRef ∧ Holding s s' (dataKey request.namespace_) pc.holds pc'.holds := by
  cases h with
  | start | reserve | wake | check | read | recheck => exact ⟨Nat.le_refl _, .keep rfl⟩
  | refuse e hh _ => rw [hh]; exact ⟨Nat.le_refl _, .keep rfl⟩
  | wait | contend => exact ⟨Nat.le_refl _, .keep rfl⟩
  | answer => exact ⟨Nat.le_succ _, .keep rfl⟩
  | @build f c _ _ hkey hdone hn =>
    exact ⟨Nat.le_add_right _ _, .take c.reservation hkey hdone (Nat.lt_add_of_pos_right (by decide)) hn rfl⟩
  | abandon e hc => rw [WritePc.holds_of_candidate hc]; exact ⟨Nat.le_refl _, .keep rfl⟩
  | decline => exact ⟨Nat.le_refl _, .keep rfl⟩
  | commit =>
    rw [publishCandidate_eq, Store.effectiveTimeLocked_fst]
    exact ⟨Nat.le_refl _, .keep rfl⟩
  | @release r result => exact ⟨(releaseCommitReservation_nextRef s r).ge, release_holding r⟩

variable {r : CommitReservation}

omit [Primitives] in
theorem ActivatePc.holds_of_candidate {pc : ActivatePc} {g : Nat} (h : pc.candidate? = some (r, g)) :
    pc.holds = some r := by
  cases pc <;> cases h <;> rfl

theorem ActivateStep.holding {request : ActivateRequest} {pc pc' : ActivatePc}
    (h : ActivateStep s request pc s' pc') :
    s.nextRef ≤ s'.nextRef ∧ Holding s s' (slotKey request.namespace_ request.slot) pc.holds pc'.holds := by
  cases h with
  | start | check | read | recheck => exact ⟨Nat.le_refl _, .keep rfl⟩
  | refuse e hh _ => rw [hh]; exact ⟨Nat.le_refl _, .keep rfl⟩
  | contend => exact ⟨Nat.le_refl _, .keep rfl⟩
  | answer => exact ⟨Nat.le_succ _, .keep rfl⟩
  | @build r g _ hkey hdone hn =>
    exact ⟨Nat.le_add_right _ _, .take r hkey hdone (Nat.lt_add_of_pos_right (by decide)) hn rfl⟩
  | abandon e hc => rw [ActivatePc.holds_of_candidate hc]; exact ⟨Nat.le_refl _, .keep rfl⟩
  | decline => exact ⟨Nat.le_refl _, .keep rfl⟩
  | commit =>
    rw [publishActivation_eq, Store.effectiveTimeLocked_fst]
    exact ⟨Nat.le_refl _, .keep rfl⟩
  | @release r result => exact ⟨(releaseCommitReservation_nextRef s r).ge, release_holding r⟩

omit [Primitives] in
theorem PutPc.holds_of_candidate {pc : PutPc} (h : pc.candidate? = some r) :
    pc.holds = some r := by
  cases pc <;> cases h <;> rfl

theorem PutStep.holding {write pc pc'} (h : PutStep s write pc s' pc') :
    s.nextRef ≤ s'.nextRef ∧ Holding s s' (revisionKey write.metadata.namespace_) pc.holds pc'.holds := by
  cases h with
  | start | wake | reply | check | read | recheck => exact ⟨Nat.le_refl _, .keep rfl⟩
  | refuse e hh _ => rw [hh]; exact ⟨Nat.le_refl _, .keep rfl⟩
  | wait | contend => exact ⟨Nat.le_refl _, .keep rfl⟩
  | answer | find => exact ⟨Nat.le_succ _, .keep rfl⟩
  | @build r hkey hdone hn =>
    exact ⟨Nat.le_add_right _ _, .take r hkey hdone (Nat.lt_add_of_pos_right (by decide)) hn rfl⟩
  | abandon e hc => rw [PutPc.holds_of_candidate hc]; exact ⟨Nat.le_refl _, .keep rfl⟩
  | decline => exact ⟨Nat.le_refl _, .keep rfl⟩
  | commit =>
    rw [publishRevision_eq, Store.effectiveTimeLocked_fst]
    exact ⟨Nat.le_refl _, .keep rfl⟩
  | @release r result => exact ⟨(releaseCommitReservation_nextRef s r).ge, release_holding r⟩

theorem OperationStep.holding {o' : Operation} (h : OperationStep s s' o o') :
    o'.reservationKey = o.reservationKey ∧ s.nextRef ≤ s'.nextRef ∧
      (o'.holds = o.holds ∧ s'.reservations = s.reservations ∨
        ∃ key, o.reservationKey = some key ∧ Holding s s' key o.holds o'.holds) := by
  cases h with
  | writeData h => exact ⟨rfl, h.holding.1, .inr ⟨_, rfl, h.holding.2⟩⟩
  | activate h => exact ⟨rfl, h.holding.1, .inr ⟨_, rfl, h.holding.2⟩⟩
  | putRevision h => exact ⟨rfl, h.holding.1, .inr ⟨_, rfl, h.holding.2⟩⟩
  | listEvents h => exact ⟨rfl, h.nextRef, .inl ⟨rfl, h.reservations⟩⟩
  | openSnapshot h => exact ⟨rfl, h.nextRef, .inl ⟨rfl, h.reservations⟩⟩

/-! ## The invariant -/

/-- Held reservations are stored under their call's key, and each has one holder. -/
structure Ownership (s : System) : Prop where
  held : ∀ {id : CallId} {call : Call} {r : CommitReservation}, s.calls id = some call →
    call.operation.holds = some r → s.store.reservations r.key = some r ∧ call.operation.reservationKey = some r.key
  fresh : ∀ {id : CallId} {call : Call} {r : CommitReservation}, s.calls id = some call →
    call.operation.holds = some r → r.done < s.store.nextRef
  unique : ∀ {id id' : CallId} {call call' : Call} {r r' : CommitReservation}, s.calls id = some call →
    s.calls id' = some call' → call.operation.holds = some r → call'.operation.holds = some r' →
    r.done = r'.done → id = id'

omit [Primitives] in
theorem Operation.holds_of_atEntry (h : o.atEntry) : o.holds = none := by
  cases o with
  | writeData => obtain ⟨rfl, -⟩ := h; rfl
  | activate => obtain rfl := h; rfl
  | putRevision => obtain rfl := h; rfl
  | listEvents => rfl
  | openSnapshot => rfl

variable {s : System}

omit [Primitives] in
/-- Changing a call without changing what it holds keeps ownership. -/
theorem Ownership.update (ho : Ownership s) {id call} (hkeep : ∀ r, call.operation.holds = some r →
      ∃ old, s.calls id = some old ∧ old.operation.holds = some r ∧
        old.operation.reservationKey = call.operation.reservationKey) {store : Store}
    (hres : store.reservations = s.store.reservations) (hnext : s.store.nextRef ≤ store.nextRef) {log} :
    Ownership ⟨store, update s.calls id (some call), log⟩ := by
  -- every call of the new system that holds something stood for a call of the old one
  have back {i : CallId} {c : Call} {r : CommitReservation}
      (hc : Function.update s.calls id (some call) i = some c) (hr : c.operation.holds = some r) :
      ∃ old, s.calls i = some old ∧ old.operation.holds = some r ∧
        old.operation.reservationKey = c.operation.reservationKey := by
    by_cases hi : i = id
    · subst hi
      obtain rfl : call = c := by simpa using hc
      exact hkeep r hr
    · rw [update_of_ne hi] at hc
      exact ⟨c, hc, hr, rfl⟩
  refine ⟨fun hc hr => ?_, fun hc hr => ?_, fun hc hc' hr hr' hd => ?_⟩
  · obtain ⟨old, hold, hr', hk⟩ := back hc hr
    rw [hres, ← hk]
    exact ho.held hold hr'
  · obtain ⟨old, hold, hr', -⟩ := back hc hr
    exact Nat.lt_of_lt_of_le (ho.fresh hold hr') hnext
  · obtain ⟨old, hold, hr₁, -⟩ := back hc hr
    obtain ⟨old', hold', hr₂, -⟩ := back hc' hr'
    exact ho.unique hold hold' hr₁ hr₂ hd

theorem Ownership.step {s s' a} (ho : Ownership s) (h : s.step a = some s') : Ownership s' := by
  rcases System.step_cases h with ⟨id, o, hn, hentry, rfl⟩ | ⟨id, reason, o, hc, rfl⟩ |
    ⟨id, input, ctx, o, o', store, hc, hstep, rfl⟩
  · refine ho.update (fun r hr => ?_) rfl (Nat.le_refl _)
    rw [Operation.holds_of_atEntry hentry] at hr
    cases hr
  · exact ho.update (fun r (hr : (Call.mk reason o).operation.holds = some r) => ⟨_, hc, hr, rfl⟩) rfl (Nat.le_refl _)
  · obtain ⟨hkey, hnext, ⟨hsame, hres⟩ | ⟨key, hk, hholding⟩⟩ := (Operation.step_cases hstep).holding
    · exact ho.update (fun r hr => ⟨_, hc, hsame ▸ hr, hkey.symm⟩) hres hnext
    generalize hh : o.holds = held at hholding
    generalize hh' : o'.holds = held' at hholding
    cases hholding with
    | keep hres => exact ho.update (fun r hr => ⟨_, hc, by rw [hh, ← hh']; exact hr, hkey.symm⟩) hres hnext
    | take r hrkey hrdone hlt hfree hres =>
      -- the new reservation's key was free and its identity is new
      have other {i : CallId} {c : Call} {q : CommitReservation} (hi : i ≠ id) (hcall : s.calls i = some c)
          (hq : c.operation.holds = some q) : q.key ≠ key := by
        intro heq
        have := (ho.held hcall hq).1
        rw [heq, hfree] at this
        cases this
      refine ⟨fun {i c q} hcall hq => ?_, fun {i c q} hcall hq => ?_, fun {i i' c c' q q'} hcall hcall' hq hq' hd => ?_⟩
      · by_cases hi : i = id
        · subst hi
          obtain rfl : ⟨ctx, o'⟩ = c := by simpa using hcall
          obtain rfl : r = q := by simpa [hh'] using hq
          rw [hres, hrkey, update_self]
          exact ⟨rfl, hkey.trans hk⟩
        · simp only [update_of_ne hi] at hcall
          rw [hres, update_of_ne (other hi hcall hq)]
          exact ho.held hcall hq
      · by_cases hi : i = id
        · subst hi
          obtain rfl : ⟨ctx, o'⟩ = c := by simpa using hcall
          obtain rfl : r = q := by simpa [hh'] using hq
          exact hrdone ▸ hlt
        · simp only [update_of_ne hi] at hcall
          exact Nat.lt_of_lt_of_le (ho.fresh hcall hq) hnext
      · have new {j : CallId} {d : Call} {p : CommitReservation}
            (hj : Function.update s.calls id (some ⟨ctx, o'⟩) j = some d) (hp : d.operation.holds = some p) :
            j = id ∧ p.done = s.store.nextRef ∨ j ≠ id ∧ s.calls j = some d ∧ p.done < s.store.nextRef := by
          by_cases hi : j = id
          · subst hi
            obtain rfl : ⟨ctx, o'⟩ = d := by simpa using hj
            obtain rfl : r = p := by simpa [hh'] using hp
            exact .inl ⟨rfl, hrdone⟩
          · rw [update_of_ne hi] at hj
            exact .inr ⟨hi, hj, ho.fresh hj hp⟩
        rcases new hcall hq with ⟨rfl, h₁⟩ | ⟨-, hold, h₁⟩ <;> rcases new hcall' hq' with ⟨rfl, h₂⟩ | ⟨-, hold', h₂⟩
        · rfl
        · exact absurd (hd.symm.trans h₁) (Nat.ne_of_lt h₂)
        · exact absurd (hd.trans h₂) (Nat.ne_of_lt h₁)
        · exact ho.unique hold hold' hq hq' hd
    | drop r hdrop =>
      have hres := hdrop (ho.held hc hh).1
      have old {i : CallId} {c : Call} {q : CommitReservation}
          (hcall : Function.update s.calls id (some ⟨ctx, o'⟩) i = some c) (hq : c.operation.holds = some q) :
          i ≠ id ∧ s.calls i = some c := by
        by_cases hi : i = id
        · subst hi
          obtain rfl : ⟨ctx, o'⟩ = c := by simpa using hcall
          simp [hh'] at hq
        · rw [update_of_ne hi] at hcall
          exact ⟨hi, hcall⟩
      refine ⟨fun hcall hq => ?_, fun hcall hq => ?_, fun hcall hcall' hq hq' hd => ?_⟩
      · obtain ⟨hi, hcall⟩ := old hcall hq
        obtain ⟨hstored, hqkey⟩ := ho.held hcall hq
        rw [hres, update_of_ne]
        · exact ⟨hstored, hqkey⟩
        · intro heq
          rw [heq, (ho.held hc hh).1] at hstored
          obtain rfl := Option.some.inj hstored
          exact hi (ho.unique hcall hc hq hh rfl)
      · exact Nat.lt_of_lt_of_le (ho.fresh (old hcall hq).2 hq) hnext
      · exact ho.unique (old hcall hq).2 (old hcall' hq').2 hq hq' hd

theorem ownership_of_reached (h : s.Reached) : Ownership s := by
  refine h.invariant ?_ fun _ _ _ ho _ hs => ho.step hs
  rintro _ ⟨key, rfl⟩
  constructor <;> (intros; contradiction)

omit [Primitives] in
/-- Two calls that hold reservations for one key are the same call. -/
theorem Ownership.exclusive (ho : Ownership s) {id id' call call' r'} (hc : s.calls id = some call)
    (hc' : s.calls id' = some call') (hr : call.operation.holds = some r) (hr' : call'.operation.holds = some r')
    (hkey : call.operation.reservationKey = call'.operation.reservationKey) :
    id = id' := by
  obtain ⟨hstored, hk⟩ := ho.held hc hr
  obtain ⟨hstored', hk'⟩ := ho.held hc' hr'
  have hkeys : r.key = r'.key := by rw [hk, hk'] at hkey; exact Option.some.inj hkey
  rw [hkeys, hstored'] at hstored
  obtain rfl := Option.some.inj hstored
  exact ho.unique hc hc' hr hr' rfl

end PolicyEngine.Memory
