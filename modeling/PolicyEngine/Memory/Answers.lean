import PolicyEngine.Memory.Ownership

/-!
# Every success has its commit

A call's success (for WriteData, one that is not a replay; for PutRevision, one
that created the revision) is settled by the step that logs its commit, and by no
other step. So successes and commits correspond one to one.
-/

open PolicyEngine.Lib Function

namespace PolicyEngine.Memory

/-- The call has settled on the success this commit stands for. -/
def Committed.answers : Committed → Operation → Prop
  | .data c, .writeData request pc =>
    c.request = request ∧ pc.result? = some (.ok ⟨c.version.generation, false⟩)
  | .slot c, .activate request pc => c.request = request ∧ pc.result? = some (.ok c.activation)
  | .revision _ record, .putRevision write pc => record = write ∧ pc.result? = some (.ok ⟨record, true⟩)
  | _, _ => False

variable {pc : WritePc}

theorem WritePc.result_of_candidate {c : Candidate} (h : pc.candidate? = some c) :
    pc.result? = none := by
  cases pc <;> first | rfl | cases h

theorem ActivatePc.result_of_candidate {pc : ActivatePc} {r : CommitReservation} {g : Nat}
    (h : pc.candidate? = some (r, g)) : pc.result? = none := by
  cases pc <;> first | rfl | cases h

theorem PutPc.result_of_candidate {pc : PutPc} {r : CommitReservation} (h : pc.candidate? = some r) :
    pc.result? = none := by
  cases pc <;> first | rfl | cases h

variable {s s' : Store} (id : CallId)

/-! ## One step -/

/-- A step that logs nothing settles no success and takes none back; a step that logs something settles it. -/
inductive Settling (id : CallId) (o o' : Operation) : Prop
  | quiet : committed id o o' = [] → (∀ x : Committed, x.answers o' ↔ x.answers o) → Settling id o o'
  | commit (x : Committed) : committed id o o' = [x] → x.call = id → x.answers o' →
      (∀ y : Committed, ¬ y.answers o) → Settling id o o'

/-- A quiet step of a WriteData call: its successes that are not replays are those it had. -/
theorem settling_writeData {request pc'} (hq : committed id (.writeData request pc) (.writeData request pc') = [])
    (h : ∀ g, pc'.result? = some (.ok ⟨g, false⟩) ↔ pc.result? = some (.ok ⟨g, false⟩)) :
    Settling id (.writeData request pc) (.writeData request pc') := by
  refine .quiet hq fun x => ?_
  cases x with
  | data c => exact and_congr_right fun _ => h _
  | slot | revision => exact .rfl

theorem settling_activate {request pc pc'} (hq : committed id (.activate request pc) (.activate request pc') = [])
    (h : ∀ a, pc'.result? = some (.ok a) ↔ pc.result? = some (.ok a)) :
    Settling id (.activate request pc) (.activate request pc') := by
  refine .quiet hq fun x => ?_
  cases x with
  | slot c => exact and_congr_right fun _ => h _
  | data | revision => exact .rfl

theorem settling_putRevision {write pc pc'} (hq : committed id (.putRevision write pc) (.putRevision write pc') = [])
    (h : ∀ record, pc'.result? = some (.ok ⟨record, true⟩) ↔ pc.result? = some (.ok ⟨record, true⟩)) :
    Settling id (.putRevision write pc) (.putRevision write pc') := by
  refine .quiet hq fun x => ?_
  cases x with
  | revision call record => exact and_congr_right fun _ => h _
  | data | slot => exact .rfl

variable [Primitives]

theorem WriteStep.settling {request pc'} (h : WriteStep s request pc s' pc') :
    Settling id (.writeData request pc) (.writeData request pc') := by
  cases h with
  | start | reserve | wake | wait | contend | build | check | read | recheck =>
    exact settling_writeData id rfl fun g => by simp [WritePc.result?]
  | refuse e hh hr =>
    refine settling_writeData id ?_ fun g => by rw [hr]; simp [WritePc.result?]
    cases pc <;> rfl
  | abandon e hc =>
    refine settling_writeData id ?_ fun g => by rw [WritePc.result_of_candidate hc]; simp [WritePc.result?]
    cases pc <;> rfl
  | answer ha => cases ha <;> exact settling_writeData id rfl fun g => by simp [WritePc.result?]
  | decline time ha => cases ha <;> exact settling_writeData id rfl fun g => by simp [WritePc.result?]
  | @commit c t event =>
    refine .commit (.data ⟨id, request, c.fingerprint, c.version⟩) rfl rfl ⟨rfl, rfl⟩ fun y => ?_
    cases y <;> simp [Committed.answers, WritePc.result?]
  | release => exact settling_writeData id rfl fun g => .rfl

theorem ActivateStep.settling {request : ActivateRequest} {pc pc' : ActivatePc}
    (h : ActivateStep s request pc s' pc') : Settling id (.activate request pc) (.activate request pc') := by
  cases h with
  | start | contend | answer | build | check | read | recheck | decline =>
    exact settling_activate id rfl fun a => by simp [ActivatePc.result?]
  | refuse e hh hr =>
    refine settling_activate id ?_ fun a => by rw [hr]; simp [ActivatePc.result?]
    cases pc <;> rfl
  | abandon e hc =>
    refine settling_activate id ?_ fun a => by rw [ActivatePc.result_of_candidate hc]; simp [ActivatePc.result?]
    cases pc <;> rfl
  | @commit r g t a event =>
    refine .commit (.slot ⟨id, request, a⟩) rfl rfl ⟨rfl, rfl⟩ fun y => ?_
    cases y <;> simp [Committed.answers, ActivatePc.result?]
  | release => exact settling_activate id rfl fun a => .rfl

theorem PutStep.settling {write : RevisionWrite} {pc pc' : PutPc} (h : PutStep s write pc s' pc') :
    Settling id (.putRevision write pc) (.putRevision write pc') := by
  -- an answer that publishes nothing is not the success of a commit
  have refusal {result : Result PutRevisionResult} (hr : PutRefusal result) (record : RevisionRecord) :
      result ≠ .ok ⟨record, true⟩ := fun h => nomatch hr _ h
  cases h with
  | start | wake | wait | contend | answer | find | build | check | read | recheck =>
    exact settling_putRevision id rfl fun record => by simp [PutPc.result?]
  | reply =>
    exact settling_putRevision id rfl fun record => by simp [PutPc.result?, refusal (answerExisting_refusal _ _)]
  | refuse e hh hr =>
    refine settling_putRevision id ?_ fun record => by rw [hr]; simp [PutPc.result?]
    cases pc <;> rfl
  | abandon e hc =>
    refine settling_putRevision id ?_ fun record => by rw [PutPc.result_of_candidate hc]; simp [PutPc.result?]
    cases pc <;> rfl
  | @decline r t result time hr =>
    refine settling_putRevision id ?_ fun record => by simp [PutPc.result?, refusal hr]
    match result with
    | .error _ => rfl
    | .ok ⟨record, created⟩ =>
      obtain rfl : created = false := hr _ rfl
      rfl
  | commit =>
    refine .commit (.revision id write) rfl rfl ⟨rfl, rfl⟩ fun y => ?_
    cases y <;> simp [Committed.answers, PutPc.result?]
  | release => exact settling_putRevision id rfl fun record => .rfl

theorem OperationStep.settling {o o' : Operation} (h : OperationStep s s' o o') : Settling id o o' := by
  cases h with
  | writeData h => exact h.settling id
  | activate h => exact h.settling id
  | putRevision h => exact h.settling id
  | listEvents | openSnapshot => exact .quiet rfl fun x => by cases x <;> exact .rfl

/-! ## The invariant -/

/-- Commits and successes correspond. -/
structure Answered (s : System) : Prop where
  author : ∀ x ∈ s.log, ∃ call, s.calls x.call = some call ∧ x.answers call.operation
  settled : ∀ {id : CallId} {call : Call} {x : Committed}, s.calls id = some call → x.answers call.operation →
    ∃ y ∈ s.log, y.call = id ∧ y.answers call.operation
  once : (s.log.map (·.call)).Nodup

variable {s : System}

omit [Primitives] in
/-- A call that has not settled on a success has no commit. -/
theorem Answered.not_committed (ha : Answered s) {id call} (hc : s.calls id = some call)
    (h : ∀ x : Committed, ¬ x.answers call.operation) : ∀ x ∈ s.log, x.call ≠ id := by
  rintro x hx rfl
  obtain ⟨call', hc', hans⟩ := ha.author x hx
  obtain rfl := Option.some.inj (hc.symm.trans hc')
  exact h x hans

omit [Primitives] in
/-- Replacing a call by one that has settled on the same successes. -/
theorem Answered.update {s' : System} (ha : Answered s) {id call} (hlog : s'.log = s.log)
    (hcalls : s'.calls = update s.calls id (some call)) (hold : ∀ x : Committed, x.answers call.operation ↔
      ∃ old, s.calls id = some old ∧ x.answers old.operation) : Answered s' := by
  refine ⟨fun x hx => ?_, fun {i c x} hc hx => ?_, hlog ▸ ha.once⟩
  · rw [hlog] at hx
    obtain ⟨old, hc, hans⟩ := ha.author x hx
    rw [hcalls]
    by_cases h : x.call = id
    · subst h
      exact ⟨call, update_self .., (hold x).2 ⟨old, hc, hans⟩⟩
    · exact ⟨old, by rw [update_of_ne h]; exact hc, hans⟩
  · rw [hcalls] at hc
    rw [hlog]
    by_cases h : i = id
    · subst h
      obtain rfl : call = c := by simpa using hc
      obtain ⟨old, hold', hans⟩ := (hold x).1 hx
      obtain ⟨y, hy, hyid, hyans⟩ := ha.settled hold' hans
      exact ⟨y, hy, hyid, (hold y).2 ⟨old, hold', hyans⟩⟩
    · rw [update_of_ne h] at hc
      exact ha.settled hc hx

theorem Answered.step {s s' a} (ha : Answered s) (h : s.step a = some s') : Answered s' := by
  rcases System.step_cases h with ⟨id, o, hn, hentry, rfl⟩ | ⟨id, reason, o, hc, rfl⟩ |
    ⟨id, input, ctx, o, o', store, hc, hstep, rfl⟩
  · refine ha.update rfl rfl fun x => ⟨fun hx => ?_, fun ⟨_, hold, _⟩ => by rw [hn] at hold; cases hold⟩
    -- a call at its entry has settled on nothing
    cases o with
    | writeData request pc => obtain ⟨rfl, -⟩ := hentry; cases x <;> simp [Committed.answers, WritePc.result?] at hx
    | activate request pc => obtain rfl := hentry; cases x <;> simp [Committed.answers, ActivatePc.result?] at hx
    | putRevision write pc => obtain rfl := hentry; cases x <;> simp [Committed.answers, PutPc.result?] at hx
    | listEvents | openSnapshot => cases x <;> exact hx.elim
  · exact ha.update rfl rfl fun x => ⟨fun hx => ⟨_, hc, hx⟩, fun ⟨old, hold, hx⟩ => by
      obtain rfl := Option.some.inj (hc.symm.trans hold); exact hx⟩
  · rcases (Operation.step_cases hstep).settling id with ⟨hq, hans⟩ | ⟨x, hx, hid, hans, hno⟩
    · refine ha.update (by simp [hq]) rfl fun x => ?_
      exact (hans x).trans ⟨fun hx => ⟨_, hc, hx⟩, fun ⟨old, hold, hx⟩ => by
        obtain rfl := Option.some.inj (hc.symm.trans hold); exact hx⟩
    · have hnone := ha.not_committed hc hno
      subst hid
      rw [hx]
      refine ⟨fun y hy => ?_, fun {i c y} hcall hy => ?_, ?_⟩
      · rw [List.mem_append, List.mem_singleton] at hy
        rcases hy with hy | rfl
        · simp only [update_of_ne (hnone y hy)]
          exact ha.author y hy
        · exact ⟨_, update_self .., hans⟩
      · by_cases hi : i = x.call
        · subst hi
          obtain rfl : ⟨ctx, o'⟩ = c := by simpa using hcall
          exact ⟨x, by simp, rfl, hans⟩
        · simp only [update_of_ne hi] at hcall
          obtain ⟨z, hz, rest⟩ := ha.settled hcall hy
          exact ⟨z, List.mem_append_left _ hz, rest⟩
      · rw [List.map_append, List.map_singleton, ← List.concat_eq_append]
        refine ha.once.concat fun hmem => ?_
        obtain ⟨y, hy, heq⟩ := List.mem_map.1 hmem
        exact hnone y hy heq

theorem answered_of_reached (h : s.Reached) : Answered s := by
  refine h.invariant ?_ fun _ _ _ ha _ hs => ha.step hs
  rintro _ ⟨key, rfl⟩
  exact ⟨nofun, nofun, .nil⟩

end PolicyEngine.Memory
