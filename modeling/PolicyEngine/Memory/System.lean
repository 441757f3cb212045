import PolicyEngine.Memory.Calls

/-!
# Concurrent calls on one memory store

Any number of calls, each with its context and its program counter, over one
store. An action starts a call, ends a context, or lets one call make its next
step; every interleaving of actions is a run. The log records what was committed,
in commit order; no step reads it.
-/

open PolicyEngine.Lib Function

namespace PolicyEngine.Memory

abbrev CallId := Nat

variable [Primitives]

/-- A call's request and where it is. -/
inductive Operation where
  | writeData (request : WriteDataRequest) (pc : WritePc)
  | activate (request : ActivateRequest) (pc : ActivatePc)
  | putRevision (write : RevisionWrite) (pc : PutPc)
  | listEvents (request : ListEventsRequest) (pc : ListEventsPc)
  | openSnapshot (request : SnapshotRequest) (pc : SnapshotPc)

structure Call where
  ctx : Ctx
  operation : Operation

/-- One committed write: the call that made it, and the view it published. -/
structure DataCommit where
  call : CallId
  request : WriteDataRequest
  fingerprint : Bytes
  version : DataVersion

structure SlotCommit where
  call : CallId
  request : ActivateRequest
  activation : Activation

/-- What a commit step publishes. -/
inductive Committed where
  | data (c : DataCommit)
  | slot (c : SlotCommit)
  | revision (call : CallId) (record : RevisionRecord)

def Committed.call : Committed → CallId
  | .data c => c.call
  | .slot c => c.call
  | .revision call _ => call

structure System where
  store : Store
  calls : CallId → Option Call
  log : List Committed

/-- A write request is the zero value or came out of its constructor; nothing else can be built. -/
def Operation.atEntry : Operation → Prop
  | .writeData request pc => pc = .entry ∧ (Constructed request ∨ request = .zero)
  | .activate _ pc => pc = .entry
  | .putRevision _ pc => pc = .entry
  | .listEvents _ pc => pc = .entry
  | .openSnapshot _ pc => pc = .entry

inductive Action where
  | invoke (id : CallId) (operation : { o : Operation // o.atEntry })
  | cancel (id : CallId) (reason : Ctx)
  | step (id : CallId) (input : Input)

/-- One step of a call's program. -/
def Operation.step (s : Store) (ctx : Ctx) (input : Input) : Operation → Option (Store × Operation)
  | .writeData request pc => (writeDataStep s ctx request input pc).map fun (s, pc) => (s, .writeData request pc)
  | .activate request pc => (activateStep s ctx request input pc).map fun (s, pc) => (s, .activate request pc)
  | .putRevision write pc => (putRevisionStep s ctx write input pc).map fun (s, pc) => (s, .putRevision write pc)
  | .listEvents request pc => (listEventsStep s ctx request input pc).map fun (s, pc) => (s, .listEvents request pc)
  | .openSnapshot request pc =>
    (openSnapshotStep s ctx request input pc).map fun (s, pc) => (s, .openSnapshot request pc)

/-- What the step from one program point to the next has committed. -/
def committed (id : CallId) : Operation → Operation → List Committed
  | .writeData request (.committing c _), .writeData _ (.releasing _ (.ok response)) =>
    if response.replayed then [] else [.data ⟨id, request, c.fingerprint, c.version⟩]
  | .activate request (.committing ..), .activate _ (.releasing _ (.ok activation)) => [.slot ⟨id, request, activation⟩]
  | .putRevision _ (.committing ..), .putRevision _ (.releasing _ (.ok result)) =>
    if result.created then [.revision id result.record] else []
  | _, _ => []

def System.step (s : System) : Action → Option System
  | .invoke id operation =>
    match s.calls id with
    | some _ => none
    | none => some { s with calls := Function.update s.calls id (some ⟨.alive, operation.1⟩) }
  | .cancel id reason =>
    match s.calls id with
    | some ⟨.alive, operation⟩ => some { s with calls := Function.update s.calls id (some ⟨reason, operation⟩) }
    | _ => none
  | .step id input =>
    match s.calls id with
    | none => none
    | some ⟨ctx, operation⟩ =>
      match operation.step s.store ctx input with
      | none => none
      | some (store, next) =>
        some
          { store := store
            calls := Function.update s.calls id (some ⟨ctx, next⟩)
            log := s.log ++ committed id operation next }

/-- A new store with some cursor key, and no call yet. -/
def System.Initial (s : System) : Prop := ∃ key, s = ⟨newStore key, fun _ => none, []⟩

/-- The states any interleaving of calls reaches. -/
abbrev System.Reached : System → Prop := Reachable System.step System.Initial

/-- What a step does to the system: it adds a call, ends a context, or moves one call on. -/
theorem System.step_cases {s s' : System} {a : Action} (h : s.step a = some s') :
    (∃ id operation, s.calls id = none ∧ operation.atEntry ∧
      s' = { s with calls := update s.calls id (some ⟨.alive, operation⟩) }) ∨
    (∃ id reason operation, s.calls id = some ⟨.alive, operation⟩ ∧
      s' = { s with calls := update s.calls id (some ⟨reason, operation⟩) }) ∨
    (∃ id input ctx operation next store, s.calls id = some ⟨ctx, operation⟩ ∧
      operation.step s.store ctx input = some (store, next) ∧
      s' = ⟨store, update s.calls id (some ⟨ctx, next⟩), s.log ++ committed id operation next⟩) := by
  cases a with
  | invoke id operation =>
    simp only [System.step] at h
    split at h
    · cases h
    next hn => exact .inl ⟨id, operation.1, hn, operation.2, (Option.some.inj h).symm⟩
  | cancel id reason =>
    simp only [System.step] at h
    split at h
    next operation hc => exact .inr (.inl ⟨id, reason, operation, hc, (Option.some.inj h).symm⟩)
    · cases h
  | step id input =>
    simp only [System.step] at h
    split at h
    · cases h
    next ctx operation hc =>
      split at h
      · cases h
      next store next hstep =>
        exact .inr (.inr ⟨id, input, ctx, operation, next, store, hc, hstep, (Option.some.inj h).symm⟩)

/-- What an action does to one call: nothing, unless it starts it, ends its context or moves it on. -/
theorem System.calls_step {s s' : System} {a : Action} (h : s.step a = some s') (id : CallId) :
    s'.calls id = s.calls id ∨ (∃ operation, a = .invoke id operation) ∨ (∃ reason, a = .cancel id reason) ∨
      ∃ input ctx operation next store, a = .step id input ∧ s.calls id = some ⟨ctx, operation⟩ ∧
        operation.step s.store ctx input = some (store, next) ∧ s'.calls id = some ⟨ctx, next⟩ := by
  cases a with
  | invoke id' operation =>
    by_cases hid : id = id'
    · exact .inr (.inl ⟨operation, hid ▸ rfl⟩)
    simp only [System.step] at h
    split at h
    · cases h
    · cases h; exact .inl (update_of_ne hid _ _)
  | cancel id' reason =>
    by_cases hid : id = id'
    · exact .inr (.inr (.inl ⟨reason, hid ▸ rfl⟩))
    simp only [System.step] at h
    split at h
    · cases h; exact .inl (update_of_ne hid _ _)
    · cases h
  | step id' input =>
    simp only [System.step] at h
    split at h
    · cases h
    next ctx operation hc =>
      split at h
      · cases h
      next store next hstep =>
        cases h
        by_cases hid : id = id'
        · subst hid
          exact .inr (.inr (.inr ⟨input, ctx, operation, next, store, rfl, hc, hstep, update_self _ _ _⟩))
        · exact .inl (update_of_ne hid _ _)

/-! A publication, for the sample runs. -/

def sampleRevision : RevisionWrite := ⟨⟨ascii "n", List.replicate 64 0x30, 5⟩, [1], .none⟩

def samplePublish : List Action :=
  .invoke 0 ⟨.putRevision sampleRevision .entry, rfl⟩ :: List.replicate 7 (.step 0 ⟨some 5, false⟩)

end PolicyEngine.Memory
