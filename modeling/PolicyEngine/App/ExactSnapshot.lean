import PolicyEngine.Memory.DataPlane

/-!
# Opening the snapshot of an evaluation

`openExactSnapshot` asks the store for the head generation, then for a snapshot at
least that new, and refuses the snapshot if it is newer than the head it saw. The two
store calls are separate, so other calls run between them: here one evaluation runs
beside any number of calls on the same memory store.
-/

open PolicyEngine.Lib PolicyEngine.Memory

namespace PolicyEngine.App

/-- What an evaluation asks of the data. -/
structure ExactRequest where
  namespace_ : Bytes
  minimumGeneration : Nat
  readAt : Time
  deriving DecidableEq, Repr

/-- The snapshot request made once the head is known. -/
def ExactRequest.snapshot (request : ExactRequest) (head : Nat) : SnapshotRequest :=
  ⟨request.namespace_, max request.minimumGeneration head, request.readAt⟩

inductive ExactPc where
  | entry
  /-- In GetDataGeneration, before its critical section. -/
  | reading
  | read (head : Nat)
  /-- Waiting for the OpenSnapshot call. -/
  | opening (head : Nat)
  | returned (result : Result SnapshotView)

/-- The store with its calls, and the evaluation, whose OpenSnapshot call has a number of its own. -/
structure Evaluation where
  system : System
  ctx : Ctx
  pc : ExactPc

inductive EvaluationAction where
  | store (a : Action)
  | cancel (reason : Ctx)
  | step

/-- The action starts or cancels the evaluation's own call, which only the evaluation does. -/
def startsOrCancels (id : CallId) : Action → Bool
  | .invoke id' _ | .cancel id' _ => id = id'
  | .step _ _ => false

/-- GetDataGeneration's critical section. -/
def dataGeneration (s : Store) (namespace_ : Bytes) : Nat := ((s.data namespace_).map (·.generation)).getD 0

/-- The checks on the snapshot that came back. -/
def acceptSnapshot (request : ExactRequest) (head : Nat) (view : SnapshotView) : Result SnapshotView :=
  if view.namespace_ ≠ request.namespace_ ∨ view.readAt ≠ request.readAt ∨ view.generation ≠ head ∨
      view.generation < request.minimumGeneration then .error .failedPrecondition
  else .ok view

section Step

variable [Primitives] (request : ExactRequest) (id : CallId)

/-- One step of `openExactSnapshot`. -/
def exactStep (e : Evaluation) : Option Evaluation :=
  match e.pc with
  | .entry =>
    match validateNamespace request.namespace_ with
    | .error err => some { e with pc := .returned (.error err) }
    | .ok _ =>
      if e.ctx.signaled then some { e with pc := .returned (.error (contextWaitError e.ctx)) }
      else some { e with pc := .reading }
  | .reading =>
    if e.ctx.signaled then some { e with pc := .returned (.error (contextWaitError e.ctx)) }
    else if e.system.store.mu then none
    else some { e with pc := .read (dataGeneration e.system.store request.namespace_) }
  | .read head =>
    if e.ctx.signaled then some { e with pc := .returned (.error (contextWaitError e.ctx)) }
    else if !(request.snapshot head).valid then some { e with pc := .returned (.error .invalidArgument) }
    else
      match e.system.step (.invoke id ⟨.openSnapshot (request.snapshot head) .entry, rfl⟩) with
      | none => none
      | some s => some { e with system := s, pc := .opening head }
  | .opening head =>
    match e.system.calls id with
    | some ⟨_, .openSnapshot _ (.returned (.ok view))⟩ =>
      some { e with pc := .returned (acceptSnapshot request head view) }
    | some ⟨_, .openSnapshot _ (.returned (.error err))⟩ => some { e with pc := .returned (.error err) }
    | _ => none
  | .returned _ => none

/-- The evaluation's context is that of its OpenSnapshot call. -/
def Evaluation.step (e : Evaluation) : EvaluationAction → Option Evaluation
  | .store a =>
    if startsOrCancels id a then none
    else
      match e.system.step a with
      | none => none
      | some s => some { e with system := s }
  | .cancel reason =>
    if e.ctx.signaled then none
    else
      match e.system.calls id with
      | none => some { e with ctx := reason }
      | some _ =>
        match e.system.step (.cancel id reason) with
        | none => none
        | some s => some { e with system := s, ctx := reason }
  | .step => exactStep request id e

/-- An evaluation about to open its snapshot, on a store in any state calls can bring it to. -/
def Evaluation.Initial (e : Evaluation) : Prop :=
  e.system.Reached ∧ e.system.calls id = none ∧ e.ctx = .alive ∧ e.pc = .entry

abbrev Evaluation.Reached : Evaluation → Prop := Reachable (Evaluation.step request id) (Evaluation.Initial id)

/-! ## What the evaluation's call has pinned -/

/-- A view answers its request: the same namespace and read time, and at least the generation asked for. -/
structure Answers (asked : SnapshotRequest) (view : SnapshotView) : Prop where
  namespace_eq : view.namespace_ = asked.namespace_
  readAt_eq : view.readAt = asked.readAt
  minimum_le : asked.minimumGeneration ≤ view.generation

/-- Every view an OpenSnapshot call holds answers its request. -/
def Pinned (asked : SnapshotRequest) : SnapshotPc → Prop
  | .opened view | .returned (.ok view) => Answers asked view
  | _ => True

omit [Primitives] in
theorem openSnapshotStep_pinned {s s' ctx asked input pc pc'} (hp : Pinned asked pc)
    (h : openSnapshotStep s ctx asked input pc = some (s', pc')) :
    Pinned asked pc' := by
  cases pc with
  | locking =>
    simp only [openSnapshotStep, openSnapshotLocked] at h
    repeat' split at h
    · cases h; trivial
    · cases h
    next hge => cases h; exact ⟨rfl, rfl, hge⟩
    · cases h; trivial
  | opened view =>
    simp only [openSnapshotStep] at h
    split at h
    · cases h; trivial
    · cases h; exact hp
  | entry | waiting | unregistering =>
    simp only [openSnapshotStep] at h
    repeat' split at h
    all_goals cases h; try trivial
  | returned => cases h

/-- The evaluation's own call: not yet made before the head is known, and then an
OpenSnapshot call for at least the head. -/
def OwnCall (e : Evaluation) : Prop :=
  match e.pc with
  | .entry | .reading | .read _ => e.system.calls id = none
  | .opening head =>
    ∃ ctx pc, e.system.calls id = some ⟨ctx, .openSnapshot (request.snapshot head) pc⟩ ∧
      Pinned (request.snapshot head) pc
  | .returned _ => True

variable {request id}

variable {e : Evaluation} {s : System}

omit [Primitives] in
theorem OwnCall.of_calls_eq (hc : s.calls id = e.system.calls id) (h : OwnCall request id e) :
    OwnCall request id { e with system := s } := by
  unfold OwnCall at h ⊢
  simpa only [hc] using h

/-- The store's steps keep it: the evaluation's call moves on only inside OpenSnapshot. -/
theorem OwnCall.store_step {a : Action} (hown : startsOrCancels id a = false) (hs : e.system.step a = some s)
    (h : OwnCall request id e) : OwnCall request id { e with system := s } := by
  rcases System.calls_step hs id with hc | ⟨operation, rfl⟩ | ⟨reason, rfl⟩ |
    ⟨input, ctx, operation, next, store, rfl, hc, hstep, hc'⟩
  · exact h.of_calls_eq hc
  · simp [startsOrCancels] at hown
  · simp [startsOrCancels] at hown
  unfold OwnCall at h ⊢
  cases hpc : e.pc with
  | entry | reading | read =>
    simp only [hpc, hc, reduceCtorEq] at h
  | opening head =>
    simp only [hpc, hc, Option.some.injEq, Call.mk.injEq] at h
    obtain ⟨_, pc, ⟨-, rfl⟩, hp⟩ := h
    simp only [Operation.step, Option.map_eq_some_iff] at hstep
    obtain ⟨⟨_, pc'⟩, hsnap, heq⟩ := hstep
    cases heq
    exact ⟨ctx, pc', hc', openSnapshotStep_pinned hp hsnap⟩
  | returned => trivial

/-- Ending the evaluation's context leaves its call where it is. -/
theorem OwnCall.cancel {reason reason' : Ctx} (hs : e.system.step (.cancel id reason) = some s)
    (h : OwnCall request id e) :
    OwnCall request id { e with system := s, ctx := reason' } := by
  simp only [System.step] at hs
  split at hs
  next operation hc =>
    cases hs
    unfold OwnCall at h ⊢
    cases hpc : e.pc with
    | entry | reading | read => simp only [hpc, hc, reduceCtorEq] at h
    | opening head =>
      simp only [hpc, hc, Option.some.injEq, Call.mk.injEq] at h
      obtain ⟨_, pc, ⟨-, rfl⟩, hp⟩ := h
      exact ⟨reason, pc, Function.update_self _ _ _, hp⟩
    | returned => trivial
  · cases hs

/-- The evaluation's own steps: it makes its call once, with nothing pinned yet. -/
theorem OwnCall.exactStep {e' : Evaluation} (hs : exactStep request id e = some e') (h : OwnCall request id e) :
    OwnCall request id e' := by
  unfold App.exactStep at hs
  cases hpc : e.pc with
  | entry =>
    simp only [hpc] at hs
    repeat' split at hs
    all_goals cases hs; first | trivial | simpa only [OwnCall, hpc] using h
  | reading =>
    simp only [hpc] at hs
    split at hs
    · cases hs; trivial
    split at hs
    · cases hs
    · cases hs; simpa only [OwnCall, hpc] using h
  | read head =>
    simp only [hpc] at hs
    split at hs
    · cases hs; trivial
    split at hs
    · cases hs; trivial
    split at hs
    · cases hs
    next s hinvoke =>
      cases hs
      simp only [System.step] at hinvoke
      split at hinvoke
      · cases hinvoke
      · cases hinvoke
        exact ⟨.alive, .entry, Function.update_self _ _ _, trivial⟩
  | opening head =>
    simp only [hpc] at hs
    repeat' split at hs
    all_goals cases hs; try trivial
  | returned => simp only [hpc, reduceCtorEq] at hs

theorem ownCall_of_reached (h : e.Reached request id) : OwnCall request id e := by
  refine h.invariant ?_ ?_
  · rintro e ⟨-, hcalls, -, hpc⟩
    simpa only [OwnCall, hpc] using hcalls
  · intro e a e' hown _ hs
    cases a with
    | store a =>
      simp only [Evaluation.step] at hs
      split at hs
      · cases hs
      next hnot =>
        split at hs
        · cases hs
        next s hstep => cases hs; exact hown.store_step (by simpa using hnot) hstep
    | cancel reason =>
      simp only [Evaluation.step] at hs
      split at hs
      · cases hs
      split at hs
      next hnone => cases hs; exact hown
      next =>
        split at hs
        · cases hs
        next s hstep => cases hs; exact hown.cancel hstep
    | step => exact hown.exactStep hs

/-! ## What the evaluation does with the snapshot -/

omit [Primitives] in
/-- Of a view that answers the request, only the generation is left to check. -/
theorem acceptSnapshot_of_answers {head view} (h : Answers (request.snapshot head) view) :
    acceptSnapshot request head view = if view.generation = head then .ok view else .error .failedPrecondition := by
  have hmin : request.minimumGeneration ≤ view.generation := Nat.le_trans (Nat.le_max_left _ _) h.minimum_le
  have hns : view.namespace_ = request.namespace_ := h.namespace_eq
  have hat : view.readAt = request.readAt := h.readAt_eq
  simp [acceptSnapshot, hns, hat, Nat.not_lt.2 hmin]

/-- Once OpenSnapshot has returned a view, the evaluation goes on with it exactly when the generation it pinned is
the head read before; a head below the minimum generation never passes. -/
theorem openExactSnapshot_ok_iff {e : Evaluation} (h : e.Reached request id) {head : Nat} {ctx : Ctx}
    {asked : SnapshotRequest} {view : SnapshotView} (hpc : e.pc = .opening head)
    (hc : e.system.calls id = some ⟨ctx, .openSnapshot asked (.returned (.ok view))⟩) :
    max request.minimumGeneration head ≤ view.generation ∧
      (e.step request id .step = some { e with pc := .returned (.ok view) } ↔ view.generation = head) ∧
      (view.generation ≠ head →
        e.step request id .step = some { e with pc := .returned (.error .failedPrecondition) }) ∧
      (head < request.minimumGeneration → view.generation ≠ head) := by
  have hown := ownCall_of_reached h
  simp only [OwnCall, hpc, hc, Option.some.injEq, Call.mk.injEq, Operation.openSnapshot.injEq] at hown
  obtain ⟨_, _, ⟨-, rfl, rfl⟩, hview⟩ := hown
  have hmin : max request.minimumGeneration head ≤ view.generation := hview.minimum_le
  have hstep : e.step request id .step = some { e with pc := .returned (acceptSnapshot request head view) } := by
    simp only [Evaluation.step, App.exactStep, hpc, hc]
  rw [acceptSnapshot_of_answers hview] at hstep
  refine ⟨hmin, ?_, fun hne => by rw [hstep, if_neg hne], fun hlt => by omega⟩
  rw [hstep]
  by_cases hgen : view.generation = head <;> simp [hgen]

end Step

/-! Two runs: the head is read before or after the write that brings the namespace to generation 1. -/

def sampleExact (minimum : Nat) : ExactRequest := ⟨ascii "n", minimum, 7⟩

/-- The evaluation reads the head and asks for its snapshot. -/
def sampleAsk : List EvaluationAction := List.replicate 3 .step

def sampleOpen (steps : Nat) : List EvaluationAction := List.replicate steps (.store (.step 9 ⟨none, false⟩))

def sampleRun (minimum : Nat) (actions : List EvaluationAction) : Option Evaluation :=
  run (@Evaluation.step Primitives.constant (sampleExact minimum) 9) ⟨⟨newStore [], fun _ => none, []⟩, .alive, .entry⟩
    actions

def sampleCommit : List EvaluationAction := (samplePublish ++ sampleWrite).map .store

/-- The head the evaluation read and the view its OpenSnapshot call returned. -/
def Evaluation.opened (e : Evaluation) : Option (Nat × SnapshotView) :=
  match e.pc, e.system.calls 9 with
  | .opening head, some ⟨_, .openSnapshot _ (.returned (.ok view))⟩ => some (head, view)
  | _, _ => none

theorem Evaluation.opened_eq_some {e : Evaluation} {head : Nat} {view : SnapshotView}
    (h : e.opened = some (head, view)) :
    e.pc = .opening head ∧
      ∃ ctx asked, e.system.calls 9 = some ⟨ctx, .openSnapshot asked (.returned (.ok view))⟩ := by
  unfold Evaluation.opened at h
  split at h
  next head' ctx asked view' hpc hc =>
    cases h
    exact ⟨hpc, ctx, asked, hc⟩
  · cases h

theorem reached_of_sampleRun {minimum actions e} (h : sampleRun minimum actions = some e) :
    @Evaluation.Reached Primitives.constant (sampleExact minimum) 9 e :=
  Reachable.run (.start ⟨.start ⟨[], rfl⟩, rfl, rfl, rfl⟩) h

/-- A run in which OpenSnapshot returns generation 1 while the context lives. -/
theorem exists_sampleOpened (actions : List EvaluationAction) (head : Nat)
    (h : (sampleRun 1 actions).any (fun e => e.ctx = .alive ∧
      (e.opened.any fun p => p.1 = head ∧ p.2.generation = 1) = true) = true) :
    ∃ e ctx asked view, @Evaluation.Reached Primitives.constant (sampleExact 1) 9 e ∧ e.ctx = .alive ∧
      e.pc = .opening head ∧ e.system.calls 9 = some ⟨ctx, .openSnapshot asked (.returned (.ok view))⟩ ∧
      view.generation = 1 := by
  obtain ⟨e, he, h⟩ := (Option.any_eq_true _ _).1 h
  obtain ⟨halive, h⟩ := of_decide_eq_true h
  obtain ⟨⟨_, view⟩, hopened, h⟩ := (Option.any_eq_true _ _).1 h
  obtain ⟨rfl, hgen⟩ := of_decide_eq_true h
  obtain ⟨hpc, ctx, asked, hc⟩ := Evaluation.opened_eq_some hopened
  exact ⟨e, ctx, asked, view, reached_of_sampleRun he, halive, hpc, hc, hgen⟩

/-- The write before the head is read: the snapshot is taken. -/
theorem openExactSnapshot_ok_iff_after_commit :
    ∃ e view, @Evaluation.Reached Primitives.constant (sampleExact 1) 9 e ∧ e.pc = .opening 1 ∧
      view.generation = 1 ∧
      @Evaluation.step Primitives.constant (sampleExact 1) 9 e .step = some { e with pc := .returned (.ok view) } := by
  obtain ⟨e, ctx, asked, view, hr, -, hpc, hc, hgen⟩ :=
    exists_sampleOpened (sampleCommit ++ sampleAsk ++ sampleOpen 3) 1 (by decide +kernel)
  exact ⟨e, view, hr, hpc, hgen, (@openExactSnapshot_ok_iff Primitives.constant _ _ e hr _ _ _ _ hpc hc).2.1.2 hgen⟩

/-- The write after the head is read: OpenSnapshot waits for it and returns generation 1, the minimum asked for, and
the evaluation fails with its context still alive. -/
theorem openExactSnapshot_refuses_minimum :
    ∃ e e' ctx asked view, @Evaluation.Reached Primitives.constant (sampleExact 1) 9 e ∧ e.ctx = .alive ∧
      e.pc = .opening 0 ∧ e.system.calls 9 = some ⟨ctx, .openSnapshot asked (.returned (.ok view))⟩ ∧
      0 < (sampleExact 1).minimumGeneration ∧ (sampleExact 1).minimumGeneration ≤ view.generation ∧
      @Evaluation.step Primitives.constant (sampleExact 1) 9 e .step = some e' ∧
      e'.pc = .returned (.error .failedPrecondition) := by
  obtain ⟨e, ctx, asked, view, hr, halive, hpc, hc, hgen⟩ :=
    exists_sampleOpened (sampleAsk ++ sampleOpen 2 ++ sampleCommit ++ sampleOpen 4) 0 (by decide +kernel)
  refine ⟨e, { e with pc := .returned (acceptSnapshot (sampleExact 1) 0 view) }, ctx, asked, view, hr, halive, hpc, hc,
    Nat.one_pos, Nat.le_of_eq hgen.symm, ?_, ?_⟩
  · simp only [Evaluation.step, exactStep, hpc, hc]
  · simp [acceptSnapshot, hgen]

end PolicyEngine.App
