import PolicyEngine.Core.Basic
import PolicyEngine.Lib.Drain

/-!
# The lifetime of a SQLite snapshot

A snapshot pins one reader connection in a transaction (`store/sqlite/snapshot.go`,
`admit`, `release`, `finishClose`, `Close`). Whoever ends the last admitted read of a
closing snapshot detaches the connection under the lifecycle mutex, and then, outside
of it, rolls back, gives the connection back, closes the channel every `Close` waits
on and takes the snapshot off its store's list.
-/

open PolicyEngine.Lib Function

namespace PolicyEngine.Sqlite.Lifetime

variable {C : Type}

/-- The fields under the lifecycle mutex. `releaseConnection` is known by the connection it gives back. -/
structure Snapshot (C : Type) where
  closing : Bool
  active : Int
  closeErr : Option ErrorCategory
  /-- Whether the channel is closed. -/
  closeDone : Bool
  conn : Option C
  releaseConnection : Option C
  /-- Whether the snapshot has an owner. -/
  owner : Bool

def Snapshot.opened (conn : C) : Snapshot C where
  closing := false
  active := 0
  closeErr := none
  closeDone := false
  conn := some conn
  releaseConnection := some conn
  owner := false

def Snapshot.admit_ (s : Snapshot C) : Except ErrorCategory (Option C × Snapshot C) :=
  if s.closing || s.conn.isNone then .error .failedPrecondition
  else .ok (s.conn, { s with active := s.active + 1 })

def Snapshot.detachLocked (s : Snapshot C) : (Option C × Option C) × Snapshot C :=
  ((s.conn, s.releaseConnection), { s with conn := none, releaseConnection := none })

/-- `release` under the mutex, with what it detached. -/
def Snapshot.release (s : Snapshot C) : (Option C × Option C) × Snapshot C :=
  let s := { s with active := s.active - 1 }
  if s.closing && s.active == 0 then s.detachLocked else ((none, none), s)

/-- `Close` under the mutex, with what it detached. -/
def Snapshot.close (s : Snapshot C) : (Option C × Option C) × Snapshot C :=
  if s.closing then ((none, none), s)
  else
    let s := { s with closing := true }
    if s.active == 0 then s.detachLocked else ((none, none), s)

/-- The error of `finishClose` before the mutex is taken: that of the rollback, or else that of giving the connection
back. -/
def finishError (conn release : Option C) (rollbackErr releaseErr : Option ErrorCategory) : Option ErrorCategory :=
  let closeErr := if conn.isNone then none else rollbackErr
  if release.isSome && closeErr.isNone then releaseErr else closeErr

/-- `finishClose` under the mutex. -/
def Snapshot.finishLocked (s : Snapshot C) (closeErr : Option ErrorCategory) : Snapshot C :=
  { s with closeErr := s.closeErr <|> closeErr, closeDone := true }

/-! ## The calls on one snapshot -/

/-- How far a call has come; `closer` tells a `Close` from a read that finishes for it. -/
inductive Call (C : Type)
  | idle
  | reading (conn : Option C)
  | refused (code : ErrorCategory)
  | ended
  | finishing (closer : Bool) (conn release : Option C)
  | announcing (closer : Bool) (closeErr : Option ErrorCategory)
  | unregistering (closer : Bool)
  | waiting
  | returned (err : Option ErrorCategory)

/-- What a call is to the resource. -/
inductive Phase
  | none
  | reading
  | ended
  | closing
  | returned
  deriving DecidableEq

@[grind]
def Call.phase : Call C → Phase
  | .idle | .refused _ => .none
  | .reading _ => .reading
  | .ended => .ended
  | .finishing closer _ _ | .announcing closer _ | .unregistering closer => if closer then .closing else .ended
  | .waiting => .closing
  | .returned _ => .returned

/-- Where a call goes on after its critical section or after `finishClose`. -/
@[grind]
def Call.resume (closer : Bool) : Call C :=
  if closer then .waiting else .ended

/-- `finishClose` runs if anything was detached. -/
def Call.after (closer : Bool) (detached : Option C × Option C) : Call C :=
  if detached.1.isSome || detached.2.isSome then .finishing closer detached.1 detached.2 else .resume closer

@[simp, grind =]
theorem Call.phase_resume (closer : Bool) : (Call.resume closer : Call C).phase = if closer then .closing else .ended := by
  cases closer <;> rfl

@[simp, grind =]
theorem Call.phase_after (closer : Bool) (detached : Option C × Option C) :
    (Call.after closer detached).phase = if closer then .closing else .ended := by
  unfold Call.after
  split
  · rfl
  · exact phase_resume closer

structure System (C : Type) where
  snapshot : Snapshot C
  calls : Nat → Call C
  history : List (DrainEvent Nat)

def System.start (conn : C) : System C where
  snapshot := .opened conn
  calls _ := .idle
  history := []

/-- One step of call `i`; the errors are those the driver reports. `register` is the store taking ownership. -/
inductive Action
  | register
  | admit_ (i : Nat)
  | use (i : Nat)
  | release (i : Nat)
  | close (i : Nat)
  | finish (i : Nat) (rollbackErr releaseErr : Option ErrorCategory)
  | announce (i : Nat)
  | unregister (i : Nat)
  | wake (i : Nat)

def step (s : System C) : Action → Option (System C)
  | .register => some { s with snapshot := { s.snapshot with owner := true } }
  | .admit_ i =>
    match s.calls i with
    | .idle =>
      match s.snapshot.admit_ with
      | .error code => some { s with calls := Function.update s.calls i (.refused code) }
      | .ok (conn, snapshot) =>
        some ⟨snapshot, Function.update s.calls i (.reading conn), s.history ++ [.admitted i]⟩
    | _ => none
  | .use i =>
    match s.calls i with
    | .reading _ => some { s with history := s.history ++ [.used i] }
    | _ => none
  | .release i =>
    match s.calls i with
    | .reading _ =>
      let (detached, snapshot) := s.snapshot.release
      some ⟨snapshot, Function.update s.calls i (.after false detached), s.history ++ [.ended i]⟩
    | _ => none
  | .close i =>
    match s.calls i with
    | .idle =>
      let (detached, snapshot) := s.snapshot.close
      some ⟨snapshot, Function.update s.calls i (.after true detached), s.history ++ [.closing i]⟩
    | _ => none
  | .finish i rollbackErr releaseErr =>
    match s.calls i with
    | .finishing closer conn release =>
      some { s with
        calls := Function.update s.calls i (.announcing closer (finishError conn release rollbackErr releaseErr))
        history := s.history ++ if release.isSome then [.released] else [] }
    | _ => none
  | .announce i =>
    match s.calls i with
    | .announcing closer closeErr =>
      some
        { snapshot := s.snapshot.finishLocked closeErr
          calls := Function.update s.calls i (if s.snapshot.owner then .unregistering closer else .resume closer)
          -- the channel is closed only if it is not yet
          history := s.history ++ if s.snapshot.closeDone then [] else [.announced] }
    | _ => none
  | .unregister i =>
    match s.calls i with
    | .unregistering closer => some { s with calls := Function.update s.calls i (.resume closer) }
    | _ => none
  | .wake i =>
    match s.calls i with
    | .waiting =>
      if s.snapshot.closeDone then
        some { s with
          calls := Function.update s.calls i (.returned s.snapshot.closeErr), history := s.history ++ [.returned i] }
      else none
    | _ => none

/-- The call that takes a step of its own accord. -/
def Action.turn : Action → Option Nat
  | .finish i _ _ | .announce i | .unregister i | .wake i => some i
  | _ => none

/-! ### What a step does -/

section Inversion

variable {s s' : System C} {i : Nat}

theorem step_register (hs : step s .register = some s') :
    s' = { s with snapshot := { s.snapshot with owner := true } } :=
  (Option.some.inj hs).symm

theorem step_admit_ (hs : step s (.admit_ i) = some s') :
    s.calls i = .idle ∧
      ((s.snapshot.closing || s.snapshot.conn.isNone) = true ∧
          s' = { s with calls := update s.calls i (.refused .failedPrecondition) } ∨
        s.snapshot.closing = false ∧ s.snapshot.conn.isSome = true ∧
          s' = ⟨{ s.snapshot with active := s.snapshot.active + 1 },
            update s.calls i (.reading s.snapshot.conn), s.history ++ [.admitted i]⟩) := by
  simp only [step, Snapshot.admit_] at hs
  split at hs
  next hi =>
    refine ⟨hi, ?_⟩
    by_cases hc : (s.snapshot.closing || s.snapshot.conn.isNone) = true
    · simp only [hc, if_true] at hs
      cases hs
      exact .inl ⟨hc, rfl⟩
    · simp only [hc, if_false, Bool.false_eq_true] at hs
      cases hs
      rw [Bool.not_eq_true, Bool.or_eq_false_iff, Option.isNone_eq_false_iff] at hc
      exact .inr ⟨hc.1, hc.2, rfl⟩
  next => cases hs

theorem step_use (hs : step s (.use i) = some s') :
    (s.calls i).phase = .reading ∧ s' = { s with history := s.history ++ [.used i] } := by
  simp only [step] at hs
  split at hs
  next hi => cases hs; exact ⟨by rw [hi]; rfl, rfl⟩
  next => cases hs

theorem step_release (hs : step s (.release i) = some s') :
    (s.calls i).phase = .reading ∧
      s' = ⟨s.snapshot.release.2, update s.calls i (.after false s.snapshot.release.1),
        s.history ++ [.ended i]⟩ := by
  simp only [step] at hs
  split at hs
  next hi => cases hs; exact ⟨by rw [hi]; rfl, rfl⟩
  next => cases hs

theorem step_close (hs : step s (.close i) = some s') :
    s.calls i = .idle ∧
      s' = ⟨s.snapshot.close.2, update s.calls i (.after true s.snapshot.close.1),
        s.history ++ [.closing i]⟩ := by
  simp only [step] at hs
  split at hs
  next hi => cases hs; exact ⟨hi, rfl⟩
  next => cases hs

theorem step_finish {rollbackErr releaseErr} (hs : step s (.finish i rollbackErr releaseErr) = some s') :
    ∃ closer conn release, s.calls i = .finishing closer conn release ∧
      s' = { s with
        calls := update s.calls i (.announcing closer (finishError conn release rollbackErr releaseErr))
        history := s.history ++ if release.isSome then [.released] else [] } := by
  simp only [step] at hs
  split at hs
  next closer conn release hi => cases hs; exact ⟨closer, conn, release, hi, rfl⟩
  next => cases hs

theorem step_announce (hs : step s (.announce i) = some s') :
    ∃ closer closeErr, s.calls i = .announcing closer closeErr ∧
      s' = ⟨s.snapshot.finishLocked closeErr,
        update s.calls i (if s.snapshot.owner then .unregistering closer else .resume closer),
        s.history ++ if s.snapshot.closeDone then [] else [.announced]⟩ := by
  simp only [step] at hs
  split at hs
  next closer closeErr hi => cases hs; exact ⟨closer, closeErr, hi, rfl⟩
  next => cases hs

theorem step_unregister (hs : step s (.unregister i) = some s') :
    ∃ closer, s.calls i = .unregistering closer ∧
      s' = { s with calls := update s.calls i (.resume closer) } := by
  simp only [step] at hs
  split at hs
  next closer hi => cases hs; exact ⟨closer, hi, rfl⟩
  next => cases hs

theorem step_wake (hs : step s (.wake i) = some s') :
    s.calls i = .waiting ∧ s.snapshot.closeDone = true ∧
      s' = { s with
        calls := update s.calls i (.returned s.snapshot.closeErr)
        history := s.history ++ [.returned i] } := by
  simp only [step] at hs
  split at hs
  next hi =>
    split at hs
    next hdone => cases hs; exact ⟨hi, hdone, rfl⟩
    next => cases hs
  next => cases hs

end Inversion

/-! ## Every run is one of the drain -/

/-- Who has the connection: the snapshot, the call that detached it, the call that gave it back, or nobody any
more. -/
inductive Holder
  | pinned
  | finisher (i : Nat)
  | announcer (i : Nat)
  | done
  deriving DecidableEq

@[grind]
def Holder.stage : Holder → DrainStage
  | .pinned | .finisher _ => .pinned
  | .announcer _ => .released
  | .done => .announced

/-- The snapshot on connection `c` as a drain. It is detached as soon as it can be. -/
structure Mirrors (c : C) (s : Snapshot C) (d : Drain Nat) (o : Holder) : Prop where
  closing : s.closing = d.closing
  active : s.active = d.reading.card
  conn : s.conn = if o = .pinned then some c else none
  releaseConnection : s.releaseConnection = if o = .pinned then some c else none
  drained : o = .pinned ↔ ¬ (d.closing = true ∧ d.reading = ∅)
  closeDone : s.closeDone = decide (o = .done)
  stage : d.stage = o.stage

/-- The calls on it. -/
structure CallsOf (c : C) (calls : Nat → Call C) (d : Drain Nat) (o : Holder) : Prop where
  reading : ∀ i, i ∈ d.reading ↔ (calls i).phase = .reading
  admitted : ∀ i, i ∈ d.admitted → calls i ≠ .idle
  pinned : ∀ i conn, calls i = .reading conn → conn = some c
  finishing : ∀ i closer conn release, calls i = .finishing closer conn release →
    o = .finisher i ∧ conn = some c ∧ release = some c
  finisher : ∀ i, o = .finisher i → ∃ closer, calls i = .finishing closer (some c) (some c)
  announcing : ∀ i closer closeErr, calls i = .announcing closer closeErr → o = .announcer i
  announcer : ∀ i, o = .announcer i → ∃ closer closeErr, calls i = .announcing closer closeErr
  unregistering : ∀ i closer, calls i = .unregistering closer → o = .done
  closing : ∀ i, (calls i).phase = .closing ∨ (calls i).phase = .returned → d.closing = true

structure Sim (c : C) (s : System C) (d : Drain Nat) (o : Holder) : Prop where
  allowed : Drain.Allows s.history d
  snapshot : Mirrors c s.snapshot d o
  calls : CallsOf c s.calls d o

theorem Sim.start (c : C) : Sim c (.start c) .start .pinned where
  allowed := rfl
  snapshot := ⟨rfl, rfl, rfl, rfl, by simp [Drain.start], rfl, rfl⟩
  calls := by constructor <;> simp [System.start, Drain.start, Call.phase]

variable {c : C} {s s' : System C} {d : Drain Nat} {o : Holder}

theorem Sim.register (h : Sim c s d o) (hs : step s .register = some s') : ∃ d' o', Sim c s' d' o' := by
  rw [step_register hs]
  obtain ⟨ha, ⟨hc, hact, hconn, hrel, hdr, hcd, hst⟩, hcalls⟩ := h
  exact ⟨d, o, ha, ⟨hc, hact, hconn, hrel, hdr, hcd, hst⟩, hcalls⟩

variable {i : Nat}

theorem Sim.admit_ (h : Sim c s d o) (hs : step s (.admit_ i) = some s') : ∃ d' o', Sim c s' d' o' := by
  obtain ⟨ha, ⟨hc, hact, hconn, hrel, hdr, hcd, hst⟩, hr, hadm, hp, hf, hf', han, han', hun, hw⟩ := h
  obtain ⟨hi, ⟨-, rfl⟩ | ⟨hopen, hsome, rfl⟩⟩ := step_admit_ hs
  · exact ⟨d, o, ha, ⟨hc, hact, hconn, hrel, hdr, hcd, hst⟩, by constructor <;> grind⟩
  · have hnew : i ∉ d.admitted := fun hin => hadm i hin hi
    have hnot : i ∉ d.reading := by grind
    refine ⟨_, o, run_concat.2 ⟨d, ha, if_pos ⟨hc ▸ hopen, hnew⟩⟩, ?_, ?_⟩
    · constructor <;> grind
    · constructor <;> grind

theorem Sim.use (h : Sim c s d o) (hs : step s (.use i) = some s') : ∃ d' o', Sim c s' d' o' := by
  obtain ⟨hi, rfl⟩ := step_use hs
  exact ⟨d, o, run_concat.2 ⟨d, h.allowed, if_pos ((h.calls.reading i).2 hi)⟩, h.snapshot, h.calls⟩

theorem Sim.release (h : Sim c s d o) {i : Nat} (hs : step s (.release i) = some s') : ∃ d' o', Sim c s' d' o' := by
  obtain ⟨hi, rfl⟩ := step_release hs
  obtain ⟨ha, ⟨hc, hact, hconn, hrel, hdr, hcd, hst⟩, hr, hadm, hp, hf, hf', han, han', hun, hw⟩ := h
  have hin : i ∈ d.reading := (hr i).2 hi
  have hpinned : o = .pinned := by grind
  subst hpinned
  have hempty : d.reading.erase i = ∅ ↔ s.snapshot.active - 1 = 0 := by
    have := Finset.card_pos.2 ⟨i, hin⟩
    rw [hact, ← Finset.card_eq_zero, Finset.card_erase_of_mem hin]
    omega
  have hallowed : Drain.Allows (s.history ++ [.ended i]) { d with reading := d.reading.erase i } :=
    run_concat.2 ⟨d, ha, if_pos hin⟩
  by_cases hlast : d.closing = true ∧ d.reading.erase i = ∅
  · refine ⟨_, .finisher i, hallowed, ?_, ?_⟩
    · constructor <;> grind [Snapshot.release, Snapshot.detachLocked]
    · constructor <;> grind [Snapshot.release, Snapshot.detachLocked, Call.after]
  · refine ⟨_, .pinned, hallowed, ?_, ?_⟩
    · constructor <;> grind [Snapshot.release]
    · constructor <;> grind [Snapshot.release, Call.after]

theorem Sim.close (h : Sim c s d o) (hs : step s (.close i) = some s') : ∃ d' o', Sim c s' d' o' := by
  obtain ⟨hi, rfl⟩ := step_close hs
  obtain ⟨ha, ⟨hc, hact, hconn, hrel, hdr, hcd, hst⟩, hr, hadm, hp, hf, hf', han, han', hun, hw⟩ := h
  have hempty : d.reading = ∅ ↔ s.snapshot.active = 0 := by
    rw [hact, ← Finset.card_eq_zero]
    omega
  have hallowed : Drain.Allows (s.history ++ [.closing i]) { d with closing := true } := run_concat.2 ⟨d, ha, rfl⟩
  by_cases hfirst : d.closing = false ∧ d.reading = ∅
  · have hpinned : o = .pinned := by grind
    refine ⟨_, .finisher i, hallowed, ?_, ?_⟩
    · constructor <;> grind [Snapshot.close, Snapshot.detachLocked]
    · constructor <;> grind [Snapshot.close, Snapshot.detachLocked, Call.after]
  · refine ⟨_, o, hallowed, ?_, ?_⟩
    · constructor <;> grind [Snapshot.close]
    · constructor <;> grind [Snapshot.close, Call.after]

theorem Sim.finish (h : Sim c s d o) {rollbackErr releaseErr}
    (hs : step s (.finish i rollbackErr releaseErr) = some s') : ∃ d' o', Sim c s' d' o' := by
  obtain ⟨closer, conn, release, hi, rfl⟩ := step_finish hs
  obtain ⟨ha, ⟨hc, hact, hconn, hrel, hdr, hcd, hst⟩, hr, hadm, hp, hf, hf', han, han', hun, hw⟩ := h
  obtain ⟨rfl, rfl, rfl⟩ := hf i closer conn release hi
  have hnext : d.next .released = some { d with stage := .released } := if_pos (by grind)
  refine ⟨_, .announcer i, run_concat.2 ⟨d, ha, hnext⟩, ?_, ?_⟩
  · constructor <;> grind
  · constructor <;> grind

theorem Sim.announce (h : Sim c s d o) (hs : step s (.announce i) = some s') : ∃ d' o', Sim c s' d' o' := by
  obtain ⟨closer, closeErr, hi, rfl⟩ := step_announce hs
  obtain ⟨ha, ⟨hc, hact, hconn, hrel, hdr, hcd, hst⟩, hr, hadm, hp, hf, hf', han, han', hun, hw⟩ := h
  obtain rfl := han i closer closeErr hi
  have hnext : d.next .announced = some { d with stage := .announced } := if_pos hst
  have hopen : s.snapshot.closeDone = false := by simp [hcd]
  refine ⟨{ d with stage := .announced }, .done, ?_, ?_, ?_⟩
  · rw [hopen]
    exact run_concat.2 ⟨d, ha, hnext⟩
  · constructor <;> grind [Snapshot.finishLocked]
  · constructor <;> grind

theorem Sim.unregister (h : Sim c s d o) (hs : step s (.unregister i) = some s') :
    ∃ d' o', Sim c s' d' o' := by
  obtain ⟨closer, hi, rfl⟩ := step_unregister hs
  obtain ⟨ha, hm, hr, hadm, hp, hf, hf', han, han', hun, hw⟩ := h
  refine ⟨d, o, ha, hm, ?_⟩
  constructor <;> grind

theorem Sim.wake (h : Sim c s d o) {i : Nat} (hs : step s (.wake i) = some s') : ∃ d' o', Sim c s' d' o' := by
  obtain ⟨hi, hdone, rfl⟩ := step_wake hs
  obtain ⟨ha, hm, hr, hadm, hp, hf, hf', han, han', hun, hw⟩ := h
  have hstage : d.stage = .announced := by
    have := hm.closeDone
    have := hm.stage
    grind
  refine ⟨d, o, run_concat.2 ⟨d, ha, if_pos hstage⟩, hm, ?_⟩
  constructor <;> grind

theorem Sim.step (h : Sim c s d o) {a : Action} (hs : step s a = some s') : ∃ d' o', Sim c s' d' o' := by
  cases a with
  | register => exact h.register hs
  | admit_ i => exact h.admit_ hs
  | use i => exact h.use hs
  | release i => exact h.release hs
  | close i => exact h.close hs
  | finish i rollbackErr releaseErr => exact h.finish hs
  | announce i => exact h.announce hs
  | unregister i => exact h.unregister hs
  | wake i => exact h.wake hs

theorem exists_sim (h : Reachable Lifetime.step (· = System.start c) s) : ∃ d o, Sim c s d o :=
  ReachableBy.invariant (I := fun s => ∃ d o, Sim c s d o) (by rintro _ rfl; exact ⟨_, _, Sim.start c⟩)
    (fun _ _ _ ⟨_, _, hi⟩ _ hs => hi.step hs) h

/-! ## Every close returns -/

/-- The history tells how far each close has come. -/
structure Logged (s : System C) : Prop where
  closing : ∀ i, .closing i ∈ s.history ↔ (s.calls i).phase = .closing ∨ (s.calls i).phase = .returned
  returned : ∀ i, .returned i ∈ s.history ↔ (s.calls i).phase = .returned

theorem Logged.step {a : Action} (h : Logged s) (hs : step s a = some s') : Logged s' := by
  obtain ⟨hcl, hre⟩ := h
  cases a with
  | register => rw [step_register hs]; exact ⟨hcl, hre⟩
  | admit_ i =>
    obtain ⟨hi, ⟨-, rfl⟩ | ⟨-, -, rfl⟩⟩ := step_admit_ hs
    · constructor <;> grind
    · constructor <;> grind
  | use i => obtain ⟨-, rfl⟩ := step_use hs; constructor <;> grind
  | release i => obtain ⟨hi, rfl⟩ := step_release hs; constructor <;> grind
  | close i => obtain ⟨hi, rfl⟩ := step_close hs; constructor <;> grind
  | finish i rollbackErr releaseErr =>
    obtain ⟨closer, conn, release, hi, rfl⟩ := step_finish hs
    constructor <;> grind
  | announce i => obtain ⟨closer, closeErr, hi, rfl⟩ := step_announce hs; constructor <;> grind
  | unregister i => obtain ⟨closer, hi, rfl⟩ := step_unregister hs; constructor <;> grind
  | wake i => obtain ⟨hi, -, rfl⟩ := step_wake hs; constructor <;> grind

theorem logged (h : Reachable step (· = System.start c) s) : Logged s :=
  h.invariant (I := Logged) (by rintro _ rfl; constructor <;> simp [System.start, Call.phase])
    fun _ _ _ hi _ hs => hi.step hs

theorem step_history (s : System C) (a : Action) (s' : System C) (hs : step s a = some s') :
    s.history <+: s'.history := by
  cases a with
  | register => rw [step_register hs]
  | admit_ i => obtain ⟨-, ⟨-, rfl⟩ | ⟨-, -, rfl⟩⟩ := step_admit_ hs <;> simp
  | use i => obtain ⟨-, rfl⟩ := step_use hs; simp
  | release i => obtain ⟨-, rfl⟩ := step_release hs; simp
  | close i => obtain ⟨-, rfl⟩ := step_close hs; simp
  | finish i rollbackErr releaseErr => obtain ⟨_, _, _, -, rfl⟩ := step_finish hs; simp
  | announce i => obtain ⟨_, _, -, rfl⟩ := step_announce hs; simp
  | unregister i => obtain ⟨_, -, rfl⟩ := step_unregister hs; simp
  | wake i => obtain ⟨-, -, rfl⟩ := step_wake hs; simp

variable {a : Action}

/-- A closed channel stays closed. -/
theorem step_closeDone (hs : step s a = some s') (hdone : s.snapshot.closeDone = true) :
    s'.snapshot.closeDone = true := by
  cases a with
  | register => rw [step_register hs]; exact hdone
  | admit_ i => obtain ⟨-, ⟨-, rfl⟩ | ⟨-, -, rfl⟩⟩ := step_admit_ hs <;> exact hdone
  | use i => obtain ⟨-, rfl⟩ := step_use hs; exact hdone
  | release i => obtain ⟨-, rfl⟩ := step_release hs; grind [Snapshot.release, Snapshot.detachLocked]
  | close i => obtain ⟨-, rfl⟩ := step_close hs; grind [Snapshot.close, Snapshot.detachLocked]
  | finish i rollbackErr releaseErr => obtain ⟨_, _, _, -, rfl⟩ := step_finish hs; exact hdone
  | announce i => obtain ⟨_, _, -, rfl⟩ := step_announce hs; rfl
  | unregister i => obtain ⟨_, -, rfl⟩ := step_unregister hs; exact hdone
  | wake i => obtain ⟨-, -, rfl⟩ := step_wake hs; exact hdone

/-- A call past its critical section moves only when it takes its turn. -/
theorem step_calls (hs : step s a = some s') (hidle : s.calls i ≠ .idle) (hreading : (s.calls i).phase ≠ .reading)
    (hturn : a.turn ≠ some i) : s'.calls i = s.calls i := by
  cases a with
  | register => rw [step_register hs]
  | admit_ j => obtain ⟨hj, ⟨-, rfl⟩ | ⟨-, -, rfl⟩⟩ := step_admit_ hs <;> grind
  | use j => obtain ⟨-, rfl⟩ := step_use hs; rfl
  | release j => obtain ⟨hj, rfl⟩ := step_release hs; grind
  | close j => obtain ⟨hj, rfl⟩ := step_close hs; grind
  | finish j rollbackErr releaseErr => obtain ⟨_, _, _, -, rfl⟩ := step_finish hs; grind [Action.turn]
  | announce j => obtain ⟨_, _, -, rfl⟩ := step_announce hs; grind [Action.turn]
  | unregister j => obtain ⟨_, -, rfl⟩ := step_unregister hs; grind [Action.turn]
  | wake j => obtain ⟨-, -, rfl⟩ := step_wake hs; grind [Action.turn]

/-- What a call does when it takes its turn. -/
theorem step_turn (hs : step s a = some s') (hturn : a.turn = some i) :
    (∃ closer conn release, s.calls i = .finishing closer conn release ∧
        ∃ closeErr, s'.calls i = .announcing closer closeErr) ∨
      ((∃ closer closeErr, s.calls i = .announcing closer closeErr) ∧ s'.snapshot.closeDone = true) ∨
      (∃ closer, s.calls i = .unregistering closer ∧ s'.calls i = .resume closer) ∨
      s.calls i = .waiting ∧ (s'.calls i).phase = .returned := by
  cases a with
  | finish j rollbackErr releaseErr =>
    obtain rfl : j = i := by simpa [Action.turn] using hturn
    obtain ⟨closer, conn, release, hj, rfl⟩ := step_finish hs
    exact .inl ⟨closer, conn, release, hj, _, update_self ..⟩
  | announce j =>
    obtain rfl : j = i := by simpa [Action.turn] using hturn
    obtain ⟨closer, closeErr, hj, rfl⟩ := step_announce hs
    exact .inr (.inl ⟨⟨closer, closeErr, hj⟩, rfl⟩)
  | unregister j =>
    obtain rfl : j = i := by simpa [Action.turn] using hturn
    obtain ⟨closer, hj, rfl⟩ := step_unregister hs
    exact .inr (.inr (.inl ⟨closer, hj, update_self ..⟩))
  | wake j =>
    obtain rfl : j = i := by simpa [Action.turn] using hturn
    obtain ⟨hj, -, rfl⟩ := step_wake hs
    exact .inr (.inr (.inr ⟨hj, by simp [Call.phase]⟩))
  | _ => cases hturn

section Liveness

variable {x : Execution (step (C := C))}

variable {i n : Nat}

/-- A call that detached the connection gives it back, -/
theorem announces (hfair : x.Fair (·.turn = some i)) {closer conn release}
    (hi : (x.state n).calls i = .finishing closer conn release) :
    ∃ m, n ≤ m ∧ ∃ closer closeErr, (x.state m).calls i = .announcing closer closeErr := by
  refine hfair.leadsTo (P := fun s => s.calls i = .finishing closer conn release)
    (Q := fun s => ∃ closer closeErr, s.calls i = .announcing closer closeErr)
    (fun m hm => ⟨.finish i none none, rfl, by simp [step, hm]⟩) (fun m a hm ha => ?_) hi
  by_cases hturn : a.turn = some i
  · have := step_turn (x.moves m a ha) hturn
    grind
  · exact .inl ⟨hturn, (step_calls (x.moves m a ha) (by simp [hm]) (by grind) hturn).trans hm⟩

/-- and then closes the channel. -/
theorem closes (hfair : x.Fair (·.turn = some i)) {closer closeErr}
    (hi : (x.state n).calls i = .announcing closer closeErr) :
    ∃ m, n ≤ m ∧ (x.state m).snapshot.closeDone = true := by
  refine hfair.leadsTo (P := fun s => s.calls i = .announcing closer closeErr)
    (Q := fun s => s.snapshot.closeDone = true) (fun m hm => ⟨.announce i, rfl, by simp [step, hm]⟩)
    (fun m a hm ha => ?_) hi
  by_cases hturn : a.turn = some i
  · have := step_turn (x.moves m a ha) hturn
    grind
  · exact .inl ⟨hturn, (step_calls (x.moves m a ha) (by simp [hm]) (by grind) hturn).trans hm⟩

/-- A close that has unregistered the snapshot waits, -/
theorem waits (hfair : x.Fair (·.turn = some i)) (hi : (x.state n).calls i = .unregistering true)
    (hdone : (x.state n).snapshot.closeDone = true) :
    ∃ m, n ≤ m ∧ (x.state m).calls i = .waiting ∧ (x.state m).snapshot.closeDone = true := by
  refine hfair.leadsTo (P := fun s => s.calls i = .unregistering true ∧ s.snapshot.closeDone = true)
    (Q := fun s => s.calls i = .waiting ∧ s.snapshot.closeDone = true)
    (fun m hm => ⟨.unregister i, rfl, by simp [step, hm.1]⟩) (fun m a hm ha => ?_) ⟨hi, hdone⟩
  have hdone' := step_closeDone (x.moves m a ha) hm.2
  by_cases hturn : a.turn = some i
  · have := step_turn (x.moves m a ha) hturn
    grind
  · exact .inl ⟨hturn, (step_calls (x.moves m a ha) (by simp [hm.1]) (by grind) hturn).trans hm.1, hdone'⟩

/-- and returns once the channel is closed. -/
theorem returns (hfair : x.Fair (·.turn = some i)) (hi : (x.state n).calls i = .waiting)
    (hdone : (x.state n).snapshot.closeDone = true) : ∃ m, n ≤ m ∧ ((x.state m).calls i).phase = .returned := by
  refine hfair.leadsTo (P := fun s => s.calls i = .waiting ∧ s.snapshot.closeDone = true)
    (Q := fun s => (s.calls i).phase = .returned)
    (fun m hm => ⟨.wake i, rfl, by simp [step, hm.1, hm.2]⟩) (fun m a hm ha => ?_) ⟨hi, hdone⟩
  by_cases hturn : a.turn = some i
  · have := step_turn (x.moves m a ha) hturn
    grind
  · exact .inl ⟨hturn, (step_calls (x.moves m a ha) (by simp [hm.1]) (by grind) hturn).trans hm.1,
      step_closeDone (x.moves m a ha) hm.2⟩

end Liveness

/-- Once no reader is left, somebody has closed the channel or is about to. -/
theorem Sim.exists_closeDone {x : Execution (Lifetime.step (C := C))} {n : Nat} (h : Sim c (x.state n) d o)
    (hfair : ∀ i, x.Fair (·.turn = some i)) (hdrained : d.closing = true ∧ d.reading = ∅) :
    ∃ m, n ≤ m ∧ (x.state m).snapshot.closeDone = true := by
  cases o with
  | pinned => exact absurd hdrained (h.snapshot.drained.1 rfl)
  | finisher i =>
    obtain ⟨closer, hi⟩ := h.calls.finisher i rfl
    obtain ⟨k, hk, closer', closeErr, hi'⟩ := announces (hfair i) hi
    obtain ⟨m, hm, hdone⟩ := closes (hfair i) hi'
    exact ⟨m, hk.trans hm, hdone⟩
  | announcer i =>
    obtain ⟨closer, closeErr, hi⟩ := h.calls.announcer i rfl
    exact closes (hfair i) hi
  | done => exact ⟨n, le_rfl, by simp [h.snapshot.closeDone]⟩

/-- A close under a closed channel has only to wait. -/
theorem Sim.closing_cases (h : Sim c s d o) (hdone : s.snapshot.closeDone = true) (hi : (s.calls i).phase = .closing) :
    s.calls i = .unregistering true ∨ s.calls i = .waiting := by
  obtain ⟨-, hm, -, -, -, hf, -, han, -, -, -⟩ := h
  have := hm.closeDone
  cases hcall : s.calls i <;> grind

/-- A call that takes the snapshot off the list has seen its connection given back, -/
theorem released_of_unregistering (h : Reachable Lifetime.step (· = System.start c) s) {closer : Bool}
    (hi : s.calls i = .unregistering closer) : .released ∈ s.history := by
  obtain ⟨d, o, hd⟩ := exists_sim h
  have hcount := hd.allowed.recorded.releases
  rw [hd.snapshot.stage, hd.calls.unregistering i closer hi] at hcount
  exact List.count_pos_iff.1 (hcount ▸ Nat.one_pos)

/-- and so has a close that has returned. -/
theorem released_of_returned (h : Reachable Lifetime.step (· = System.start c) s) {err}
    (hi : s.calls i = .returned err) : .released ∈ s.history := by
  obtain ⟨d, o, hd⟩ := exists_sim h
  obtain ⟨before, after, he⟩ := List.append_of_mem (((logged h).returned i).2 (by rw [hi]; rfl))
  have hcount := (hd.allowed.safe.returned before i after he).1
  rw [he]
  exact List.mem_append_left _ (List.count_pos_iff.1 (hcount ▸ Nat.one_pos))

/-- The SQLite snapshot drains its readers. -/
theorem drains (c : C) : Drains Lifetime.step (· = System.start c) System.history (fun i a => a.turn = some i) where
  safe _ hs := (exists_sim hs).elim fun _ ⟨_, hd⟩ => hd.allowed.safe
  returns x h0 hend hfair n i hi := by
    have hsim (m : Nat) : ∃ d o, Sim c (x.state m) d o := exists_sim (x.reached (.start h0) m)
    have hlog (m : Nat) : Logged (x.state m) := logged (x.reached (.start h0) m)
    obtain ⟨k, hik, hdrained⟩ :=
      exists_drained step_history (fun m => (hsim m).imp fun _ ⟨_, hd⟩ => hd.allowed) hend hi
    obtain ⟨d, o, hd⟩ := hsim k
    obtain ⟨m, hm, hdone⟩ := hd.exists_closeDone hfair (hdrained d hd.allowed)
    have him : .closing i ∈ (x.state m).history :=
      (x.leads hm).invariant (I := fun s => .closing i ∈ s.history) (by rintro _ rfl; exact hik)
        fun s a s' h _ hs => (step_history s a s' hs).subset h
    obtain ⟨d, o, hd⟩ := hsim m
    suffices ∃ l, ((x.state l).calls i).phase = .returned from this.imp fun l hl => ((hlog l).returned i).2 hl
    rcases ((hlog m).closing i).1 him with hclosing | hreturned
    · rcases hd.closing_cases hdone hclosing with hun | hwaiting
      · obtain ⟨k, -, hw, hdone'⟩ := waits (hfair i) hun hdone
        exact (returns (hfair i) hw hdone').imp fun _ h => h.2
      · exact (returns (hfair i) hwaiting hdone).imp fun _ h => h.2
    · exact ⟨m, hreturned⟩

end PolicyEngine.Sqlite.Lifetime
