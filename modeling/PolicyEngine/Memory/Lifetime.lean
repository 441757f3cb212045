import PolicyEngine.Core.Basic
import PolicyEngine.Lib.Drain

/-!
# The lifetime of a memory snapshot

A snapshot pins one data version (`store/memory/data.go`, `admit`, `release`,
`Close`). Every call holds the lifecycle mutex for one step at a time, so a run is an
interleaving of those steps. The last admitted read or the first `Close` drops the
version and closes the channel on which every `Close` waits.
-/

open PolicyEngine.Lib Function

namespace PolicyEngine.Memory.Lifetime

variable {V : Type}

/-- The fields under the lifecycle mutex. The owner is set and dropped with the version. -/
structure Snapshot (V : Type) where
  closing : Bool
  active : Int
  /-- Whether the channel is closed. -/
  closeDone : Bool
  version : Option V

def Snapshot.opened (v : V) : Snapshot V where
  closing := false
  active := 0
  closeDone := false
  version := some v

def Snapshot.admit_ (s : Snapshot V) : Except ErrorCategory (Option V × Snapshot V) :=
  if s.closing then .error .failedPrecondition else .ok (s.version, { s with active := s.active + 1 })

/-- The flag tells whether this call dropped the version and closed the channel. -/
def Snapshot.release (s : Snapshot V) : Snapshot V × Bool :=
  let s := { s with active := s.active - 1 }
  if s.closing && s.active == 0 && s.version.isSome then ({ s with version := none, closeDone := true }, true)
  else (s, false)

/-- `Close` up to its wait, with the same flag. -/
def Snapshot.close (s : Snapshot V) : Snapshot V × Bool :=
  if s.closing then (s, false)
  else
    let s := { s with closing := true }
    if s.active == 0 then ({ s with version := none, closeDone := true }, true) else (s, false)

/-! ## The calls on one snapshot -/

/-- How far a call has come. A read keeps the version it was given. -/
inductive Call (V : Type)
  | idle
  | reading (version : Option V)
  | refused (code : ErrorCategory)
  | ended
  | waiting
  | returned

@[grind]
def Call.isReading : Call V → Bool
  | .reading _ => true
  | _ => false

structure System (V : Type) where
  snapshot : Snapshot V
  calls : Nat → Call V
  history : List (DrainEvent Nat)

def System.start (v : V) : System V where
  snapshot := .opened v
  calls _ := .idle
  history := []

/-- One step of call `i`. -/
inductive Action
  | admit_ (i : Nat)
  | use (i : Nat)
  | release (i : Nat)
  | close (i : Nat)
  | wake (i : Nat)
  deriving DecidableEq

/-- What dropping the version does to the resource. -/
def freed (flag : Bool) : List (DrainEvent Nat) :=
  if flag then [.released, .announced] else []

def step (s : System V) : Action → Option (System V)
  | .admit_ i =>
    match s.calls i with
    | .idle =>
      match s.snapshot.admit_ with
      | .error code => some { s with calls := Function.update s.calls i (.refused code) }
      | .ok (version, snapshot) =>
        some ⟨snapshot, Function.update s.calls i (.reading version), s.history ++ [.admitted i]⟩
    | _ => none
  | .use i =>
    match s.calls i with
    | .reading _ => some { s with history := s.history ++ [.used i] }
    | _ => none
  | .release i =>
    match s.calls i with
    | .reading _ =>
      let (snapshot, flag) := s.snapshot.release
      some ⟨snapshot, Function.update s.calls i .ended, s.history ++ .ended i :: freed flag⟩
    | _ => none
  | .close i =>
    match s.calls i with
    | .idle =>
      let (snapshot, flag) := s.snapshot.close
      some ⟨snapshot, Function.update s.calls i .waiting, s.history ++ .closing i :: freed flag⟩
    | _ => none
  | .wake i =>
    match s.calls i with
    | .waiting =>
      if s.snapshot.closeDone then
        some { s with calls := Function.update s.calls i .returned, history := s.history ++ [.returned i] }
      else none
    | _ => none

/-! ### What a step does -/

section Inversion

variable {s s' : System V} {i : Nat}

theorem step_admit_ (hs : step s (.admit_ i) = some s') :
    s.calls i = .idle ∧
      (s.snapshot.closing = true ∧
          s' = { s with calls := update s.calls i (.refused .failedPrecondition) } ∨
        s.snapshot.closing = false ∧
          s' = ⟨{ s.snapshot with active := s.snapshot.active + 1 },
            update s.calls i (.reading s.snapshot.version), s.history ++ [.admitted i]⟩) := by
  simp only [step, Snapshot.admit_] at hs
  split at hs
  next hi =>
    refine ⟨hi, ?_⟩
    cases hc : s.snapshot.closing <;> simp only [hc, if_true, if_false, Bool.false_eq_true] at hs <;> cases hs
    · exact .inr ⟨rfl, by simp [hc]⟩
    · exact .inl ⟨rfl, rfl⟩
  next => cases hs

theorem step_use (hs : step s (.use i) = some s') :
    (s.calls i).isReading = true ∧ s' = { s with history := s.history ++ [.used i] } := by
  simp only [step] at hs
  split at hs
  next hi => cases hs; exact ⟨by rw [hi]; rfl, rfl⟩
  next => cases hs

theorem step_release (hs : step s (.release i) = some s') :
    (s.calls i).isReading = true ∧
      s' = ⟨s.snapshot.release.1, update s.calls i .ended,
        s.history ++ .ended i :: freed s.snapshot.release.2⟩ := by
  simp only [step] at hs
  split at hs
  next hi => cases hs; exact ⟨by rw [hi]; rfl, rfl⟩
  next => cases hs

theorem step_close (hs : step s (.close i) = some s') :
    s.calls i = .idle ∧
      s' = ⟨s.snapshot.close.1, update s.calls i .waiting,
        s.history ++ .closing i :: freed s.snapshot.close.2⟩ := by
  simp only [step] at hs
  split at hs
  next hi => cases hs; exact ⟨hi, rfl⟩
  next => cases hs

theorem step_wake (hs : step s (.wake i) = some s') :
    s.calls i = .waiting ∧ s.snapshot.closeDone = true ∧
      s' = { s with calls := update s.calls i .returned, history := s.history ++ [.returned i] } := by
  simp only [step] at hs
  split at hs
  next hi =>
    split at hs
    next hdone => cases hs; exact ⟨hi, hdone, rfl⟩
    next => cases hs
  next => cases hs

end Inversion

/-! ## Every run is one of the drain -/

/-- The snapshot of `v` as a drain. The version is dropped, and the channel closed, as soon as they can be. -/
structure Mirrors (v : V) (s : Snapshot V) (d : Drain Nat) : Prop where
  closing : s.closing = d.closing
  active : s.active = d.reading.card
  version : s.version = if d.closing = true ∧ d.reading = ∅ then none else some v
  closeDone : s.closeDone = decide (d.closing = true ∧ d.reading = ∅)
  stage : d.stage = if d.closing = true ∧ d.reading = ∅ then .announced else .pinned

/-- The drain once what can be dropped has been. -/
def settle (d : Drain Nat) : Drain Nat :=
  { d with stage := if d.closing = true ∧ d.reading = ∅ then .announced else .pinned }

variable {v : V} {snapshot : Snapshot V} {d : Drain Nat}

variable {i : Nat}

theorem Mirrors.stage_of_mem (h : Mirrors v snapshot d) (hi : i ∈ d.reading) : d.stage = .pinned := by
  rw [h.stage, if_neg]
  rintro ⟨-, he⟩
  rw [he] at hi
  cases hi

theorem Mirrors.release (h : Mirrors v snapshot d) {i : Nat} (hi : i ∈ d.reading) :
    Mirrors v snapshot.release.1 (settle { d with reading := d.reading.erase i }) ∧
      snapshot.release.2 = decide (d.closing = true ∧ d.reading.erase i = ∅) := by
  have hversion : snapshot.version = some v := by
    rw [h.version, if_neg]
    rintro ⟨-, he⟩
    rw [he] at hi
    cases hi
  have hactive : snapshot.active - 1 = (d.reading.erase i).card := by
    rw [h.active, Finset.card_erase_of_mem hi]
    have := Finset.card_pos.2 ⟨i, hi⟩
    omega
  have hempty : d.reading.erase i = ∅ ↔ snapshot.active - 1 = 0 := by rw [hactive, ← Finset.card_eq_zero]; omega
  obtain ⟨hclosing, -, hv, hdone, hstage⟩ := h
  unfold Snapshot.release
  dsimp only
  split
  · refine ⟨?_, by grind⟩
    constructor <;> grind [settle]
  · refine ⟨?_, by grind⟩
    constructor <;> grind [settle]

theorem Mirrors.close (h : Mirrors v snapshot d) :
    Mirrors v snapshot.close.1 (settle { d with closing := true }) ∧
      snapshot.close.2 = decide (d.closing = false ∧ d.reading = ∅) := by
  have hempty : d.reading = ∅ ↔ snapshot.active = 0 := by rw [h.active, ← Finset.card_eq_zero]; omega
  obtain ⟨hclosing, hactive, hv, hdone, hstage⟩ := h
  unfold Snapshot.close
  dsimp only
  split
  · refine ⟨?_, by grind⟩
    constructor <;> grind [settle]
  · split
    · refine ⟨?_, by grind⟩
      constructor <;> grind [settle]
    · refine ⟨?_, by grind⟩
      constructor <;> grind [settle]

/-- The calls on the snapshot of `v` as those of a drain. -/
structure CallsOf (v : V) (calls : Nat → Call V) (d : Drain Nat) : Prop where
  reading : ∀ i, i ∈ d.reading ↔ (calls i).isReading = true
  admitted : ∀ i, i ∈ d.admitted → calls i ≠ .idle
  pinned : ∀ i version, calls i = .reading version → version = some v
  waiting : ∀ i, calls i = .waiting → d.closing = true

/-- The whole system as a drain. -/
structure Sim (v : V) (s : System V) (d : Drain Nat) : Prop where
  allowed : Drain.Allows s.history d
  snapshot : Mirrors v s.snapshot d
  calls : CallsOf v s.calls d

theorem Sim.start (v : V) : Sim v (.start v) .start where
  allowed := rfl
  snapshot := ⟨rfl, rfl, rfl, rfl, rfl⟩
  calls := ⟨fun i => by simp [Drain.start, System.start, Call.isReading], by rintro _ ⟨⟩, by rintro _ _ ⟨⟩, by rintro _ ⟨⟩⟩

/-- The events of a step that may drop the version. -/
theorem allows_freed {history d' e flag} (ha : Drain.Allows history d) (he : d.next e = some d')
    (hflag : flag = decide (d'.stage = .pinned ∧ d'.closing = true ∧ d'.reading = ∅))
    (hstage : d'.stage ≠ .pinned → settle d' = d') : Drain.Allows (history ++ e :: freed flag) (settle d') := by
  refine run_append.2 ⟨d, ha, ?_⟩
  simp only [run, he, hflag]
  by_cases hpinned : d'.stage = .pinned
  · by_cases hdone : d'.closing = true ∧ d'.reading = ∅
    · simp [freed, hdone, run, Drain.next, hpinned, settle]
    · simp [freed, hdone, run, settle, ← hpinned]
  · simp [freed, hpinned, run, hstage hpinned]

variable {s s' : System V}

theorem Sim.admit_ (h : Sim v s d) (hs : step s (.admit_ i) = some s') : ∃ d', Sim v s' d' := by
  obtain ⟨ha, ⟨hc, hact, hv, hcd, hst⟩, hr, hadm, hp, hw⟩ := h
  obtain ⟨hi, ⟨-, rfl⟩ | ⟨hopen, rfl⟩⟩ := step_admit_ hs
  · exact ⟨d, ha, ⟨hc, hact, hv, hcd, hst⟩, by constructor <;> grind⟩
  · have hnew : i ∉ d.admitted := fun hin => hadm i hin hi
    have hnot : i ∉ d.reading := by grind
    refine ⟨_, run_concat.2 ⟨d, ha, if_pos ⟨hc ▸ hopen, hnew⟩⟩, ?_, ?_⟩
    · constructor <;> grind
    · constructor <;> grind

theorem Sim.use (h : Sim v s d) (hs : step s (.use i) = some s') : ∃ d', Sim v s' d' := by
  obtain ⟨hi, rfl⟩ := step_use hs
  exact ⟨d, run_concat.2 ⟨d, h.allowed, if_pos ((h.calls.reading i).2 hi)⟩, h.snapshot, h.calls⟩

theorem Sim.release (h : Sim v s d) {i : Nat} (hs : step s (.release i) = some s') : ∃ d', Sim v s' d' := by
  obtain ⟨hi, rfl⟩ := step_release hs
  have hin : i ∈ d.reading := (h.calls.reading i).2 hi
  have hpinned := h.snapshot.stage_of_mem hin
  obtain ⟨hm, hflag⟩ := h.snapshot.release hin
  refine ⟨_, allows_freed h.allowed (if_pos hin) (by simp [hflag, hpinned]) (by simp [hpinned]), hm, ?_⟩
  obtain ⟨hr, hadm, hp, hw⟩ := h.calls
  constructor <;> grind [settle]

theorem Sim.close (h : Sim v s d) (hs : step s (.close i) = some s') : ∃ d', Sim v s' d' := by
  obtain ⟨hi, rfl⟩ := step_close hs
  obtain ⟨hm, hflag⟩ := h.snapshot.close
  have hstage := h.snapshot.stage
  refine ⟨_, allows_freed h.allowed rfl ?_ ?_, hm, ?_⟩
  · rw [hflag]
    grind
  · grind [settle]
  obtain ⟨hr, hadm, hp, hw⟩ := h.calls
  constructor <;> grind [settle]

theorem Sim.wake (h : Sim v s d) {i : Nat} (hs : step s (.wake i) = some s') : ∃ d', Sim v s' d' := by
  obtain ⟨hi, hdone, rfl⟩ := step_wake hs
  have hstage : d.stage = .announced := by
    rw [h.snapshot.closeDone, decide_eq_true_eq] at hdone
    rw [h.snapshot.stage, if_pos hdone]
  refine ⟨d, run_concat.2 ⟨d, h.allowed, if_pos hstage⟩, h.snapshot, ?_⟩
  obtain ⟨hr, hadm, hp, hw⟩ := h.calls
  constructor <;> grind

theorem Sim.step (h : Sim v s d) {a : Action} (hs : step s a = some s') : ∃ d', Sim v s' d' := by
  cases a with
  | admit_ i => exact h.admit_ hs
  | use i => exact h.use hs
  | release i => exact h.release hs
  | close i => exact h.close hs
  | wake i => exact h.wake hs

theorem exists_sim (h : Reachable step (· = System.start v) s) : ∃ d, Sim v s d :=
  ReachableBy.invariant (I := fun s => ∃ d, Sim v s d) (by rintro _ rfl; exact ⟨_, Sim.start v⟩)
    (fun _ _ _ ⟨_, hi⟩ _ hs => hi.step hs) h

/-! ## Every close returns -/

/-- The history tells how far each close has come. -/
structure Logged (s : System V) : Prop where
  closing : ∀ i, .closing i ∈ s.history ↔ s.calls i = .waiting ∨ s.calls i = .returned
  returned : ∀ i, .returned i ∈ s.history ↔ s.calls i = .returned

theorem Logged.step {a : Action} (h : Logged s) (hs : step s a = some s') : Logged s' := by
  obtain ⟨hcl, hre⟩ := h
  cases a with
  | admit_ i =>
    obtain ⟨hi, ⟨-, rfl⟩ | ⟨-, rfl⟩⟩ := step_admit_ hs
    · constructor <;> grind
    · constructor <;> grind
  | use i => obtain ⟨-, rfl⟩ := step_use hs; constructor <;> grind
  | release i => obtain ⟨hi, rfl⟩ := step_release hs; constructor <;> grind [freed]
  | close i => obtain ⟨hi, rfl⟩ := step_close hs; constructor <;> grind [freed]
  | wake i => obtain ⟨hi, -, rfl⟩ := step_wake hs; constructor <;> grind

theorem logged (h : Reachable step (· = System.start v) s) : Logged s :=
  h.invariant (I := Logged) (by rintro _ rfl; constructor <;> simp [System.start]) fun _ _ _ hi _ hs => hi.step hs

theorem step_history (s : System V) (a : Action) (s' : System V) (hs : step s a = some s') :
    s.history <+: s'.history := by
  cases a with
  | admit_ i => obtain ⟨-, ⟨-, rfl⟩ | ⟨-, rfl⟩⟩ := step_admit_ hs <;> simp
  | use i => obtain ⟨-, rfl⟩ := step_use hs; simp
  | release i => obtain ⟨-, rfl⟩ := step_release hs; simp
  | close i => obtain ⟨-, rfl⟩ := step_close hs; simp
  | wake i => obtain ⟨-, -, rfl⟩ := step_wake hs; simp

/-- A closed channel stays closed, and a close waits until it is woken. -/
theorem step_waiting {a : Action} (hs : step s a = some s') (hdone : s.snapshot.closeDone = true)
    (hi : s.calls i = .waiting) :
    a ≠ .wake i ∧ s'.calls i = .waiting ∧ s'.snapshot.closeDone = true ∨ s'.calls i = .returned := by
  cases a with
  | admit_ j => obtain ⟨hj, ⟨-, rfl⟩ | ⟨-, rfl⟩⟩ := step_admit_ hs <;> grind
  | use j => obtain ⟨-, rfl⟩ := step_use hs; grind
  | release j => obtain ⟨hj, rfl⟩ := step_release hs; grind [Snapshot.release]
  | close j => obtain ⟨hj, rfl⟩ := step_close hs; grind [Snapshot.close]
  | wake j => obtain ⟨-, -, rfl⟩ := step_wake hs; grind

/-- The memory snapshot drains its readers. -/
theorem drains (v : V) : Drains step (· = System.start v) System.history (fun i a => a = .wake i) where
  safe _ hs := (exists_sim hs).elim fun _ hd => hd.allowed.safe
  returns x h0 hend hfair n c hc := by
    have hsim (m : Nat) : ∃ d, Sim v (x.state m) d := exists_sim (x.reached (.start h0) m)
    have hlog (m : Nat) : Logged (x.state m) := logged (x.reached (.start h0) m)
    obtain ⟨k, hck, hdrained⟩ := exists_drained step_history (fun m => (hsim m).imp fun _ hd => hd.allowed) hend hc
    have hdone : (x.state k).snapshot.closeDone = true := by
      obtain ⟨d, hd⟩ := hsim k
      rw [hd.snapshot.closeDone, decide_eq_true_eq]
      exact hdrained d hd.allowed
    rcases ((hlog k).closing c).1 hck with hwaiting | hreturned
    · obtain ⟨m, -, hr⟩ := (hfair c).leadsTo (n := k)
        (P := fun s => s.calls c = .waiting ∧ s.snapshot.closeDone = true) (Q := fun s => s.calls c = .returned)
        (fun m ⟨hw, hd⟩ => ⟨_, rfl, by simp [step, hw, hd]⟩)
        (fun m a ⟨hw, hd⟩ ha => step_waiting (x.moves m a ha) hd hw) ⟨hwaiting, hdone⟩
      exact ⟨m, ((hlog m).returned c).2 hr⟩
    · exact ⟨k, ((hlog k).returned c).2 hreturned⟩

end PolicyEngine.Memory.Lifetime
