import PolicyEngine.Sqlite.Lifetime

/-!
# Opening snapshots while the store closes

`Store.OpenSnapshot` and `Store.Close` of the SQLite store
(`store/sqlite/store.go`, `store/sqlite/snapshot.go`). An opener is counted from
`beginSnapshotOpen` to `endSnapshotOpen`; in between it pins views, closes those it
cannot use and registers the one it returns. `closeOwnedSnapshots` refuses further
openers, wakes the blocked ones, closes the views registered so far and waits for
the openers counted so far. Each pinned view runs as in `Sqlite.Lifetime`.
-/

open PolicyEngine.Lib

namespace PolicyEngine.Sqlite.Shutdown

/-- A pinned view with the calls on it. -/
abbrev View := Lifetime.System Unit

/-! ## Under `snapshotMu` -/

/-- The fields under the mutex. Channels made for `snapshotOpenersDone` are known by their number. -/
structure Registry where
  snapshotClosing : Bool
  /-- Whether the channel is closed. -/
  snapshotShutdown : Bool
  snapshotOpeners : Int
  snapshotOpenersDone : Option Nat
  snapshots : Finset Nat
  /-- How many channels have been made, -/
  made : Nat
  /-- and which were closed, in order. -/
  closed : List Nat

def Registry.start : Registry where
  snapshotClosing := false
  snapshotShutdown := false
  snapshotOpeners := 0
  snapshotOpenersDone := none
  snapshots := ∅
  made := 0
  closed := []

def Registry.beginSnapshotOpen (r : Registry) : Option Registry :=
  if r.snapshotClosing then none
  else
    let r := { r with snapshotOpeners := r.snapshotOpeners + 1 }
    if r.snapshotOpeners == 1 then some { r with snapshotOpenersDone := some r.made, made := r.made + 1 } else some r

def Registry.endSnapshotOpen (r : Registry) : Registry :=
  if r.snapshotOpeners == 0 then r
  else
    let r := { r with snapshotOpeners := r.snapshotOpeners - 1 }
    match r.snapshotOpenersDone with
    | some done => if r.snapshotOpeners == 0 then { r with closed := r.closed ++ [done] } else r
    | none => r

def Registry.registerSnapshot (r : Registry) (view : Nat) : Option Registry :=
  if r.snapshotClosing then none else some { r with snapshots := insert view r.snapshots }

def Registry.unregisterSnapshot (r : Registry) (view : Nat) : Registry :=
  { r with snapshots := r.snapshots.erase view }

/-- The first half of `closeOwnedSnapshots`. -/
def Registry.beginClose (r : Registry) : Registry :=
  if r.snapshotClosing then r else { r with snapshotClosing := true, snapshotShutdown := true }

/-! ## The callers -/

/-- Why an opener closes a view, and so how it goes on. -/
inductive Reason
  /-- The store is closing. -/
  | refused
  /-- The generation is too low, at the first or the second look. -/
  | stale (second : Bool)
  /-- The context ended after the view was registered. -/
  | cancelled (err : ErrorCategory)

/-- How far an `OpenSnapshot` has come. -/
inductive Opener
  | idle
  | refused (err : ErrorCategory)
  | started
  | looping (second : Bool)
  /-- It holds a connection but no view yet. -/
  | pinning (second : Bool)
  /-- `reached` tells whether the generation is high enough. -/
  | opened (second : Bool) (view : Nat) (reached : Bool)
  | registered (view : Nat)
  | discarding (view : Nat) (reason : Reason)
  | closing (view call : Nat) (reason : Reason)
  | blocked
  | woken
  | leaving (result : Except ErrorCategory Nat)
  | done (result : Except ErrorCategory Nat)

/-- Between `beginSnapshotOpen` and `endSnapshotOpen`. -/
@[grind]
def Opener.inFlight : Opener → Bool
  | .idle | .refused _ | .done _ => false
  | _ => true

/-- The view an opener has yet to register or to close. -/
@[grind]
def Opener.view : Opener → Option Nat
  | .opened _ view _ | .discarding view _ | .closing view _ _ => some view
  | _ => none

/-- How far a `Store.Close` has come. -/
inductive Closer
  | idle
  /-- It runs the body of `closeOnce`. -/
  | entered
  | draining (remaining : Finset Nat) (first : Option ErrorCategory) (done : Option Nat) (opening : Int)
  | closing (view call : Nat) (remaining : Finset Nat) (first : Option ErrorCategory) (done : Option Nat)
      (opening : Int)
  | awaiting (done : Nat) (first : Option ErrorCategory)
  /-- `closeOwnedSnapshots` has returned. -/
  | drained (first : Option ErrorCategory)
  /-- Another call runs the body. -/
  | following
  | returned (err : Option ErrorCategory)

inductive Once
  | fresh
  | running
  | finished
  deriving DecidableEq

structure State where
  registry : Registry
  closeOnce : Once
  closeErr : Option ErrorCategory
  /-- Whether `db.closed` is closed. -/
  dbClosed : Bool
  views : Nat → Option View
  /-- The views that callers have been given. -/
  given : Finset Nat
  openers : Nat → Opener
  closers : Nat → Closer

def State.start : State where
  registry := .start
  closeOnce := .fresh
  closeErr := none
  dbClosed := false
  views _ := none
  given := ∅
  openers _ := .idle
  closers _ := .idle

/-- What an opener meets on its way outside the store's mutex: contexts, the reader pool and the database. -/
inductive Input
  /-- A check before `beginSnapshotOpen` fails. -/
  | reject (err : ErrorCategory)
  | timestamp (ok : Bool)
  /-- The context and the reader pool. -/
  | acquire (err : Option ErrorCategory)
  /-- `BEGIN` or reading the head fails; the connection is given back. -/
  | unpin (err : ErrorCategory)
  | stale
  /-- The context after the view was registered. -/
  | context (err : Option ErrorCategory)
  | changed
  | shutdown
  | closed
  | ended
  /-- The context after the wait. -/
  | resume (err : Option ErrorCategory)

/-- The steps of an opener that change nothing shared. -/
def Opener.move (shutdown dbClosed : Bool) : Opener → Input → Option Opener
  | .idle, .reject err => some (.refused err)
  | .started, .timestamp ok => some (if ok then .looping false else .leaving (.error .invalidArgument))
  | .looping second, .acquire none => some (.pinning second)
  | .looping _, .acquire (some err) => some (.leaving (.error err))
  | .pinning _, .unpin err => some (.leaving (.error err))
  | .opened second view false, .stale => some (.discarding view (.stale second))
  | .registered view, .context none => some (.leaving (.ok view))
  | .registered view, .context (some err) => some (.discarding view (.cancelled err))
  -- the select of a blocked opener
  | .blocked, .changed => some .woken
  | .blocked, .ended => some .woken
  | .blocked, .shutdown => if shutdown then some .woken else none
  | .blocked, .closed => if dbClosed then some .woken else none
  | .woken, .resume (some err) => some (.leaving (.error err))
  | .woken, .resume none => some (if shutdown || dbClosed then .leaving (.error .unavailable) else .looping false)
  | _, _ => none

/-- How an opener goes on when its view is closed with `closeErr`; `err` is the context's. -/
def Reason.next (closeErr err : Option ErrorCategory) : Reason → Opener
  | .refused => .leaving (.error ((err <|> closeErr).getD .unavailable))
  | .stale second =>
    match closeErr with
    | some e => .leaving (.error (err.getD e))
    | none => if second then .blocked else .looping true
  | .cancelled e => .leaving (.error e)

inductive Action
  /-- A step of a call on a view. -/
  | view (view : Nat) (a : Lifetime.Action)
  | move (i : Nat) (input : Input)
  | begin_ (i : Nat)
  | pin (i view : Nat) (reached : Bool)
  | register (i : Nat)
  | discard (i call : Nat)
  | discarded (i : Nat) (err : Option ErrorCategory)
  | end_ (i : Nat)
  | close (j : Nat)
  | capture (j : Nat)
  | closeView (j view call : Nat)
  | viewClosed (j : Nat)
  | await (j : Nat)
  | wake (j : Nat)
  | closeDatabase (j : Nat) (err : Option ErrorCategory)
  | follow (j : Nat)

/-- Callers read and close the views they were given; the rest of a call runs on its own. -/
def permitted (given : Finset Nat) (view : Nat) : Lifetime.Action → Bool
  | .register => false
  | .admit_ _ | .close _ => view ∈ given
  | _ => true

/-- Taking the view off the list is the store's part of a call on it. -/
def Registry.onView (r : Registry) (view : Nat) : Lifetime.Action → Registry
  | .unregister _ => r.unregisterSnapshot view
  | _ => r

/-- A call on a view takes a step. -/
def State.stepView (s : State) (view : Nat) (a : Lifetime.Action) : Option State :=
  match s.views view with
  | none => none
  | some sys =>
    match Lifetime.step sys a with
    | none => none
    | some sys' =>
      some { s with views := Function.update s.views view (some sys'), registry := s.registry.onView view a }

/-- Whether a close on a view has returned, and with what. -/
def State.closed? (s : State) (view call : Nat) : Option (Option ErrorCategory) :=
  match s.views view with
  | none => none
  | some sys =>
    match sys.calls call with
    | .returned err => some err
    | _ => none

def State.setOpener (s : State) (i : Nat) (o : Opener) : State :=
  { s with openers := Function.update s.openers i o }

def State.setCloser (s : State) (j : Nat) (c : Closer) : State :=
  { s with closers := Function.update s.closers j c }

/-- `OpenSnapshot`. -/
def stepOpener (s : State) : Action → Option State
  | .move i input =>
    (Opener.move s.registry.snapshotShutdown s.dbClosed (s.openers i) input).map (s.setOpener i)
  | .begin_ i =>
    match s.openers i with
    | .idle =>
      match s.registry.beginSnapshotOpen with
      | none => some (s.setOpener i (.refused .unavailable))
      | some registry => some ({ s with registry }.setOpener i .started)
    | _ => none
  | .pin i view reached =>
    match s.openers i, s.views view with
    | .pinning second, none =>
      some ({ s with views := Function.update s.views view (some (.start ())) }.setOpener i (.opened second view reached))
    | _, _ => none
  | .register i =>
    match s.openers i with
    | .opened _ view true =>
      match s.registry.registerSnapshot view with
      | none => some (s.setOpener i (.discarding view .refused))
      | some registry => (State.stepView { s with registry } view .register).map fun s' => s'.setOpener i (.registered view)
    | _ => none
  | .discard i call =>
    match s.openers i with
    | .discarding view reason => (s.stepView view (.close call)).map fun s' => s'.setOpener i (.closing view call reason)
    | _ => none
  | .discarded i err =>
    match s.openers i with
    | .closing view call reason => (s.closed? view call).map fun closeErr => s.setOpener i (reason.next closeErr err)
    | _ => none
  | .end_ i =>
    match s.openers i with
    | .leaving result =>
      let given := match result with
        | .ok view => insert view s.given
        | .error _ => s.given
      some ({ s with registry := s.registry.endSnapshotOpen, given }.setOpener i (.done result))
    | _ => none
  | _ => none

/-- `Close`. -/
def stepCloser (s : State) : Action → Option State
  | .close j =>
    match s.closers j with
    | .idle =>
      match s.closeOnce with
      | .fresh => some ({ s with closeOnce := .running }.setCloser j .entered)
      | .running => some (s.setCloser j .following)
      | .finished => some (s.setCloser j (.returned s.closeErr))
    | _ => none
  | .capture j =>
    match s.closers j with
    | .entered =>
      let registry := s.registry.beginClose
      some ({ s with registry }.setCloser j
        (.draining registry.snapshots none registry.snapshotOpenersDone registry.snapshotOpeners))
    | _ => none
  | .closeView j view call =>
    match s.closers j with
    | .draining remaining first done opening =>
      if view ∈ remaining then
        (s.stepView view (.close call)).map fun s' =>
          s'.setCloser j (.closing view call (remaining.erase view) first done opening)
      else none
    | _ => none
  | .viewClosed j =>
    match s.closers j with
    | .closing view call remaining first done opening =>
      (s.closed? view call).map fun err => s.setCloser j (.draining remaining (first <|> err) done opening)
    | _ => none
  | .await j =>
    match s.closers j with
    | .draining remaining first done opening =>
      if remaining = ∅ then
        match done with
        | some channel => some (s.setCloser j (if 0 < opening then .awaiting channel first else .drained first))
        | none => some (s.setCloser j (.drained first))
      else none
    | _ => none
  | .wake j =>
    match s.closers j with
    | .awaiting done first => if done ∈ s.registry.closed then some (s.setCloser j (.drained first)) else none
    | _ => none
  | .closeDatabase j err =>
    match s.closers j with
    | .drained first =>
      let closeErr := first <|> err
      some ({ s with dbClosed := true, closeOnce := .finished, closeErr }.setCloser j (.returned closeErr))
    | _ => none
  | .follow j =>
    match s.closers j with
    | .following => if s.closeOnce = .finished then some (s.setCloser j (.returned s.closeErr)) else none
    | _ => none
  | _ => none

def step (s : State) : Action → Option State
  | .view view a => if permitted s.given view a then s.stepView view a else none
  | a => stepOpener s a <|> stepCloser s a

/-! ## What a step does -/

variable {s s' : State}

theorem stepView_eq_some {view a} (h : s.stepView view a = some s') :
    ∃ sys sys', s.views view = some sys ∧ Lifetime.step sys a = some sys' ∧
      s' = { s with views := Function.update s.views view (some sys'), registry := s.registry.onView view a } := by
  unfold State.stepView at h
  split at h
  · cases h
  next sys hv =>
    split at h
    · cases h
    next sys' hstep => exact ⟨sys, sys', hv, hstep, (Option.some.inj h).symm⟩

theorem closed?_eq_some {view call err} (h : s.closed? view call = some err) :
    ∃ sys, s.views view = some sys ∧ sys.calls call = .returned err := by
  unfold State.closed? at h
  split at h
  · cases h
  next sys hv =>
    split at h
    next hc => cases h; exact ⟨sys, hv, hc⟩
    · cases h

theorem beginSnapshotOpen_eq_none {r : Registry} (h : r.beginSnapshotOpen = none) : r.snapshotClosing = true := by
  unfold Registry.beginSnapshotOpen at h
  split at h
  next hc => exact hc
  · dsimp only at h
    split at h <;> cases h

theorem registerSnapshot_cases (r : Registry) (view : Nat) :
    r.snapshotClosing = true ∧ r.registerSnapshot view = none ∨
      r.snapshotClosing = false ∧ r.registerSnapshot view = some { r with snapshots := insert view r.snapshots } := by
  unfold Registry.registerSnapshot
  cases r.snapshotClosing <;> simp

/-- Everything a step can do. -/
inductive Effect (s : State) : State → Prop
  | view {view : Nat} {a : Lifetime.Action} {sys sys' : View} : s.views view = some sys →
      Lifetime.step sys a = some sys' →
      Effect s { s with views := Function.update s.views view (some sys'), registry := s.registry.onView view a }
  | move {i : Nat} {input : Input} {o : Opener} :
      Opener.move s.registry.snapshotShutdown s.dbClosed (s.openers i) input = some o → Effect s (s.setOpener i o)
  | refuse {i : Nat} : s.openers i = .idle → s.registry.snapshotClosing = true →
      Effect s (s.setOpener i (.refused .unavailable))
  | begin_ {i : Nat} {registry : Registry} : s.openers i = .idle → s.registry.beginSnapshotOpen = some registry →
      Effect s ({ s with registry }.setOpener i .started)
  | pin {i view : Nat} {second reached : Bool} : s.openers i = .pinning second → s.views view = none →
      Effect s ({ s with views := Function.update s.views view (some (.start ())) }.setOpener i
        (.opened second view reached))
  | turnAway {i view : Nat} {second : Bool} : s.openers i = .opened second view true →
      s.registry.snapshotClosing = true → Effect s (s.setOpener i (.discarding view .refused))
  | register {i view : Nat} {second : Bool} {sys sys' : View} : s.openers i = .opened second view true →
      s.registry.snapshotClosing = false → s.views view = some sys → Lifetime.step sys .register = some sys' →
      Effect s ({ s with
        registry := { s.registry with snapshots := insert view s.registry.snapshots }
        views := Function.update s.views view (some sys') }.setOpener i (.registered view))
  | discard {i view call : Nat} {reason : Reason} {sys sys' : View} : s.openers i = .discarding view reason →
      s.views view = some sys → Lifetime.step sys (.close call) = some sys' →
      Effect s ({ s with views := Function.update s.views view (some sys') }.setOpener i (.closing view call reason))
  | discarded {i view call : Nat} {reason : Reason} {sys : View} {closeErr err : Option ErrorCategory} :
      s.openers i = .closing view call reason → s.views view = some sys → sys.calls call = .returned closeErr →
      Effect s (s.setOpener i (reason.next closeErr err))
  | end_ {i : Nat} {result : Except ErrorCategory Nat} {given : Finset Nat} : s.openers i = .leaving result →
      Effect s ({ s with registry := s.registry.endSnapshotOpen, given }.setOpener i (.done result))
  | enter {j : Nat} : s.closers j = .idle → s.closeOnce = .fresh →
      Effect s ({ s with closeOnce := .running }.setCloser j .entered)
  | follow {j : Nat} : s.closers j = .idle → s.closeOnce = .running → Effect s (s.setCloser j .following)
  | late {j : Nat} : s.closeOnce = .finished → Effect s (s.setCloser j (.returned s.closeErr))
  | capture {j : Nat} : s.closers j = .entered →
      Effect s ({ s with registry := s.registry.beginClose }.setCloser j
        (.draining s.registry.beginClose.snapshots none s.registry.beginClose.snapshotOpenersDone
          s.registry.beginClose.snapshotOpeners))
  | closeView {j view call : Nat} {remaining : Finset Nat} {first : Option ErrorCategory} {done : Option Nat}
      {opening : Int} {sys sys' : View} : s.closers j = .draining remaining first done opening → view ∈ remaining →
      s.views view = some sys → Lifetime.step sys (.close call) = some sys' →
      Effect s ({ s with views := Function.update s.views view (some sys') }.setCloser j
        (.closing view call (remaining.erase view) first done opening))
  | viewClosed {j view call : Nat} {remaining : Finset Nat} {first err : Option ErrorCategory} {done : Option Nat}
      {opening : Int} {sys : View} : s.closers j = .closing view call remaining first done opening →
      s.views view = some sys → sys.calls call = .returned err →
      Effect s (s.setCloser j (.draining remaining (first <|> err) done opening))
  | await {j done : Nat} {first : Option ErrorCategory} {opening : Int} :
      s.closers j = .draining ∅ first (some done) opening → 0 < opening → Effect s (s.setCloser j (.awaiting done first))
  | pass {j : Nat} {done : Option Nat} {first : Option ErrorCategory} {opening : Int} :
      s.closers j = .draining ∅ first done opening → done = none ∨ ¬ 0 < opening →
      Effect s (s.setCloser j (.drained first))
  | wake {j done : Nat} {first : Option ErrorCategory} : s.closers j = .awaiting done first →
      done ∈ s.registry.closed → Effect s (s.setCloser j (.drained first))
  | closeDatabase {j : Nat} {first closeErr : Option ErrorCategory} : s.closers j = .drained first →
      Effect s ({ s with dbClosed := true, closeOnce := .finished, closeErr }.setCloser j (.returned closeErr))

variable {a : Action}

theorem effect_of_stepOpener (h : stepOpener s a = some s') : Effect s s' := by
  cases a <;> simp only [stepOpener] at h
  case move i input =>
    obtain ⟨o, ho, rfl⟩ := Option.map_eq_some_iff.1 h
    exact .move ho
  case begin_ i =>
    split at h
    next hi =>
      split at h
      next hb => cases h; exact .refuse hi (beginSnapshotOpen_eq_none hb)
      next registry hb => cases h; exact .begin_ hi hb
    · cases h
  case pin i view reached =>
    split at h
    next second hi hv => cases h; exact .pin hi hv
    · cases h
  case register i =>
    split at h
    next second view hi =>
      rcases registerSnapshot_cases s.registry view with ⟨hc, hr⟩ | ⟨hc, hr⟩ <;> rw [hr] at h
      · cases h
        exact .turnAway hi hc
      · obtain ⟨s₁, h₁, rfl⟩ := Option.map_eq_some_iff.1 h
        obtain ⟨sys, sys', hv, hs, rfl⟩ := stepView_eq_some h₁
        exact .register hi hc hv hs
    · cases h
  case discard i call =>
    split at h
    next view reason hi =>
      obtain ⟨s₁, h₁, rfl⟩ := Option.map_eq_some_iff.1 h
      obtain ⟨sys, sys', hv, hs, rfl⟩ := stepView_eq_some h₁
      exact .discard hi hv hs
    · cases h
  case discarded i err =>
    split at h
    next view call reason hi =>
      obtain ⟨closeErr, hc, rfl⟩ := Option.map_eq_some_iff.1 h
      obtain ⟨sys, hv, hcall⟩ := closed?_eq_some hc
      exact .discarded hi hv hcall
    · cases h
  case end_ i =>
    split at h
    next result hi => cases h; exact .end_ hi
    · cases h
  all_goals cases h

theorem effect_of_stepCloser (h : stepCloser s a = some s') : Effect s s' := by
  cases a <;> simp only [stepCloser] at h
  case close j =>
    split at h
    next hj =>
      split at h <;> cases h
      next ho => exact .enter hj ho
      next ho => exact .follow hj ho
      next ho => exact .late ho
    · cases h
  case capture j =>
    split at h
    next hj => cases h; exact .capture hj
    · cases h
  case closeView j view call =>
    split at h
    next hj =>
      split at h
      next hin =>
        obtain ⟨s₁, h₁, rfl⟩ := Option.map_eq_some_iff.1 h
        obtain ⟨sys, sys', hv, hs, rfl⟩ := stepView_eq_some h₁
        exact .closeView hj hin hv hs
      · cases h
    · cases h
  case viewClosed j =>
    split at h
    next hj =>
      obtain ⟨err, hc, rfl⟩ := Option.map_eq_some_iff.1 h
      obtain ⟨sys, hv, hcall⟩ := closed?_eq_some hc
      exact .viewClosed hj hv hcall
    · cases h
  case await j =>
    split at h
    next remaining first done opening hj =>
      split at h
      next he =>
        subst he
        split at h
        next channel =>
          cases h
          split
          next hpos => exact .await hj hpos
          next hpos => exact .pass hj (.inr hpos)
        next => cases h; exact .pass hj (.inl rfl)
      · cases h
    · cases h
  case wake j =>
    split at h
    next hj =>
      split at h
      next hc => cases h; exact .wake hj hc
      · cases h
    · cases h
  case closeDatabase j err =>
    split at h
    next hj => cases h; exact .closeDatabase hj
    · cases h
  case follow j =>
    split at h
    next hj =>
      split at h
      next hc => cases h; exact .late hc
      · cases h
    · cases h
  all_goals cases h

theorem effect_of_step (h : step s a = some s') : Effect s s' := by
  unfold step at h
  split at h
  · split at h
    · obtain ⟨sys, sys', hv, hs, rfl⟩ := stepView_eq_some h
      exact .view hv hs
    · cases h
  · rcases (Option.orElse_eq_some _ _ _).1 h with h | ⟨-, h⟩
    · exact effect_of_stepOpener h
    · exact effect_of_stepCloser h

end PolicyEngine.Sqlite.Shutdown
