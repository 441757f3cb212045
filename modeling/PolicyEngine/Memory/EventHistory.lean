import PolicyEngine.Memory.EventStream

/-!
# Everything the event stream has shown

An observer follows a run and collects each event the first time it is retained. What
it has collected for a namespace is the whole stream: one event for every commit, in
commit order.
-/

open PolicyEngine.Lib List

namespace PolicyEngine.Memory

/-- The retained events that are newer than any the namespace had before. -/
def appeared (s s' : Store) (ns : Bytes) : List EventRecord :=
  (s'.eventState ns).values.filter fun e => s.newest ns < e.sequence

/-- The system, and all events seen so far in each namespace. -/
structure Observed where
  system : System
  seen : Bytes → List EventRecord

/-- The event is the one the commit calls for. -/
def Describes (x : Committed) (e : EventRecord) : Prop :=
  e.value = { x.event with cursor := e.value.cursor, occurredAt := e.value.occurredAt }

/-- The commits of a namespace, of all kinds. -/
def commitsOf (ns : Bytes) (log : List Committed) : List Committed := log.filter (·.event.namespace_ = ns)

variable [Primitives]

def Observed.step (o : Observed) (a : Action) : Option Observed :=
  (o.system.step a).map fun s => ⟨s, fun ns => o.seen ns ++ appeared o.system.store s.store ns⟩

def Observed.Initial (o : Observed) : Prop := o.system.Initial ∧ o.seen = fun _ => []

abbrev Observed.Reached : Observed → Prop := Reachable Observed.step Observed.Initial

theorem Observed.step_eq_some {o o' : Observed} {a : Action} :
    o.step a = some o' ↔ o.system.step a = some o'.system ∧
      o'.seen = fun ns => o.seen ns ++ appeared o.system.store o'.system.store ns := by
  obtain ⟨s', seen'⟩ := o'
  simp only [Observed.step, Option.map_eq_some_iff, Observed.mk.injEq]
  constructor
  · rintro ⟨s, hs, rfl, rfl⟩
    exact ⟨hs, rfl⟩
  · rintro ⟨hs, hseen⟩
    exact ⟨s', hs, rfl, hseen.symm⟩

theorem Observed.Reached.system {o : Observed} (h : o.Reached) : o.system.Reached := by
  refine h.invariant (I := fun o => o.system.Reached) (fun o ho => .start ho.1) fun o a o' ho _ hs => ?_
  exact ho.extend (Observed.step_eq_some.1 hs).1

/-! ## The invariant -/

structure Stream (o : Observed) (ns : Bytes) : Prop where
  numbered : Numbered (o.seen ns)
  timed : Timed (o.seen ns)
  past : ∀ e ∈ o.seen ns, e.value.occurredAt ≤ o.system.store.effectiveTime
  bounded : (o.seen ns).length ≤ maxUint64
  retains : Retains (o.seen ns) (o.system.store.eventState ns)
  cursors : ∀ e ∈ o.seen ns,
    o.system.store.newCursorLocked ⟨.event, ns, [], e.sequence, zeroTime, []⟩ = .ok e.value.cursor
  commits : List.Forall₂ Describes (commitsOf ns o.system.log) (o.seen ns)

section Step

variable {o o' : Observed} {ns : Bytes}

variable {s : Store} {seen : List EventRecord}

omit [Primitives] in
/-- No retained event is newer than the newest. -/
theorem filter_newest_drop (h : Retains seen (s.eventState ns)) (hn : Numbered seen) (cut : Nat) :
    ((s.eventState ns).values.drop cut).filter (fun e => s.newest ns < e.sequence) = [] := by
  simp only [h.newest hn, List.filter_eq_nil_iff, decide_eq_true_eq, Nat.not_lt]
  intro e he
  obtain ⟨i, hi⟩ := getElem?_of_mem (mem_of_mem_drop he)
  have hseq := h.sequence hn hi
  have hlt := (List.getElem?_eq_some_iff.1 hi).1
  rw [h.values, List.length_drop] at hlt
  omega

variable {s' : Store}

omit [Primitives] in
/-- A dropped front brings no new events. -/
theorem appeared_of_drop (h : Retains seen (s.eventState ns)) (hn : Numbered seen) (cut : Nat)
    (hv : (s'.eventState ns).values = (s.eventState ns).values.drop cut) :
    appeared s s' ns = [] := by
  rw [appeared, hv, filter_newest_drop h hn]

variable {event : EventRecord}

omit [Primitives] in
/-- An appended event that is still there is the one that is new. -/
theorem appeared_of_append (h : Retains seen (s.eventState ns)) (hn : Numbered seen)
    (hseq : event.sequence = seen.length + 1) {cut : Nat} (hcut : cut ≤ (s.eventState ns).values.length)
    (hv : (s'.eventState ns).values = ((s.eventState ns).values ++ [event]).drop cut) : appeared s s' ns = [event] := by
  rw [appeared, hv, drop_append_of_le_length hcut, filter_append, filter_newest_drop h hn]
  simp [h.newest hn, hseq]

omit [Primitives] in
/-- A new event is never due: it has just happened, and it is the newest. -/
theorem cut_le_of_append {values now cut} (hcut : Cut (values ++ [event]) now cut)
    (htime : event.value.occurredAt = now) : cut ≤ values.length := by
  by_contra hlt
  have hdue := (hcut.2 values.length event (by simp)).1 (Nat.lt_of_not_le hlt)
  rcases hdue with hold | hcount
  · rw [htime] at hold
    have : ∀ t : Int, ¬ t ≤ t - 24 * 3600 * 1000000000 := by omega
    exact this now hold
  · simp [eventRetentionLimit, maxAggregateWorkItems] at hcount

/-- What a step does to one namespace: nothing, a prune for a listing, or an event for a commit and a prune. -/
inductive StreamStep (o o' : Observed) (ns : Bytes) : Prop
  | quiet : o'.system.store.eventState ns = o.system.store.eventState ns →
      commitsOf ns o'.system.log = commitsOf ns o.system.log → o'.seen ns = o.seen ns → StreamStep o o' ns
  | prune (cut : Nat) : Cut (o.system.store.eventState ns).values o'.system.store.effectiveTime cut →
      o'.system.store.eventState ns =
        ⟨(o.system.store.eventState ns).values.drop cut, (o.system.store.eventState ns).expiredThrough + cut⟩ →
      commitsOf ns o'.system.log = commitsOf ns o.system.log → o'.seen ns = o.seen ns → StreamStep o o' ns
  | append (x : Committed) (event : EventRecord) (cut : Nat) :
      Cut ((o.system.store.eventState ns).values ++ [event]) o'.system.store.effectiveTime cut →
      o'.system.store.eventState ns =
        ⟨((o.system.store.eventState ns).values ++ [event]).drop cut,
          (o.system.store.eventState ns).expiredThrough + cut⟩ →
      commitsOf ns o'.system.log = commitsOf ns o.system.log ++ [x] → o'.seen ns = o.seen ns ++ [event] →
      event.sequence = (o.seen ns).length + 1 → (o.seen ns).length ≠ maxUint64 → Describes x event →
      event.value.occurredAt = o'.system.store.effectiveTime →
      o.system.store.newCursorLocked ⟨.event, ns, [], event.sequence, zeroTime, []⟩ = .ok event.value.cursor →
      StreamStep o o' ns

theorem newCursorLocked_congr (hk : s'.cursorKey = s.cursorKey) (c : CursorState) :
    s'.newCursorLocked c = s.newCursorLocked c := by
  simp only [Store.newCursorLocked, Store.cursorPayload, Store.cursorScope, hk]

theorem Stream.step (h : Stream o ns) (hs : StreamStep o o' ns)
    (hclock : ClockStep o.system.store o'.system.store) : Stream o' ns := by
  have hpast : ∀ e ∈ o.seen ns, e.value.occurredAt ≤ o'.system.store.effectiveTime :=
    fun e he => Int.le_trans (h.past e he) hclock.time
  have hcursors : ∀ e ∈ o.seen ns,
      o'.system.store.newCursorLocked ⟨.event, ns, [], e.sequence, zeroTime, []⟩ = .ok e.value.cursor :=
    fun e he => (newCursorLocked_congr hclock.cursorKey _).trans (h.cursors e he)
  cases hs with
  | quiet hstate hlog hseen =>
    constructor <;> rw [hseen]
    · exact h.numbered
    · exact h.timed
    · exact hpast
    · exact h.bounded
    · rw [hstate]; exact h.retains
    · exact hcursors
    · rw [hlog]; exact h.commits
  | prune cut hcut hstate hlog hseen =>
    constructor <;> rw [hseen]
    · exact h.numbered
    · exact h.timed
    · exact hpast
    · exact h.bounded
    · have hle := hcut.1
      have hexp := h.retains.expired
      rw [h.retains.values, length_drop] at hle
      rw [hstate]
      exact ⟨by dsimp only; omega, by rw [h.retains.values, drop_drop]⟩
    · exact hcursors
    · rw [hlog]; exact h.commits
  | append x event cut hcut hstate hlog hseen hseq hmax hdesc htime hcursor =>
    have hbefore : ∀ e ∈ o.seen ns, e.value.occurredAt ≤ event.value.occurredAt :=
      fun e he => Int.le_trans (hpast e he) (Int.le_of_eq htime.symm)
    constructor <;> rw [hseen]
    · exact h.numbered.append hseq
    · exact h.timed.append hbefore
    · simp only [mem_append, mem_singleton]
      rintro e (he | rfl)
      exacts [hpast e he, Int.le_of_eq htime]
    · have := h.bounded
      rw [length_append, length_singleton]
      omega
    · have hle := cut_le_of_append hcut htime
      have hexp := h.retains.expired
      rw [h.retains.values, length_drop] at hle
      rw [hstate]
      refine ⟨by dsimp only; rw [length_append, length_singleton]; omega, ?_⟩
      dsimp only
      rw [h.retains.values, ← drop_append_of_le_length hexp, drop_drop]
    · simp only [mem_append, mem_singleton]
      rintro e (he | rfl)
      exacts [hcursors e he, (newCursorLocked_congr hclock.cursorKey _).trans hcursor]
    · rw [hlog]
      exact rel_append h.commits (.cons hdesc .nil)

omit [Primitives] in
theorem commitsOf_append (ns : Bytes) (log new : List Committed) :
    commitsOf ns (log ++ new) = commitsOf ns log ++ commitsOf ns new :=
  filter_append ..

omit [Primitives] in
theorem eventState_congr (h : s'.events ns = s.events ns) : s'.eventState ns = s.eventState ns := by
  rw [Store.eventState, Store.eventState, h]

/-- A namespace whose retained events do not change has seen nothing new. -/
theorem Stream.quiet (h : Stream o ns)
    (hseen : o'.seen ns = o.seen ns ++ appeared o.system.store o'.system.store ns)
    (hstate : o'.system.store.eventState ns = o.system.store.eventState ns)
    (hlog : commitsOf ns o'.system.log = commitsOf ns o.system.log) : StreamStep o o' ns := by
  refine .quiet hstate hlog ?_
  rw [hseen, appeared_of_drop h.retains h.numbered 0 (by rw [hstate, drop_zero]), append_nil]

theorem newEventLocked_value {input now} (h : s.newEventLocked input now = .ok event) :
    event.value.namespace_ = input.namespace_ ∧ event.value.occurredAt = now := by
  unfold Store.newEventLocked at h
  obtain ⟨sequence, -, h⟩ := bind_eq_ok.1 h
  obtain ⟨cursor, -, h⟩ := bind_eq_ok.1 h
  obtain ⟨value, hv, h⟩ := bind_eq_ok.1 h
  obtain ⟨rfl, -⟩ := newStateEvent_eq_ok.1 hv
  cases h
  exact ⟨rfl, rfl⟩

/-- The effect of a call's step on one namespace. -/
theorem Stream.effect (h : Stream o ns) (hseen : o'.seen ns = o.seen ns ++ appeared o.system.store o'.system.store ns)
    {id op op'} (hlog : o'.system.log = o.system.log ++ committed id op op')
    (he : EventEffect o.system.store o'.system.store id op op') (hclock : ClockStep o.system.store o'.system.store) :
    StreamStep o o' ns := by
  have hcommits : commitsOf ns o'.system.log = commitsOf ns o.system.log ++ commitsOf ns (committed id op op') := by
    rw [hlog, commitsOf_append]
  cases he with
  | none hnew hevents =>
    refine h.quiet hseen (eventState_congr (congrFun hevents ns)) ?_
    rw [hcommits, hnew]
    exact append_nil _
  | prune request position t hnew _ hevents _ =>
    have hsame : commitsOf ns o'.system.log = commitsOf ns o.system.log := by
      rw [hcommits, hnew]
      exact append_nil _
    by_cases hns : request.namespace_ = ns
    · subst hns
      obtain ⟨cut, hcut, hstate⟩ :=
        pruneEventsLocked_spec h.retains h.numbered h.timed o'.system.store.effectiveTime
      have hstate' := (eventState_congr (congrFun hevents _)).trans hstate
      refine .prune cut hcut hstate' hsame ?_
      rw [hseen, appeared_of_drop h.retains h.numbered cut (by rw [hstate']), append_nil]
    · refine h.quiet hseen (eventState_congr ((congrFun hevents ns).trans ?_)) hsame
      exact pruneEventsLocked_other _ _ (Ne.symm hns)
  | append x event hnew hmake hevents =>
    obtain ⟨hname, htime⟩ := newEventLocked_value hmake
    by_cases hns : x.event.namespace_ = ns
    · subst hns
      obtain ⟨hseq, hmax, hvalue, hcursor⟩ := newEventLocked_spec h.retains h.numbered rfl hmake
      have hbefore : ∀ e ∈ o.seen x.event.namespace_, e.value.occurredAt ≤ event.value.occurredAt :=
        fun e he => by rw [htime]; exact Int.le_trans (h.past e he) hclock.time
      obtain ⟨cut, hcut, hstate⟩ := appendEventLocked_spec h.retains h.numbered h.timed hname hseq hbefore
        o'.system.store.effectiveTime
      have hstate' := (eventState_congr (congrFun hevents _)).trans hstate
      refine .append x event cut hcut hstate' ?_ ?_ hseq hmax ?_ htime hcursor
      · rw [hcommits, hnew]
        simp [commitsOf]
      · rw [hseen, appeared_of_append h.retains h.numbered hseq (cut_le_of_append hcut htime) (by rw [hstate'])]
      · rw [Describes, htime]
        exact hvalue
    · refine h.quiet hseen (eventState_congr ((congrFun hevents ns).trans ?_)) ?_
      · exact appendEventLocked_other _ _ _ (by rw [hname]; exact Ne.symm hns)
      · rw [hcommits, hnew]
        simp [commitsOf, hns]

/-- Every action of the system, seen from one namespace. -/
theorem Stream.action (h : Stream o ns) {a : Action} (hs : o.step a = some o') :
    StreamStep o o' ns ∧ ClockStep o.system.store o'.system.store := by
  obtain ⟨hstep, hseen⟩ := Observed.step_eq_some.1 hs
  have hseen := congrFun hseen ns
  obtain ⟨s', seen'⟩ := o'
  rcases System.step_cases hstep with ⟨id, op, hn, hentry, hs'⟩ | ⟨id, reason, op, hc, hs'⟩ |
    ⟨id, input, ctx, op, op', store, hc, hop, hs'⟩ <;> obtain rfl : s' = _ := hs'
  · exact ⟨h.quiet hseen rfl rfl, Int.le_refl _, rfl⟩
  · exact ⟨h.quiet hseen rfl rfl, Int.le_refl _, rfl⟩
  · have hclock := Operation.step_clock hop
    exact ⟨h.effect hseen rfl (Operation.step_eventEffect hop id) hclock, hclock⟩

theorem stream_of_reached (h : o.Reached) (ns : Bytes) : Stream o ns := by
  refine h.invariant (I := fun o => Stream o ns) ?_ fun o a o' ho _ hs => ?_
  · rintro ⟨s, seen⟩ ⟨⟨key, hs⟩, hseen⟩
    obtain rfl : s = _ := hs
    obtain rfl : seen = _ := hseen
    exact ⟨nofun, .nil, nofun, Nat.zero_le _, ⟨Nat.le_refl _, rfl⟩, nofun, .nil⟩
  · obtain ⟨hstep, hclock⟩ := ho.action hs
    exact ho.step hstep hclock

end Step

end PolicyEngine.Memory
