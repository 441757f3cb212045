import PolicyEngine.Memory.Answers
import PolicyEngine.Memory.Cursors

/-!
# The event stream of the memory store

Each namespace has one sequence of events, one for each of its commits, numbered from
one and with times that never go back. The store retains an end of it; a prune takes
from the front exactly what has expired. An observer beside the store collects every
event that shows up; the store itself forgets the pruned ones.
-/

open PolicyEngine.Lib Function List

namespace PolicyEngine.Memory

/-! ## Searching -/

section Search

variable {values : List EventRecord} {after : EventRecord → Bool}

/-- Everything before `low` fails the test, everything from `high` on passes it. -/
def Split (values : List EventRecord) (after : EventRecord → Bool) (low high : Nat) : Prop :=
  (∀ i e, i < low → values[i]? = some e → after e = false) ∧
    ∀ i e, high ≤ i → values[i]? = some e → after e = true

/-- The tested property, once true, stays true along the list. -/
def Ascending (values : List EventRecord) (after : EventRecord → Bool) : Prop :=
  ∀ (i j : Nat) (e e' : EventRecord), i ≤ j → values[i]? = some e → values[j]? = some e' → after e = true → after e' = true

theorem Split.middle (hmono : Ascending values after) {low high middle : Nat} (h : Split values after low high) {e}
    (he : values[middle]? = some e) :
    if after e then Split values after low middle else Split values after (middle + 1) high := by
  split
  next hp => exact ⟨h.1, fun j e' hj he' => hmono _ _ _ _ hj he he' hp⟩
  next hp =>
    refine ⟨fun j e' hj he' => ?_, h.2⟩
    -- a pass before the middle would make the middle pass
    by_contra hp'
    exact hp (hmono _ _ _ _ (Nat.le_of_lt_succ hj) he' he (by simpa using hp'))

theorem searchEvents_go (hmono : Ascending values after) (fuel low high : Nat) (hle : low ≤ high)
    (hlen : high ≤ values.length) (hfuel : high - low ≤ fuel) (h : Split values after low high) :
    Store.searchEvents.go values after fuel low high ≤ high ∧
      Split values after (Store.searchEvents.go values after fuel low high)
        (Store.searchEvents.go values after fuel low high) := by
  induction fuel generalizing low high with
  | zero =>
    obtain rfl : low = high := by omega
    exact ⟨Nat.le_refl _, h⟩
  | succ fuel ih =>
    rw [Store.searchEvents.go]
    split
    next hlt =>
      have hmid : (low + high) / 2 < values.length := by omega
      have hget := getElem?_eq_getElem hmid
      have hsplit := h.middle hmono hget
      simp only [hget, Option.map_some, Option.getD_some]
      split
      next hp =>
        rw [if_pos hp] at hsplit
        obtain ⟨hr, hs⟩ := ih low _ (by omega) (by omega) (by omega) hsplit
        exact ⟨by omega, hs⟩
      next hp =>
        rw [if_neg hp] at hsplit
        exact ih _ high (by omega) hlen (by omega) hsplit
    next hge =>
      obtain rfl : low = high := by omega
      exact ⟨Nat.le_refl _, h⟩

/-- `sort.Search` finds the first entry that passes. -/
theorem searchEvents_spec (hmono : Ascending values after) :
    Store.searchEvents values after ≤ values.length ∧
      ∀ i e, values[i]? = some e → (i < Store.searchEvents values after ↔ after e = false) := by
  obtain ⟨hle, hlow, hhigh⟩ := searchEvents_go hmono values.length 0 values.length (Nat.zero_le _) (Nat.le_refl _)
    (Nat.le_refl _) ⟨fun _ _ h => absurd h (Nat.not_lt_zero _), fun i e hi he => by
      rw [getElem?_eq_none hi] at he; cases he⟩
  refine ⟨hle, fun i e he => ⟨fun hi => hlow i e hi he, fun hp => ?_⟩⟩
  by_contra hge
  rw [hhigh i e (Nat.le_of_not_lt hge) he] at hp
  cases hp

end Search

/-! ## Pruning -/

/-- The times of a stream never go back. -/
def Timed (events : List EventRecord) : Prop :=
  events.Pairwise fun e e' => e.value.occurredAt ≤ e'.value.occurredAt

/-- The numbers of a stream count from one. -/
def Numbered (events : List EventRecord) : Prop := ∀ i e, events[i]? = some e → e.sequence = i + 1

/-- An entry is due at `now`: it is 24 hours old, or not among the newest 100000. -/
def Due (events : List EventRecord) (now : Time) (i : Nat) (e : EventRecord) : Prop :=
  e.value.occurredAt ≤ now - defaultEventRetention ∨ eventRetentionLimit < events.length - i

/-- The due entries are the first `cut`. -/
def Cut (events : List EventRecord) (now : Time) (cut : Nat) : Prop :=
  cut ≤ events.length ∧ ∀ i e, events[i]? = some e → (i < cut ↔ Due events now i e)

/-- What is kept of a namespace's stream: everything after the first `expiredThrough` events. -/
structure Retains (seen : List EventRecord) (state : EventState) : Prop where
  expired : state.expiredThrough ≤ seen.length
  values : state.values = seen.drop state.expiredThrough

/-- A namespace without events retains nothing. -/
def Store.eventState (s : Store) (ns : Bytes) : EventState := (s.events ns).getD ⟨[], 0⟩

section Prune

variable {seen : List EventRecord} {s : Store} {ns : Bytes}

theorem Timed.ascending (h : Timed seen) (cutoff : Time) :
    Ascending seen fun e => e.value.occurredAt > cutoff := by
  intro i j e e' hij he he' hp
  simp only [gt_iff_lt, decide_eq_true_eq] at hp ⊢
  rcases Nat.lt_or_eq_of_le hij with hlt | rfl
  · obtain ⟨hi, rfl⟩ := List.getElem?_eq_some_iff.1 he
    obtain ⟨hj, rfl⟩ := List.getElem?_eq_some_iff.1 he'
    exact lt_of_lt_of_le hp (List.pairwise_iff_getElem.1 h i j hi hj hlt)
  · obtain rfl := Option.some.inj (he.symm.trans he')
    exact hp

theorem Retains.sequence {state : EventState} (h : Retains seen state) (hn : Numbered seen) {i e}
    (he : state.values[i]? = some e) : e.sequence = state.expiredThrough + i + 1 := by
  rw [h.values, getElem?_drop] at he
  exact hn _ e he

/-- The two cuts of `pruneEventsLocked`, by time and by count, together. -/
theorem cut_of_timed (h : Timed seen) (now : Time) :
    Cut seen now (max (Store.searchEvents seen fun e => e.value.occurredAt > now - defaultEventRetention)
      (seen.length - eventRetentionLimit)) := by
  obtain ⟨hle, hspec⟩ := searchEvents_spec (h.ascending (now - defaultEventRetention))
  refine ⟨by omega, fun i e he => ?_⟩
  have hi : i < seen.length := (List.getElem?_eq_some_iff.1 he).1
  have htime := hspec i e he
  simp only [gt_iff_lt, decide_eq_false_iff_not, not_lt] at htime
  have hor (a b : Nat) : i < max a b ↔ i < a ∨ i < b := by omega
  exact (hor _ _).trans (or_congr htime (by omega))

/-- A prune drops exactly what is due, and remembers how far it has dropped. -/
theorem pruneEventsLocked_spec (h : Retains seen (s.eventState ns)) (hn : Numbered seen) (ht : Timed seen) (now : Time) :
    ∃ cut, Cut (s.eventState ns).values now cut ∧
      (s.pruneEventsLocked ns now).eventState ns =
        ⟨(s.eventState ns).values.drop cut, (s.eventState ns).expiredThrough + cut⟩ := by
  have htv : Timed (s.eventState ns).values := by
    rw [h.values]
    exact ht.sublist (drop_sublist _ _)
  refine ⟨_, cut_of_timed htv now, ?_⟩
  have hcut := (cut_of_timed htv now).1
  unfold Store.pruneEventsLocked
  cases hs : s.events ns with
  | none => simp [Store.eventState, hs, Store.searchEvents, Store.searchEvents.go]
  | some state =>
    have hstate : s.eventState ns = state := by simp [Store.eventState, hs]
    rw [hstate] at h hcut ⊢
    simp only
    generalize max (Store.searchEvents state.values fun e => e.value.occurredAt > now - defaultEventRetention)
      (state.values.length - eventRetentionLimit) = cut at hcut ⊢
    cases hlast : state.values[cut - 1]? with
    | none =>
      have := getElem?_eq_none_iff.1 hlast
      obtain rfl : cut = 0 := by omega
      simp [hstate]
    | some last =>
      by_cases h0 : cut = 0
      · subst h0
        simp [hstate]
      · -- the last entry dropped carries the new mark
        have hseq := h.sequence hn hlast
        have hmax : max state.expiredThrough last.sequence = state.expiredThrough + cut := by omega
        simp only [h0, if_false, hmax]
        simp [Store.eventState]

theorem pruneEventsLocked_other (s : Store) (now : Time) {ns' : Bytes} (hne : ns' ≠ ns) :
    (s.pruneEventsLocked ns now).events ns' = s.events ns' := by
  unfold Store.pruneEventsLocked
  split
  · rfl
  · dsimp only
    split
    · rfl
    · split
      · rfl
      · exact update_of_ne hne _ _

end Prune

/-! ## Appending -/

section Append

variable {seen : List EventRecord} {s s' : Store} {ns : Bytes}

variable {event : EventRecord}

theorem Numbered.append (h : Numbered seen) (hseq : event.sequence = seen.length + 1) :
    Numbered (seen ++ [event]) := by
  intro i e he
  rcases getElem?_append_singleton_eq_some he with ⟨-, he⟩ | ⟨rfl, rfl⟩
  exacts [h i e he, hseq]

theorem Timed.append (h : Timed seen) (htime : ∀ e ∈ seen, e.value.occurredAt ≤ event.value.occurredAt) :
    Timed (seen ++ [event]) := by
  refine pairwise_append.2 ⟨h, pairwise_singleton _ _, fun e he e' he' => ?_⟩
  obtain rfl := mem_singleton.1 he'
  exact htime e he

theorem eventState_update (s : Store) (ns : Bytes) (state : EventState) :
    Store.eventState { s with events := update s.events ns (some state) } ns = state := by
  simp [Store.eventState]

theorem appendEventLocked_spec (h : Retains seen (s.eventState ns)) (hn : Numbered seen) (ht : Timed seen)
    (hns : event.value.namespace_ = ns) (hseq : event.sequence = seen.length + 1)
    (htime : ∀ e ∈ seen, e.value.occurredAt ≤ event.value.occurredAt) (now : Time) :
    ∃ cut, Cut ((s.eventState ns).values ++ [event]) now cut ∧
      (s.appendEventLocked event now).eventState ns =
        ⟨((s.eventState ns).values ++ [event]).drop cut, (s.eventState ns).expiredThrough + cut⟩ := by
  subst hns
  generalize hst : s.eventState event.value.namespace_ = state at h ⊢
  -- with the event appended the stream is one longer, and then it is pruned
  have hretains : Retains (seen ++ [event]) { state with values := state.values ++ [event] } :=
    ⟨by have := h.expired; simp; omega, by rw [h.values, drop_append_of_le_length h.expired]⟩
  have hstate := eventState_update s event.value.namespace_ { state with values := state.values ++ [event] }
  obtain ⟨cut, hcut, hafter⟩ :=
    pruneEventsLocked_spec (hstate ▸ hretains) (hn.append hseq) (ht.append htime) now
  rw [hstate] at hcut hafter
  have hdef : s.appendEventLocked event now = Store.pruneEventsLocked
      { s with events := update s.events event.value.namespace_
                (some { state with values := state.values ++ [event] }) } event.value.namespace_ now := by
    rw [← hst]
    rfl
  rw [hdef]
  exact ⟨cut, hcut, hafter⟩

theorem appendEventLocked_other (s : Store) (event : EventRecord) (now : Time) (hne : ns ≠ event.value.namespace_) :
    (s.appendEventLocked event now).events ns = s.events ns := by
  unfold Store.appendEventLocked
  dsimp only
  rw [pruneEventsLocked_other _ _ hne]
  exact update_of_ne hne _ _

/-- The number of the newest event a namespace has had, as `nextEventSequenceLocked` computes it. -/
def Store.newest (s : Store) (ns : Bytes) : Nat :=
  match s.events ns with
  | none => 0
  | some state =>
    match state.values.getLast? with
    | none => state.expiredThrough
    | some last => max state.expiredThrough last.sequence

theorem nextEventSequenceLocked_eq (s : Store) (ns : Bytes) :
    s.nextEventSequenceLocked ns =
      if s.newest ns = maxUint64 then .error .resourceExhausted else .ok (s.newest ns + 1) := rfl

/-- The high-water mark survives a full prune: it is the length of the whole stream. -/
theorem Retains.newest (h : Retains seen (s.eventState ns)) (hn : Numbered seen) : s.newest ns = seen.length := by
  unfold Store.newest
  cases hs : s.events ns with
  | none =>
    have hnil := h.values
    simp only [Store.eventState, hs, Option.getD_none, drop_zero] at hnil
    simp [← hnil]
  | some state =>
    have hstate : s.eventState ns = state := by simp [Store.eventState, hs]
    rw [hstate] at h
    have hle := h.expired
    have hlen : state.values.length = seen.length - state.expiredThrough := by rw [h.values, length_drop]
    cases hlast : state.values.getLast? with
    | none =>
      simp only [hlast]
      rw [getLast?_eq_none_iff.1 hlast, length_nil] at hlen
      omega
    | some last =>
      simp only [hlast]
      rw [getLast?_eq_getElem?] at hlast
      have hseq := h.sequence hn hlast
      have := (List.getElem?_eq_some_iff.1 hlast).1
      omega

variable [Primitives]

/-- A new event has the next number and the time it is made at. -/
theorem newEventLocked_spec (h : Retains seen (s.eventState ns)) (hn : Numbered seen) {input now}
    (hns : input.namespace_ = ns) (hok : s.newEventLocked input now = .ok event) :
    event.sequence = seen.length + 1 ∧ seen.length ≠ maxUint64 ∧
      event.value = { input with cursor := event.value.cursor, occurredAt := now } ∧
      s.newCursorLocked ⟨.event, ns, [], event.sequence, zeroTime, []⟩ = .ok event.value.cursor := by
  subst hns
  unfold Store.newEventLocked at hok
  rw [nextEventSequenceLocked_eq, h.newest hn] at hok
  split at hok
  · cases hok
  next hne =>
    obtain ⟨sequence, hs, hok⟩ := bind_eq_ok.1 hok
    obtain ⟨cursor, hc, hok⟩ := bind_eq_ok.1 hok
    obtain ⟨value, hv, hok⟩ := bind_eq_ok.1 hok
    obtain ⟨rfl, -⟩ := newStateEvent_eq_ok.1 hv
    cases hs
    cases hok
    exact ⟨rfl, hne, rfl, hc⟩

end Append

/-! ## What a step does to the events -/

/-- The event a commit calls for; its cursor and time are filled in when it is made. -/
def Committed.event : Committed → StateEvent
  | .data c => dataWrittenEvent c.request c.version.generation
  | .slot c => slotActivatedEvent c.request c.activation.generation
  | .revision _ record => revisionPublishedEvent record

section Effects

variable [Primitives] {s s' : Store}

omit [Primitives] in
theorem pruneEventsLocked_congr (h : s.events = s'.events) (ns : Bytes) (now : Time) :
    (s.pruneEventsLocked ns now).events = (s'.pruneEventsLocked ns now).events := by
  unfold Store.pruneEventsLocked
  rw [h]
  split
  · exact h
  · dsimp only
    split
    · exact h
    · split
      · exact h
      · rfl

omit [Primitives] in
theorem appendEventLocked_congr (h : s.events = s'.events) (event : EventRecord) (now : Time) :
    (s.appendEventLocked event now).events = (s'.appendEventLocked event now).events := by
  unfold Store.appendEventLocked
  refine pruneEventsLocked_congr ?_ _ _
  simp only [h]

theorem newEventLocked_congr (h : s.events = s'.events) (hk : s.cursorKey = s'.cursorKey) (input : StateEvent)
    (now : Time) : s.newEventLocked input now = s'.newEventLocked input now := by
  simp only [Store.newEventLocked, Store.nextEventSequenceLocked, Store.newCursorLocked, Store.cursorPayload,
    Store.cursorScope, h, hk]

/-- A step leaves the events alone, or prunes a namespace for a listing, or appends the event of its commit and
prunes. Either kind of prune is made at the effective time. -/
inductive EventEffect (s s' : Store) (id : CallId) (o o' : Operation) : Prop
  | none : committed id o o' = [] → s'.events = s.events → EventEffect s s' id o o'
  | prune (request : ListEventsRequest) (position : Nat) (t : Time) : committed id o o' = [] →
      o = .listEvents request (.locking position t) →
      s'.events = (s.pruneEventsLocked request.namespace_ s'.effectiveTime).events →
      o' = .listEvents request (.listed position (s'.eventState request.namespace_).values
        (s'.eventState request.namespace_).expiredThrough) → EventEffect s s' id o o'
  | append (x : Committed) (event : EventRecord) : committed id o o' = [x] →
      s.newEventLocked x.event s'.effectiveTime = .ok event →
      s'.events = (s.appendEventLocked event s'.effectiveTime).events → EventEffect s s' id o o'

omit [Primitives] in
theorem release_events (s : Store) (r : CommitReservation) : (releaseCommitReservation s r).events = s.events :=
  (SameContent.release s r).events

omit [Primitives] in
theorem effectiveTimeLocked_events (s : Store) (t : Time) : (s.lock.effectiveTimeLocked t).1.events = s.events := by
  rw [Store.effectiveTimeLocked_fst]
  rfl

omit [Primitives] in
theorem effectiveTimeLocked_cursorKey (s : Store) (t : Time) :
    (s.lock.effectiveTimeLocked t).1.cursorKey = s.cursorKey := by
  rw [Store.effectiveTimeLocked_fst]
  rfl

omit [Primitives] in
theorem effectiveTimeLocked_effectiveTime (s : Store) (t : Time) :
    (s.lock.effectiveTimeLocked t).1.effectiveTime = (s.lock.effectiveTimeLocked t).2 := by
  rw [Store.effectiveTimeLocked_fst]

theorem WriteStep.eventEffect {request pc pc'} (h : WriteStep s request pc s' pc') (id : CallId) :
    EventEffect s s' id (.writeData request pc) (.writeData request pc') := by
  cases h with
  | start | reserve | wake | wait | contend | answer | build | check | read | recheck => exact .none rfl rfl
  | refuse | abandon => cases pc <;> exact .none rfl rfl
  | decline time he => cases he <;> exact .none rfl rfl
  | release => exact .none rfl (release_events s _)
  | @commit c t event hn he =>
    have htime : (publishCandidate (s.lock.effectiveTimeLocked t).1 request c (s.data request.namespace_) event
        (s.lock.effectiveTimeLocked t).2).unlock.effectiveTime = (s.lock.effectiveTimeLocked t).2 := by
      rw [publishCandidate_eq]
      exact effectiveTimeLocked_effectiveTime s t
    refine .append (.data ⟨id, request, c.fingerprint, c.version⟩) event rfl ?_ ?_
    · rw [htime, ← he]
      exact newEventLocked_congr (effectiveTimeLocked_events s t).symm (effectiveTimeLocked_cursorKey s t).symm _ _
    · rw [htime]
      refine appendEventLocked_congr ?_ _ _
      rw [Store.notifyGenerationWaitersLocked_eq]
      exact effectiveTimeLocked_events s t

theorem ActivateStep.eventEffect {request pc pc'} (h : ActivateStep s request pc s' pc') (id : CallId) :
    EventEffect s s' id (.activate request pc) (.activate request pc') := by
  cases h with
  | start | contend | answer | build | check | read | recheck | decline => exact .none rfl rfl
  | refuse | abandon => cases pc <;> exact .none rfl rfl
  | release => exact .none rfl (release_events s _)
  | @commit r g t a event hg ha he =>
    have htime : (publishActivation (s.lock.effectiveTimeLocked t).1 a event
        (s.lock.effectiveTimeLocked t).2).unlock.effectiveTime = (s.lock.effectiveTimeLocked t).2 := by
      rw [publishActivation_eq]
      exact effectiveTimeLocked_effectiveTime s t
    refine .append (.slot ⟨id, request, a⟩) event rfl ?_ ?_
    · obtain ⟨rfl, -⟩ := newActivation_eq_ok.1 ha
      rw [htime, ← he]
      exact newEventLocked_congr (effectiveTimeLocked_events s t).symm (effectiveTimeLocked_cursorKey s t).symm _ _
    · rw [htime]
      refine appendEventLocked_congr ?_ _ _
      exact effectiveTimeLocked_events s t

theorem PutStep.eventEffect {write pc pc'} (h : PutStep s write pc s' pc') (id : CallId) :
    EventEffect s s' id (.putRevision write pc) (.putRevision write pc') := by
  cases h with
  | start | wake | reply | wait | contend | answer | find | build | check | read | recheck => exact .none rfl rfl
  | refuse | abandon => cases pc <;> exact .none rfl rfl
  | @decline r t result time hr =>
    match result with
    | .error _ => exact .none rfl rfl
    | .ok ⟨record, created⟩ =>
      obtain rfl : created = false := hr _ rfl
      exact .none rfl rfl
  | release => exact .none rfl (release_events s _)
  | @commit r t event hn he =>
    have htime : (publishRevision (s.lock.effectiveTimeLocked t).1 write event
        (s.lock.effectiveTimeLocked t).2).unlock.effectiveTime = (s.lock.effectiveTimeLocked t).2 := by
      rw [publishRevision_eq]
      exact effectiveTimeLocked_effectiveTime s t
    refine .append (.revision id write) event rfl ?_ ?_
    · rw [htime, ← he]
      exact newEventLocked_congr (effectiveTimeLocked_events s t).symm (effectiveTimeLocked_cursorKey s t).symm _ _
    · rw [htime]
      refine appendEventLocked_congr ?_ _ _
      exact effectiveTimeLocked_events s t

omit [Primitives] in
/-- The prune of a listing. -/
theorem listing_prune_events (s : Store) (ns : Bytes) (t : Time) :
    ((s.lock.effectiveTimeLocked t).1.pruneEventsLocked ns (s.lock.effectiveTimeLocked t).2).unlock.events =
      (s.pruneEventsLocked ns ((s.lock.effectiveTimeLocked t).1.pruneEventsLocked ns
        (s.lock.effectiveTimeLocked t).2).unlock.effectiveTime).events := by
  have htime : ((s.lock.effectiveTimeLocked t).1.pruneEventsLocked ns
      (s.lock.effectiveTimeLocked t).2).unlock.effectiveTime = (s.lock.effectiveTimeLocked t).2 := by
    rw [Store.pruneEventsLocked_eq]
    exact effectiveTimeLocked_effectiveTime s t
  rw [htime]
  exact pruneEventsLocked_congr (effectiveTimeLocked_events s t) _ _

variable {ctx : Ctx} {input : Input}

theorem listEventsStep_eventEffect {request pc pc'} (h : listEventsStep s ctx request input pc = some (s', pc'))
    (id : CallId) :
    EventEffect s s' id (.listEvents request pc) (.listEvents request pc') := by
  cases pc with
  | locking position t =>
    simp only [listEventsStep] at h
    split at h
    · cases h; exact .none rfl rfl
    split at h
    · cases h
    · cases h
      exact .prune request position t rfl rfl (listing_prune_events s _ t) rfl
  | entry | clock | listed =>
    simp only [listEventsStep] at h
    repeat' split at h
    all_goals cases h; exact .none rfl rfl
  | returned => cases h

omit [Primitives] in
theorem openSnapshotStep_events {request pc pc'} (h : openSnapshotStep s ctx request input pc = some (s', pc')) :
    s'.events = s.events := by
  have hregister (s : Store) (ns : Bytes) : (s.registerGenerationWaitLocked ns).1.events = s.events := by
    unfold Store.registerGenerationWaitLocked
    split <;> rfl
  have hunregister (s : Store) (ns : Bytes) (c : Chan) : (s.unregisterGenerationWaitLocked ns c).events = s.events := by
    unfold Store.unregisterGenerationWaitLocked
    split
    · rfl
    · split <;> rfl
  cases pc with
  | locking =>
    simp only [openSnapshotStep, openSnapshotLocked] at h
    repeat' split at h
    all_goals cases h
    · rfl
    · rfl
    · exact hregister _ _
  | unregistering changed error =>
    simp only [openSnapshotStep] at h
    repeat' split at h
    all_goals cases h
    all_goals exact hunregister _ _ _
  | entry | opened | waiting =>
    simp only [openSnapshotStep] at h
    repeat' split at h
    all_goals cases h
    all_goals rfl
  | returned => cases h

theorem Operation.step_eventEffect {o o' : Operation} (h : o.step s ctx input = some (s', o')) (id : CallId) :
    EventEffect s s' id o o' := by
  cases o with
  | listEvents request pc =>
    simp only [Operation.step, Option.map_eq_some_iff, Prod.exists, Prod.mk.injEq] at h
    obtain ⟨_, pc', hstep, rfl, rfl⟩ := h
    exact listEventsStep_eventEffect hstep id
  | openSnapshot request pc =>
    simp only [Operation.step, Option.map_eq_some_iff, Prod.exists, Prod.mk.injEq] at h
    obtain ⟨_, pc', hstep, rfl, rfl⟩ := h
    exact .none rfl (openSnapshotStep_events hstep)
  | writeData => cases Operation.step_cases h with | writeData hw => exact hw.eventEffect id
  | activate => cases Operation.step_cases h with | activate hw => exact hw.eventEffect id
  | putRevision => cases Operation.step_cases h with | putRevision hw => exact hw.eventEffect id

/-! ## The clock and the cursor key -/

/-- The effective time does not go back, and the key stays. -/
structure ClockStep (s s' : Store) : Prop where
  time : s.effectiveTime ≤ s'.effectiveTime
  cursorKey : s'.cursorKey = s.cursorKey

omit [Primitives] in
theorem ClockStep.effectiveTimeLocked (s : Store) (t : Time) : ClockStep s (s.lock.effectiveTimeLocked t).1 := by
  unfold Store.effectiveTimeLocked
  split
  · exact ⟨Int.le_refl _, rfl⟩
  next h => exact ⟨Int.not_lt.1 h, rfl⟩

omit [Primitives] in
theorem ClockStep.release (s : Store) (r : CommitReservation) : ClockStep s (releaseCommitReservation s r) := by
  unfold releaseCommitReservation Store.releaseCommitReservationLocked
  split <;> exact ⟨Int.le_refl _, rfl⟩

theorem writeDataCommit_clock (s : Store) (ctx : Ctx) (request : WriteDataRequest) (c : Candidate) (t : Time) :
    ClockStep s (writeDataCommit s ctx request c t).1 := by
  have hclock := ClockStep.effectiveTimeLocked s t
  unfold writeDataCommit
  dsimp only
  split
  · exact ⟨Int.le_refl _, rfl⟩
  split
  · exact ⟨Int.le_refl _, rfl⟩
  split
  · exact ⟨Int.le_refl _, rfl⟩
  split
  · exact ⟨hclock.time, hclock.cursorKey⟩
  · rw [publishCandidate_eq]
    exact ⟨hclock.time, hclock.cursorKey⟩

theorem activateCommit_clock (s : Store) (ctx : Ctx) (request : ActivateRequest) (r : CommitReservation) (g : Nat)
    (t : Time) : ClockStep s (activateCommit s ctx request r g t).1 := by
  have hclock := ClockStep.effectiveTimeLocked s t
  unfold activateCommit
  dsimp only
  split
  · exact ⟨Int.le_refl _, rfl⟩
  split
  · exact ⟨Int.le_refl _, rfl⟩
  split
  · exact ⟨Int.le_refl _, rfl⟩
  split
  · exact ⟨hclock.time, hclock.cursorKey⟩
  · rw [publishActivation_eq]
    exact ⟨hclock.time, hclock.cursorKey⟩

theorem putRevisionCommit_clock (s : Store) (ctx : Ctx) (write : RevisionWrite) (r : CommitReservation) (t : Time) :
    ClockStep s (putRevisionCommit s ctx write r t).1 := by
  have hclock := ClockStep.effectiveTimeLocked s t
  unfold putRevisionCommit
  dsimp only
  split
  · exact ⟨Int.le_refl _, rfl⟩
  split
  · exact ⟨Int.le_refl _, rfl⟩
  split
  · exact ⟨Int.le_refl _, rfl⟩
  split
  · exact ⟨Int.le_refl _, rfl⟩
  split
  · exact ⟨hclock.time, hclock.cursorKey⟩
  · rw [publishRevision_eq]
    exact ⟨hclock.time, hclock.cursorKey⟩

/-! Only a commit attempt touches the clock. -/

theorem WriteStep.clock {request pc pc'} (h : WriteStep s request pc s' pc') (hpc : ∀ c t, pc ≠ .committing c t) :
    ClockStep s s' := by
  cases h with
  | decline | commit => exact absurd rfl (hpc _ _)
  | release => exact .release s _
  | _ => exact ⟨Int.le_refl _, rfl⟩

theorem ActivateStep.clock {request pc pc'} (h : ActivateStep s request pc s' pc')
    (hpc : ∀ r g t, pc ≠ .committing r g t) : ClockStep s s' := by
  cases h with
  | decline | commit => exact absurd rfl (hpc _ _ _)
  | release => exact .release s _
  | _ => exact ⟨Int.le_refl _, rfl⟩

theorem PutStep.clock {write pc pc'} (h : PutStep s write pc s' pc') (hpc : ∀ r t, pc ≠ .committing r t) :
    ClockStep s s' := by
  cases h with
  | decline | commit => exact absurd rfl (hpc _ _)
  | release => exact .release s _
  | _ => exact ⟨Int.le_refl _, rfl⟩

theorem Operation.step_clock {o o' : Operation} (h : o.step s ctx input = some (s', o')) : ClockStep s s' := by
  cases o with
  | writeData request pc =>
    by_cases hpc : ∃ c t, pc = .committing c t
    · obtain ⟨c, t, rfl⟩ := hpc
      simp only [Operation.step, writeDataStep] at h
      split at h
      · cases h
      · cases h; exact writeDataCommit_clock s ctx request c t
    · cases Operation.step_cases h with
      | writeData hw => exact hw.clock fun c t heq => hpc ⟨c, t, heq⟩
  | activate request pc =>
    by_cases hpc : ∃ r g t, pc = .committing r g t
    · obtain ⟨r, g, t, rfl⟩ := hpc
      simp only [Operation.step, activateStep] at h
      split at h
      · cases h
      · cases h; exact activateCommit_clock s ctx request r g t
    · cases Operation.step_cases h with
      | activate hw => exact hw.clock fun r g t heq => hpc ⟨r, g, t, heq⟩
  | putRevision write pc =>
    by_cases hpc : ∃ r t, pc = .committing r t
    · obtain ⟨r, t, rfl⟩ := hpc
      simp only [Operation.step, putRevisionStep] at h
      split at h
      · cases h
      · cases h; exact putRevisionCommit_clock s ctx write r t
    · cases Operation.step_cases h with
      | putRevision hw => exact hw.clock fun r t heq => hpc ⟨r, t, heq⟩
  | listEvents request pc =>
    simp only [Operation.step, Option.map_eq_some_iff, Prod.exists, Prod.mk.injEq] at h
    obtain ⟨_, pc', hstep, rfl, rfl⟩ := h
    cases pc with
    | locking position t =>
      simp only [listEventsStep] at hstep
      split at hstep
      · cases hstep; exact ⟨Int.le_refl _, rfl⟩
      split at hstep
      · cases hstep
      · cases hstep
        rw [Store.pruneEventsLocked_eq]
        have hclock := ClockStep.effectiveTimeLocked s t
        exact ⟨hclock.time, hclock.cursorKey⟩
    | entry | clock | listed =>
      simp only [listEventsStep] at hstep
      repeat' split at hstep
      all_goals cases hstep; exact ⟨Int.le_refl _, rfl⟩
    | returned => cases hstep
  | openSnapshot request pc =>
    simp only [Operation.step, Option.map_eq_some_iff, Prod.exists, Prod.mk.injEq] at h
    obtain ⟨_, pc', hstep, rfl, rfl⟩ := h
    have hregister (s : Store) (ns : Bytes) : ClockStep s (s.registerGenerationWaitLocked ns).1 := by
      unfold Store.registerGenerationWaitLocked
      split <;> exact ⟨Int.le_refl _, rfl⟩
    have hunregister (s : Store) (ns : Bytes) (c : Chan) : ClockStep s (s.unregisterGenerationWaitLocked ns c) := by
      unfold Store.unregisterGenerationWaitLocked
      split
      · exact ⟨Int.le_refl _, rfl⟩
      · split <;> exact ⟨Int.le_refl _, rfl⟩
    cases pc with
    | locking =>
      simp only [openSnapshotStep, openSnapshotLocked] at hstep
      repeat' split at hstep
      all_goals cases hstep
      · exact ⟨Int.le_refl _, rfl⟩
      · exact ⟨Int.le_refl _, rfl⟩
      · have hr := hregister s.lock request.namespace_
        exact ⟨hr.time, hr.cursorKey⟩
    | unregistering changed error =>
      simp only [openSnapshotStep] at hstep
      repeat' split at hstep
      all_goals cases hstep
      all_goals
        have hu := hunregister s.lock request.namespace_ changed
        exact ⟨hu.time, hu.cursorKey⟩
    | entry | opened | waiting =>
      simp only [openSnapshotStep] at hstep
      repeat' split at hstep
      all_goals cases hstep
      all_goals exact ⟨Int.le_refl _, rfl⟩
    | returned => cases hstep

end Effects

end PolicyEngine.Memory
