import PolicyEngine.Memory.Answers

/-!
# The slot state machine of the memory store

The activations of a slot form one sequence: its generations count from one, each
activation met its expectation of the slot and found its target published, and the
slot keeps the newest three. No expectation is met twice, since an expectation
names the position in the sequence at which it holds.
-/

open PolicyEngine.Lib Function List

namespace PolicyEngine.Memory

/-! ## The activations of a slot -/

/-- The committed activations, in commit order. -/
def activations (log : List Committed) : List SlotCommit :=
  log.filterMap fun
    | .slot c => some c
    | _ => none

/-- Those of one slot. -/
def slotLog (ns slot : Bytes) (log : List SlotCommit) : List SlotCommit :=
  log.filter fun c => c.request.namespace_ = ns ∧ c.request.slot = slot

variable {log : List Committed}

theorem mem_activations {c : SlotCommit} : c ∈ activations log ↔ .slot c ∈ log := by
  simp only [activations, mem_filterMap]
  constructor
  · rintro ⟨x, hx, h⟩
    cases x <;> cases h
    exact hx
  · exact fun h => ⟨_, h, rfl⟩

theorem mem_slotLog {ns slot log c} :
    c ∈ slotLog ns slot log ↔ c ∈ log ∧ c.request.namespace_ = ns ∧ c.request.slot = slot := by
  simp [slotLog]

/-- What an expectation asks of a slot: unset, or exactly one revision and generation. -/
def Expects (expectation : SlotExpectation) (current : Option Activation) : Prop :=
  (expectation.isUnset = true ∧ current = none) ∨
    ∃ revisionID generation a, expectation.active? = some (revisionID, generation) ∧ current = some a ∧
      a.revisionID = revisionID ∧ a.generation = generation

variable {state : Option SlotState}

theorem activationExpectationMatches_eq_true {expectation} (h : activationExpectationMatches expectation state = true) :
    Expects expectation (state.map (·.current)) := by
  unfold activationExpectationMatches at h
  split at h
  next hu => exact .inl ⟨hu, by simpa using h⟩
  next =>
    split at h
    next revisionID generation state ha =>
      rw [Bool.and_eq_true, beq_iff_eq, beq_iff_eq] at h
      exact .inr ⟨revisionID, generation, state.current, ha, rfl, h.1, h.2⟩
    next => cases h

/-- What the activations of a slot look like, whatever the interleaving. -/
structure SlotCommits (l : List SlotCommit) : Prop where
  generation : ∀ i e, l[i]? = some e → e.activation.generation = i + 1
  expectation : ∀ i e, l[i]? = some e →
    Expects e.request.expectation ((l.take i).getLast?.map (·.activation))
  fields : ∀ e ∈ l, e.activation.namespace_ = e.request.namespace_ ∧ e.activation.slot = e.request.slot ∧
    e.activation.revisionID = e.request.targetRevisionID

theorem SlotCommits.nil : SlotCommits [] := by constructor <;> simp

/-- The stored slot is the end of its activations. -/
def SlotStateOf (l : List SlotCommit) : Option SlotState → Prop
  | none => l = []
  | some state =>
    l.getLast?.map (·.activation) = some state.current ∧
      state.history = (l.map (·.activation)).drop (l.length - activationHistoryRetention)

variable {l : List SlotCommit}

theorem SlotStateOf.current (h : SlotStateOf l state) :
    state.map (·.current) = l.getLast?.map (·.activation) := by
  cases state with
  | none => simp [show l = [] from h]
  | some state => exact h.1.symm

theorem SlotStateOf.history (h : SlotStateOf l state) :
    (state.map (·.history)).getD [] = (l.map (·.activation)).drop (l.length - activationHistoryRetention) := by
  cases state with
  | none => simp [show l = [] from h]
  | some state => exact h.2

/-- The length of the sequence is the generation of its last activation. -/
theorem SlotCommits.length (h : SlotCommits l) {a : Activation} (ha : l.getLast?.map (·.activation) = some a) :
    a.generation = l.length := by
  obtain ⟨e, he, rfl⟩ := Option.map_eq_some_iff.1 ha
  rw [List.getLast?_eq_getElem?] at he
  rw [h.generation _ e he]
  have := (List.getElem?_eq_some_iff.1 he).1
  omega

/-- Keeping the newest three of what was kept is keeping the newest three of all. -/
theorem drop_newest {α : Type} (l : List α) (a : α) (n : Nat) :
    (l.drop (l.length - n) ++ [a]).drop ((l.drop (l.length - n) ++ [a]).length - n) =
      (l ++ [a]).drop ((l ++ [a]).length - n) := by
  have hd : l.drop (l.length - n) ++ [a] = (l ++ [a]).drop (l.length - n) := by
    rw [drop_append_of_le_length (by omega)]
  rw [hd, drop_drop]
  congr 1
  simp only [length_drop, length_append, length_singleton]
  omega

theorem SlotStateOf.push (h : SlotStateOf l state) (e : SlotCommit) :
    SlotStateOf (l ++ [e]) (some (SlotState.push state e.activation)) := by
  refine ⟨by simp [SlotState.push], ?_⟩
  simp only [SlotState.push, h.history]
  have := drop_newest (l.map (·.activation)) e.activation activationHistoryRetention
  simpa using this

theorem SlotCommits.append (h : SlotCommits l) {e : SlotCommit} (hgen : e.activation.generation = l.length + 1)
    (hexp : Expects e.request.expectation (l.getLast?.map (·.activation)))
    (hfields : e.activation.namespace_ = e.request.namespace_ ∧ e.activation.slot = e.request.slot ∧
      e.activation.revisionID = e.request.targetRevisionID) : SlotCommits (l ++ [e]) := by
  constructor
  · intro i x hi
    rcases getElem?_append_singleton_eq_some hi with ⟨-, hi⟩ | ⟨rfl, rfl⟩
    exacts [h.generation i x hi, hgen]
  · intro i x hi
    rcases getElem?_append_singleton_eq_some hi with ⟨hlt, hi⟩ | ⟨rfl, rfl⟩
    · rw [take_append_of_le_length hlt.le]; exact h.expectation i x hi
    · rw [take_left]; exact hexp
  · simp only [mem_append, mem_singleton]
    rintro x (hx | rfl)
    exacts [h.fields x hx, hfields]

/-- An expectation holds at one position of the sequence only. -/
theorem SlotCommits.index_unique (h : SlotCommits l) {i j : Nat} {e e' : SlotCommit} (hi : l[i]? = some e)
    (hj : l[j]? = some e') (heq : e.request.expectation = e'.request.expectation) : i = j := by
  -- an unset slot is the start; an active one is the position its generation counts
  have position {k : Nat} {x : SlotCommit} (hk : l[k]? = some x) :
      x.request.expectation.isUnset = true ∧ k = 0 ∨
        x.request.expectation.active? = some (x.request.expectation.revisionID, k) := by
    have hlt := (List.getElem?_eq_some_iff.1 hk).1
    rcases h.expectation k x hk with ⟨hu, hnone⟩ | ⟨rev, g, a, hact, hsome, hr, hg⟩
    · refine .inl ⟨hu, ?_⟩
      rw [Option.map_eq_none_iff, getLast?_eq_none_iff, take_eq_nil_iff] at hnone
      rcases hnone with rfl | hnil
      · rfl
      · simp [hnil] at hlt
    · right
      obtain ⟨y, hy, rfl⟩ := Option.map_eq_some_iff.1 hsome
      rw [getLast?_eq_getElem?, length_take_of_le hlt.le] at hy
      have hk1 : k - 1 < k := by
        have := (List.getElem?_eq_some_iff.1 hy).1
        rw [List.length_take_of_le hlt.le] at this
        exact this
      rw [getElem?_take_of_lt hk1] at hy
      have hgen := h.generation _ y hy
      rw [hact]
      unfold SlotExpectation.active? at hact
      split at hact
      · obtain ⟨rfl, rfl⟩ := Prod.mk.inj (Option.some.inj hact)
        congr 2
        omega
      · cases hact
  have hactive (x : SlotExpectation) (hu : x.isUnset = true) : x.active? = none := by
    unfold SlotExpectation.isUnset at hu
    unfold SlotExpectation.active?
    rw [if_neg]
    rintro ⟨hk, -⟩
    simp [hk] at hu
  rcases position hi with ⟨hu, rfl⟩ | ha <;> rcases position hj with ⟨hu', rfl⟩ | ha'
  · rfl
  · rw [← heq, hactive _ hu] at ha'; cases ha'
  · rw [heq, hactive _ hu'] at ha; cases ha
  · rw [heq, ha'] at ha
    exact (Prod.mk.inj (Option.some.inj ha)).2.symm

/-! ## The invariant -/

/-- The slots of a store and the log of its commits. -/
structure SlotInv (store : Store) (log : List Committed) : Prop where
  commits : ∀ ns slot, SlotCommits (slotLog ns slot (activations log))
  state : ∀ ns slot, SlotStateOf (slotLog ns slot (activations log)) (store.slots ns slot)
  published : ∀ ns id record, store.revisions ns id = some record →
    ∃ call, .revision call record ∈ log ∧ record.metadata.namespace_ = ns ∧ record.metadata.id = id
  targets : ∀ (i : Nat) (c : SlotCommit), log[i]? = some (Committed.slot c) → ∃ j < i, ∃ call record,
    log[j]? = some (Committed.revision call record) ∧
    record.metadata.namespace_ = c.request.namespace_ ∧ record.metadata.id = c.request.targetRevisionID

/-- An entry that is no activation leaves the slots' part of the invariant to the revisions. -/
theorem SlotInv.append {store store' log'} (hi : SlotInv store log) (hslots : store'.slots = store.slots)
    (hnone : ∀ c, .slot c ∉ log') (hrev : ∀ ns id record, store'.revisions ns id = some record →
      store.revisions ns id = some record ∨ ∃ call, .revision call record ∈ log' ∧
        record.metadata.namespace_ = ns ∧ record.metadata.id = id) : SlotInv store' (log ++ log') := by
  have hact : activations (log ++ log') = activations log := by
    have hnil : activations log' = [] := eq_nil_iff_forall_not_mem.2 fun c hc => hnone c (mem_activations.1 hc)
    rw [activations, filterMap_append]
    exact (congrArg _ hnil).trans (append_nil _)
  refine ⟨?_, ?_, fun ns id record hr => ?_, fun i c hc => ?_⟩
  · rw [hact]; exact hi.commits
  · rw [hact, hslots]; exact hi.state
  · rcases hrev ns id record hr with hold | ⟨call, hmem, rest⟩
    · obtain ⟨call, hmem, rest⟩ := hi.published ns id record hold
      exact ⟨call, mem_append_left _ hmem, rest⟩
    · exact ⟨call, mem_append_right _ hmem, rest⟩
  · have hlt : i < log.length := by
      by_contra hge
      rw [getElem?_append_right (by omega)] at hc
      exact hnone c (mem_of_getElem? hc)
    rw [getElem?_append_left hlt] at hc
    obtain ⟨j, hj, call, record, hrec, rest⟩ := hi.targets i c hc
    exact ⟨j, hj, call, record, by rw [getElem?_append_left (by omega)]; exact hrec, rest⟩

/-- What the checks of an activation establish. -/
theorem nextSlotGeneration_eq_ok {s request g} (h : nextSlotGeneration s request = .ok g) :
    (∃ record, s.revisions request.namespace_ request.targetRevisionID = some record) ∧
      Expects request.expectation ((s.slots request.namespace_ request.slot).map (·.current)) ∧
      g = ((s.slots request.namespace_ request.slot).map (·.current.generation)).getD 0 + 1 := by
  unfold nextSlotGeneration at h
  split at h
  · cases h
  next record hrec =>
    dsimp only at h
    split at h
    · cases h
    next hmatch =>
      have hexp := activationExpectationMatches_eq_true (by simpa using hmatch)
      split at h
      next hslot =>
        rw [hslot] at hexp ⊢
        exact ⟨⟨record, hrec⟩, hexp, (Except.ok.inj h).symm⟩
      next state hslot =>
        split at h
        · cases h
        · rw [hslot] at hexp ⊢
          exact ⟨⟨record, hrec⟩, hexp, (Except.ok.inj h).symm⟩

/-- The commit of an activation. -/
theorem SlotInv.activate {store store' : Store} (hi : SlotInv store log) {id request g t a}
    (hg : nextSlotGeneration store request = .ok g)
    (ha : newActivation request.namespace_ request.slot request.targetRevisionID g t = .ok a)
    (hrev : store'.revisions = store.revisions) (hslots : store'.slots = update store.slots a.namespace_
      (update (store.slots a.namespace_) a.slot (some (SlotState.push (store.slots a.namespace_ a.slot) a)))) :
    SlotInv store' (log ++ [.slot ⟨id, request, a⟩]) := by
  obtain ⟨rfl, -⟩ := newActivation_eq_ok.1 ha
  obtain ⟨⟨record, hrec⟩, hexp, hgen⟩ := nextSlotGeneration_eq_ok hg
  have hst := hi.state request.namespace_ request.slot
  have hcom := hi.commits request.namespace_ request.slot
  rw [hst.current] at hexp
  -- the generation continues the sequence
  have hlen : g = (slotLog request.namespace_ request.slot (activations log)).length + 1 := by
    have hmap : (store.slots request.namespace_ request.slot).map (·.current.generation) =
        ((slotLog request.namespace_ request.slot (activations log)).getLast?.map (·.activation)).map (·.generation) := by
      rw [← hst.current, Option.map_map]
      rfl
    rw [hgen, hmap]
    cases hl : (slotLog request.namespace_ request.slot (activations log)).getLast?.map (·.activation) with
    | none => simp [getLast?_eq_none_iff.1 (Option.map_eq_none_iff.1 hl)]
    | some b => simp [hcom.length hl]
  have hact : activations (log ++ [.slot ⟨id, request, ⟨request.namespace_, request.slot, request.targetRevisionID, g, t⟩⟩]) =
      activations log ++ [⟨id, request, ⟨request.namespace_, request.slot, request.targetRevisionID, g, t⟩⟩] := by
    simp [activations]
  have hlog (ns slot : Bytes) (e : SlotCommit) : slotLog ns slot (activations log ++ [e]) =
      slotLog ns slot (activations log) ++
        if e.request.namespace_ = ns ∧ e.request.slot = slot then [e] else [] := by
    by_cases hk : e.request.namespace_ = ns ∧ e.request.slot = slot <;> simp [slotLog, hk]
  refine ⟨fun ns slot => ?_, fun ns slot => ?_, fun ns id' r hr => ?_, fun i c hc => ?_⟩
  · rw [hact, hlog]
    split
    next hk =>
      obtain ⟨rfl, rfl⟩ := hk
      exact hcom.append hlen hexp ⟨rfl, rfl, rfl⟩
    next => rw [append_nil]; exact hi.commits ns slot
  · rw [hact, hlog, hslots]
    split
    next hk =>
      obtain ⟨rfl, rfl⟩ := hk
      simp only [update_self]
      exact hst.push _
    next hk =>
      rw [append_nil]
      by_cases hns : ns = request.namespace_
      · subst hns
        have hslot : slot ≠ request.slot := fun h => hk ⟨rfl, h.symm⟩
        simp only [update_self, update_of_ne hslot]
        exact hi.state _ slot
      · simp only [update_of_ne hns]
        exact hi.state ns slot
  · rw [hrev] at hr
    obtain ⟨call, hmem, rest⟩ := hi.published ns id' r hr
    exact ⟨call, mem_append_left _ hmem, rest⟩
  · rcases getElem?_append_singleton_eq_some hc with ⟨hlt, hc⟩ | ⟨rfl, hnew⟩
    · obtain ⟨j, hj, call, r, hrj, rest⟩ := hi.targets i c hc
      exact ⟨j, hj, call, r, by rw [getElem?_append_left (by omega)]; exact hrj, rest⟩
    · obtain rfl : c = ⟨id, request, _⟩ := Committed.slot.inj hnew
      obtain ⟨call, hmem, hns, hid⟩ := hi.published _ _ _ hrec
      obtain ⟨j, hj, hjl⟩ := getElem_of_mem hmem
      exact ⟨j, hj, call, record, by rw [getElem?_append_left hj, getElem?_eq_getElem hj, hjl], hns, hid⟩

section Contract

variable [Primitives]

variable {s s' : Store}

theorem WriteStep.slots {request pc pc'} (h : WriteStep s request pc s' pc') :
    s'.slots = s.slots ∧ s'.revisions = s.revisions := by
  cases h with
  | commit =>
    rw [publishCandidate_eq, Store.effectiveTimeLocked_fst]
    exact ⟨rfl, rfl⟩
  | release => exact ⟨(SameContent.release s _).slots, (SameContent.release s _).revisions⟩
  | _ => exact ⟨rfl, rfl⟩

/-- An Activate step changes neither slots nor revisions and logs nothing, or commits its activation. -/
theorem ActivateStep.quiet_or_commit {request pc pc'} (id : CallId) (h : ActivateStep s request pc s' pc') :
    (committed id (.activate request pc) (.activate request pc') = [] ∧ s'.slots = s.slots ∧
      s'.revisions = s.revisions) ∨
    (∃ g t a, nextSlotGeneration s request = .ok g ∧
      newActivation request.namespace_ request.slot request.targetRevisionID g t = .ok a ∧
      committed id (.activate request pc) (.activate request pc') = [.slot ⟨id, request, a⟩] ∧
      s'.revisions = s.revisions ∧
      s'.slots = update s.slots a.namespace_
        (update (s.slots a.namespace_) a.slot (some (SlotState.push (s.slots a.namespace_ a.slot) a)))) := by
  cases h with
  | start | contend | answer | build | check | read | recheck | decline => exact .inl ⟨rfl, rfl, rfl⟩
  | refuse | abandon => cases pc <;> exact .inl ⟨rfl, rfl, rfl⟩
  | @commit r g t a event hg ha _ =>
    refine .inr ⟨g, _, a, hg, ha, rfl, ?_⟩
    rw [publishActivation_eq, Store.effectiveTimeLocked_fst]
    exact ⟨rfl, rfl⟩
  | release => exact .inl ⟨rfl, (SameContent.release s _).slots, (SameContent.release s _).revisions⟩

/-- A PutRevision step leaves the slots alone; a revision it adds is the one it logs. -/
theorem PutStep.published {write pc pc'} (id : CallId) (h : PutStep s write pc s' pc') :
    s'.slots = s.slots ∧
      ∀ ns key record, s'.revisions ns key = some record → s.revisions ns key = some record ∨
        .revision id record ∈ committed id (.putRevision write pc) (.putRevision write pc') ∧
          record.metadata.namespace_ = ns ∧ record.metadata.id = key := by
  cases h with
  | @commit r t event _ _ =>
    rw [publishRevision_eq, Store.effectiveTimeLocked_fst]
    refine ⟨rfl, fun ns key record hr => ?_⟩
    by_cases hns : ns = write.metadata.namespace_
    · subst hns
      by_cases hkey : key = write.metadata.id
      · subst hkey
        obtain rfl : write = record := by simpa [Store.unlock] using hr
        exact .inr ⟨by simp [committed], rfl, rfl⟩
      · left
        simpa [Store.unlock, Store.lock, hkey] using hr
    · left
      simpa [Store.unlock, Store.lock, hns] using hr
  | release =>
    have hsame := SameContent.release s ‹_›
    exact ⟨hsame.slots, fun ns key record hr => .inl (by rw [hsame.revisions] at hr; exact hr)⟩
  | _ => exact ⟨rfl, fun _ _ _ hr => .inl hr⟩

omit [Primitives] in
/-- Only activations log activations. -/
theorem not_slot_mem_committed {id o o'} (ho : ∀ request pc, o ≠ .activate request pc) (c : SlotCommit) :
    .slot c ∉ committed id o o' := by
  unfold committed
  split
  · split <;> simp
  · exact absurd rfl (ho _ _)
  · split <;> simp
  · simp

theorem SlotInv.step {s s' : System} {a : Action} (hi : SlotInv s.store s.log) (h : s.step a = some s') :
    SlotInv s'.store s'.log := by
  rcases System.step_cases h with ⟨id, o, hn, hentry, rfl⟩ | ⟨id, reason, o, hc, rfl⟩ |
    ⟨id, input, ctx, o, o', store, hc, hstep, rfl⟩
  · exact hi
  · exact hi
  · cases Operation.step_cases hstep with
    | writeData hw =>
      exact hi.append hw.slots.1 (not_slot_mem_committed nofun) fun ns key r hr => .inl (hw.slots.2 ▸ hr)
    | putRevision hw =>
      exact hi.append (hw.published id).1 (not_slot_mem_committed nofun) fun ns key r hr =>
        ((hw.published id).2 ns key r hr).imp_right fun h => ⟨id, h⟩
    | listEvents hw =>
      exact hi.append hw.slots (not_slot_mem_committed nofun) fun ns key r hr => .inl (hw.revisions ▸ hr)
    | openSnapshot hw =>
      exact hi.append hw.slots (not_slot_mem_committed nofun) fun ns key r hr => .inl (hw.revisions ▸ hr)
    | activate hw =>
      rcases hw.quiet_or_commit id with ⟨hq, hslots, hrev⟩ | ⟨g, t, act, hg, ha, hq, hrev, hslots⟩
      · refine hi.append hslots (fun c => by simp [hq]) fun ns key r hr => .inl (hrev ▸ hr)
      · rw [hq]
        exact hi.activate hg ha hrev hslots

theorem slotInv_of_reached {s : System} (h : s.Reached) : SlotInv s.store s.log := by
  refine h.invariant (I := fun s => SlotInv s.store s.log) ?_ fun _ _ _ hi _ hs => hi.step hs
  rintro _ ⟨key, rfl⟩
  exact ⟨fun _ _ => .nil, fun _ _ => rfl, nofun, nofun⟩

/-- What Activate promises about one slot, in one state. -/
structure SlotMachine (s : System) (ns slot : Bytes) : Prop where
  /-- The generations of the activations are 1, 2, 3, … in commit order. -/
  generations : (slotLog ns slot (activations s.log)).map (·.activation.generation) =
    List.range' 1 (slotLog ns slot (activations s.log)).length
  /-- Each activates its request's target in this slot. -/
  activation : ∀ e ∈ slotLog ns slot (activations s.log), e.activation.namespace_ = ns ∧ e.activation.slot = slot ∧
    e.activation.revisionID = e.request.targetRevisionID
  /-- Each found the slot as its request expected: the activation before it, or none. -/
  expectation : ∀ i e, (slotLog ns slot (activations s.log))[i]? = some e →
    Expects e.request.expectation (((slotLog ns slot (activations s.log)).take i).getLast?.map (·.activation))
  /-- Each target was published in the namespace before the activation committed. -/
  published : ∀ (i : Nat) (e : SlotCommit), s.log[i]? = some (Committed.slot e) → e.request.namespace_ = ns →
    ∃ j < i, ∃ call record, s.log[j]? = some (Committed.revision call record) ∧
      record.metadata.namespace_ = ns ∧ record.metadata.id = e.request.targetRevisionID
  /-- No expectation is met by two activations. -/
  once : ∀ (i j : Nat) (e e' : SlotCommit), (slotLog ns slot (activations s.log))[i]? = some e →
    (slotLog ns slot (activations s.log))[j]? = some e' → e.request.expectation = e'.request.expectation → i = j
  /-- The slot's current activation is the last one, or the slot is unset. -/
  current : (s.store.slots ns slot).map (·.current) = (slotLog ns slot (activations s.log)).getLast?.map (·.activation)
  /-- The retained history is the last `min n 3` of the `n` activations. -/
  history : ((s.store.slots ns slot).map (·.history)).getD [] =
    ((slotLog ns slot (activations s.log)).map (·.activation)).drop
      ((slotLog ns slot (activations s.log)).length - min (slotLog ns slot (activations s.log)).length 3)
  /-- Its generations are consecutive and end at the current one. -/
  retained : (((s.store.slots ns slot).map (·.history)).getD []).map (·.generation) =
    List.range' ((slotLog ns slot (activations s.log)).length - min (slotLog ns slot (activations s.log)).length 3 + 1)
      (min (slotLog ns slot (activations s.log)).length 3)
  /-- A returned success is the activation of exactly one commit, its own. -/
  succeeded : ∀ id ctx request a, s.calls id = some ⟨ctx, .activate request (.returned (.ok a))⟩ →
    request.namespace_ = ns → request.slot = slot →
    ∃ e ∈ slotLog ns slot (activations s.log), e.call = id ∧ e.request = request ∧ e.activation = a
  /-- Calls with one expectation never both succeed. -/
  exclusive : ∀ id ctx request a id' ctx' request' a',
    s.calls id = some ⟨ctx, .activate request (.returned (.ok a))⟩ →
    s.calls id' = some ⟨ctx', .activate request' (.returned (.ok a'))⟩ →
    request.namespace_ = ns → request.slot = slot → request'.namespace_ = ns → request'.slot = slot →
    request.expectation = request'.expectation → id = id'
  /-- Each commit is the answer of one call, settled on success. -/
  answered : ∀ e ∈ slotLog ns slot (activations s.log), ∃ ctx pc, s.calls e.call = some ⟨ctx, .activate e.request pc⟩ ∧
    pc.result? = some (.ok e.activation)
  /-- No call activates twice. -/
  calls : ((slotLog ns slot (activations s.log)).map (·.call)).Nodup

omit [Primitives] in
theorem activations_calls_nodup (h : (log.map (·.call)).Nodup) :
    ((activations log).map (·.call)).Nodup := by
  induction log with
  | nil => exact .nil
  | cons x log ih =>
    obtain ⟨hx, hlog⟩ := nodup_cons.1 h
    cases x with
    | slot c =>
      refine nodup_cons.2 ⟨fun hmem => hx ?_, ih hlog⟩
      obtain ⟨e, he, heq⟩ := mem_map.1 hmem
      exact mem_map.2 ⟨_, mem_activations.1 he, heq⟩
    | data => exact ih hlog
    | revision => exact ih hlog

/-- In every reachable state every slot is a state machine driven by compare-and-set activations. -/
theorem activate_linearizable {s : System} (h : s.Reached) (ns slot : Bytes) : SlotMachine s ns slot := by
  have hi := slotInv_of_reached h
  have ha := answered_of_reached h
  have hcom := hi.commits ns slot
  have hgens : (slotLog ns slot (activations s.log)).map (·.activation.generation) =
      List.range' 1 (slotLog ns slot (activations s.log)).length := by
    refine List.ext_getElem (by simp) fun i hlt _ => ?_
    rw [List.length_map] at hlt
    rw [List.getElem_map, List.getElem_range', hcom.generation i _ (List.getElem?_eq_getElem hlt)]
    omega
  have hhistory : ((s.store.slots ns slot).map (·.history)).getD [] =
      ((slotLog ns slot (activations s.log)).map (·.activation)).drop
        ((slotLog ns slot (activations s.log)).length - min (slotLog ns slot (activations s.log)).length 3) := by
    rw [(hi.state ns slot).history]
    congr 1
    simp only [activationHistoryRetention]
    omega
  have hsucc : ∀ id ctx request a, s.calls id = some ⟨ctx, .activate request (.returned (.ok a))⟩ →
      request.namespace_ = ns → request.slot = slot →
      ∃ e ∈ slotLog ns slot (activations s.log), e.call = id ∧ e.request = request ∧ e.activation = a := by
    intro id ctx request a hc hns hslot
    obtain ⟨y, hy, hid, hans⟩ := ha.settled hc (x := .slot ⟨id, request, a⟩) ⟨rfl, rfl⟩
    cases y with
    | slot e =>
      refine ⟨e, mem_slotLog.2 ⟨mem_activations.2 hy, hans.1 ▸ hns, hans.1 ▸ hslot⟩, hid, hans.1, ?_⟩
      simpa [ActivatePc.result?, eq_comm] using hans.2
    | data | revision => exact hans.elim
  refine ⟨hgens, fun e he => ?_, hcom.expectation, fun i e he hns => hns ▸ hi.targets i e he,
    fun i j e e' => hcom.index_unique, (hi.state ns slot).current, hhistory, ?_, hsucc, ?_, fun e he => ?_, ?_⟩
  · obtain ⟨h1, h2, h3⟩ := hcom.fields e he
    obtain ⟨-, hens, heslot⟩ := mem_slotLog.1 he
    exact ⟨h1.trans hens, h2.trans heslot, h3⟩
  · rw [hhistory, List.map_drop, List.map_map]
    rw [show (fun x : Activation => x.generation) ∘ SlotCommit.activation = (·.activation.generation) from rfl, hgens, List.drop_range']
    congr 1 <;> omega
  · intro id ctx request a id' ctx' request' a' hc hc' hns hslot hns' hslot' heq
    obtain ⟨e, he, rfl, rfl, -⟩ := hsucc id ctx request a hc hns hslot
    obtain ⟨e', he', rfl, rfl, -⟩ := hsucc id' ctx' request' a' hc' hns' hslot'
    obtain ⟨i, hi⟩ := List.getElem?_of_mem he
    obtain ⟨j, hj⟩ := List.getElem?_of_mem he'
    obtain rfl := hcom.index_unique hi hj heq
    rw [Option.some.inj (hi.symm.trans hj)]
  · obtain ⟨⟨ctx, o⟩, hc, hans⟩ := ha.author _ (mem_activations.1 (mem_slotLog.1 he).1)
    cases o with
    | activate request pc => exact ⟨ctx, pc, by rw [hans.1]; exact hc, hans.2⟩
    | _ => exact hans.elim
  · exact (activations_calls_nodup ha.once).sublist (List.filter_sublist.map _)

end Contract

/-! A run that activates a published revision in an unset slot. -/

def sampleActivation : List Action :=
  .invoke 1 ⟨.activate ⟨ascii "n", ascii "live", List.replicate 64 0x30, newUnsetSlotExpectation⟩ .entry, rfl⟩ ::
    List.replicate 7 (.step 1 ⟨some 5, false⟩)

theorem sampleActivation_commits :
    (run (@System.step Primitives.constant) ⟨newStore [], fun _ => none, []⟩ (samplePublish ++ sampleActivation)).any
      (fun s => (slotLog (ascii "n") (ascii "live") (activations s.log)).length = 1) = true := by
  decide +kernel

theorem activate_linearizable_sample :
    ∃ s, @System.Reached Primitives.constant s ∧
      (slotLog (ascii "n") (ascii "live") (activations s.log)).length = 1 ∧
      SlotMachine s (ascii "n") (ascii "live") := by
  obtain ⟨s, hs, hlen⟩ := (Option.any_eq_true _ _).1 sampleActivation_commits
  have hr : @System.Reached Primitives.constant s := Reachable.run (.start ⟨[], rfl⟩) hs
  exact ⟨s, hr, by simpa using hlen, @activate_linearizable Primitives.constant s hr _ _⟩

end PolicyEngine.Memory
