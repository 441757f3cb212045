import PolicyEngine.Sqlite.Accepted

/-!
# Frames of an accepted database

What a row needs of the rest of the database only ever grows: a head, a revision or
a slot, once there, stays, and generations and watermarks rise. So the rows that an
operation does not touch stay accepted (`Extends`), and an operation has to answer
for the rows it writes.
-/

open PolicyEngine.Lib

namespace PolicyEngine.Sqlite

variable {db db' : Database} {ns : Bytes}

/-! ## Heads -/

@[simp] theorem headOf_namespace (db : Database) (ns : Bytes) : (headOf db ns).namespace_ = ns := by
  unfold headOf
  cases hget : db.namespaceHeads.get? ns with
  | none => rfl
  | some h => exact (Table.get?_eq_some.1 hget).2

theorem headOf_of_not_hasHead (h : ¬ HasHead db ns) : headOf db ns = .initial ns := by
  rw [headOf, Table.get?_eq_none.2 fun r hr hns => h ⟨r, hr, hns⟩, Option.getD_none]

theorem HasHead.headOf_mem (h : HasHead db ns) : headOf db ns ∈ db.namespaceHeads := by
  obtain ⟨head, hm, rfl⟩ := h
  rwa [Sqlite.headOf_mem hm]

theorem expiredThroughOf_congr (h : db'.namespaceHeads = db.namespaceHeads) (ns : Bytes) :
    expiredThroughOf db' ns = expiredThroughOf db ns := by
  rw [expiredThroughOf, expiredThroughOf, headOf, headOf, h]

/-- Writes one head, and the events with it. -/
def Database.withHead (db : Database) (head : HeadRow) (events : Table EventRow.key) : Database :=
  { db with namespaceHeads := db.namespaceHeads.set head, stateEvents := events }

theorem headOf_withHead (db : Database) (head : HeadRow) (events : Table EventRow.key) (ns : Bytes) :
    headOf (db.withHead head events) ns = if head.namespace_ = ns then head else headOf db ns := by
  simp only [headOf, Database.withHead, Table.get?_set]
  split <;> rfl

variable {head : HeadRow}

theorem mem_withHead {h events} :
    h ∈ (db.withHead head events).namespaceHeads ↔ h = head ∨ h ∈ db.namespaceHeads ∧ h.namespace_ ≠ head.namespace_ :=
  Table.mem_set

theorem hasHead_withHead {events} :
    HasHead (db.withHead head events) ns ↔ ns = head.namespace_ ∨ HasHead db ns := by
  simp only [HasHead, mem_withHead]
  constructor
  · rintro ⟨h, rfl | ⟨hm, -⟩, rfl⟩
    · exact .inl rfl
    · exact .inr ⟨h, hm, rfl⟩
  · rintro (rfl | ⟨h, hm, rfl⟩)
    · exact ⟨head, .inl rfl, rfl⟩
    · by_cases heq : h.namespace_ = head.namespace_
      · exact ⟨head, .inl rfl, heq.symm⟩
      · exact ⟨h, .inr ⟨hm, heq⟩, rfl⟩

theorem headOk_initial (h : validateNamespace ns = .ok ()) : HeadOk (.initial ns) :=
  ⟨h, Int.le_refl 0, Int.le_refl 0, Int.le_refl 0, rfl⟩

theorem headOk_headOf (hh : ∀ h ∈ db.namespaceHeads, HeadOk h) (hns : validateNamespace ns = .ok ()) :
    HeadOk (headOf db ns) := by
  by_cases h : HasHead db ns
  · exact hh _ h.headOf_mem
  · rw [headOf_of_not_hasHead h]
    exact headOk_initial hns

theorem expiredThrough_nonneg (hh : ∀ h ∈ db.namespaceHeads, HeadOk h) (ns : Bytes) :
    0 ≤ (headOf db ns).expiredThrough.toInt := by
  by_cases h : HasHead db ns
  · exact (hh _ h.headOf_mem).expired
  · rw [headOf_of_not_hasHead h]
    exact Int.le_refl 0

/-! ## Numbered rows -/

theorem sequencesOf_nodup (db : Database) (ns : Bytes) : (sequencesOf db ns).Nodup := by
  refine List.Nodup.map_on ?_ (db.stateEvents.nodup.of_map.filter _)
  intro r hr r' hr' heq
  simp only [eventsOf, List.mem_filter, decide_eq_true_eq] at hr hr'
  refine Table.eq_of_key hr.1 hr'.1 ?_
  rw [EventRow.key, EventRow.key, hr.2, hr'.2, Int64.toInt_inj.1 heq]

theorem generationsOf_nodup (db : Database) (ns slot : Bytes) : (generationsOf db ns slot).Nodup := by
  refine List.Nodup.map_on ?_ (db.activationHistory.nodup.of_map.filter _)
  intro r hr r' hr' heq
  simp only [historyOf, List.mem_filter, decide_eq_true_eq] at hr hr'
  refine Table.eq_of_key hr.1 hr'.1 ?_
  rw [ActivationRow.historyKey, ActivationRow.historyKey, hr.2.1, hr.2.2, hr'.2.1, hr'.2.2, Int64.toInt_inj.1 heq]

theorem mem_answeredOf {x : Int} :
    x ∈ answeredOf db ns ↔ ∃ r ∈ db.idempotencyRecords, r.namespace_ = ns ∧ (r.generation : Int) = x := by
  simp [answeredOf, Table.mem_def, and_assoc]

/-- A list that nothing belongs to fills the empty interval. -/
theorem fills_of_empty {l : List Int} (h : ∀ x, x ∉ l) : Fills 0 0 l := by
  rw [List.eq_nil_iff_forall_not_mem.2 h]
  exact ⟨List.nodup_nil, by simp⟩

theorem IdempotencyTableOk.filledOf (h : IdempotencyTableOk db) (ns : Bytes) :
    Fills 0 (headOf db ns).dataGeneration.toInt (answeredOf db ns) := by
  by_cases hhead : HasHead db ns
  · have := h.filled _ hhead.headOf_mem
    rwa [headOf_namespace] at this
  · rw [headOf_of_not_hasHead hhead]
    refine fills_of_empty fun x hx => ?_
    obtain ⟨r, hr, rfl, -⟩ := mem_answeredOf.1 hx
    exact hhead (h.rows r hr).head

theorem EventsOk.filledOf [Primitives] {key bound} (h : EventsOk key bound db) (ns : Bytes) :
    Fills (headOf db ns).expiredThrough.toInt (headOf db ns).eventSequence.toInt (sequencesOf db ns) := by
  by_cases hhead : HasHead db ns
  · have := h.filled _ hhead.headOf_mem
    rwa [headOf_namespace] at this
  · rw [headOf_of_not_hasHead hhead]
    refine fills_of_empty fun x hx => ?_
    obtain ⟨r, hr, rfl, -⟩ := mem_sequencesOf.1 hx
    obtain ⟨e, he⟩ := h.rows r hr
    exact hhead he.head

/-! ## What rows refer to stays -/

/-- Every head, revision and slot of `db` is still in `db'`, and no slot fell back. -/
structure Extends (db db' : Database) : Prop where
  heads : ∀ ns, HasHead db ns → HasHead db' ns
  revisions : ∀ ns id, HasRevision db ns id → HasRevision db' ns id
  slots : ∀ h ∈ db.slotHeads, ∃ h' ∈ db'.slotHeads, h'.slotKey = h.slotKey ∧ h.generation.toInt ≤ h'.generation.toInt

theorem Extends.refl (db : Database) : Extends db db :=
  ⟨fun _ h => h, fun _ _ h => h, fun h hm => ⟨h, hm, rfl, Int.le_refl _⟩⟩

theorem Extends.withHead (db : Database) (head : HeadRow) (events : Table EventRow.key) :
    Extends db (db.withHead head events) :=
  ⟨fun _ h => hasHead_withHead.2 (.inr h), fun _ _ h => h, fun h hm => ⟨h, hm, rfl, Int.le_refl _⟩⟩

theorem Extends.trans {db'' : Database} (h : Extends db db') (h' : Extends db' db'') : Extends db db'' where
  heads ns hns := h'.heads ns (h.heads ns hns)
  revisions ns id hr := h'.revisions ns id (h.revisions ns id hr)
  slots slot hm := by
    obtain ⟨slot', hm', hkey, hle⟩ := h.slots slot hm
    obtain ⟨slot'', hm'', hkey', hle'⟩ := h'.slots slot' hm'
    exact ⟨slot'', hm'', hkey'.trans hkey, Int.le_trans hle hle'⟩

namespace Extends

variable (h : Extends db db')
include h

theorem activationOk {r} (hr : ActivationOk db r) : ActivationOk db' r :=
  { hr with head := h.heads _ hr.head, revision := h.revisions _ _ hr.revision }

theorem tupleOk {r : TupleRow} (hr : TupleOk db r) : TupleOk db' r := { hr with head := h.heads _ hr.head }

theorem idempotencyOk {r} (hr : IdempotencyOk db r) : IdempotencyOk db' r :=
  { hr with head := h.heads _ hr.head }

theorem references {b b' e} (hb : b ≤ b') (hr : References db ns b e) : References db' ns b' e := by
  unfold References at hr ⊢
  split
  next hk =>
    simp only [hk] at hr
    exact h.revisions _ _ hr
  next hk =>
    simp only [hk] at hr
    obtain ⟨⟨slot, hm, hkey, hle⟩, hrev⟩ := hr
    obtain ⟨slot', hm', hkey', hle'⟩ := h.slots slot hm
    exact ⟨⟨slot', hm', hkey'.trans hkey, by omega⟩, h.revisions _ _ hrev⟩
  next hk =>
    simp only [hk] at hr
    omega

variable [Primitives]

theorem revisionOk {r} (hr : RevisionOk db r) : RevisionOk db' r := { hr with head := h.heads _ hr.head }

theorem eventOk {key expired expired' b b' r e} (he : expired ≤ expired') (hb : b ≤ b')
    (hr : EventOk key db expired b r e) : EventOk key db' expired' b' r e :=
  { hr with
    head := h.heads _ hr.head
    cursor := by
      obtain ⟨c, hc, hp, hle⟩ := hr.cursor
      exact ⟨c, hc, hp, by omega⟩
    references := h.references hb hr.references }

end Extends

theorem AttributesOk.extends (h : AttributesOk db) (hext : Extends db db') (ha : db'.attributes = db.attributes)
    (hx : db'.attributeAncestors = db.attributeAncestors) : AttributesOk db' := by
  refine ⟨fun r hr => ?_, fun x => ?_⟩
  · rw [ha] at hr
    exact ⟨hext.heads _ (h.rows r hr).1, (h.rows r hr).2⟩
  · rw [ha, hx]
    exact h.ancestors x

theorem SlotsOk.extends (h : SlotsOk db) (hext : Extends db db') (hs : db'.slotHeads = db.slotHeads)
    (hh : db'.activationHistory = db.activationHistory) : SlotsOk db' := by
  refine ⟨fun r hr => ?_, fun r hr => ?_, fun r hr => ?_⟩
  · rw [hh] at hr
    rw [hs]
    exact ⟨hext.activationOk (h.history r hr).1, (h.history r hr).2⟩
  · rw [hs] at hr
    rw [hh]
    exact ⟨hext.activationOk (h.heads r hr).1, (h.heads r hr).2⟩
  · rw [hs] at hr
    simp only [generationsOf, historyOf, hh]
    exact h.filled r hr

/-! ## Writing a head -/

/-- Only heads and events changed, and no data generation did. -/
structure Moved (db db' : Database) : Prop where
  eq : db' = { db with namespaceHeads := db'.namespaceHeads, stateEvents := db'.stateEvents }
  heads : ∀ ns, HasHead db ns → HasHead db' ns
  generation : ∀ ns, (headOf db' ns).dataGeneration = (headOf db ns).dataGeneration

theorem Moved.refl (db : Database) : Moved db db := ⟨rfl, fun _ h => h, fun _ => rfl⟩

theorem Moved.trans {db'' : Database} (h : Moved db db') (h' : Moved db' db'') : Moved db db'' where
  eq := by
    rw [h'.eq, h.eq]
  heads ns hns := h'.heads ns (h.heads ns hns)
  generation ns := (h'.generation ns).trans (h.generation ns)

theorem Moved.withHead (events : Table EventRow.key)
    (hgen : head.dataGeneration = (headOf db head.namespace_).dataGeneration) : Moved db (db.withHead head events) where
  eq := rfl
  heads _ h := hasHead_withHead.2 (.inr h)
  generation ns := by
    rw [headOf_withHead]
    split
    next heq => rw [hgen, heq]
    next => rfl

theorem Moved.extends (h : Moved db db') : Extends db db' := by
  refine ⟨h.heads, ?_, ?_⟩
  · rw [h.eq]
    exact fun _ _ hr => hr
  · rw [h.eq]
    exact fun slot hm => ⟨slot, hm, rfl, Int.le_refl _⟩

section

variable [Primitives] {key : Bytes} {bound : Bytes → Nat}

theorem EventsOk.extends (h : EventsOk key bound db) (hext : Extends db db')
    (hheads : db'.namespaceHeads = db.namespaceHeads) (hevents : db'.stateEvents = db.stateEvents) :
    EventsOk key bound db' := by
  refine ⟨fun r hr => ?_, fun head hm => ?_⟩
  · obtain ⟨e, he⟩ := h.rows r (hevents ▸ hr)
    have hsame := expiredThroughOf_congr hheads r.namespace_
    exact ⟨e, hsame ▸ hext.eventOk (Nat.le_refl _) (Nat.le_refl _) he⟩
  · have hfill := h.filled head (hheads ▸ hm)
    simp only [sequencesOf, eventsOf] at hfill ⊢
    rwa [hevents]

/-- The events of one namespace change with its head, those of the others stay. -/
theorem EventsOk.withHead (h : EventsOk key bound db) {events}
    (hexp : (headOf db head.namespace_).expiredThrough.toInt ≤ head.expiredThrough.toInt)
    (hfill : ∀ x, x ∈ sequencesOf (db.withHead head events) head.namespace_ ↔
      head.expiredThrough.toInt < x ∧ x ≤ head.eventSequence.toInt)
    (hother : ∀ r, r.namespace_ ≠ head.namespace_ → (r ∈ events ↔ r ∈ db.stateEvents))
    (hrows : ∀ r ∈ events, r.namespace_ = head.namespace_ → r ∈ db.stateEvents ∨
      ∃ e, EventOk key (db.withHead head events) head.expiredThrough.toInt.toNat (bound head.namespace_) r e) :
    EventsOk key bound (db.withHead head events) := by
  have hext := Extends.withHead db head events
  have hold : ∀ r ∈ db.stateEvents, ∃ e,
      EventOk key (db.withHead head events) (expiredThroughOf (db.withHead head events) r.namespace_)
        (bound r.namespace_) r e := by
    intro r hr
    obtain ⟨e, he⟩ := h.rows r hr
    refine ⟨e, hext.eventOk ?_ (Nat.le_refl _) he⟩
    unfold expiredThroughOf
    rw [headOf_withHead]
    split
    next heq =>
      rw [heq] at hexp
      omega
    next => exact Nat.le_refl _
  refine ⟨fun r hr => ?_, fun h' hm' => ?_⟩
  · by_cases hns : r.namespace_ = head.namespace_
    · rcases hrows r hr hns with hr' | ⟨e, he⟩
      · exact hold r hr'
      · refine ⟨e, ?_⟩
        rw [expiredThroughOf, headOf_withHead, if_pos hns.symm, hns]
        exact he
    · exact hold r ((hother r hns).1 hr)
  · rcases mem_withHead.1 hm' with rfl | ⟨hm, hne⟩
    · exact ⟨sequencesOf_nodup _ _, hfill⟩
    · refine ⟨sequencesOf_nodup _ _, fun x => Iff.trans ?_ ((h.filled h' hm).mem_iff x)⟩
      rw [mem_sequencesOf, mem_sequencesOf]
      refine exists_congr fun r => ?_
      constructor
      · rintro ⟨hr, hns, hx⟩
        exact ⟨(hother r (hns ▸ hne)).1 hr, hns, hx⟩
      · rintro ⟨hr, hns, hx⟩
        exact ⟨(hother r (hns ▸ hne)).2 hr, hns, hx⟩

omit [Primitives] in
theorem IdempotencyTableOk.extends (h : IdempotencyTableOk db) (hext : Extends db db')
    (hrecords : db'.idempotencyRecords = db.idempotencyRecords)
    (hgen : ∀ ns, (headOf db' ns).dataGeneration = (headOf db ns).dataGeneration) : IdempotencyTableOk db' := by
  have hanswered : ∀ ns, answeredOf db' ns = answeredOf db ns := fun ns => by rw [answeredOf, hrecords]; rfl
  refine ⟨fun r hr => hext.idempotencyOk (h.rows r (hrecords ▸ hr)), fun head hm => ?_⟩
  have hf := h.filledOf head.namespace_
  rwa [← hgen, headOf_mem hm, ← hanswered] at hf

/-- The rows that an operation did not write stay accepted; it answers for the others. -/
theorem Accepted.rebuild (h : Accepted key db) (hext : Extends db db') (hmeta : db'.cadrenaMeta = db.cadrenaMeta)
    (hheads : ∀ h ∈ db'.namespaceHeads, HeadOk h) (hrevisions : ∀ r ∈ db'.revisions, r ∈ db.revisions ∨ RevisionOk db' r)
    (hslots : SlotsOk db') (htuples : ∀ r ∈ db'.tuples, r ∈ db.tuples ∨ TupleOk db' r) (hattributes : AttributesOk db')
    (habounded : ∀ r ∈ db'.attributes, attributeBounded r = true)
    (hxbounded : ∀ r ∈ db'.attributeAncestors, ancestorBounded r = true)
    (hevents : EventsOk key (dataGenerationOf db') db') (hidem : IdempotencyTableOk db') : Accepted key db' where
  cursorKey := by rw [hmeta]; exact h.cursorKey
  cursorKey_length := h.cursorKey_length
  heads := hheads
  revisions r hr := (hrevisions r hr).elim (fun hr => hext.revisionOk (h.revisions r hr)) id
  slots := hslots
  tuples r hr := (htuples r hr).elim (fun hr => hext.tupleOk (h.tuples r hr)) id
  attributes := hattributes
  attributes_bounded := habounded
  ancestors_bounded := hxbounded
  events := hevents
  idempotency := hidem

/-- An accepted database stays so when its heads and events move and are right by themselves. -/
theorem Accepted.moved (h : Accepted key db) (hm : Moved db db') (hh : ∀ h ∈ db'.namespaceHeads, HeadOk h)
    (hev : EventsOk key (dataGenerationOf db) db') : Accepted key db' := by
  have hext := hm.extends
  have hgens : dataGenerationOf db' = dataGenerationOf db := funext fun ns => by
    rw [dataGenerationOf, dataGenerationOf, hm.generation]
  have heq := hm.eq
  refine h.rebuild hext (by rw [heq]) hh (fun r hr => .inl (by rw [heq] at hr; exact hr))
    (h.slots.extends hext (by rw [heq]) (by rw [heq])) (fun r hr => .inl (by rw [heq] at hr; exact hr))
    (h.attributes.extends hext (by rw [heq]) (by rw [heq])) (by rw [heq]; exact h.attributes_bounded)
    (by rw [heq]; exact h.ancestors_bounded) (hgens ▸ hev) (h.idempotency.extends hext (by rw [heq]) hm.generation)

end

end PolicyEngine.Sqlite
