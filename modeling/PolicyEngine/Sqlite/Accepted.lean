import PolicyEngine.Sqlite.Integrity

/-!
# What the integrity check accepts

`Accepted key db` states, table by table, what a database must be for
`fullIntegrityCheck` to pass, in terms that its proofs can use: references exist,
every row decodes, and the numbered rows of a namespace or a slot fill an interval.
`fullIntegrityCheck_eq_ok` says that this is exactly what the check decides.
-/

open PolicyEngine.Lib List

namespace PolicyEngine.Sqlite

/-! ## Rows -/

def HasHead (db : Database) (ns : Bytes) : Prop := ∃ h ∈ db.namespaceHeads, h.namespace_ = ns

def HasRevision (db : Database) (ns id : Bytes) : Prop := ∃ r ∈ db.revisions, r.key = (ns, id)

structure HeadOk (h : HeadRow) : Prop where
  namespace_ok : validateNamespace h.namespace_ = .ok ()
  generation : 0 ≤ h.dataGeneration.toInt
  expired : 0 ≤ h.expiredThrough.toInt
  expired_le : h.expiredThrough.toInt ≤ h.eventSequence.toInt
  effective : h.effectiveTimeNS.all validTimestamp = true

structure ActivationOk (db : Database) (r : ActivationRow) : Prop where
  bounded : activationBounded r = true
  head : HasHead db r.namespace_
  revision : HasRevision db r.namespace_ r.revisionID
  generation : 0 < r.generation.toInt
  namespace_ok : validateNamespace r.namespace_ = .ok ()
  slot : validateIdentifier r.slot = .ok ()
  revisionID : validRevisionIDString r.revisionID = true

structure TupleOk (db : Database) (r : TupleRow) : Prop where
  bounded : tupleBounded r = true
  head : HasHead db r.namespace_
  valid : validateDSLRelationship r.tuple = .ok ()
  key : r.tupleKey = tupleKeyBytes r.tuple
  expiry : r.expiresAtNS.all validTimestamp = true

/-- The row holds an attribute. -/
def AttributeRow.Holds (r : AttributeRow) (a : Attribute) : Prop := Decodes r.attributeKey r.path r.value r.entity a

/-- What an event refers to; `bound` is the data generation of the namespace. -/
def References (db : Database) (ns : Bytes) (bound : Nat) (e : StateEvent) : Prop :=
  match e.kind with
  | .revisionPublished => HasRevision db ns e.revisionID
  | .slotActivated =>
    (∃ h ∈ db.slotHeads, h.slotKey = (ns, e.slot) ∧ e.slotGeneration ≤ h.generation.toInt.toNat) ∧
      HasRevision db ns e.revisionID
  | .dataWritten => e.dataGeneration ≤ bound

/-- The generation that a stored response answers. -/
def IdempotencyRow.generation (r : IdempotencyRow) : Nat :=
  match decodeIdempotencyResponse r.response false with
  | .ok response => response.generation
  | .error _ => 0

structure IdempotencyOk (db : Database) (r : IdempotencyRow) : Prop where
  bounded : idempotencyBounded r = true
  head : HasHead db r.namespace_
  namespace_ok : validateNamespace r.namespace_ = .ok ()
  key : validateIdentifier r.idempotencyKey = .ok ()
  fingerprint : ∃ f, decodeIdempotencyFingerprint r.fingerprint = .ok f
  response : ∃ response, decodeIdempotencyResponse r.response false = .ok response

/-- The generations answered in a namespace. -/
def answeredOf (db : Database) (ns : Bytes) : List Int :=
  (db.idempotencyRecords.rows.filter fun r => r.namespace_ = ns).map fun r => (r.generation : Int)

/-- The head of a namespace, as one that was never written would be created. -/
def headOf (db : Database) (ns : Bytes) : HeadRow := (db.namespaceHeads.get? ns).getD (.initial ns)

/-- The data generation of a namespace. -/
def dataGenerationOf (db : Database) (ns : Bytes) : Nat := (headOf db ns).dataGeneration.toInt.toNat

/-- The watermark of a namespace. -/
def expiredThroughOf (db : Database) (ns : Bytes) : Nat := (headOf db ns).expiredThrough.toInt.toNat

section

variable [Primitives]

structure RevisionOk (db : Database) (r : RevisionRow) : Prop where
  bounded : revisionBounded r = true
  head : HasHead db r.namespace_
  record : ∃ record, decodeRevisionRecord r = .ok record

/-- An event row whose watermark is `expired` and whose namespace is at data generation `bound`. -/
structure EventOk (key : Bytes) (db : Database) (expired bound : Nat) (r : EventRow) (e : StateEvent) : Prop where
  bounded : eventBounded r = true
  head : HasHead db r.namespace_
  created : validTimestamp r.createdAtNS = true
  payload : decodeStateEvent r.payload = .ok e
  namespace_eq : e.namespace_ = r.namespace_
  kind : stateEventKindName e.kind = r.kind
  time : e.occurredAt = unixTime r.createdAtNS
  cursor : ∃ c, decodeCursor key e.cursor .event r.namespace_ [] = .ok c ∧
    c.position = r.sequence.toInt.toNat ∧ c.boundary ≤ expired
  references : References db r.namespace_ bound e

end

/-! ## Tables -/

structure SlotsOk (db : Database) : Prop where
  history : ∀ r ∈ db.activationHistory, ActivationOk db r ∧
    ∃ h ∈ db.slotHeads, h.slotKey = r.slotKey ∧ r.generation.toInt ≤ h.generation.toInt
  heads : ∀ h ∈ db.slotHeads, ActivationOk db h ∧ h ∈ db.activationHistory
  /-- The retained history is a suffix that ends at the head. -/
  filled : ∀ h ∈ db.slotHeads, ∃ a < h.generation.toInt,
    Fills a h.generation.toInt (generationsOf db h.namespace_ h.slot)

structure AttributesOk (db : Database) : Prop where
  rows : ∀ r ∈ db.attributes, HasHead db r.namespace_ ∧ (∃ a, r.Holds a) ∧ r.expiresAtNS.all validTimestamp = true
  /-- The ancestor rows are exactly those of the stored attributes. -/
  ancestors : ∀ x, x ∈ db.attributeAncestors ↔ ∃ r ∈ db.attributes, ∃ a, r.Holds a ∧ ∃ b ∈ prefixBytes a.key,
    x = ⟨r.namespace_, r.attributeKey, b⟩

structure IdempotencyTableOk (db : Database) : Prop where
  rows : ∀ r ∈ db.idempotencyRecords, IdempotencyOk db r
  /-- Every data generation was answered once. -/
  filled : ∀ h ∈ db.namespaceHeads, Fills 0 h.dataGeneration.toInt (answeredOf db h.namespace_)

/-- The events of a namespace; `bound` is its data generation. -/
structure EventsOk [Primitives] (key : Bytes) (bound : Bytes → Nat) (db : Database) : Prop where
  rows : ∀ r ∈ db.stateEvents, ∃ e, EventOk key db (expiredThroughOf db r.namespace_) (bound r.namespace_) r e
  /-- The retained events are those after the watermark. -/
  filled : ∀ h ∈ db.namespaceHeads,
    Fills h.expiredThrough.toInt h.eventSequence.toInt (sequencesOf db h.namespace_)

structure Accepted [Primitives] (key : Bytes) (db : Database) : Prop where
  cursorKey : db.cadrenaMeta.rows = [(cursorKeyMetaKey, key)]
  cursorKey_length : key.length = 32
  heads : ∀ h ∈ db.namespaceHeads, HeadOk h
  revisions : ∀ r ∈ db.revisions, RevisionOk db r
  slots : SlotsOk db
  tuples : ∀ r ∈ db.tuples, TupleOk db r
  attributes : AttributesOk db
  attributes_bounded : ∀ r ∈ db.attributes, attributeBounded r = true
  ancestors_bounded : ∀ r ∈ db.attributeAncestors, ancestorBounded r = true
  events : EventsOk key (dataGenerationOf db) db
  idempotency : IdempotencyTableOk db

/-! ## References -/

variable {db : Database} {ns : Bytes}

theorem hasHead_iff : hasHead db ns = true ↔ HasHead db ns := Table.get?_isSome

theorem hasRevision_iff {id : Bytes} : hasRevision db ns id = true ↔ HasRevision db ns id :=
  Table.get?_isSome

theorem HasHead.get? (h : HasHead db ns) :
    ∃ head ∈ db.namespaceHeads, head.namespace_ = ns ∧ db.namespaceHeads.get? ns = some head := by
  obtain ⟨head, hmem, rfl⟩ := h
  exact ⟨head, hmem, rfl, Table.get?_key hmem⟩

variable {h : HeadRow}

theorem headOf_mem (hm : h ∈ db.namespaceHeads) : headOf db h.namespace_ = h := by
  rw [headOf, Table.get?_key hm, Option.getD_some]

theorem dataGenerationOf_mem (hm : h ∈ db.namespaceHeads) :
    dataGenerationOf db h.namespace_ = h.dataGeneration.toInt.toNat := by
  rw [dataGenerationOf, headOf_mem hm]

theorem expiredThroughOf_mem (hm : h ∈ db.namespaceHeads) :
    expiredThroughOf db h.namespace_ = h.expiredThrough.toInt.toNat := by
  rw [expiredThroughOf, headOf_mem hm]

/-! ## Heads, revisions and slots -/

theorem readCursorKey_eq_ok {key : Bytes} :
    readCursorKey db = .ok key ↔ db.cadrenaMeta.rows = [(cursorKeyMetaKey, key)] ∧ key.length = 32 := by
  simp only [readCursorKey, check_eq_ok, require_eq_ok, decide_eq_true_eq]
  constructor
  · rintro ⟨hlen, h⟩
    split at h
    next => simp at h
    next k value hget =>
      split at h
      next => simp at h
      next hv =>
        obtain rfl := Except.ok.inj h
        obtain ⟨hmem, rfl⟩ := Table.get?_eq_some.1 hget
        obtain ⟨row, hrow⟩ := length_eq_one_iff.1 hlen
        rw [Table.mem_def, hrow, mem_singleton] at hmem
        exact ⟨by rw [hrow, ← hmem], by simpa using hv⟩
  · rintro ⟨hrows, hlen⟩
    have hget : db.cadrenaMeta.get? cursorKeyMetaKey = some (cursorKeyMetaKey, key) :=
      Table.get?_eq_some.2 ⟨by simp [Table.mem_def, hrows], rfl⟩
    simp [hrows, hget, hlen]

theorem validateNamespaceHeadValues_eq_ok : validateNamespaceHeadValues h = .ok () ↔ HeadOk h := by
  simp only [validateNamespaceHeadValues, check_eq_ok, require_eq_ok, Bool.and_eq_true, decide_eq_true_eq,
    validNamespace_iff]
  constructor
  · rintro ⟨⟨⟨⟨⟨hns, hg⟩, -⟩, he⟩, hle⟩, ht⟩
    exact ⟨hns, hg, he, hle, ht⟩
  · intro h
    exact ⟨⟨⟨⟨⟨h.namespace_ok, h.generation⟩, by have := h.expired; have := h.expired_le; omega⟩, h.expired⟩,
      h.expired_le⟩, h.effective⟩

theorem validateFullNamespaceHeads_eq_ok :
    validateFullNamespaceHeads db = .ok () ↔ ∀ h ∈ db.namespaceHeads, HeadOk h := by
  simp only [validateFullNamespaceHeads, forM_eq_ok, validateNamespaceHeadValues_eq_ok, Table.mem_def]

theorem validateFullRevisions_eq_ok [Primitives] :
    validateFullRevisions db = .ok () ↔
      ∀ r ∈ db.revisions, HasHead db r.namespace_ ∧ ∃ record, decodeRevisionRecord r = .ok record := by
  simp only [validateFullRevisions, forM_eq_ok, check_eq_ok, require_eq_ok, ignore_eq_ok, hasHead_iff, Table.mem_def]

variable {r : ActivationRow}

/-- The checks of an activation row, its bounds apart. -/
theorem validateActivationRow_eq_ok (hb : activationBounded r = true) :
    validateActivationRow db r = .ok () ↔ ActivationOk db r := by
  simp only [validateActivationRow, check_eq_ok, require_eq_ok, ignore_eq_ok, hasHead_iff, hasRevision_iff,
    decide_eq_true_eq, orFail_eq_ok, newActivation_eq_ok, exists_eq_left]
  constructor
  · rintro ⟨hg, hh, hr, hns, hslot, hid, -, -⟩
    exact ⟨hb, hh, hr, hg, hns, hslot, hid⟩
  · intro h
    exact ⟨h.generation, h.head, h.revision, h.namespace_ok, h.slot, h.revisionID,
      by have := h.generation; omega, unixTime_ne_zeroTime _⟩

/-- A slot head is the history row of its generation. -/
theorem validateHeadRecord_eq_ok :
    validateHeadRecord db r = .ok () ↔ r ∈ db.activationHistory := by
  constructor
  · intro h
    unfold validateHeadRecord at h
    split at h
    next => simp at h
    next record hget =>
      obtain ⟨hmem, hkey⟩ := Table.get?_eq_some.1 hget
      simp only [require_eq_ok, Bool.and_eq_true, decide_eq_true_eq] at h
      have ht : record.activatedAtNS = r.activatedAtNS := Int64.toInt_inj.1 h.2
      simp only [ActivationRow.historyKey, Prod.mk.injEq] at hkey
      have heq : record = r := by
        cases record
        cases r
        simp_all
      exact heq ▸ hmem
  · intro h
    simp [validateHeadRecord, Table.get?_key h]

theorem validateCovered_eq_ok :
    validateCovered db r = .ok () ↔ ∃ h ∈ db.slotHeads, h.slotKey = r.slotKey ∧ r.generation.toInt ≤ h.generation.toInt := by
  unfold validateCovered
  cases hget : db.slotHeads.get? r.slotKey with
  | none =>
    simp only [reduceCtorEq, false_iff]
    rintro ⟨h, hm, hk, -⟩
    exact Table.get?_eq_none.1 hget h hm hk
  | some head =>
    simp only [require_eq_ok, decide_eq_true_eq]
    obtain ⟨hm, hk⟩ := Table.get?_eq_some.1 hget
    constructor
    · intro h
      exact ⟨head, hm, hk, h⟩
    · rintro ⟨h, hm', hk', hle⟩
      rwa [Table.eq_of_key hm hm' (hk.trans hk'.symm)]

theorem validateRetained_eq_ok {h} :
    validateRetained db h = .ok () ↔
      ∃ a < h.generation.toInt, Fills a h.generation.toInt (generationsOf db h.namespace_ h.slot) := by
  have hperm := mergeSort_perm (generationsOf db h.namespace_ h.slot) (· ≤ ·)
  have hsorted := pairwise_mergeSort' (· ≤ ·) (generationsOf db h.namespace_ h.slot)
  simp only [validateRetained, check_eq_ok, require_eq_ok, bne_iff_ne, decide_eq_true_eq]
  constructor
  · rintro ⟨hne, hlast, hchain⟩
    obtain ⟨x, l, hl⟩ := exists_cons_of_ne_nil hne
    have hle : x ≤ h.generation.toInt := by
      have hmem : h.generation.toInt ∈ x :: l := hl ▸ mem_of_getLast? hlast
      rw [hl, pairwise_cons] at hsorted
      rcases mem_cons.1 hmem with heq | hmem
      · exact heq.ge
      · exact hsorted.1 _ hmem
    -- the scan starts one below the oldest generation
    refine ⟨x - 1, by omega, Fills.of_perm ?_ hperm.symm⟩
    rw [Fills.iff_scan hsorted (by omega), hlast, Option.getD_some]
    refine ⟨?_, rfl⟩
    rw [hl] at hchain ⊢
    exact isChain_cons_cons.2 ⟨by omega, hchain⟩
  · rintro ⟨a, hlt, hf⟩
    have hscan := (Fills.iff_scan hsorted hlt.le).1 (hf.of_perm hperm)
    have hne : (generationsOf db h.namespace_ h.slot).mergeSort (· ≤ ·) ≠ [] := by
      rw [hf.mergeSort_le, interval_eq_cons hlt]
      exact cons_ne_nil _ _
    refine ⟨hne, ?_, hscan.1.tail⟩
    obtain ⟨y, hy⟩ := Option.isSome_iff_exists.1 (getLast?_isSome.2 hne)
    have hlast := hscan.2
    rw [hy, Option.getD_some] at hlast
    rw [hy, hlast]

/-- The three slot checks together, the bounds of the rows apart. -/
theorem validateSlots_eq_ok (hh : ∀ r ∈ db.activationHistory, activationBounded r = true)
    (hs : ∀ r ∈ db.slotHeads, activationBounded r = true) :
    (validateFullActivationHistory db = .ok () ∧ validateFullSlotHeads db = .ok () ∧
      validateFullHistoryHeads db = .ok ()) ↔ SlotsOk db := by
  simp only [validateFullActivationHistory, validateFullSlotHeads, validateFullHistoryHeads, forM_eq_ok, check_eq_ok,
    validateHeadRecord_eq_ok, validateCovered_eq_ok, validateRetained_eq_ok, ← Table.mem_def]
  constructor
  · rintro ⟨h1, h2, h3, h4⟩
    exact ⟨fun r hr => ⟨(validateActivationRow_eq_ok (hh r hr)).1 (h1 r hr), h3 r hr⟩,
      fun r hr => ⟨(validateActivationRow_eq_ok (hs r hr)).1 (h2 r hr).1, (h2 r hr).2⟩, h4⟩
  · intro h
    exact ⟨fun r hr => (validateActivationRow_eq_ok (hh r hr)).2 (h.history r hr).1,
      fun r hr => ⟨(validateActivationRow_eq_ok (hs r hr)).2 (h.heads r hr).1, (h.heads r hr).2⟩,
      fun r hr => (h.history r hr).2, h.filled⟩

/-! ## Tuples and attributes -/

theorem validateFullTuples_eq_ok (hb : ∀ r ∈ db.tuples, tupleBounded r = true) :
    validateFullTuples db = .ok () ↔ ∀ r ∈ db.tuples, TupleOk db r := by
  simp only [validateFullTuples, forM_eq_ok, check_eq_ok, require_eq_ok, ignore_eq_ok, hasHead_iff,
    decodeDurableTuple_eq_ok, ← Table.mem_def]
  constructor
  · intro h r hr
    obtain ⟨hh, _, hv, hk, he, -⟩ := h r hr
    exact ⟨hb r hr, hh, hv, hk, he⟩
  · intro h r hr
    exact ⟨(h r hr).head, _, (h r hr).valid, (h r hr).key, (h r hr).expiry, rfl⟩

theorem expectedAncestors_eq_ok {r l} :
    expectedAncestors db r = .ok l ↔ HasHead db r.namespace_ ∧ r.expiresAtNS.all validTimestamp = true ∧
      ∃ a, r.Holds a ∧ l = (prefixBytes a.key).map fun b => ⟨r.namespace_, r.attributeKey, b⟩ := by
  simp only [expectedAncestors, check_eq_ok, require_eq_ok, hasHead_iff, bind_eq_ok (α := Attribute),
    decodeDurableAttribute_eq_ok]
  refine and_congr_right fun _ => ?_
  constructor
  · rintro ⟨a, ha, he, h⟩
    rw [attributeKeyFromAttribute_eq ha.wellFormed, ok_bind, strictAttributePrefixes_eq ha.encodableKey, ok_bind] at h
    exact ⟨he, a, ha, (Except.ok.inj h).symm⟩
  · rintro ⟨he, a, ha, rfl⟩
    refine ⟨a, ha, he, ?_⟩
    rw [attributeKeyFromAttribute_eq ha.wellFormed, ok_bind, strictAttributePrefixes_eq ha.encodableKey, ok_bind]

/-- The checks of an ancestor row beside being expected. -/
def AncestorDecodes (db : Database) (r : AncestorRow) : Prop :=
  (∃ a ∈ db.attributes, a.key = (r.namespace_, r.attributeKey)) ∧ (∃ k, decodeAttributeKey r.attributeKey = .ok k) ∧
    ∃ k, decodeAttributeKey r.ancestorPath = .ok k

theorem strikeAncestor_eq_ok {expected left r} :
    strikeAncestor db expected r = .ok left ↔
      (AncestorDecodes db r ∧ r ∈ expected) ∧ left = expected.filter (· ≠ r) := by
  simp only [strikeAncestor, check_eq_ok, require_eq_ok, Table.get?_isSome]
  constructor
  · rintro ⟨ha, h⟩
    obtain ⟨k, hk, h⟩ := bind_eq_ok.1 h
    obtain ⟨k', hk', h⟩ := bind_eq_ok.1 h
    simp only [check_eq_ok, require_eq_ok, contains_iff_mem] at h
    exact ⟨⟨⟨ha, ⟨k, hk⟩, k', hk'⟩, h.1⟩, (Except.ok.inj h.2).symm⟩
  · rintro ⟨⟨⟨ha, ⟨k, hk⟩, k', hk'⟩, hmem⟩, rfl⟩
    refine ⟨ha, ?_⟩
    simp [hk, hk', hmem]

/-- Rows without duplicates strike themselves off and leave the rest. -/
theorem strikeAncestors_eq_ok {rows expected left : List AncestorRow} (hn : rows.Nodup) :
    rows.foldlM (strikeAncestor db) expected = .ok left ↔
      (∀ r ∈ rows, AncestorDecodes db r ∧ r ∈ expected) ∧ left = expected.filter (· ∉ rows) := by
  induction rows generalizing expected with
  | nil => simp [eq_comm]
  | cons r rows ih =>
    obtain ⟨hr, hn⟩ := nodup_cons.1 hn
    simp only [foldlM_cons, bind_eq_ok, strikeAncestor_eq_ok, ih hn, forall_mem_cons]
    -- a later row is not the one struck off first
    have hother : ∀ x ∈ rows, x ∈ expected.filter (· ≠ r) ↔ x ∈ expected := by
      intro x hx
      have hne : x ≠ r := fun h => hr (h ▸ hx)
      simp [mem_filter, hne]
    have hrest : (expected.filter (· ≠ r)).filter (· ∉ rows) = expected.filter (· ∉ r :: rows) := by
      rw [filter_filter]
      refine filter_congr fun x _ => ?_
      simp [Bool.and_comm]
    constructor
    · rintro ⟨_, ⟨hr', rfl⟩, hall, rfl⟩
      exact ⟨⟨hr', fun x hx => ⟨(hall x hx).1, (hother x hx).1 (hall x hx).2⟩⟩, hrest⟩
    · rintro ⟨⟨hr', hall⟩, rfl⟩
      exact ⟨_, ⟨hr', rfl⟩, fun x hx => ⟨(hall x hx).1, (hother x hx).2 (hall x hx).2⟩, hrest.symm⟩

theorem ancestorRows_nodup (db : Database) : db.attributeAncestors.rows.Nodup := db.attributeAncestors.nodup.of_map

/-- An ancestor of a stored attribute passes the checks of its row. -/
theorem AttributeRow.Holds.ancestorDecodes {r a} (ha : r.Holds a) (hr : r ∈ db.attributes) {b : Bytes}
    (hb : b ∈ prefixBytes a.key) :
    AncestorDecodes db ⟨r.namespace_, r.attributeKey, b⟩ := by
  obtain ⟨path, hne, -, hpre, rfl⟩ := mem_prefixBytes.1 hb
  have htake := prefix_iff_eq_take.1 hpre
  have hlen : 0 < path.length := length_pos_of_ne_nil hne
  refine ⟨⟨r, hr, rfl⟩, ⟨a.key, ?_⟩, ⟨a.key.entity, path⟩, ?_⟩
  · exact ha.key ▸ decodeAttributeKey_bytes ha.encodableKey
  · have hk := ha.encodableKey.take hlen
    rw [← htake] at hk
    exact decodeAttributeKey_bytes hk

theorem validateFullAttributes_eq_ok : validateFullAttributes db = .ok () ↔ AttributesOk db := by
  simp only [validateFullAttributes, bind_eq_ok, strikeAncestors_eq_ok (ancestorRows_nodup db), require_eq_ok,
    decide_eq_true_eq]
  -- what the first loop expects, row by row
  have hexpected : ∀ {ls : List (List AncestorRow)}, db.attributes.rows.mapM (expectedAncestors db) = .ok ls → ∀ x,
      x ∈ ls.flatten ↔ ∃ r ∈ db.attributes, ∃ a, r.Holds a ∧ ∃ b ∈ prefixBytes a.key,
        x = ⟨r.namespace_, r.attributeKey, b⟩ := by
    intro ls hls x
    simp only [mem_flatten, mem_of_mapM hls, expectedAncestors_eq_ok, ← Table.mem_def]
    constructor
    · rintro ⟨_, ⟨r, hr, -, -, a, ha, rfl⟩, hx⟩
      obtain ⟨b, hb, rfl⟩ := mem_map.1 hx
      exact ⟨r, hr, a, ha, b, hb, rfl⟩
    · rintro ⟨r, hr, a, ha, b, hb, rfl⟩
      obtain ⟨l, hl⟩ := exists_mapM.1 ⟨ls, hls⟩ r hr
      obtain ⟨hh, he, -⟩ := expectedAncestors_eq_ok.1 hl
      exact ⟨_, ⟨r, hr, hh, he, a, ha, rfl⟩, mem_map.2 ⟨b, hb, rfl⟩⟩
  constructor
  · rintro ⟨ls, hls, _, ⟨hall, rfl⟩, hempty⟩
    refine ⟨fun r hr => ?_, fun x => ?_⟩
    · obtain ⟨l, hl⟩ := exists_mapM.1 ⟨ls, hls⟩ r hr
      obtain ⟨hh, he, a, ha, -⟩ := expectedAncestors_eq_ok.1 hl
      exact ⟨hh, ⟨a, ha⟩, he⟩
    · rw [← hexpected hls x]
      refine ⟨fun hx => (hall x hx).2, fun hx => ?_⟩
      have := filter_eq_nil_iff.1 hempty x hx
      simpa [Table.mem_def] using this
  · intro h
    obtain ⟨ls, hls⟩ := exists_mapM.2 fun r hr => by
      obtain ⟨hh, ⟨a, ha⟩, he⟩ := h.rows r hr
      exact ⟨_, expectedAncestors_eq_ok.2 ⟨hh, he, a, ha, rfl⟩⟩
    refine ⟨ls, hls, _, ⟨fun x hx => ?_, rfl⟩, ?_⟩
    · have hx' := (h.ancestors x).1 hx
      refine ⟨?_, (hexpected hls x).2 hx'⟩
      obtain ⟨r, hr, a, ha, b, hb, rfl⟩ := hx'
      exact ha.ancestorDecodes hr hb
    · refine filter_eq_nil_iff.2 fun x hx => ?_
      have := (h.ancestors x).2 ((hexpected hls x).1 hx)
      simpa [Table.mem_def] using this

/-! ## Events -/

theorem validateEventReferences_eq_ok {head e} :
    validateEventReferences db head e = .ok () ↔
      References db head.namespace_ head.dataGeneration.toInt.toNat e := by
  unfold validateEventReferences References
  cases e.kind with
  | revisionPublished => simp only [require_eq_ok, hasRevision_iff]
  | dataWritten => simp only [require_eq_ok, decide_eq_true_eq]
  | slotActivated =>
    simp only
    cases hget : db.slotHeads.get? (head.namespace_, e.slot) with
    | none =>
      simp only [error_bind, reduceCtorEq, false_iff]
      rintro ⟨⟨h, hm, hk, -⟩, -⟩
      exact Table.get?_eq_none.1 hget h hm hk
    | some slot =>
      simp only [check_eq_ok, require_eq_ok, decide_eq_true_eq, hasRevision_iff]
      refine and_congr_left fun _ => ?_
      obtain ⟨hm, hk⟩ := Table.get?_eq_some.1 hget
      constructor
      · intro h
        exact ⟨slot, hm, hk, h⟩
      · rintro ⟨h, hm', hk', hle⟩
        rwa [Table.eq_of_key hm hm' (hk.trans hk'.symm)]

/-- The sequences of a namespace, in the order of a list of rows. -/
def sequencesIn (ns : Bytes) (rows : List EventRow) : List Int :=
  (rows.filter fun r => r.namespace_ = ns).map (·.sequence.toInt)

theorem pairwise_sequencesIn (ns : Bytes) (rows : List EventRow) :
    (sequencesIn ns (sortBy compareEventRow rows)).Pairwise (· ≤ ·) := by
  unfold sequencesIn
  rw [pairwise_map, pairwise_filter]
  refine (pairwise_sortBy rows).imp fun {a b} hle ha hb => ?_
  simp only [decide_eq_true_eq] at ha hb
  have hns : compareOn EventRow.namespace_ a b = .eq := by
    rw [compareOn, ha, hb]
    exact Std.ReflCmp.compare_self
  rw [compareEventRow, compareLex, hns, Ordering.eq_then, compareOn] at hle
  exact Int.isLE_compare.1 hle

theorem perm_sequencesIn (db : Database) (ns : Bytes) :
    (sequencesIn ns (sortBy compareEventRow db.stateEvents.rows)).Perm (sequencesOf db ns) :=
  ((mergeSort_perm _ _).filter _).map _

section

variable [Primitives]

variable {key : Bytes} {db : Database}

theorem validateEventRow_eq_ok {head : HeadRow} (hm : head ∈ db.namespaceHeads) {r : EventRow}
    (hns : head.namespace_ = r.namespace_) (hb : eventBounded r = true) :
    validateEventRow key db head r = .ok () ↔
      ∃ e, EventOk key db head.expiredThrough.toInt.toNat head.dataGeneration.toInt.toNat r e := by
  simp only [validateEventRow, bind_eq_ok (α := StateEvent), bind_eq_ok (α := CursorState), check_eq_ok, require_eq_ok,
    orFail_eq_ok, validateEventReferences_eq_ok, Bool.and_eq_true, decide_eq_true_eq, hns]
  refine exists_congr fun e => ?_
  constructor
  · rintro ⟨hp, ⟨⟨⟨ht, hn⟩, hk⟩, ho⟩, c, hc, ⟨hpos, hbound⟩, href⟩
    exact ⟨hb, ⟨head, hm, hns⟩, ht, hp, hn, hk, ho, ⟨c, hc, hpos, hbound⟩, href⟩
  · intro h
    obtain ⟨c, hc, hpos, hbound⟩ := h.cursor
    exact ⟨h.payload, ⟨⟨⟨h.created, h.namespace_eq⟩, h.kind⟩, h.time⟩, c, hc, ⟨hpos, hbound⟩, h.references⟩

/-- What the event scan asks of a row by itself. -/
def EventRowOk (key : Bytes) (db : Database) (r : EventRow) : Prop :=
  ∃ head ∈ db.namespaceHeads, head.namespace_ = r.namespace_ ∧ 0 < r.sequence.toInt ∧
    r.sequence.toInt ≤ head.eventSequence.toInt ∧ head.expiredThrough.toInt < r.sequence.toInt ∧
    ∃ e, EventOk key db head.expiredThrough.toInt.toNat head.dataGeneration.toInt.toNat r e

/-- Where the scan of a namespace stands. -/
def scanned (db : Database) (last : Bytes → Option Int) (ns : Bytes) : Int :=
  (last ns).getD (((db.namespaceHeads.get? ns).map (·.expiredThrough.toInt)).getD 0)

theorem scanEventRow_eq_ok {last last' r} (hb : eventBounded r = true) :
    scanEventRow key db last r = .ok last' ↔ EventRowOk key db r ∧
      r.sequence.toInt = scanned db last r.namespace_ + 1 ∧
      last' = fun ns => if ns = r.namespace_ then some r.sequence.toInt else last ns := by
  simp only [scanEventRow, check_eq_ok, require_eq_ok, decide_eq_true_eq, scanned]
  cases hget : db.namespaceHeads.get? r.namespace_ with
  | none =>
    simp only [reduceCtorEq, and_false, false_iff]
    rintro ⟨⟨head, hm, hns, -⟩, -⟩
    exact Table.get?_eq_none.1 hget head hm hns
  | some head =>
    obtain ⟨hm, hns⟩ := Table.get?_eq_some.1 hget
    simp only [check_eq_ok, require_eq_ok, Bool.and_eq_true, decide_eq_true_eq, validateEventRow_eq_ok hm hns hb,
      Option.map_some, Option.getD_some, Except.ok.injEq]
    constructor
    · rintro ⟨hpos, ⟨hle, hlt⟩, hseq, hok, rfl⟩
      exact ⟨⟨head, hm, hns, hpos, hle, hlt, hok⟩, hseq, rfl⟩
    · rintro ⟨⟨head', hm', hns', hpos, hle, hlt, hok⟩, hseq, rfl⟩
      obtain rfl := Table.eq_of_key hm' hm (hns'.trans hns.symm)
      exact ⟨hpos, ⟨hle, hlt⟩, hseq, hok, rfl⟩

/-- The scan passes when every row does and the sequences of each namespace follow on from where it stands. -/
theorem scanEventRows_eq_ok {Q : (Bytes → Int) → Prop} {rows : List EventRow} (hb : ∀ r ∈ rows, eventBounded r = true)
    {last : Bytes → Option Int} :
    (∃ last', rows.foldlM (scanEventRow key db) last = .ok last' ∧ Q (scanned db last')) ↔
      (∀ r ∈ rows, EventRowOk key db r) ∧
      (∀ ns, List.IsChain (fun x y => y = x + 1) (scanned db last ns :: sequencesIn ns rows)) ∧
      Q fun ns => (sequencesIn ns rows).getLast?.getD (scanned db last ns) := by
  induction rows generalizing last with
  | nil => simp [sequencesIn]
  | cons r rows ih =>
    have hb' := forall_mem_cons.1 hb
    -- the state after the row, seen through `scanned`
    have hscanned : ∀ ns, scanned db (fun ns => if ns = r.namespace_ then some r.sequence.toInt else last ns) ns =
        if ns = r.namespace_ then r.sequence.toInt else scanned db last ns := by
      intro ns
      by_cases h : ns = r.namespace_ <;> simp [scanned, h]
    have hseq : ∀ ns, sequencesIn ns (r :: rows) =
        if ns = r.namespace_ then r.sequence.toInt :: sequencesIn ns rows else sequencesIn ns rows := by
      intro ns
      by_cases h : r.namespace_ = ns
      · simp [sequencesIn, h]
      · simp [sequencesIn, h, Ne.symm h]
    have hchain : ∀ ns, List.IsChain (fun x y => y = x + 1) (scanned db last ns :: sequencesIn ns (r :: rows)) ↔
        (ns = r.namespace_ → r.sequence.toInt = scanned db last ns + 1) ∧ List.IsChain (fun x y => y = x + 1)
          (scanned db (fun ns => if ns = r.namespace_ then some r.sequence.toInt else last ns) ns ::
            sequencesIn ns rows) := by
      intro ns
      rw [hscanned, hseq]
      by_cases h : ns = r.namespace_
      · rw [if_pos h, if_pos h, isChain_cons_cons]
        exact and_congr_left fun _ => ⟨fun h' _ => h', fun h' => h' h⟩
      · rw [if_neg h, if_neg h]
        exact (and_iff_right fun h' => absurd h' h).symm
    have hfinal : (fun ns => (sequencesIn ns (r :: rows)).getLast?.getD (scanned db last ns)) = fun ns =>
        (sequencesIn ns rows).getLast?.getD
          (scanned db (fun ns => if ns = r.namespace_ then some r.sequence.toInt else last ns) ns) := by
      funext ns
      rw [hscanned, hseq]
      by_cases h : ns = r.namespace_
      · simp only [if_pos h, getLast?_cons, Option.getD_some]
      · simp only [if_neg h]
    simp only [foldlM_cons, bind_eq_ok, scanEventRow_eq_ok hb'.1, forall_mem_cons, hchain, hfinal, forall_and,
      forall_eq]
    constructor
    · rintro ⟨last', ⟨_, ⟨hr, hnext, rfl⟩, hrest⟩, hq⟩
      obtain ⟨hrows, hchain, hq⟩ := (ih hb'.2).1 ⟨last', hrest, hq⟩
      exact ⟨⟨hr, hrows⟩, ⟨hnext, hchain⟩, hq⟩
    · rintro ⟨⟨hr, hrows⟩, ⟨hnext, hchain⟩, hq⟩
      obtain ⟨last', hrest, hq⟩ := (ih hb'.2).2 ⟨hrows, hchain, hq⟩
      exact ⟨last', ⟨_, ⟨hr, hnext, rfl⟩, hrest⟩, hq⟩

theorem validateFullEvents_eq_ok (hb : ∀ r ∈ db.stateEvents, eventBounded r = true)
    (hh : ∀ h ∈ db.namespaceHeads, HeadOk h) :
    validateFullEvents key db = .ok () ↔ EventsOk key (dataGenerationOf db) db := by
  have hmem : ∀ r, r ∈ sortBy compareEventRow db.stateEvents.rows ↔ r ∈ db.stateEvents := fun r => mem_mergeSort
  have hscanned : ∀ last : Bytes → Option Int, ∀ h ∈ db.namespaceHeads,
      scanned db last h.namespace_ = (last h.namespace_).getD h.expiredThrough.toInt := by
    intro last h hm
    rw [scanned, Table.get?_key hm, Option.map_some, Option.getD_some]
  -- the final check, through `scanned`
  have hfinal : ∀ last : Bytes → Option Int, (forM db.namespaceHeads.rows fun head =>
      require (decide ((last head.namespace_).getD head.expiredThrough.toInt = head.eventSequence.toInt))
        .integrity) = .ok () ↔ ∀ h ∈ db.namespaceHeads, scanned db last h.namespace_ = h.eventSequence.toInt := by
    intro last
    rw [forM_eq_ok]
    refine forall₂_congr fun h hm => ?_
    rw [require_eq_ok, decide_eq_true_eq, hscanned last h hm]
  have hfills : ∀ h ∈ db.namespaceHeads, Fills h.expiredThrough.toInt h.eventSequence.toInt (sequencesOf db h.namespace_) ↔
      List.IsChain (fun x y => y = x + 1) (scanned db (fun _ => none) h.namespace_ ::
        sequencesIn h.namespace_ (sortBy compareEventRow db.stateEvents.rows)) ∧
      (sequencesIn h.namespace_ (sortBy compareEventRow db.stateEvents.rows)).getLast?.getD
        (scanned db (fun _ => none) h.namespace_) = h.eventSequence.toInt := by
    intro h hm
    have hperm := perm_sequencesIn db h.namespace_
    rw [hscanned _ h hm, Option.getD_none, ← Fills.iff_scan (pairwise_sequencesIn _ _) (hh h hm).expired_le]
    exact ⟨fun hf => hf.of_perm hperm, fun hf => hf.of_perm hperm.symm⟩
  simp only [validateFullEvents, bind_eq_ok, hfinal]
  rw [scanEventRows_eq_ok (Q := fun f => ∀ h ∈ db.namespaceHeads, f h.namespace_ = h.eventSequence.toInt)
    fun r hr => hb r ((hmem r).1 hr)]
  constructor
  · rintro ⟨hrows, hchain, hlast⟩
    refine ⟨fun r hr => ?_, fun h hm => (hfills h hm).2 ⟨hchain _, hlast h hm⟩⟩
    obtain ⟨head, hm, hns, -, -, -, e, he⟩ := hrows r ((hmem r).2 hr)
    rw [← hns, expiredThroughOf_mem hm, dataGenerationOf_mem hm]
    exact ⟨e, he⟩
  · intro h
    have hrows : ∀ r ∈ db.stateEvents, EventRowOk key db r := by
      intro r hr
      obtain ⟨e, he⟩ := h.rows r hr
      obtain ⟨head, hm, hns⟩ := he.head
      have hseq := ((h.filled head hm).mem_iff r.sequence.toInt).1 (mem_sequencesOf.2 ⟨r, hr, hns.symm, rfl⟩)
      rw [← hns, expiredThroughOf_mem hm, dataGenerationOf_mem hm] at he
      exact ⟨head, hm, hns, by have := (hh head hm).expired; omega, hseq.2, hseq.1, e, he⟩
    refine ⟨fun r hr => hrows r ((hmem r).1 hr), fun ns => ?_, fun head hm => ((hfills head hm).1 (h.filled head hm)).2⟩
    by_cases hns : HasHead db ns
    · obtain ⟨head, hm, rfl⟩ := hns
      exact ((hfills head hm).1 (h.filled head hm)).1
    · -- a namespace without a head has no events
      have hnil : sequencesIn ns (sortBy compareEventRow db.stateEvents.rows) = [] := by
        rw [sequencesIn, map_eq_nil_iff, filter_eq_nil_iff]
        intro r hr hrns
        obtain ⟨head, hm, hns', -⟩ := hrows r ((hmem r).1 hr)
        exact hns ⟨head, hm, hns'.trans (by simpa using hrns)⟩
      rw [hnil]
      exact isChain_singleton _

end

/-! ## Idempotency records -/

/-- The generations answered in a namespace, in the order of a list of rows. -/
def answeredIn (ns : Bytes) (rows : List IdempotencyRow) : List Nat :=
  (rows.filter fun r => r.namespace_ = ns).map (·.generation)

theorem scanIdempotencyRow_eq_ok {seen seen' r} (hb : idempotencyBounded r = true) :
    scanIdempotencyRow db seen r = .ok seen' ↔
      (IdempotencyOk db r ∧ r.generation ≤ dataGenerationOf db r.namespace_) ∧ r.generation ∉ seen r.namespace_ ∧
      seen' = fun ns => if ns = r.namespace_ then r.generation :: seen ns else seen ns := by
  unfold scanIdempotencyRow
  cases hget : db.namespaceHeads.get? r.namespace_ with
  | none =>
    simp only [reduceCtorEq, false_iff]
    rintro ⟨⟨h, -⟩, -⟩
    obtain ⟨head, hm, hns⟩ := h.head
    exact Table.get?_eq_none.1 hget head hm hns
  | some head =>
    obtain ⟨hm, hns⟩ := Table.get?_eq_some.1 hget
    have hgen : dataGenerationOf db r.namespace_ = head.dataGeneration.toInt.toNat := by
      rw [← hns, dataGenerationOf_mem hm]
    constructor
    · intro h
      obtain ⟨_, hscope, h⟩ := bind_eq_ok.1 h
      obtain ⟨f, hf, h⟩ := bind_eq_ok.1 h
      obtain ⟨response, hr, h⟩ := bind_eq_ok.1 h
      obtain ⟨-, hns', hkey⟩ := newResolveRequest_eq_ok.1 (orFail_eq_ok.1 hscope)
      have hresponse := orFail_eq_ok.1 hr
      have hg : r.generation = response.generation := by simp only [IdempotencyRow.generation, hresponse]
      simp only [check_eq_ok, require_eq_ok, decide_eq_true_eq, Bool.not_eq_true', Except.ok.injEq] at h
      obtain ⟨hle, hnew, rfl⟩ := h
      rw [← hg] at hle hnew ⊢
      exact ⟨⟨⟨hb, ⟨head, hm, hns⟩, hns', hkey, ⟨f, hf⟩, response, hresponse⟩, hgen ▸ hle⟩, by simpa using hnew, rfl⟩
    · rintro ⟨⟨h, hle⟩, hnew, rfl⟩
      obtain ⟨f, hf⟩ := h.fingerprint
      obtain ⟨response, hresponse⟩ := h.response
      have hg : r.generation = response.generation := by simp only [IdempotencyRow.generation, hresponse]
      rw [hgen, hg] at hle
      rw [hg] at hnew ⊢
      have hfresh : (!(seen r.namespace_).contains response.generation) = true := by simpa using hnew
      simp only [newResolveRequest_eq_ok.2 ⟨rfl, h.namespace_ok, h.key⟩, hf, hresponse, orFail_ok, ok_bind,
        decide_eq_true hle, hfresh, require_true]

/-- The scan passes when every row does and no generation is answered twice. -/
theorem scanIdempotencyRows_eq_ok {Q : (Bytes → Nat) → Prop} {rows : List IdempotencyRow}
    (hb : ∀ r ∈ rows, idempotencyBounded r = true) {seen : Bytes → List Nat} (hn : ∀ ns, (seen ns).Nodup) :
    (∃ seen', rows.foldlM (scanIdempotencyRow db) seen = .ok seen' ∧ Q fun ns => (seen' ns).length) ↔
      (∀ r ∈ rows, IdempotencyOk db r ∧ r.generation ≤ dataGenerationOf db r.namespace_) ∧
      (∀ ns, (answeredIn ns rows ++ seen ns).Nodup) ∧ Q fun ns => (answeredIn ns rows ++ seen ns).length := by
  induction rows generalizing seen with
  | nil => simp [answeredIn, hn]
  | cons r rows ih =>
    have hb' := forall_mem_cons.1 hb
    -- what is seen after the row and what is still to come are together what they were before it
    have hperm : ∀ ns, (answeredIn ns rows ++
        (if ns = r.namespace_ then r.generation :: seen ns else seen ns)).Perm (answeredIn ns (r :: rows) ++ seen ns) := by
      intro ns
      by_cases h : r.namespace_ = ns
      · simp [answeredIn, h]
      · simp [answeredIn, h, Ne.symm h]
    have hlen : (fun ns => (answeredIn ns (r :: rows) ++ seen ns).length) = fun ns => (answeredIn ns rows ++
        (if ns = r.namespace_ then r.generation :: seen ns else seen ns)).length :=
      funext fun ns => (hperm ns).length_eq.symm
    simp only [foldlM_cons, bind_eq_ok, scanIdempotencyRow_eq_ok hb'.1, forall_mem_cons, hlen,
      ← (hperm _).nodup_iff]
    have hnext : r.generation ∉ seen r.namespace_ →
        ∀ ns, (if ns = r.namespace_ then r.generation :: seen ns else seen ns).Nodup := by
      intro hnew ns
      split
      next h => exact nodup_cons.2 ⟨h ▸ hnew, hn ns⟩
      next => exact hn ns
    constructor
    · rintro ⟨seen', ⟨_, ⟨hr, hnew, rfl⟩, hrest⟩, hq⟩
      obtain ⟨hrows, hnodup, hq⟩ := (ih hb'.2 (hnext hnew)).1 ⟨seen', hrest, hq⟩
      exact ⟨⟨hr, hrows⟩, hnodup, hq⟩
    · rintro ⟨⟨hr, hrows⟩, hnodup, hq⟩
      have hnew : r.generation ∉ seen r.namespace_ := by
        have := (nodup_append.1 (hnodup r.namespace_)).2.1
        rw [if_pos rfl] at this
        exact (nodup_cons.1 this).1
      obtain ⟨seen', hrest, hq⟩ := (ih hb'.2 (hnext hnew)).2 ⟨hrows, hnodup, hq⟩
      exact ⟨seen', ⟨_, ⟨hr, hnew, rfl⟩, hrest⟩, hq⟩

theorem IdempotencyOk.generation_pos {r} (h : IdempotencyOk db r) : 0 < r.generation := by
  obtain ⟨response, hr⟩ := h.response
  have := (decodeIdempotencyResponse_eq_ok hr).1
  simp only [IdempotencyRow.generation, hr]
  omega

theorem validateFullIdempotency_eq_ok (hb : ∀ r ∈ db.idempotencyRecords, idempotencyBounded r = true)
    (hh : ∀ h ∈ db.namespaceHeads, HeadOk h) : validateFullIdempotency db = .ok () ↔ IdempotencyTableOk db := by
  have hcast : ∀ ns, answeredOf db ns = (answeredIn ns db.idempotencyRecords.rows).map fun g : Nat => (g : Int) := by
    intro ns
    rw [answeredIn, map_map]
    rfl
  have hinj : Function.Injective fun g : Nat => (g : Int) := fun a b h => Int.ofNat_inj.1 h
  have hfinal : ∀ seen : Bytes → List Nat, (forM db.namespaceHeads.rows fun head =>
      require (decide ((seen head.namespace_).length = head.dataGeneration.toInt.toNat)) .integrity) = .ok () ↔
        ∀ h ∈ db.namespaceHeads, (seen h.namespace_).length = h.dataGeneration.toInt.toNat := by
    intro seen
    simp only [forM_eq_ok, require_eq_ok, decide_eq_true_eq, Table.mem_def]
  simp only [validateFullIdempotency, bind_eq_ok, hfinal]
  rw [scanIdempotencyRows_eq_ok
    (Q := fun f => ∀ h ∈ db.namespaceHeads, f h.namespace_ = h.dataGeneration.toInt.toNat) hb fun _ => nodup_nil]
  simp only [append_nil]
  constructor
  · rintro ⟨hrows, hnodup, hlen⟩
    refine ⟨fun r hr => (hrows r hr).1, fun h hm => ?_⟩
    rw [hcast]
    refine Fills.of_length ((hnodup _).map hinj) ?_ (by simp [hlen h hm])
    intro x hx
    obtain ⟨g, hg, rfl⟩ := mem_map.1 hx
    obtain ⟨r, hr, rfl⟩ := mem_map.1 hg
    obtain ⟨hr, hns⟩ := mem_filter.1 hr
    obtain ⟨hok, hle⟩ := hrows r hr
    rw [decide_eq_true_eq] at hns
    rw [hns, dataGenerationOf_mem hm] at hle
    have := hok.generation_pos
    have := (hh h hm).generation
    omega
  · intro h
    have hle : ∀ r ∈ db.idempotencyRecords, r.generation ≤ dataGenerationOf db r.namespace_ := by
      intro r hr
      obtain ⟨head, hm, hns⟩ := (h.rows r hr).head
      have hmem : (r.generation : Int) ∈ answeredOf db head.namespace_ :=
        mem_map.2 ⟨r, mem_filter.2 ⟨hr, by simp [hns]⟩, rfl⟩
      have := ((h.filled head hm).mem_iff _).1 hmem
      rw [← hns, dataGenerationOf_mem hm]
      omega
    refine ⟨fun r hr => ⟨h.rows r hr, hle r hr⟩, fun ns => ?_, fun head hm => ?_⟩
    · by_cases hns : HasHead db ns
      · obtain ⟨head, hm, rfl⟩ := hns
        have := (h.filled head hm).nodup
        rw [hcast] at this
        exact this.of_map
      · -- a namespace without a head has no records
        have hnil : answeredIn ns db.idempotencyRecords.rows = [] := by
          rw [answeredIn, map_eq_nil_iff, filter_eq_nil_iff]
          intro r hr hrns
          obtain ⟨head, hm, hns'⟩ := (h.rows r hr).head
          exact hns ⟨head, hm, hns'.trans (by simpa using hrns)⟩
        rw [hnil]
        exact nodup_nil
    · have := (h.filled head hm).length
      rw [hcast, length_map] at this
      simpa using this

/-! ## The whole check -/

theorem all_iff {ρ κ : Type} {key : ρ → κ} {t : Table key} {p : ρ → Bool} : t.rows.all p = true ↔ ∀ r ∈ t, p r = true :=
  all_eq_true

/-- The check accepts exactly the accepted databases. -/
theorem fullIntegrityCheck_eq_ok [Primitives] :
    fullIntegrityCheck db = .ok () ↔ ∃ key, Accepted key db := by
  simp only [fullIntegrityCheck, bind_eq_ok (α := Bytes), check_eq_ok, readCursorKey_eq_ok, validateFullValueBounds,
    require_eq_ok, all_iff, validateFullNamespaceHeads_eq_ok, validateFullRevisions_eq_ok,
    validateFullAttributes_eq_ok]
  refine exists_congr fun key => ?_
  constructor
  · rintro ⟨⟨hrows, hlen⟩, ⟨hbr, hbs, hbh, hbt, hba, hbx, hbe, hbi, -⟩, hheads, hrev, hhist, hslot, hret, htup, hattr,
      hev, hidem⟩
    exact ⟨hrows, hlen, hheads, fun r hr => ⟨hbr r hr, (hrev r hr).1, (hrev r hr).2⟩,
      (validateSlots_eq_ok hbh hbs).1 ⟨hhist, hslot, hret⟩, (validateFullTuples_eq_ok hbt).1 htup, hattr, hba, hbx,
      (validateFullEvents_eq_ok hbe hheads).1 hev, (validateFullIdempotency_eq_ok hbi hheads).1 hidem⟩
  · intro h
    have hbe : ∀ r ∈ db.stateEvents, eventBounded r = true := fun r hr => by
      obtain ⟨e, he⟩ := h.events.rows r hr
      exact he.bounded
    obtain ⟨hhist, hslot, hret⟩ := (validateSlots_eq_ok (fun r hr => (h.slots.history r hr).1.bounded)
      fun r hr => (h.slots.heads r hr).1.bounded).2 h.slots
    exact ⟨⟨h.cursorKey, h.cursorKey_length⟩, ⟨fun r hr => (h.revisions r hr).bounded,
      fun r hr => (h.slots.heads r hr).1.bounded, fun r hr => (h.slots.history r hr).1.bounded,
      fun r hr => (h.tuples r hr).bounded, h.attributes_bounded, h.ancestors_bounded, hbe,
      fun r hr => (h.idempotency.rows r hr).bounded,
      fun r hr => decide_eq_true (validateNamespace_eq_ok.1 (h.heads r hr).namespace_ok).2.1⟩,
      h.heads, fun r hr => ⟨(h.revisions r hr).head, (h.revisions r hr).record⟩, hhist, hslot, hret,
      (validateFullTuples_eq_ok fun r hr => (h.tuples r hr).bounded).2 h.tuples, h.attributes,
      (validateFullEvents_eq_ok hbe h.heads).2 h.events,
      (validateFullIdempotency_eq_ok (fun r hr => (h.idempotency.rows r hr).bounded) h.heads).2 h.idempotency⟩

end PolicyEngine.Sqlite
