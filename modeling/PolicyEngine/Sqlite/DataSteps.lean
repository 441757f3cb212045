import PolicyEngine.Sqlite.Appends

/-!
# WriteData keeps a database accepted

Tuples and attributes are stored as rows that decode to them, the ancestor rows are at
every moment those of the stored attributes, and the generation, its event and its
answer are written together.
-/

open PolicyEngine.Lib

namespace PolicyEngine.Sqlite

variable {db db' : Database} {ns : Bytes}

/-! ## Tuples -/

/-- What an upsert stores decodes. -/
theorem tupleOk_canonical {value record} (hns : validateNamespace ns = .ok ()) (hhead : HasHead db ns)
    (h : canonicalDurableTuple value = .ok record) :
    TupleOk db ⟨ns, record.key, record.tuple.tuple, record.expiresAtNS⟩ := by
  unfold canonicalDurableTuple at h
  split at h
  · cases h
  next expiresAtNS hexpiry =>
    split at h
    · cases h
    next canonical hnew =>
      obtain ⟨hvalid, rfl⟩ := (newRelationshipTuple_stored _ _).1 hnew
      have hvalid' : validateDSLRelationship (storedTuple value.tuple expiresAtNS).tuple = .ok () := hvalid
      rw [encodeTupleKey_eq hvalid'] at h
      obtain rfl := Except.ok.inj h
      have htime : expiresAtNS.all validTimestamp = true := by
        unfold durableExpiry at hexpiry
        split at hexpiry
        · obtain ⟨n, hn, rfl⟩ := Option.map_eq_some_iff.1 hexpiry
          obtain ⟨hunix, hmin⟩ := sqliteTimestamp_eq_some.1 hn
          exact validTimestamp_iff.2 (hunix ▸ hmin)
        · obtain rfl := Option.some.inj hexpiry
          rfl
      refine ⟨?_, hhead, hvalid, rfl, htime⟩
      obtain ⟨h1, h2, h3, h4, h5, h6⟩ := tuple_lengths hvalid
      simp only [tupleBounded, Bool.and_eq_true, decide_eq_true_eq]
      exact ⟨⟨⟨⟨⟨⟨⟨(validateNamespace_eq_ok.1 hns).2.1, length_tupleKeyBytes hvalid⟩, h4⟩, h5⟩, h6⟩, h3⟩, h1⟩, h2⟩

/-! ## Attributes -/

/-- What an upsert stores decodes. -/
theorem canonicalDurableAttribute_eq_ok {value record} (h : canonicalDurableAttribute value = .ok record) :
    Decodes record.key record.path record.value record.attribute_.entity record.attribute_ ∧
      record.path = attributePathBytes record.attribute_.path ∧ record.value.length ≤ 6 + maxStringValueBytes := by
  have hstored := h
  unfold canonicalDurableAttribute at h
  split at h
  · cases h
  next a hnew =>
    obtain ⟨rfl, -⟩ := newAttributePath_eq_ok.1 hnew
    split at h
    · cases h
    next key hkey =>
      obtain ⟨rfl, -⟩ := newAttributeKeyPath_eq_ok.1 hkey
      obtain ⟨encoded, hencoded, -⟩ := bind_eq_ok.1 h
      obtain ⟨hencodable, -⟩ := encodeAttributeKey_eq_ok.1 hencoded
      obtain ⟨v, hcanonical, hdecodes, hlen⟩ := canonicalDurableAttribute_eq hnew hencodable.2
      obtain rfl := Except.ok.inj (hcanonical.symm.trans hstored)
      exact ⟨hdecodes, rfl, hlen⟩

theorem AttributeRow.Holds.unique {r : AttributeRow} {a a' : Attribute} (h : r.Holds a) (h' : r.Holds a') : a = a' :=
  Except.ok.inj ((decodeDurableAttribute_eq_ok.2 h).symm.trans (decodeDurableAttribute_eq_ok.2 h'))

/-- Deleting an attribute takes its ancestor rows with it. -/
theorem AttributesOk.delete (h : AttributesOk db) (ns key : Bytes) : AttributesOk { db with
    attributes := db.attributes.deleteWhere fun r => r.namespace_ = ns ∧ r.attributeKey = key
    attributeAncestors := db.attributeAncestors.deleteWhere fun r => r.namespace_ = ns ∧ r.attributeKey = key } := by
  refine ⟨fun r hr => h.rows r (Table.mem_deleteWhere.1 hr).1, fun x => ?_⟩
  simp only [Table.mem_deleteWhere, decide_eq_false_iff_not, h.ancestors x]
  constructor
  · rintro ⟨⟨r, hr, a, ha, b, hb, rfl⟩, hkept⟩
    exact ⟨r, ⟨hr, hkept⟩, a, ha, b, hb, rfl⟩
  · rintro ⟨r, ⟨hr, hkept⟩, a, ha, b, hb, rfl⟩
    exact ⟨⟨r, hr, a, ha, b, hb, rfl⟩, hkept⟩

/-- What a loop of insertions leaves. -/
theorem mem_foldlM_insertRow {ρ κ ι : Type} {key : ρ → κ} [DecidableEq κ] {f : ι → ρ} {l : List ι} {t t' : Table key}
    (h : l.foldlM (fun t i => insertRow t (f i)) t = .ok t') {x : ρ} : x ∈ t' ↔ x ∈ t ∨ ∃ i ∈ l, x = f i := by
  induction l generalizing t with
  | nil =>
    obtain rfl := Except.ok.inj h
    simp
  | cons i l ih =>
    rw [List.foldlM_cons] at h
    obtain ⟨t₁, hinsert, h⟩ := bind_eq_ok.1 h
    obtain ⟨hfree, rfl⟩ := insertRow_eq_ok hinsert
    have hset : x ∈ t.set (f i) ↔ x ∈ t ∨ x = f i := by
      rw [Table.mem_set]
      exact ⟨fun h => h.symm.imp_left And.left, fun h => h.symm.imp_right fun hx => ⟨hx, hfree x hx⟩⟩
    rw [ih h, hset]
    simp only [List.mem_cons, exists_eq_or_imp, or_assoc]

/-- An attribute is written with its ancestors. -/
theorem AttributesOk.upsert (h : AttributesOk db) {row : AttributeRow} {a : Attribute} {ancestors : Table AncestorRow.key}
    (hhead : HasHead db row.namespace_) (ha : row.Holds a) (hexpiry : row.expiresAtNS.all validTimestamp = true)
    (hancestors : ∀ x, x ∈ ancestors ↔
      (x ∈ db.attributeAncestors ∧ ¬(x.namespace_ = row.namespace_ ∧ x.attributeKey = row.attributeKey)) ∨
        ∃ b ∈ prefixBytes a.key, x = ⟨row.namespace_, row.attributeKey, b⟩) :
    AttributesOk { db with attributes := db.attributes.set row, attributeAncestors := ancestors } := by
  refine ⟨fun r hr => ?_, fun x => ?_⟩
  · obtain rfl | ⟨hr, -⟩ := Table.mem_set.1 hr
    · exact ⟨hhead, ⟨a, ha⟩, hexpiry⟩
    · exact h.rows r hr
  · rw [hancestors, h.ancestors]
    simp only [Table.mem_set]
    constructor
    · rintro (⟨⟨r, hr, a', ha', b, hb, rfl⟩, hother⟩ | ⟨b, hb, rfl⟩)
      · refine ⟨r, .inr ⟨hr, fun hkey => hother ?_⟩, a', ha', b, hb, rfl⟩
        simpa [AttributeRow.key] using hkey
      · exact ⟨row, .inl rfl, a, ha, b, hb, rfl⟩
    · rintro ⟨r, rfl | ⟨hr, hother⟩, a', ha', b, hb, rfl⟩
      · obtain rfl := ha.unique ha'
        exact .inr ⟨b, hb, rfl⟩
      · refine .inl ⟨⟨r, hr, a', ha', b, hb, rfl⟩, fun hkey => hother ?_⟩
        simpa [AttributeRow.key] using hkey

/-! ## Mutations -/

section

variable [Primitives] {key : Bytes} {start : Database}

/-- The data tables of an accepted database are written. -/
theorem Accepted.withData (h : Accepted key db) {tuples attributes ancestors}
    (htuples : ∀ r ∈ tuples, r ∈ db.tuples ∨ TupleOk db r)
    (hattributes : AttributesOk { db with attributes := attributes, attributeAncestors := ancestors })
    (habounded : ∀ r ∈ attributes, attributeBounded r = true) (hxbounded : ∀ r ∈ ancestors, ancestorBounded r = true) :
    Accepted key { db with tuples := tuples, attributes := attributes, attributeAncestors := ancestors } := by
  have hext : Extends db { db with tuples := tuples, attributes := attributes, attributeAncestors := ancestors } :=
    ⟨fun _ h => h, fun _ _ h => h, fun r hr => ⟨r, hr, rfl, Int.le_refl _⟩⟩
  exact h.rebuild hext rfl h.heads (fun r hr => .inl hr) (h.slots.extends hext rfl rfl)
    (fun r hr => (htuples r hr).imp_right fun hok => { hok with }) ⟨hattributes.rows, hattributes.ancestors⟩ habounded
    hxbounded (h.events.extends hext rfl rfl) (h.idempotency.extends hext rfl fun _ => rfl)

/-- An accepted database between two mutations: the namespace has its head, and heads and records are those of
the database that the mutations began with. -/
structure Writable (key ns : Bytes) (start db : Database) : Prop where
  accepted : Accepted key db
  head : HasHead db ns
  heads_eq : db.namespaceHeads = start.namespaceHeads
  records_eq : db.idempotencyRecords = start.idempotencyRecords

theorem Writable.namespace_ok (h : Writable key ns start db) : validateNamespace ns = .ok () := by
  obtain ⟨head, hm, rfl⟩ := h.head
  exact (h.accepted.heads head hm).namespace_ok

theorem Writable.deleteTuple (h : Writable key ns start db) {k : TupleKey} (hdelete : deleteTuple ns db k = .ok db') :
    Writable key ns start db' := by
  rw [Sqlite.deleteTuple] at hdelete
  obtain ⟨canonical, -, hdelete⟩ := bind_eq_ok.1 hdelete
  obtain ⟨encoded, -, hdelete⟩ := bind_eq_ok.1 hdelete
  obtain rfl := Except.ok.inj hdelete
  exact ⟨h.accepted.withData (fun r hr => .inl (Table.mem_deleteWhere.1 hr).1) h.accepted.attributes
    h.accepted.attributes_bounded h.accepted.ancestors_bounded, h.head, h.heads_eq, h.records_eq⟩

theorem Writable.upsertTuple (h : Writable key ns start db) {value} (hupsert : upsertTuple ns db value = .ok db') :
    Writable key ns start db' := by
  rw [Sqlite.upsertTuple] at hupsert
  obtain ⟨record, hrecord, hupsert⟩ := bind_eq_ok.1 hupsert
  obtain rfl := Except.ok.inj hupsert
  refine ⟨h.accepted.withData (fun r hr => ?_) h.accepted.attributes h.accepted.attributes_bounded
    h.accepted.ancestors_bounded, h.head, h.heads_eq, h.records_eq⟩
  obtain rfl | ⟨hr, -⟩ := Table.mem_set.1 hr
  · exact .inr (tupleOk_canonical h.namespace_ok h.head hrecord)
  · exact .inl hr

theorem Writable.deleteAttribute (h : Writable key ns start db) {k} (hdelete : deleteAttribute ns db k = .ok db') :
    Writable key ns start db' := by
  rw [Sqlite.deleteAttribute] at hdelete
  obtain ⟨canonical, -, hdelete⟩ := bind_eq_ok.1 hdelete
  obtain ⟨encoded, -, hdelete⟩ := bind_eq_ok.1 hdelete
  obtain rfl := Except.ok.inj hdelete
  exact ⟨h.accepted.withData (fun r hr => .inl hr) (h.accepted.attributes.delete ns encoded)
    (fun r hr => h.accepted.attributes_bounded r (Table.mem_deleteWhere.1 hr).1)
    fun r hr => h.accepted.ancestors_bounded r (Table.mem_deleteWhere.1 hr).1, h.head, h.heads_eq, h.records_eq⟩

omit [Primitives] in
/-- The rows of an attribute fit their columns. -/
theorem attributeBounded_canonical {record : DurableAttribute} (hns : validateNamespace ns = .ok ())
    (hdecodes : Decodes record.key record.path record.value record.attribute_.entity record.attribute_)
    (hpath : record.path = attributePathBytes record.attribute_.path) (hvalue : record.value.length ≤ 6 + maxStringValueBytes) :
    attributeBounded ⟨ns, record.key, record.attribute_.entity, record.path, record.value, none⟩ = true ∧
      ∀ b ∈ prefixBytes record.attribute_.key, ancestorBounded ⟨ns, record.key, b⟩ = true := by
  have hencodable := hdecodes.encodableKey
  have hnsLength := (validateNamespace_eq_ok.1 hns).2.1
  have hkey : record.key.length ≤ maxAggregateInputBytes := hdecodes.key ▸ length_attributeKeyBytes_le hencodable
  have hkey' : record.key.length ≤ maxAttributeKeyBytes := hkey.trans (by decide)
  obtain ⟨htype, hid⟩ := entity_lengths hencodable.1
  constructor
  · have hpathLength : record.path.length ≤ maxAggregateInputBytes := by
      have hcost := length_attributePathBytes_le record.attribute_.path
      have hfits := hdecodes.encodable.2
      rw [hpath]
      omega
    simp only [attributeBounded, Bool.and_eq_true, decide_eq_true_eq]
    exact ⟨⟨⟨⟨⟨hnsLength, hkey'⟩, htype⟩, hid⟩, hpathLength⟩, hvalue.trans (by decide)⟩
  · intro b hb
    simp only [prefixBytes, List.mem_map, List.mem_range'_1] at hb
    obtain ⟨n, ⟨hn, -⟩, rfl⟩ := hb
    simp only [ancestorBounded, Bool.and_eq_true, decide_eq_true_eq]
    exact ⟨⟨hnsLength, hkey'⟩, length_attributeKeyBytes_le (hencodable.take (by omega))⟩

theorem Writable.upsertAttribute (h : Writable key ns start db) {value : Attribute}
    (hupsert : upsertAttribute ns db value = .ok db') : Writable key ns start db' := by
  rw [Sqlite.upsertAttribute] at hupsert
  obtain ⟨record, hrecord, hupsert⟩ := bind_eq_ok.1 hupsert
  obtain ⟨hdecodes, hpath, hvalue⟩ := canonicalDurableAttribute_eq_ok hrecord
  obtain ⟨attributeKey, hkey, hupsert⟩ := bind_eq_ok.1 hupsert
  obtain rfl := Except.ok.inj ((attributeKeyFromAttribute_eq hdecodes.wellFormed).symm.trans hkey)
  obtain ⟨prefixes, hprefixes, hupsert⟩ := bind_eq_ok.1 hupsert
  obtain rfl := Except.ok.inj ((strictAttributePrefixes_eq hdecodes.encodableKey).symm.trans hprefixes)
  obtain ⟨ancestors, hancestors, hupsert⟩ := bind_eq_ok.1 hupsert
  obtain rfl := Except.ok.inj hupsert
  have hmem {x : AncestorRow} := mem_foldlM_insertRow hancestors (x := x)
  simp only [Table.mem_deleteWhere, decide_eq_false_iff_not] at hmem
  obtain ⟨hbounded, hxbounded⟩ := attributeBounded_canonical h.namespace_ok hdecodes hpath hvalue
  refine ⟨h.accepted.withData (fun r hr => .inl hr) (h.accepted.attributes.upsert (by exact h.head) (by exact hdecodes) rfl
    (by exact fun x => hmem)) (fun r hr => ?_) (fun r hr => ?_), h.head, h.heads_eq, h.records_eq⟩
  · obtain rfl | ⟨hr, -⟩ := Table.mem_set.1 hr
    · exact hbounded
    · exact h.accepted.attributes_bounded r hr
  · obtain ⟨hr, -⟩ | ⟨b, hb, rfl⟩ := hmem.1 hr
    · exact h.accepted.ancestors_bounded r hr
    · exact hxbounded b hb

theorem Writable.writeAttribute (h : Writable key ns start db) {value : Attribute}
    (hwrite : writeAttribute ns db value = .ok db') : Writable key ns start db' := by
  rw [Sqlite.writeAttribute] at hwrite
  obtain ⟨_, -, hwrite⟩ := bind_eq_ok.1 hwrite
  exact h.upsertAttribute hwrite

theorem Writable.applyMutations {request} (h : Writable key request.namespace_ start db)
    (happly : applyMutations db request = .ok db') : Writable key request.namespace_ start db' := by
  rw [Sqlite.applyMutations] at happly
  obtain ⟨db₁, hdelete, happly⟩ := bind_eq_ok.1 happly
  obtain ⟨db₂, hupsert, happly⟩ := bind_eq_ok.1 happly
  obtain ⟨db₃, hdelete', happly⟩ := bind_eq_ok.1 happly
  have h₁ := foldlM_invariant (fun h => h.deleteTuple) h hdelete
  have h₂ := foldlM_invariant (fun h => h.upsertTuple) h₁ hupsert
  have h₃ := foldlM_invariant (fun h => h.deleteAttribute) h₂ hdelete'
  exact foldlM_invariant (fun h => h.writeAttribute) h₃ happly

/-! ## The generation and its answer -/

/-- The data generation of a namespace with its answer. -/
def Database.answer (db : Database) (row : IdempotencyRow) (generation : Int64) : Database :=
  { db with idempotencyRecords := db.idempotencyRecords.set row }.withHead
    { headOf db row.namespace_ with dataGeneration := generation } db.stateEvents

omit [Primitives] in
theorem extends_answer (db : Database) (row : IdempotencyRow) (generation : Int64) :
    Extends db (db.answer row generation) :=
  ⟨fun _ h => hasHead_withHead.2 (.inr h), fun _ _ h => h, fun r hr => ⟨r, hr, rfl, Int.le_refl _⟩⟩

omit [Primitives] in
theorem headOf_answer (db : Database) (row : IdempotencyRow) (generation : Int64) (ns : Bytes) :
    headOf (db.answer row generation) ns =
      if row.namespace_ = ns then { headOf db row.namespace_ with dataGeneration := generation } else headOf db ns := by
  rw [Database.answer, headOf_withHead]
  dsimp only
  rw [headOf_namespace]
  rfl

omit [Primitives] in
theorem expiredThroughOf_answer (db : Database) (row : IdempotencyRow) (generation : Int64) (ns : Bytes) :
    expiredThroughOf (db.answer row generation) ns = expiredThroughOf db ns := by
  rw [expiredThroughOf, expiredThroughOf, headOf_answer]
  split
  next heq => rw [← heq]
  next => rfl

omit [Primitives] in
/-- The answer to the next generation is stored with it. -/
theorem IdempotencyTableOk.answer (h : IdempotencyTableOk db) {row generation}
    (hgen : generation.toInt = (headOf db row.namespace_).dataGeneration.toInt + 1)
    (h0 : 0 ≤ (headOf db row.namespace_).dataGeneration.toInt) (hfree : ∀ x ∈ db.idempotencyRecords, x.key ≠ row.key)
    (hrow : IdempotencyOk (db.answer row generation) row) (hanswer : (row.generation : Int) = generation.toInt) :
    IdempotencyTableOk (db.answer row generation) := by
  have hrows : (db.answer row generation).idempotencyRecords.rows = db.idempotencyRecords.rows ++ [row] := Table.rows_set hfree
  refine ⟨fun r hr => ?_, fun head hm => ?_⟩
  · obtain rfl | ⟨hr, -⟩ := Table.mem_set.1 hr
    · exact hrow
    · exact (extends_answer db row generation).idempotencyOk (h.rows r hr)
  · have hfill := h.filledOf head.namespace_
    have hhead := headOf_mem hm
    rw [headOf_answer] at hhead
    by_cases hns : row.namespace_ = head.namespace_
    · rw [if_pos hns] at hhead
      rw [← hns] at hfill
      have hanswered : answeredOf (db.answer row generation) head.namespace_ =
          answeredOf db row.namespace_ ++ [(headOf db row.namespace_).dataGeneration.toInt + 1] := by
        simp [answeredOf, hrows, ← hns, hanswer, hgen]
      rw [hanswered, ← hhead]
      dsimp only
      rw [hgen]
      exact hfill.concat h0
    · rw [if_neg hns] at hhead
      have hanswered : answeredOf (db.answer row generation) head.namespace_ = answeredOf db head.namespace_ := by
        simp [answeredOf, hrows, hns]
      rw [hhead] at hfill
      rwa [hanswered]

/-- The bound on the data generations that events refer to may rise. -/
theorem EventsOk.raise {bound bound'} (h : EventsOk key bound db) (hle : ∀ ns, bound ns ≤ bound' ns) :
    EventsOk key bound' db := by
  refine ⟨fun r hr => ?_, h.filled⟩
  obtain ⟨e, he⟩ := h.rows r hr
  exact ⟨e, (Extends.refl db).eventOk (Nat.le_refl _) (hle _) he⟩

theorem EventsOk.answer {bound} (h : EventsOk key bound db) (row : IdempotencyRow) (generation : Int64) :
    EventsOk key bound (db.answer row generation) := by
  have hname := headOf_namespace db row.namespace_
  have hrecords : EventsOk key bound { db with idempotencyRecords := db.idempotencyRecords.set row } :=
    h.extends ⟨fun _ h => h, fun _ _ h => h, fun r hr => ⟨r, hr, rfl, Int.le_refl _⟩⟩ rfl rfl
  refine hrecords.withHead ?_ (fun x => ?_) (fun _ _ => Iff.rfl) fun r hr _ => .inl hr
  · dsimp only
    rw [hname]
    exact Int.le_refl _
  · dsimp only
    rw [hname]
    exact (h.filledOf row.namespace_).mem_iff x

theorem Accepted.answer (h : Accepted key db) {row generation} (hmoved : Moved db db')
    (hheads : ∀ head ∈ db'.namespaceHeads, HeadOk head)
    (hevents : EventsOk key (dataGenerationOf (db'.answer row generation)) db') (hhead : HasHead db' row.namespace_)
    (hgen : generation.toInt = (headOf db' row.namespace_).dataGeneration.toInt + 1)
    (hfree : ∀ x ∈ db.idempotencyRecords, x.key ≠ row.key) (hrow : IdempotencyOk db' row)
    (hanswer : (row.generation : Int) = generation.toInt) : Accepted key (db'.answer row generation) := by
  have hext := extends_answer db' row generation
  have hext' := hmoved.extends.trans hext
  have heq := hmoved.eq
  have hok := hheads _ hhead.headOf_mem
  have h0 := hok.generation
  have hidem : IdempotencyTableOk db' := h.idempotency.extends hmoved.extends (by rw [heq]) hmoved.generation
  have htables : db'.answer row generation = { db with
      namespaceHeads := (db'.answer row generation).namespaceHeads
      stateEvents := db'.stateEvents
      idempotencyRecords := (db'.answer row generation).idempotencyRecords } := by
    rw [heq]
    rfl
  refine h.rebuild hext' (by rw [htables]) (fun head hm => ?_) (fun r hr => .inl (by rw [htables] at hr; exact hr))
    (h.slots.extends hext' (by rw [htables]) (by rw [htables])) (fun r hr => .inl (by rw [htables] at hr; exact hr))
    (h.attributes.extends hext' (by rw [htables]) (by rw [htables])) (by rw [htables]; exact h.attributes_bounded)
    (by rw [htables]; exact h.ancestors_bounded) (hevents.answer row generation)
    (hidem.answer hgen h0 (by rw [heq]; exact hfree) (hext.idempotencyOk hrow) hanswer)
  obtain rfl | ⟨hm, -⟩ := mem_withHead.1 hm
  · exact { hok with generation := by dsimp only; omega }
  · exact hheads head hm

variable {fingerprint : Bytes}

omit [Primitives] in
/-- The row that an answer is stored in. -/
theorem idempotencyOk_new {k generation} (hns : validateNamespace ns = .ok ()) (hkey : validateIdentifier k = .ok ())
    (hhead : HasHead db ns) (hlength : fingerprint.length = 32) (h0 : generation ≠ 0) (hlt : generation < 256 ^ 8) :
    IdempotencyOk db ⟨ns, k, codecVersion :: fingerprint, codecVersion :: idempotencyCodecFingerprint :: be 8 generation⟩ ∧
      (IdempotencyRow.mk ns k (codecVersion :: fingerprint)
        (codecVersion :: idempotencyCodecFingerprint :: be 8 generation)).generation = generation := by
  have hdecode := decodeIdempotencyResponse_bytes h0 hlt false
  refine ⟨⟨?_, hhead, hns, hkey, ⟨_, decodeIdempotencyFingerprint_cons hlength⟩, _, hdecode⟩, ?_⟩
  · simp only [idempotencyBounded, Bool.and_eq_true, decide_eq_true_eq, List.length_cons, length_be, hlength]
    exact ⟨⟨⟨(validateNamespace_eq_ok.1 hns).2.1, (validateIdentifier_eq_ok.1 hkey).2.1⟩, by omega⟩, by omega⟩
  · simp only [IdempotencyRow.generation, hdecode]

/-- The event of the next generation, its answer and the generation itself. -/
theorem Accepted.nextGeneration {s : Store} (h : Accepted s.cursorKey db) {k : Bytes} {generation : Nat}
    {occurredAt : Int} {db₁ : Database} (hns : validateNamespace ns = .ok ()) (hkey : validateIdentifier k = .ok ())
    (hlength : fingerprint.length = 32) (hgen : (headOf db ns).dataGeneration.toInt = generation)
    (hlt : generation + 1 < 2 ^ 63)
    (happend : appendStateEvent s db ⟨ns, [], .dataWritten, [], [], 0, generation + 1, zeroTime⟩ occurredAt = .ok db₁)
    (hfree : ∀ x ∈ db₁.idempotencyRecords, x.key ≠ (ns, k)) :
    Grows s.cursorKey db (updateHead
      { db₁ with idempotencyRecords := db₁.idempotencyRecords.set ⟨ns, k, codecVersion :: fingerprint,
        codecVersion :: idempotencyCodecFingerprint :: be 8 (generation + 1)⟩ } ns
      fun head => { head with dataGeneration := Int64.ofNat (generation + 1) }) := by
  have htoInt : (Int64.ofNat (generation + 1)).toInt = generation + 1 := Int64.toInt_ofNat_of_lt hlt
  have hraised : ∀ m, dataGenerationOf db m ≤ if ns = m then generation + 1 else dataGenerationOf db m := by
    intro m
    split
    next hm =>
      rw [← hm, dataGenerationOf, hgen]
      omega
    next => exact Nat.le_refl _
  obtain ⟨hevent, hhead⟩ := EventStep.appendStateEvent h.heads (h.events.raise hraised) hns (by simp)
    (by dsimp only; omega) (by simp [References]) happend
  obtain ⟨hrow, hanswer⟩ := idempotencyOk_new hns hkey hhead hlength (Nat.succ_ne_zero generation) (by omega)
  have hbound : (fun m => if ns = m then generation + 1 else dataGenerationOf db m) =
      dataGenerationOf (db₁.answer ⟨ns, k, codecVersion :: fingerprint,
        codecVersion :: idempotencyCodecFingerprint :: be 8 (generation + 1)⟩ (Int64.ofNat (generation + 1))) := by
    funext m
    rw [dataGenerationOf, dataGenerationOf, headOf_answer]
    dsimp only
    split
    · rw [htoInt]
      omega
    · rw [hevent.moved.generation]
  rw [updateHead_eq (by exact hhead)]
  refine ⟨h.answer hevent.moved hevent.heads (hbound ▸ hevent.events) hhead ?_ ?_ hrow (by rw [hanswer, htoInt]; rfl),
    fun m => (hevent.expired m).trans (expiredThroughOf_answer db₁ _ _ m).ge⟩
  · rw [hevent.moved.generation, hgen, htoInt]
  · rw [hevent.moved.eq] at hfree
    exact hfree

/-- What follows the replay check. -/
theorem Accepted.commitData {s : Store} (h : Accepted s.cursorKey db) {clock : Clock} {canonical : WriteDataRequest}
    {response : WriteDataResponse} (hwf : WellFormedWrite canonical) (hlength : fingerprint.length = 32)
    (hcommit : commitData s db clock canonical (codecVersion :: fingerprint) = .ok (response, db')) :
    Grows s.cursorKey db db' := by
  rw [Sqlite.commitData] at hcommit
  obtain ⟨revision, -, hcommit⟩ := bind_eq_ok.1 hcommit
  cases revision with
  | none => cases hcommit
  | some revision =>
    obtain ⟨⟨head, db₁⟩, hensure, hcommit⟩ := bind_eq_ok.1 hcommit
    rw [ensureNamespaceHead_eq h.heads hwf.namespace_ok] at hensure
    obtain ⟨rfl, rfl⟩ := Prod.mk.injEq .. ▸ Except.ok.inj hensure
    simp only [check_eq_ok, require_eq_ok] at hcommit
    obtain ⟨-, hmax, hcommit⟩ := hcommit
    obtain ⟨db₂, happly, hcommit⟩ := bind_eq_ok.1 hcommit
    obtain ⟨⟨occurredAt, db₃⟩, hnow, hcommit⟩ := bind_eq_ok.1 hcommit
    obtain ⟨response', hresponse, hcommit⟩ := bind_eq_ok.1 hcommit
    obtain ⟨responseEncoded, hencoded, hcommit⟩ := bind_eq_ok.1 hcommit
    obtain ⟨db₄, happend, hcommit⟩ := bind_eq_ok.1 hcommit
    obtain ⟨records, hinsert, hcommit⟩ := bind_eq_ok.1 hcommit
    obtain ⟨-, rfl⟩ := Prod.mk.injEq .. ▸ Except.ok.inj hcommit
    -- the head, the mutations and the clock leave an accepted database, at the generation it had
    have hns := hwf.namespace_ok
    have hensured := EventStep.ensureHead h.heads h.events hns
    have h₁ : Writable s.cursorKey canonical.namespace_ _ _ :=
      ⟨(hensured.grows h).accepted,
        hasHead_withHead.2 (.inl (headOf_namespace db canonical.namespace_).symm), rfl, rfl⟩
    have h₂ := h₁.applyMutations happly
    obtain ⟨hclock, -, -⟩ := EventStep.effectiveNow h₂.accepted.heads h₂.accepted.events hns hnow
    have h₂' : Grows s.cursorKey db db₂ :=
      ⟨h₂.accepted, fun m => (hensured.expired m).trans (expiredThroughOf_congr h₂.heads_eq m).ge⟩
    have h₃ := h₂'.trans (hclock.grows h₂.accepted)
    have hgen₃ : (headOf db₃ canonical.namespace_).dataGeneration = (headOf db canonical.namespace_).dataGeneration := by
      rw [hclock.moved.generation, headOf, h₂.heads_eq]
      exact hensured.moved.generation canonical.namespace_
    obtain ⟨generation, hgeneration⟩ :=
      Int.eq_ofNat_of_zero_le (headOk_headOf h.heads hns).generation
    have hlt : generation + 1 < 2 ^ 63 := by
      have hhi := Int64.toInt_lt (headOf db canonical.namespace_).dataGeneration
      rw [decide_eq_true_eq] at hmax
      simp only [maxInt64] at hmax
      omega
    rw [hgeneration, Int.toNat_natCast] at happend hresponse
    have hbytes : responseEncoded = codecVersion :: idempotencyCodecFingerprint :: be 8 (generation + 1) := by
      have hok : newWriteDataResponse (generation + 1) false = .ok ⟨generation + 1, false⟩ := rfl
      rw [hok, orFail_ok] at hresponse
      obtain rfl := Except.ok.inj hresponse
      exact (Except.ok.inj hencoded).symm
    obtain ⟨hfree, rfl⟩ := insertRow_eq_ok hinsert
    rw [hbytes, hgeneration, Int.toNat_natCast]
    exact h₃.trans <| h₃.accepted.nextGeneration hns hwf.key hlength (by rw [hgen₃, hgeneration]) hlt happend hfree

theorem Accepted.writeData {s : Store} (h : Accepted s.cursorKey db) {clock request response}
    (hwrite : writeData s db clock request = .ok (response, db')) :
    Grows s.cursorKey db db' := by
  rw [Sqlite.writeData] at hwrite
  obtain ⟨canonical, hcanonical, hwrite⟩ := bind_eq_ok.1 hwrite
  obtain ⟨fingerprint, -, hwrite⟩ := bind_eq_ok.1 hwrite
  obtain ⟨fingerprintEncoded, hfingerprint, hwrite⟩ := bind_eq_ok.1 hwrite
  have hwf := newWriteDataRequest_wellFormed hcanonical
  rw [writeDataTx] at hwrite
  obtain ⟨found, hread, hwrite⟩ := bind_eq_ok.1 hwrite
  cases found with
  | some stored =>
    dsimp only at hwrite
    rw [check_eq_ok] at hwrite
    obtain ⟨_, -, hwrite⟩ := bind_eq_ok.1 hwrite.2
    obtain ⟨-, rfl⟩ := Prod.mk.injEq .. ▸ Except.ok.inj hwrite
    exact h.grows
  | none =>
    unfold encodeIdempotencyFingerprint at hfingerprint
    split at hfingerprint
    · cases hfingerprint
    next hlength =>
      obtain rfl := Except.ok.inj hfingerprint
      exact h.commitData hwf (not_not.1 hlength) hwrite

end

end PolicyEngine.Sqlite
