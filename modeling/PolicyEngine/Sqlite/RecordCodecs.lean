import PolicyEngine.Sqlite.DataCodec

/-!
# The durable record codecs are exact

The seven record formats of the adapter: revision metadata, activations, state
events, provenance, tuple keys, attribute values and original idempotency responses.
Each decoder stops where its encoder did, and rebuilds its value through the public
constructor, so that nothing but an encoder's output is accepted. Attribute keys have
the same property as long as their path fits the budget next to the encoder's probe.
-/

open PolicyEngine.Lib List

namespace PolicyEngine.Sqlite

/-! ## Revision metadata -/

def revisionMetadataBytes (r : RevisionMetadata) : Bytes :=
  codecVersion :: (codecString16 r.namespace_ ++ (codecString16 r.id ++ timeBytes r.publishedAt))

def canonicalRevisionMetadata (value : RevisionMetadata) : Result RevisionMetadata :=
  match parseRevisionID value.id with
  | .error _ => .error .integrity
  | .ok id =>
    match newRevisionMetadata value.namespace_ id value.publishedAt with
    | .error _ => .error .integrity
    | .ok result => .ok result

def encodeRevisionMetadata (value : RevisionMetadata) : Result Bytes := do
  let canonical ← canonicalRevisionMetadata value
  if canonical.publishedAt = zeroTime then .error .integrity else .ok (revisionMetadataBytes canonical)

def readRevisionMetadata (data : Bytes) : Option RevisionMetadata := do
  let (version, data) ← Reader.byte data
  guard (version = codecVersion)
  let (namespace_, data) ← string16 maxNamespaceBytes data
  let (revisionID, data) ← string16 maxIdentifierBytes data
  let (publishedAt, data) ← readTime data
  guard (data = [])
  some ⟨namespace_, revisionID, publishedAt⟩

def decodeRevisionMetadata (encoded : Bytes) : Result RevisionMetadata :=
  match readRevisionMetadata encoded with
  | none => .error .integrity
  | some value =>
    match parseRevisionID value.id with
    | .error _ => .error .integrity
    | .ok id =>
      match newRevisionMetadata value.namespace_ id value.publishedAt with
      | .error _ => .error .integrity
      | .ok result => .ok result

/-- The metadata that its constructor builds, with a time that Go can represent. -/
def ValidRevisionMetadata (r : RevisionMetadata) : Prop :=
  newRevisionMetadata r.namespace_ r.id r.publishedAt = .ok r ∧ EncodableTime r.publishedAt

variable {r : RevisionMetadata}

theorem readRevisionMetadata_append (h : ValidRevisionMetadata r) (x : Bytes) :
    readRevisionMetadata (revisionMetadataBytes r ++ x) = if x = [] then some r else none := by
  obtain ⟨-, hns, hid, -⟩ := newRevisionMetadata_eq_ok.1 h.1
  have hns := (validateNamespace_eq_ok.1 hns).2.1
  have hid : r.id.length ≤ maxIdentifierBytes := by
    rw [validRevisionIDString_length hid]
    decide
  simp [readRevisionMetadata, revisionMetadataBytes, string16_append maxNamespaceBytes (by decide) hns,
    string16_identifier hid, readTime_append h.2, guard_bind]

variable {data : Bytes}

theorem readRevisionMetadata_eq_some (h : readRevisionMetadata data = some r) :
    data = revisionMetadataBytes r ∧ EncodableTime r.publishedAt := by
  simp only [readRevisionMetadata, Option.bind_eq_bind, Option.bind_eq_some_iff, guard_eq_some, Option.some.injEq] at h
  obtain ⟨⟨_, d₁⟩, h₁, -, rfl, ⟨_, d₂⟩, h₂, ⟨_, d₃⟩, h₃, ⟨_, d₄⟩, h₄, -, rfl, rfl⟩ := h
  obtain rfl := Reader.byte_eq_some h₁
  obtain rfl := string16_eq_some h₂
  obtain rfl := string16_eq_some h₃
  obtain ⟨rfl, ht⟩ := readTime_eq_some h₄
  exact ⟨by simp [revisionMetadataBytes], ht⟩

theorem encodeRevisionMetadata_eq (h : ValidRevisionMetadata r) :
    encodeRevisionMetadata r = .ok (revisionMetadataBytes r) := by
  obtain ⟨-, -, hid, -⟩ := newRevisionMetadata_eq_ok.1 h.1
  simp only [encodeRevisionMetadata, canonicalRevisionMetadata, parseRevisionID_eq_ok.2 ⟨rfl, hid⟩, h.1, ok_bind]
  rw [if_neg h.2.1]

theorem exactCodec_revisionMetadata :
    ExactCodec ValidRevisionMetadata encodeRevisionMetadata decodeRevisionMetadata := by
  refine ExactCodec.of_append (fun r h => ⟨_, encodeRevisionMetadata_eq h, fun x w => ?_⟩) fun b r h => ?_
  · obtain ⟨-, -, hid, -⟩ := newRevisionMetadata_eq_ok.1 h.1
    rw [decodeRevisionMetadata, readRevisionMetadata_append h]
    by_cases hx : x = []
    · simp [hx, parseRevisionID_eq_ok.2 ⟨rfl, hid⟩, h.1, eq_comm]
    · simp [hx]
  · unfold decodeRevisionMetadata at h
    split at h
    · cases h
    next value hread =>
      obtain ⟨rfl, ht⟩ := readRevisionMetadata_eq_some hread
      split at h
      · cases h
      next id hid =>
        obtain ⟨rfl, -⟩ := parseRevisionID_eq_ok.1 hid
        split at h
        · cases h
        next result hnew =>
          obtain rfl := Except.ok.inj h
          obtain rfl : result = value := (newRevisionMetadata_eq_ok.1 hnew).1
          exact ⟨⟨hnew, ht⟩, encodeRevisionMetadata_eq ⟨hnew, ht⟩⟩

/-! ## Activations -/

def activationBytes (a : Activation) : Bytes :=
  codecVersion :: (codecString16 a.namespace_ ++ (codecString16 a.slot ++ (codecString16 a.revisionID ++
    (be 8 a.generation ++ timeBytes a.activatedAt))))

def canonicalActivation (value : Activation) : Result Activation :=
  match newActivation value.namespace_ value.slot value.revisionID value.generation value.activatedAt with
  | .error _ => .error .integrity
  | .ok result => .ok result

def encodeActivation (value : Activation) : Result Bytes := do
  let canonical ← canonicalActivation value
  if canonical.activatedAt = zeroTime then .error .integrity else .ok (activationBytes canonical)

def readActivation (data : Bytes) : Option Activation := do
  let (version, data) ← Reader.byte data
  guard (version = codecVersion)
  let (namespace_, data) ← string16 maxNamespaceBytes data
  let (slot, data) ← string16 maxIdentifierBytes data
  let (revisionID, data) ← string16 maxIdentifierBytes data
  let (generation, data) ← Reader.uint 8 data
  let (activatedAt, data) ← readTime data
  guard (data = [])
  some ⟨namespace_, slot, revisionID, generation, activatedAt⟩

def decodeActivation (encoded : Bytes) : Result Activation :=
  match readActivation encoded with
  | none => .error .integrity
  | some a =>
    match newActivation a.namespace_ a.slot a.revisionID a.generation a.activatedAt with
    | .error _ => .error .integrity
    | .ok result => .ok result

/-- The activations that their constructor builds, of machine-sized generation and time. -/
structure ValidActivation (a : Activation) : Prop where
  built : newActivation a.namespace_ a.slot a.revisionID a.generation a.activatedAt = .ok a
  generation : a.generation < 256 ^ 8
  time : EncodableTime a.activatedAt

variable {a : Activation}

theorem readActivation_append (h : ValidActivation a) (x : Bytes) :
    readActivation (activationBytes a ++ x) = if x = [] then some a else none := by
  obtain ⟨-, hns, hslot, hid, -⟩ := newActivation_eq_ok.1 h.built
  have hns := (validateNamespace_eq_ok.1 hns).2.1
  have hslot := (validateIdentifier_eq_ok.1 hslot).2.1
  have hid : a.revisionID.length ≤ maxIdentifierBytes := by
    rw [validRevisionIDString_length hid]
    decide
  simp [readActivation, activationBytes, string16_append maxNamespaceBytes (by decide) hns, string16_identifier hslot,
    string16_identifier hid, Reader.uint_append h.generation, readTime_append h.time, guard_bind]

theorem readActivation_eq_some (h : readActivation data = some a) :
    data = activationBytes a ∧ a.generation < 256 ^ 8 ∧ EncodableTime a.activatedAt := by
  simp only [readActivation, Option.bind_eq_bind, Option.bind_eq_some_iff, guard_eq_some, Option.some.injEq] at h
  obtain ⟨⟨_, d₁⟩, h₁, -, rfl, ⟨_, d₂⟩, h₂, ⟨_, d₃⟩, h₃, ⟨_, d₄⟩, h₄, ⟨_, d₅⟩, h₅, ⟨_, d₆⟩, h₆, -, rfl, rfl⟩ := h
  obtain rfl := Reader.byte_eq_some h₁
  obtain rfl := string16_eq_some h₂
  obtain rfl := string16_eq_some h₃
  obtain rfl := string16_eq_some h₄
  obtain ⟨rfl, hg⟩ := Reader.uint_eq_some h₅
  obtain ⟨rfl, ht⟩ := readTime_eq_some h₆
  exact ⟨by simp [activationBytes], hg, ht⟩

theorem encodeActivation_eq (h : ValidActivation a) :
    encodeActivation a = .ok (activationBytes a) := by
  simp only [encodeActivation, canonicalActivation, h.built, ok_bind]
  rw [if_neg h.time.1]

theorem exactCodec_activation : ExactCodec ValidActivation encodeActivation decodeActivation := by
  refine ExactCodec.of_append (fun a h => ⟨_, encodeActivation_eq h, fun x w => ?_⟩) fun b a h => ?_
  · rw [decodeActivation, readActivation_append h]
    by_cases hx : x = []
    · simp [hx, h.built, eq_comm]
    · simp [hx]
  · unfold decodeActivation at h
    split at h
    · cases h
    next value hread =>
      obtain ⟨rfl, hg, ht⟩ := readActivation_eq_some hread
      split at h
      · cases h
      next result hnew =>
        obtain rfl := Except.ok.inj h
        obtain rfl : result = value := (newActivation_eq_ok.1 hnew).1
        exact ⟨⟨hnew, hg, ht⟩, encodeActivation_eq ⟨hnew, hg, ht⟩⟩

/-! ## State events -/

/-- The events that their constructor builds, of machine-sized generations and time. -/
structure ValidStateEvent (e : StateEvent) : Prop where
  built : newStateEvent e = .ok e
  slotGeneration : e.slotGeneration < 256 ^ 8
  dataGeneration : e.dataGeneration < 256 ^ 8
  time : EncodableTime e.occurredAt

theorem readStateEvent_append {e : StateEvent} (h : ValidStateEvent e) (x : Bytes) :
    readStateEvent (stateEventBytes e ++ x) = if x = [] then some e else none := by
  obtain ⟨hns, hc, hr, hslot⟩ := StateEvent.lengths h.built
  simp [readStateEvent, stateEventBytes, string16_append maxNamespaceBytes (by decide) hns, string16_identifier hc,
    string16_identifier (Nat.le_trans hr (by decide)), string16_identifier hslot, Reader.uint_append h.slotGeneration,
    Reader.uint_append h.dataGeneration, readTime_append h.time, guard_bind]

theorem code_of_kindOfCode {code kind} (h : kindOfCode code = some kind) :
    kind.code = code := by
  have := find?_some h
  simpa using this

theorem readStateEvent_eq_some {e : StateEvent} (h : readStateEvent data = some e) :
    data = stateEventBytes e ∧ e.slotGeneration < 256 ^ 8 ∧ e.dataGeneration < 256 ^ 8 ∧ EncodableTime e.occurredAt := by
  simp only [readStateEvent, Option.bind_eq_bind, Option.bind_eq_some_iff, guard_eq_some, Option.some.injEq] at h
  obtain ⟨⟨_, d₁⟩, h₁, -, rfl, ⟨code, d₂⟩, h₂, ⟨_, d₃⟩, h₃, ⟨_, d₄⟩, h₄, ⟨_, d₅⟩, h₅, ⟨_, d₆⟩, h₆, ⟨_, d₇⟩, h₇,
    ⟨_, d₈⟩, h₈, ⟨_, d₉⟩, h₉, -, rfl, kind, hkind, rfl⟩ := h
  obtain rfl := Reader.byte_eq_some h₁
  obtain rfl := Reader.byte_eq_some h₂
  obtain rfl := string16_eq_some h₃
  obtain rfl := string16_eq_some h₄
  obtain rfl := string16_eq_some h₅
  obtain rfl := string16_eq_some h₆
  obtain ⟨rfl, hs⟩ := Reader.uint_eq_some h₇
  obtain ⟨rfl, hd⟩ := Reader.uint_eq_some h₈
  obtain ⟨rfl, ht⟩ := readTime_eq_some h₉
  obtain rfl := code_of_kindOfCode hkind
  exact ⟨by simp [stateEventBytes], hs, hd, ht⟩

theorem exactCodec_stateEvent : ExactCodec ValidStateEvent encodeStateEvent decodeStateEvent := by
  have hencode : ∀ e, ValidStateEvent e → encodeStateEvent e = .ok (stateEventBytes e) := fun e h =>
    (decodeStateEvent_encode h.built h.time h.slotGeneration h.dataGeneration).1
  refine ExactCodec.of_append (fun e h => ⟨_, hencode e h, fun x w => ?_⟩) fun b e h => ?_
  · rw [decodeStateEvent, readStateEvent_append h]
    by_cases hx : x = []
    · simp [hx, h.built, eq_comm]
    · simp [hx]
  · unfold decodeStateEvent at h
    split at h
    · cases h
    next value hread =>
      obtain ⟨rfl, hs, hd, ht⟩ := readStateEvent_eq_some hread
      split at h
      · cases h
      next result hnew =>
        obtain rfl := Except.ok.inj h
        obtain rfl : result = value := (newStateEvent_eq_ok.1 hnew).1
        exact ⟨⟨hnew, hs, hd, ht⟩, hencode _ ⟨hnew, hs, hd, ht⟩⟩

/-! ## Tuple keys -/

def decodeTupleKey (encoded : Bytes) : Result Tuple :=
  match readTupleKey encoded with
  | none => .error .integrity
  | some value =>
    match newTupleKey value with
    | .error _ => .error .integrity
    | .ok key => .ok key.tuple

theorem readTupleKey_append {t : Tuple} (h : validateDSLRelationship t = .ok ()) (x : Bytes) :
    readTupleKey (tupleKeyBytes t ++ x) = if x = [] then some t else none := by
  obtain ⟨h1, h2, h3, h4, h5, h6⟩ := tuple_lengths h
  simp [readTupleKey, tupleKeyBytes, string16_identifier h1, string16_identifier h2, string16_identifier h3,
    string16_identifier h4, string16_identifier h5, string16_identifier h6, guard_bind]

theorem readTupleKey_eq_some {t : Tuple} (h : readTupleKey data = some t) : data = tupleKeyBytes t := by
  simp only [readTupleKey, Option.bind_eq_bind, Option.bind_eq_some_iff, guard_eq_some, Option.some.injEq] at h
  obtain ⟨⟨_, d₁⟩, h₁, -, rfl, ⟨_, d₂⟩, h₂, ⟨_, d₃⟩, h₃, ⟨_, d₄⟩, h₄, ⟨_, d₅⟩, h₅, ⟨_, d₆⟩, h₆, ⟨_, d₇⟩, h₇, -,
    rfl, rfl⟩ := h
  obtain rfl := Reader.byte_eq_some h₁
  obtain rfl := string16_eq_some h₂
  obtain rfl := string16_eq_some h₃
  obtain rfl := string16_eq_some h₄
  obtain rfl := string16_eq_some h₅
  obtain rfl := string16_eq_some h₆
  obtain rfl := string16_eq_some h₇
  simp [tupleKeyBytes]

theorem exactCodec_tupleKey :
    ExactCodec (fun t : Tuple => validateDSLRelationship t = .ok ()) encodeTupleKey decodeTupleKey := by
  refine ExactCodec.of_append (fun t h => ⟨_, encodeTupleKey_eq h, fun x w => ?_⟩) fun b t h => ?_
  · rw [decodeTupleKey, readTupleKey_append h]
    by_cases hx : x = []
    · simp [hx, newTupleKey_eq_ok.2 ⟨rfl, h⟩, eq_comm]
    · simp [hx]
  · unfold decodeTupleKey at h
    split at h
    · cases h
    next value hread =>
      obtain rfl := readTupleKey_eq_some hread
      split at h
      · cases h
      next key hnew =>
        obtain rfl := Except.ok.inj h
        obtain ⟨rfl, hv⟩ := newTupleKey_eq_ok.1 hnew
        exact ⟨hv, encodeTupleKey_eq hv⟩

/-! ## Attribute keys -/

theorem encodableKey_iff {k} (hk : newAttributeKeyPath k.entity k.path = .ok k) :
    EncodableKey k ↔ attributeKeyCost ⟨codecEntity, k.path⟩ ≤ maxAggregateInputBytes := by
  obtain ⟨-, -, hpath, -⟩ := newAttributeKeyPath_eq_ok.1 hk
  have hentity : entityRefCost codecEntity = 26 := by decide +kernel
  rw [attributeKeyCost, hentity, Nat.add_comm]
  exact ⟨fun h => h.2.2, fun h => ⟨hk, hpath, h⟩⟩

/-- **Attribute keys are stored exactly when their path fits next to the probe's entity.** A key that
`NewAttributeKeyPath` accepts is then encoded injectively and read back, and its strict prefixes are the encodings of
its proper prefixes, shortest first; past that cost the key is refused. -/
theorem attributeKeyCodec_iff {k : AttributeKey} (hk : newAttributeKeyPath k.entity k.path = .ok k) :
    ((∃ b, encodeAttributeKey k = .ok b ∧ decodeAttributeKey b = .ok k ∧
        ∀ k', encodeAttributeKey k' = .ok b → k' = k) ∧
      ∃ bs, strictAttributePrefixes k = .ok bs ∧ bs.length = k.path.length - 1 ∧
        ∀ i b, bs[i]? = some b → encodeAttributeKey ⟨k.entity, k.path.take (i + 1)⟩ = .ok b) ↔
      attributeKeyCost ⟨codecEntity, k.path⟩ ≤ maxAggregateInputBytes := by
  rw [← encodableKey_iff hk]
  constructor
  · rintro ⟨⟨b, henc, -⟩, -⟩
    exact (encodeAttributeKey_eq_ok.1 henc).1
  · intro h
    refine ⟨⟨_, encodeAttributeKey_eq h, decodeAttributeKey_bytes h, fun k' hk' => ?_⟩,
      _, strictAttributePrefixes_eq h, by simp [prefixBytes], fun i b hb => ?_⟩
    · obtain ⟨h', heq⟩ := encodeAttributeKey_eq_ok.1 hk'
      exact (attributeKeyBytes_inj h h' heq).symm
    · rw [prefixBytes, List.getElem?_map, Option.map_eq_some_iff] at hb
      obtain ⟨n, hn, rfl⟩ := hb
      obtain ⟨hi, rfl⟩ := List.getElem?_eq_some_iff.1 hn
      rw [List.getElem_range', Nat.one_mul, Nat.add_comm 1 i]
      exact encodeAttributeKey_eq (h.take (Nat.succ_pos i))

def ownerName : AttributeKey := ⟨⟨ascii "document", ascii "1"⟩, [ascii "owner", ascii "name"]⟩

theorem attributeKeyCodec_iff_sample :
    newAttributeKeyPath ownerName.entity ownerName.path = .ok ownerName ∧
      ∃ b, encodeAttributeKey ownerName = .ok b ∧ decodeAttributeKey b = .ok ownerName := by
  have hk : newAttributeKeyPath ownerName.entity ownerName.path = .ok ownerName := by decide +kernel
  obtain ⟨⟨b, henc, hdec, -⟩, -⟩ := (attributeKeyCodec_iff hk).2 (by decide +kernel)
  exact ⟨hk, b, henc, hdec⟩

/-- A path that fits the budget next to the entity `a`/`b`, but not next to the probe's entity. -/
def longPath : Path := List.replicate 4095 (List.replicate 1016 97) ++ [List.replicate 985 97]

theorem attributePathCost_longPath : attributePathCost longPath = 4194281 := by
  simp only [attributePathCost, longPath, map_append, map_replicate, map_cons, map_nil,
    sum_append, sum_replicate_nat, sum_cons, sum_nil, textCost, length_replicate,
    fieldMetadataBytes, collectionMetadataBytes, Nat.reduceMul, Nat.reduceAdd]

theorem validSegment_replicate {n : Nat} (h0 : 0 < n) (h : n ≤ maxIdentifierBytes) :
    validateIdentifier (List.replicate n 97) = .ok () ∧ validDSLIdentifier (List.replicate n 97) = true := by
  have hmem : ∀ b ∈ List.replicate n (97 : UInt8), b = 97 := fun b hb => eq_of_mem_replicate hb
  refine ⟨validateIdentifier_eq_ok.2 ⟨by simp; omega, by simpa using h, safeText_ascii fun b hb => ?_⟩, ?_⟩
  · rw [hmem b hb]
    decide
  · obtain ⟨m, rfl⟩ := Nat.exists_eq_succ_of_ne_zero h0.ne'
    have hstart : isDSLIdentifierStart 97 = true := by decide
    simp [replicate_succ, validDSLIdentifier, hstart]

theorem validateAttributePath_longPath : validateAttributePath longPath = .ok () := by
  refine validateAttributePath_eq_ok.2 ⟨append_ne_nil_of_right_ne_nil _ (cons_ne_nil _ _), ?_, ?_, ?_⟩
  · rw [longPath, length_append, length_replicate]
    decide
  · rw [attributePathCost_longPath]
    decide
  · intro s hs
    simp only [longPath, mem_append, mem_singleton] at hs
    obtain hs | rfl := hs
    · rw [eq_of_mem_replicate hs]
      exact validSegment_replicate (by decide) (by decide)
    · exact validSegment_replicate (by decide) (by decide)

def longKey : AttributeKey := ⟨⟨ascii "a", ascii "b"⟩, longPath⟩

theorem newAttributeKeyPath_longKey : newAttributeKeyPath longKey.entity longKey.path = .ok longKey := by
  have hentity : entityRefCost longKey.entity = 18 ∧ validateEntityRef longKey.entity = .ok () := by decide +kernel
  refine newAttributeKeyPath_eq_ok.2 ⟨rfl, hentity.2, validateAttributePath_longPath, ?_⟩
  rw [attributeKeyCost, hentity.1, longKey, attributePathCost_longPath]
  decide

theorem not_encodableKey_longKey : ¬ EncodableKey longKey := by
  intro h
  have hcost : attributePathCost longPath + 26 ≤ maxAggregateInputBytes := h.2.2
  rw [attributePathCost_longPath] at hcost
  exact absurd hcost (by decide)

/-- A key that its constructor accepts and the encoder refuses. -/
theorem encodeAttributeKey_longPath :
    newAttributeKeyPath ⟨ascii "a", ascii "b"⟩ longPath = .ok ⟨⟨ascii "a", ascii "b"⟩, longPath⟩ ∧
      encodeAttributeKey ⟨⟨ascii "a", ascii "b"⟩, longPath⟩ = .error .integrity :=
  ⟨newAttributeKeyPath_longKey, encodeAttributeKey_of_not not_encodableKey_longKey⟩

/-! ## Attribute values -/

/-- A value's payload is read to its end: what follows it is refused. -/
theorem readAttributeValue_string {text : Bytes} (h : validateText text maxStringValueBytes true = .ok ()) (x : Bytes) :
    readAttributeValue attributeValueString (codecBytes32 text ++ x) =
      if x = [] then some ⟨.string, text, 0, false⟩ else none := by
  have hlen := (validateText_eq_ok.1 h).2.1
  simp [readAttributeValue, bytes32_append maxStringValueBytes (by decide) hlen, guard_bind, newStringValue, h,
    Except.toOption]

theorem readAttributeValue_integer (integer : Int64) (x : Bytes) :
    readAttributeValue attributeValueInteger (be 8 (twos64 integer.toInt) ++ x) =
      if x = [] then some ⟨.integer, [], integer, false⟩ else none := by
  simp [readAttributeValue, attributeValueInteger, attributeValueString,
    int64_append (Int64.le_toInt integer) (Int64.toInt_lt integer), guard_bind, newIntegerValue]

theorem readAttributeValue_boolean (boolean : Bool) (x : Bytes) :
    readAttributeValue attributeValueBoolean ((if boolean then 1 else 0) :: x) =
      if x = [] then some ⟨.boolean, [], 0, boolean⟩ else none := by
  cases boolean <;>
    simp [readAttributeValue, attributeValueBoolean, attributeValueInteger, attributeValueString, guard_bind,
      newBooleanValue]

theorem readAttributeValue_null (x : Bytes) :
    readAttributeValue attributeValueNull x = if x = [] then some ⟨.null, [], 0, false⟩ else none := by
  simp [readAttributeValue, attributeValueNull, attributeValueBoolean, attributeValueInteger, attributeValueString,
    guard_bind, newNullValue]

theorem decodeAttributeValue_cons {kind w} :
    decodeAttributeValue (codecVersion :: kind :: data) = .ok w ↔ readAttributeValue kind data = some w := by
  simp only [decodeAttributeValue, ne_eq, not_true_eq_false, if_false]
  cases readAttributeValue kind data <;> simp

/-- The bytes that a value was read from are its encoding. -/
theorem encodeAttributeValue_of_read {kind v} (h : readAttributeValue kind data = some v) :
    encodeAttributeValue v = .ok (codecVersion :: kind :: data) := by
  unfold readAttributeValue at h
  split at h
  next hk =>
    subst hk
    simp only [Option.bind_eq_bind, Option.bind_eq_some_iff, guard_eq_some] at h
    obtain ⟨⟨text, rest⟩, hread, -, rfl, hnew⟩ := h
    obtain ⟨rfl, hlen⟩ := bytes32_eq_some hread
    cases htext : validateText text maxStringValueBytes true with
    | error e => simp [newStringValue, htext, Except.toOption] at hnew
    | ok u =>
      simp only [newStringValue, htext, ok_bind, Except.toOption, Option.some.injEq] at hnew
      subst hnew
      rw [append_nil, encodeAttributeValue]
      exact if_neg (Nat.not_lt.2 hlen)
  · split at h
    next hk =>
      subst hk
      simp only [Option.bind_eq_bind, Option.bind_eq_some_iff, guard_eq_some, Option.some.injEq] at h
      obtain ⟨⟨n, rest⟩, hread, -, rfl, rfl⟩ := h
      obtain ⟨rfl, hlo, hhi⟩ := int64_eq_some hread
      rw [append_nil]
      simp only [newIntegerValue, encodeAttributeValue, Int64.toInt_ofInt_of_le hlo hhi]
    · split at h
      next hk =>
        subst hk
        simp only [Option.bind_eq_bind, Option.bind_eq_some_iff, guard_eq_some, Option.some.injEq] at h
        obtain ⟨⟨b, rest⟩, hread, -, ⟨rfl, hb⟩, rfl⟩ := h
        obtain rfl := Reader.byte_eq_some hread
        obtain rfl | rfl := hb <;> rfl
      · split at h
        next hk =>
          subst hk
          simp only [Option.bind_eq_bind, Option.bind_eq_some_iff, guard_eq_some, Option.some.injEq] at h
          obtain ⟨-, rfl, rfl⟩ := h
          rfl
        · cases h

theorem exactCodec_attributeValue :
    ExactCodec (fun v : Value => v.valid = true) encodeAttributeValue decodeAttributeValue := by
  refine ExactCodec.of_append (fun v h => ?_) fun b v h => ⟨decodeAttributeValue_valid h, ?_⟩
  · -- one frame per kind: the kind byte selects the reader of the payload that follows
    obtain ⟨b, henc, -⟩ := decodeAttributeValue_encode h
    refine ⟨b, henc, fun x w => ?_⟩
    obtain ⟨kind, text, integer, boolean⟩ := v
    unfold Value.valid at h
    split at h <;> rename_i hk <;> dsimp only at hk <;> subst hk <;>
      simp only [Bool.and_eq_true, beq_iff_eq, Bool.not_eq_true', isOk_unit, Bool.false_eq_true] at h
    · obtain ⟨⟨rfl, rfl⟩, htext⟩ := h
      have hlen := (validateText_eq_ok.1 htext).2.1
      simp only [encodeAttributeValue, if_neg (Nat.not_lt.2 hlen), Except.ok.injEq] at henc
      subst henc
      rw [cons_append, cons_append, decodeAttributeValue_cons, readAttributeValue_string htext]
      by_cases hx : x = [] <;> simp [hx, eq_comm]
    · obtain ⟨rfl, rfl⟩ := h
      obtain rfl := Except.ok.inj henc
      rw [cons_append, cons_append, decodeAttributeValue_cons, readAttributeValue_integer]
      by_cases hx : x = [] <;> simp [hx, eq_comm]
    · obtain ⟨rfl, rfl⟩ := h
      obtain rfl := Except.ok.inj henc
      rw [cons_append, cons_append, cons_append, nil_append, decodeAttributeValue_cons,
        readAttributeValue_boolean]
      by_cases hx : x = [] <;> simp [hx, eq_comm]
    · obtain ⟨⟨rfl, rfl⟩, rfl⟩ := h
      obtain rfl := Except.ok.inj henc
      rw [cons_append, cons_append, nil_append, decodeAttributeValue_cons, readAttributeValue_null]
      by_cases hx : x = [] <;> simp [hx, eq_comm]
  · rcases b with - | ⟨version, - | ⟨kind, data⟩⟩
    · cases h
    · cases h
    · have hversion : version = codecVersion := by
        by_contra hne
        simp [decodeAttributeValue, hne] at h
      subst hversion
      exact encodeAttributeValue_of_read (decodeAttributeValue_cons.1 h)

/-! ## Original idempotency responses -/

/-- The responses that a first execution returns. -/
def OriginalResponse (r : WriteDataResponse) : Prop :=
  r.generation ≠ 0 ∧ r.generation < 256 ^ 8 ∧ r.replayed = false

theorem readIdempotencyResponse_append {g : Nat} (h : g < 256 ^ 8) (x : Bytes) :
    readIdempotencyResponse (codecVersion :: idempotencyCodecFingerprint :: be 8 g ++ x) =
      if x = [] then some g else none := by
  simp [readIdempotencyResponse, Reader.uint_append h, guard_bind]

theorem readIdempotencyResponse_eq_some {g : Nat} (h : readIdempotencyResponse data = some g) :
    data = codecVersion :: idempotencyCodecFingerprint :: be 8 g ∧ g < 256 ^ 8 := by
  simp only [readIdempotencyResponse, Option.bind_eq_bind, Option.bind_eq_some_iff, guard_eq_some,
    Option.some.injEq] at h
  obtain ⟨⟨_, d₁⟩, h₁, -, rfl, ⟨_, d₂⟩, h₂, -, rfl, ⟨_, d₃⟩, h₃, -, rfl, rfl⟩ := h
  obtain rfl := Reader.byte_eq_some h₁
  obtain rfl := Reader.byte_eq_some h₂
  obtain ⟨rfl, hg⟩ := Reader.uint_eq_some h₃
  exact ⟨by simp, hg⟩

theorem encodeIdempotencyResponse_eq {r} (h : OriginalResponse r) :
    encodeIdempotencyResponse r = .ok (codecVersion :: idempotencyCodecFingerprint :: be 8 r.generation) := by
  rw [encodeIdempotencyResponse, if_neg (by simp [h.1, h.2.2])]

theorem exactCodec_idempotencyResponse :
    ExactCodec OriginalResponse encodeIdempotencyResponse (decodeIdempotencyResponse · false) := by
  refine ExactCodec.of_append (fun r h => ⟨_, encodeIdempotencyResponse_eq h, fun x w => ?_⟩) fun b r h => ?_
  · obtain ⟨g, replayed⟩ := r
    obtain ⟨h0, hg, rfl⟩ := h
    rw [decodeIdempotencyResponse, readIdempotencyResponse_append hg]
    by_cases hx : x = []
    · simp [hx, newWriteDataResponse, h0, eq_comm]
    · simp [hx]
  · obtain ⟨h0, hreplayed⟩ := decodeIdempotencyResponse_eq_ok h
    unfold decodeIdempotencyResponse at h
    split at h
    · cases h
    next g hread =>
      obtain ⟨rfl, hg⟩ := readIdempotencyResponse_eq_some hread
      rw [newWriteDataResponse] at h
      split at h
      · cases h
      next r' hr =>
        obtain rfl := Except.ok.inj h
        split at hr
        · cases hr
        · obtain rfl := Except.ok.inj hr
          have hr : OriginalResponse ⟨g, false⟩ := ⟨h0, hg, rfl⟩
          exact ⟨hr, encodeIdempotencyResponse_eq hr⟩

/-! ## Provenance -/

section Provenance

variable [Primitives]

/-- The provenances of a revision: none, or one that `NewRevisionProvenance` built. -/
def ValidProvenance (p : RevisionProvenance) : Prop := p.zero = true ∨ p.Valid = true

variable {name source : Bytes}

omit [Primitives] in
theorem readProvenance_append (hname : name.length ≤ maxSourceNameBytes)
    (hsource : source.length ≤ maxPolicySourceBytes) (x : Bytes) :
    readProvenance (codecString16 name ++ codecBytes32 source ++ x) = if x = [] then some (name, source) else none := by
  simp [readProvenance, string16_append maxSourceNameBytes (by decide) hname,
    bytes32_append maxPolicySourceBytes (by decide) hsource, guard_bind]

omit [Primitives] in
theorem readProvenance_eq_some (h : readProvenance data = some (name, source)) :
    data = codecString16 name ++ codecBytes32 source := by
  simp only [readProvenance, Option.bind_eq_bind, Option.bind_eq_some_iff, guard_eq_some, Option.some.injEq,
    Prod.mk.injEq] at h
  obtain ⟨⟨_, d₁⟩, h₁, ⟨_, d₂⟩, h₂, -, rfl, rfl, rfl⟩ := h
  obtain rfl := string16_eq_some h₁
  obtain ⟨rfl, -⟩ := bytes32_eq_some h₂
  simp

theorem newRevisionProvenance_eq_ok {ns p} :
    newRevisionProvenance ns name source = .ok p ↔ p = ⟨name, source, sha256 source, true⟩ ∧ source ≠ [] ∧
      source.length ≤ maxPolicySourceBytes ∧ validateNamespace ns = .ok () ∧
      validateText name maxSourceNameBytes false = .ok () := by
  simp only [newRevisionProvenance, check_eq_ok, checkPublishRequest_eq_ok, Except.ok.injEq, eq_comm (a := p)]
  exact and_comm

theorem exactCodec_revisionProvenance {ns : Bytes} (hns : validateNamespace ns = .ok ()) :
    ExactCodec ValidProvenance encodeRevisionProvenance (decodeRevisionProvenance ns) := by
  refine ExactCodec.of_append (fun p h => ?_) fun b p h => ?_
  · obtain ⟨b, henc, -⟩ := decodeRevisionProvenance_encode hns h
    refine ⟨b, henc, fun x w => ?_⟩
    by_cases hv : p.Valid = true
    · obtain ⟨hvalid, hne, hdigest, hlen, hname⟩ := RevisionProvenance.valid_iff.1 hv
      have hnamelen := (validateText_eq_ok.1 hname).2.1
      have hnew : newRevisionProvenance ns p.sourceName p.originalSource = .ok p := by
        refine newRevisionProvenance_eq_ok.2 ⟨?_, hne, hlen, hns, hname⟩
        rw [hdigest, ← hvalid]
      simp only [encodeRevisionProvenance, if_pos hv] at henc
      rw [if_neg (by omega)] at henc
      obtain rfl := Except.ok.inj henc
      simp only [cons_append, decodeRevisionProvenance, ne_eq, not_true_eq_false, if_false,
        readProvenance_append hnamelen hlen, provenancePresent, provenanceAbsent]
      by_cases hx : x = []
      · simp [hx, hnew, eq_comm]
      · simp [hx]
    · obtain rfl : p = .none := by simpa [ValidProvenance, RevisionProvenance.zero, hv] using h
      rw [encodeRevisionProvenance, if_neg hv, if_pos ⟨rfl, rfl⟩] at henc
      obtain rfl := Except.ok.inj henc
      by_cases hx : x = [] <;> simp [decodeRevisionProvenance, hx, eq_comm]
  · have hnone : ¬ RevisionProvenance.none.Valid = true := by simp [RevisionProvenance.Valid, RevisionProvenance.none]
    unfold decodeRevisionProvenance at h
    split at h
    next version presence data =>
      split at h
      · cases h
      next hversion =>
        obtain rfl := not_not.1 hversion
        split at h
        next hp =>
          subst hp
          split at h
          next hd =>
            obtain rfl := Except.ok.inj h
            exact ⟨.inl (by simp [RevisionProvenance.zero]),
              by rw [encodeRevisionProvenance, if_neg hnone, if_pos ⟨rfl, rfl⟩, hd]⟩
          · cases h
        · split at h
          next hp =>
            subst hp
            split at h
            · cases h
            next name source hread =>
              split at h
              · cases h
              next result hnew =>
                obtain rfl := Except.ok.inj h
                obtain rfl := readProvenance_eq_some hread
                obtain ⟨rfl, hne, hlen, -, hname⟩ := newRevisionProvenance_eq_ok.1 hnew
                have hvalid : RevisionProvenance.Valid ⟨name, source, sha256 source, true⟩ = true :=
                  RevisionProvenance.valid_iff.2 ⟨rfl, hne, rfl, hlen, hname⟩
                have hnamelen := (validateText_eq_ok.1 hname).2.1
                refine ⟨.inr hvalid, ?_⟩
                rw [encodeRevisionProvenance, if_pos hvalid, if_neg]
                dsimp only
                omega
          · cases h
    · cases h

/-- **Every durable record is stored exactly.** The seven codecs are inverse in both directions, on every value
their constructors admit and on every byte string. -/
theorem recordCodecs_exact {ns : Bytes} (hns : validateNamespace ns = .ok ()) :
    ExactCodec ValidRevisionMetadata encodeRevisionMetadata decodeRevisionMetadata ∧
      ExactCodec ValidActivation encodeActivation decodeActivation ∧
      ExactCodec ValidStateEvent encodeStateEvent decodeStateEvent ∧
      ExactCodec ValidProvenance encodeRevisionProvenance (decodeRevisionProvenance ns) ∧
      ExactCodec (fun t : Tuple => validateDSLRelationship t = .ok ()) encodeTupleKey decodeTupleKey ∧
      ExactCodec (fun v : Value => v.valid = true) encodeAttributeValue decodeAttributeValue ∧
      ExactCodec OriginalResponse encodeIdempotencyResponse (decodeIdempotencyResponse · false) :=
  ⟨exactCodec_revisionMetadata, exactCodec_activation, exactCodec_stateEvent, exactCodec_revisionProvenance hns,
    exactCodec_tupleKey, exactCodec_attributeValue, exactCodec_idempotencyResponse⟩

omit [Primitives] in
theorem recordCodecs_exact_sample :
    validateNamespace (ascii "n") = .ok () ∧
      ∃ b, @encodeRevisionProvenance Primitives.constant ⟨ascii "policy", ascii "source", List.replicate 32 0, true⟩ = .ok b ∧
        @decodeRevisionProvenance Primitives.constant (ascii "n") b =
          .ok ⟨ascii "policy", ascii "source", List.replicate 32 0, true⟩ := by
  have hns : validateNamespace (ascii "n") = .ok () := by decide +kernel
  obtain ⟨-, -, -, hprovenance, -⟩ := @recordCodecs_exact Primitives.constant _ hns
  exact ⟨hns, hprovenance.decode_encode (.inr (by decide +kernel))⟩

end Provenance

end PolicyEngine.Sqlite
