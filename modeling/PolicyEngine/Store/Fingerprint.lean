import PolicyEngine.Store.Records
import PolicyEngine.Lib.Delimited

/-!
# What a write's fingerprint says

The bytes hashed by `FingerprintWriteData` determine the write, and are determined by
it. The four sections carry no counts: a section ends at its marker byte, and no item
can start with one, because every item starts with the length of a short text, whose
first byte is zero.
-/

open List

namespace PolicyEngine

open Lib

/-! ## Texts -/

/-- Short enough for a length whose first byte is zero. -/
def ShortText (value : Bytes) : Prop := value.length < 256 ^ 7

variable {value : Bytes}

theorem shortText_of_le {maximum : Nat} (h : value.length ≤ maximum) (hmax : maximum ≤ 65536) :
    ShortText value := by
  simp only [ShortText]
  omega

theorem shortText_identifier (h : validateIdentifier value = .ok ()) : ShortText value :=
  shortText_of_le (validateIdentifier_eq_ok.1 h).2.1 (by decide)

theorem shortText_optionalIdentifier (h : validateOptionalIdentifier value = .ok ()) :
    ShortText value :=
  shortText_of_le (validateOptionalIdentifier_eq_ok.1 h).1 (by decide)

theorem shortText_namespace (h : validateNamespace value = .ok ()) : ShortText value :=
  shortText_identifier (validateIdentifier_of_namespace h)

theorem delimited_writeString : Delimited ShortText writeString :=
  (delimited_lengthPrefixed 8).mono fun x hx => by
    simp only [ShortText] at hx
    omega

/-- The input goes on with a length. -/
def StartsZero (input : Bytes) : Prop := input.head? = some 0

theorem startsZero_writeString (h : ShortText value) (rest : Bytes) :
    StartsZero (writeString value ++ rest) :=
  head?_lengthPrefixed h rest

/-- A list of texts, its length known. -/
theorem delimited_texts (n : Nat) :
    Delimited (fun l : List Bytes => l.length = n ∧ ∀ x ∈ l, ShortText x) fun l => l.flatMap writeString :=
  delimited_writeString.replicate n

theorem delimited_writeStrings :
    Delimited (fun l : List Bytes => l.length < 256 ^ 8 ∧ ∀ x ∈ l, ShortText x) writeStrings := by
  intro l m ⟨hl, hl'⟩ ⟨hm, hm'⟩ u v heq
  simp only [writeStrings, writeUint64, append_assoc] at heq
  obtain ⟨hlen, hrest⟩ := delimited_be 8 hl hm heq
  exact delimited_texts m.length ⟨hlen, hl'⟩ ⟨rfl, hm'⟩ hrest

/-! ## Tuples -/

/-- The six texts of a relationship. -/
def relationshipTexts (t : Tuple) : List Bytes :=
  [t.resource.type, t.resource.id, t.relation, t.subject.type, t.subject.id, t.subject.relation]

variable {t : Tuple}

theorem relationshipTexts_inj {s : Tuple} (h : relationshipTexts s = relationshipTexts t) : s = t := by
  obtain ⟨⟨_, _⟩, _, ⟨_, _, _⟩⟩ := s
  obtain ⟨⟨_, _⟩, _, ⟨_, _, _⟩⟩ := t
  simpa [relationshipTexts, and_assoc] using h

theorem shortText_relationshipTexts (h : validateDSLRelationship t = .ok ()) :
    ∀ x ∈ relationshipTexts t, ShortText x := by
  rw [validateDSLRelationship_eq_ok, validateEntityRef_eq_ok, validateSubjectRef_eq_ok] at h
  obtain ⟨⟨h1, h2⟩, h3, h4, h5, h6⟩ := h
  simp only [relationshipTexts, mem_cons, not_mem_nil, or_false, forall_eq_or_imp, forall_eq]
  exact ⟨shortText_identifier h1, shortText_identifier h2, shortText_identifier h3, shortText_identifier h4,
    shortText_identifier h5, shortText_optionalIdentifier h6⟩

theorem delimited_writeRelationshipFields :
    Delimited (fun t => validateDSLRelationship t = .ok ()) writeRelationshipFields :=
  (delimited_texts 6).comap (fun _ h => ⟨rfl, shortText_relationshipTexts h⟩) fun _ _ _ _ => relationshipTexts_inj

theorem startsZero_writeRelationshipFields (h : validateDSLRelationship t = .ok ()) (rest : Bytes) :
    StartsZero (writeRelationshipFields t ++ rest) := by
  simp only [writeRelationshipFields, flatMap_cons, append_assoc]
  exact startsZero_writeString (shortText_relationshipTexts h _ (by simp [relationshipTexts])) _

/-- An instant a Go time can hold: its seconds since year 1 fit in 64 bits. -/
def Representable (t : Int) : Prop :=
  -2 ^ 63 ≤ t / 1000000000 + 62135596800 ∧ t / 1000000000 + 62135596800 < 2 ^ 63

instance (t : Int) : Decidable (Representable t) := inferInstanceAs (Decidable (_ ∧ _))

theorem length_marshalTime (t : Time) : (marshalTime t).length = 15 := by
  simp [marshalTime]

theorem marshalTime_inj {s t : Int} (hs : Representable s) (ht : Representable t)
    (h : marshalTime s = marshalTime t) : s = t := by
  simp only [marshalTime, List.cons.injEq, true_and, append_assoc] at h
  obtain ⟨hsec, h⟩ := delimited_be 8 (twos64_lt _) (twos64_lt _) h
  have hnanos (x : Int) : (x % 1000000000).toNat < 256 ^ 4 := by omega
  obtain ⟨hnano, -⟩ := delimited_be 4 (hnanos s) (hnanos t) h
  have hsec' : s / 1000000000 + 62135596800 = t / 1000000000 + 62135596800 := by
    rw [← signed64_twos64 hs.1 hs.2, ← signed64_twos64 ht.1 ht.2, hsec]
  have hrec (x : Int) : x = x / 1000000000 * 1000000000 + ((x % 1000000000).toNat : Int) := by omega
  rw [hrec s, hrec t, hnano]
  omega

/-- A tuple as a Go value. -/
def RelationshipTuple.Held (t : RelationshipTuple) : Prop := t.valid = true ∧ Representable t.expiresAt

theorem RelationshipTuple.valid_iff {t : RelationshipTuple} :
    t.valid = true ↔ validateDSLRelationship t.tuple = .ok () ∧
      (t.hasExpiry = true → t.expiresAt ≠ zeroTime) ∧ (t.hasExpiry = false → t.expiresAt = zeroTime) := by
  simp only [RelationshipTuple.valid, Bool.and_eq_true, isOk_unit, and_assoc]
  cases t.hasExpiry <;> simp

theorem delimited_writeTuple : Delimited RelationshipTuple.Held writeTuple := by
  rintro ⟨s, sat, sexp⟩ ⟨t, tat, texp⟩ ⟨hs, hsr⟩ ⟨ht, htr⟩ u v heq
  obtain ⟨hs, -, hsz⟩ := RelationshipTuple.valid_iff.1 hs
  obtain ⟨ht, -, htz⟩ := RelationshipTuple.valid_iff.1 ht
  simp only [writeTuple, append_assoc] at heq
  obtain ⟨rfl, hrest⟩ := delimited_writeRelationshipFields hs ht heq
  have hshort (x : Time) : ShortText (marshalTime x) := by
    rw [ShortText, length_marshalTime]
    decide
  -- the flag byte says whether an instant follows
  cases sexp <;> cases texp <;> simp at hrest
  · exact ⟨by simp_all, hrest⟩
  · obtain ⟨htime, huv⟩ := delimited_writeString (hshort _) (hshort _) hrest
    obtain rfl : sat = tat := marshalTime_inj hsr htr htime
    exact ⟨rfl, huv⟩

theorem startsZero_writeTuple {t : RelationshipTuple} (h : t.Held) (rest : Bytes) :
    StartsZero (writeTuple t ++ rest) := by
  rw [writeTuple, append_assoc]
  exact startsZero_writeRelationshipFields (RelationshipTuple.valid_iff.1 h.1).1 _

/-! ## Attributes -/

theorem shortText_entity {e : EntityRef} (h : validateEntityRef e = .ok ()) : ShortText e.type ∧ ShortText e.id := by
  rw [validateEntityRef_eq_ok] at h
  exact ⟨shortText_identifier h.1, shortText_identifier h.2⟩

theorem shortText_path {p : Path} (h : validateAttributePath p = .ok ()) :
    p.length < 256 ^ 8 ∧ ∀ x ∈ p, ShortText x := by
  obtain ⟨-, hlen, -, hseg⟩ := validateAttributePath_eq_ok.1 h
  simp only [maxAggregateWorkItems] at hlen
  exact ⟨by omega, fun x hx => shortText_identifier (hseg x hx).1⟩

/-- An integer's 64-bit pattern. -/
theorem twos64_int64_inj {a b : Int64} (h : twos64 a.toInt = twos64 b.toInt) : a = b := by
  apply Int64.toInt_inj.1
  rw [← signed64_twos64 a.le_toInt a.toInt_lt, ← signed64_twos64 b.le_toInt b.toInt_lt, h]

/-- A kind byte and what it announces; the writers of values differ in what follows a null. -/
def kindAndPayload (null : Bytes) (v : Value) : Bytes :=
  v.kind.code :: match v.kind with
    | .string => writeString v.text
    | .integer => be 8 (twos64 v.integer.toInt)
    | .boolean => [if v.boolean then 1 else 0]
    | .null => null
    | .unset => []

theorem writeValue_eq (v : Value) : [v.kind.code] ++ writeValue v = kindAndPayload [0] v := by
  unfold writeValue kindAndPayload
  cases v.kind <;> rfl

/-- The kind says how the value is read. -/
theorem delimited_kindAndPayload (null : Bytes) :
    Delimited (fun v : Value => v.valid = true) (kindAndPayload null) := by
  rintro ⟨k, stext, sint, sbool⟩ ⟨k', ttext, tint, tbool⟩ hs ht u v heq
  simp only [kindAndPayload, cons_append, List.cons.injEq] at heq
  obtain ⟨hcode, heq⟩ := heq
  obtain rfl := ValueKind.code_inj hcode
  cases k with
  | unset => simp [Value.valid] at hs
  | string =>
    simp only [Value.valid, Bool.and_eq_true, beq_iff_eq, Bool.not_eq_true', isOk_unit] at hs ht
    have hshort {x : Bytes} (h : validateText x maxStringValueBytes true = .ok ()) : ShortText x :=
      shortText_of_le (validateText_eq_ok.1 h).2.1 (by decide)
    obtain ⟨rfl, huv⟩ := delimited_writeString (hshort hs.2) (hshort ht.2) heq
    exact ⟨by simp [hs.1, ht.1], huv⟩
  | integer =>
    simp only [Value.valid, Bool.and_eq_true, beq_iff_eq, Bool.not_eq_true'] at hs ht
    obtain ⟨hint, huv⟩ := delimited_be 8 (twos64_lt _) (twos64_lt _) heq
    obtain rfl : sint = tint := twos64_int64_inj hint
    exact ⟨by simp [hs, ht], huv⟩
  | boolean =>
    simp only [Value.valid, Bool.and_eq_true, beq_iff_eq] at hs ht
    obtain ⟨hbool, huv⟩ := List.cons.inj heq
    obtain rfl : sbool = tbool := by
      revert hbool
      cases sbool <;> cases tbool <;> simp
    exact ⟨by simp [hs, ht], huv⟩
  | null =>
    simp only [Value.valid, Bool.and_eq_true, beq_iff_eq, Bool.not_eq_true'] at hs ht
    exact ⟨by simp [hs, ht], append_cancel_left heq⟩

theorem AttributeKey.valid_iff {k : AttributeKey} :
    k.valid = true ↔ validateEntityRef k.entity = .ok () ∧ validateAttributePath k.path = .ok () := by
  simp only [AttributeKey.valid, Bool.and_eq_true, isOk_unit]

theorem Attribute.valid_iff {a : Attribute} :
    a.valid = true ↔ a.key.valid = true ∧ a.value.valid = true := by
  simp only [Attribute.valid, Bool.and_eq_true, isOk_unit, AttributeKey.valid_iff, Attribute.key, validateValue_eq_ok]

theorem delimited_writeAttributeKey : Delimited (fun k : AttributeKey => k.valid = true) writeAttributeKey := by
  rintro ⟨⟨sty, sid⟩, sp⟩ ⟨⟨tty, tid⟩, tp⟩ hs ht u v heq
  obtain ⟨hse, hsp⟩ := AttributeKey.valid_iff.1 hs
  obtain ⟨hte, htp⟩ := AttributeKey.valid_iff.1 ht
  simp only [writeAttributeKey, append_assoc] at heq
  obtain ⟨hty, hrest⟩ := delimited_writeString (shortText_entity hse).1 (shortText_entity hte).1 heq
  obtain ⟨hid, hrest⟩ := delimited_writeString (shortText_entity hse).2 (shortText_entity hte).2 hrest
  obtain ⟨hp, huv⟩ := delimited_writeStrings (shortText_path hsp) (shortText_path htp) hrest
  simp only at hty hid hp
  exact ⟨by rw [hty, hid, hp], huv⟩

theorem startsZero_writeAttributeKey {k : AttributeKey} (h : k.valid = true) (rest : Bytes) :
    StartsZero (writeAttributeKey k ++ rest) := by
  simp only [writeAttributeKey, append_assoc]
  exact startsZero_writeString (shortText_entity (AttributeKey.valid_iff.1 h).1).1 _

theorem writeAttribute_eq (a : Attribute) :
    writeAttribute a = writeAttributeKey a.key ++ kindAndPayload [0] a.value := by
  rw [← writeValue_eq]
  simp only [writeAttribute, writeAttributeKey, Attribute.key, append_assoc]

theorem delimited_writeAttribute : Delimited (fun a : Attribute => a.valid = true) writeAttribute := by
  intro a b ha hb u v heq
  obtain ⟨hak, hav⟩ := Attribute.valid_iff.1 ha
  obtain ⟨hbk, hbv⟩ := Attribute.valid_iff.1 hb
  rw [writeAttribute_eq, writeAttribute_eq b, append_assoc, append_assoc (writeAttributeKey b.key)] at heq
  obtain ⟨hkey, heq⟩ := delimited_writeAttributeKey hak hbk heq
  obtain ⟨hvalue, huv⟩ := delimited_kindAndPayload _ hav hbv heq
  exact ⟨Attribute.eq_of_key_value hkey hvalue, huv⟩

theorem startsZero_writeAttribute {a : Attribute} (h : a.valid = true) (rest : Bytes) :
    StartsZero (writeAttribute a ++ rest) := by
  rw [writeAttribute_eq, append_assoc]
  exact startsZero_writeAttributeKey (Attribute.valid_iff.1 h).1 _

/-! ## The whole write -/

/-- The machine values of a request: a 64-bit generation and instants a Go time can hold. -/
structure WriteDataRequest.Held (r : WriteDataRequest) : Prop where
  generation : r.expectedGeneration ≤ maxUint64
  expiries : ∀ t ∈ r.tupleWrites, Representable t.expiresAt

/-- Two requests ask for the same write: the four mutation lists are equal as sets. -/
structure SameWrite (i j : WriteDataRequest) : Prop where
  namespace_eq : i.namespace_ = j.namespace_
  revision_eq : i.validationRevisionID = j.validationRevisionID
  generation_eq : i.expectedGeneration = j.expectedGeneration
  tupleWrites : ∀ t, t ∈ i.tupleWrites ↔ t ∈ j.tupleWrites
  tupleDeletes : ∀ k, k ∈ i.tupleDeletes ↔ k ∈ j.tupleDeletes
  attributeWrites : ∀ a, a ∈ i.attributeWrites ↔ a ∈ j.attributeWrites
  attributeDeletes : ∀ k, k ∈ i.attributeDeletes ↔ k ∈ j.attributeDeletes

variable {a : WriteDataRequest}

/-- Canonical requests for the same write differ in the idempotency key only. -/
theorem sameWrite_iff {i j b} (ha : newWriteDataRequest i = .ok a) (hb : newWriteDataRequest j = .ok b) :
    SameWrite i j ↔ a = { b with idempotencyKey := a.idempotencyKey } := by
  obtain ⟨-, tw, aw, ad, htw, haw, had, -, rfl⟩ := newWriteDataRequest_eq_ok.1 ha
  obtain ⟨-, tw', aw', ad', htw', haw', had', -, rfl⟩ := newWriteDataRequest_eq_ok.1 hb
  have h1 := (sortedSet_canonicalRelationshipTuples htw).eq_iff (sortedSet_canonicalRelationshipTuples htw')
  have h2 := (sortedSet_canonicalTupleKeys i.tupleDeletes).eq_iff (sortedSet_canonicalTupleKeys j.tupleDeletes)
  have h3 := (sortedSet_canonicalAttributes haw).eq_iff (sortedSet_canonicalAttributes haw')
  have h4 := (sortedSet_canonicalAttributeKeys had).eq_iff (sortedSet_canonicalAttributeKeys had')
  simp only [WriteDataRequest.mk.injEq, true_and]
  constructor
  · rintro ⟨hns, hrev, hgen, s1, s2, s3, s4⟩
    exact ⟨hns, hrev, hgen, h1.2 s1, h2.2 s2, h3.2 s3, h4.2 s4⟩
  · rintro ⟨hns, hrev, hgen, e1, e2, e3, e4⟩
    exact ⟨hns, hrev, hgen, h1.1 e1, h2.1 e2, h3.1 e3, h4.1 e4⟩

/-- The hashed bytes determine everything but the idempotency key. -/
theorem fingerprintInput_inj {b} (ha : WellFormedWrite a) (hb : WellFormedWrite b) (hah : a.Held) (hbh : b.Held)
    (heq : fingerprintInput a = fingerprintInput b) :
    a = { b with idempotencyKey := a.idempotencyKey } := by
  have hrev {x : Bytes} (h : validRevisionIDString x = true) : ShortText x :=
    shortText_of_le (validRevisionIDString_length h).le (by decide)
  have hgen {n : Nat} (h : n ≤ maxUint64) : n < 256 ^ 8 := by simp only [maxUint64] at h; omega
  simp only [fingerprintInput, append_assoc, singleton_append] at heq
  obtain ⟨hns, heq⟩ := delimited_writeString (shortText_namespace ha.namespace_ok) (shortText_namespace hb.namespace_ok) heq
  obtain ⟨hrevision, heq⟩ := delimited_writeString (hrev ha.revision) (hrev hb.revision) heq
  obtain ⟨hgeneration, heq⟩ := delimited_be 8 (hgen hah.generation) (hgen hbh.generation) heq
  -- a marker byte is no length, so each section stops at its own
  have hFF (x : Bytes) : ¬ StartsZero (0xFF :: x) := by simp [StartsZero]
  have hFE (x : Bytes) : ¬ StartsZero (0xFE :: x) := by simp [StartsZero]
  have hFD (x : Bytes) : ¬ StartsZero (0xFD :: x) := by simp [StartsZero]
  have hend : ¬ StartsZero [] := by simp [StartsZero]
  obtain ⟨htw, heq⟩ := delimited_writeTuple.flatMap (fun t ht => startsZero_writeTuple ht)
    (fun t ht => ⟨ha.tupleWrites t ht, hah.expiries t ht⟩) (fun t ht => ⟨hb.tupleWrites t ht, hbh.expiries t ht⟩)
    (hFF _) (hFF _) heq
  have hkey {k : TupleKey} (h : k.valid = true) : validateDSLRelationship k.tuple = .ok () := isOk_unit.1 h
  have hdelete : Delimited (fun k : TupleKey => k.valid = true) fun k => writeRelationshipFields k.tuple :=
    delimited_writeRelationshipFields.comap (fun _ h => hkey h) fun k l _ _ h => by cases k; cases l; simpa using h
  obtain ⟨htd, heq⟩ := hdelete.flatMap (fun k hk => startsZero_writeRelationshipFields (hkey hk)) ha.tupleDeletes
    hb.tupleDeletes (hFE _) (hFE _) (List.cons.inj heq).2
  obtain ⟨haw, heq⟩ := delimited_writeAttribute.flatMap (fun a h => startsZero_writeAttribute h) ha.attributeWrites
    hb.attributeWrites (hFD _) (hFD _) (List.cons.inj heq).2
  have hlast := (List.cons.inj heq).2
  rw [← append_nil (List.flatMap _ _), ← append_nil (List.flatMap _ b.attributeDeletes)] at hlast
  obtain ⟨had, -⟩ := delimited_writeAttributeKey.flatMap (fun k h => startsZero_writeAttributeKey h)
    ha.attributeDeletes hb.attributeDeletes hend hend hlast
  cases a
  cases b
  simp_all

/-- Constructing a request adds no instant and no generation. -/
theorem WriteDataRequest.Held.of_new {i} (h : i.Held) (ha : newWriteDataRequest i = .ok a) :
    a.Held := by
  obtain ⟨-, tw, aw, ad, htw, -, -, -, rfl⟩ := newWriteDataRequest_eq_ok.1 ha
  exact ⟨h.generation, fun t ht => h.expiries t (((sortedSet_canonicalRelationshipTuples htw).mem_iff t).1 ht)⟩

variable [Primitives]

/-- What `FingerprintWriteData` hashes for a constructed request is equal exactly for
equal writes. Two inputs for the same write may differ in idempotency key, in the order
of their items and in duplicates; an expiry is an instant, whatever zone it was given in. -/
theorem fingerprintWriteData_input_iff {i j a b : WriteDataRequest} (ha : newWriteDataRequest i = .ok a)
    (hb : newWriteDataRequest j = .ok b) (hi : i.Held) (hj : j.Held) :
    fingerprintWriteData a = .ok (sha256 (fingerprintInput a)) ∧
      fingerprintWriteData b = .ok (sha256 (fingerprintInput b)) ∧
      (fingerprintInput a = fingerprintInput b ↔ SameWrite i j) := by
  refine ⟨fingerprintWriteData_constructed ⟨i, ha⟩, fingerprintWriteData_constructed ⟨j, hb⟩, ?_⟩
  rw [sameWrite_iff ha hb]
  constructor
  · exact fingerprintInput_inj (newWriteDataRequest_wellFormed ha) (newWriteDataRequest_wellFormed hb)
      (hi.of_new ha) (hj.of_new hb)
  · intro h
    rw [h]
    rfl

/-- One relationship under an idempotency key. -/
def sampleFingerprinted (idempotencyKey : Bytes) : WriteDataRequest where
  namespace_ := ascii "tenant"
  validationRevisionID := List.replicate 64 0x61
  expectedGeneration := 3
  idempotencyKey
  tupleWrites := [⟨⟨⟨ascii "doc", ascii "readme"⟩, ascii "viewer", ⟨ascii "user", ascii "amy", []⟩⟩, 0, true⟩]
  tupleDeletes := []
  attributeWrites := []
  attributeDeletes := [⟨⟨ascii "doc", ascii "readme"⟩, [ascii "owner", ascii "name"]⟩]

omit [Primitives] in
/-- Another idempotency key leaves the hashed bytes alone. -/
theorem fingerprintWriteData_input_iff_rekeyed :
    newWriteDataRequest (sampleFingerprinted (ascii "k1")) = .ok (sampleFingerprinted (ascii "k1")) ∧
      newWriteDataRequest (sampleFingerprinted (ascii "k2")) = .ok (sampleFingerprinted (ascii "k2")) ∧
      (fingerprintInput (sampleFingerprinted (ascii "k1")) = fingerprintInput (sampleFingerprinted (ascii "k2")) ↔
        SameWrite (sampleFingerprinted (ascii "k1")) (sampleFingerprinted (ascii "k2"))) := by
  have h1 : newWriteDataRequest (sampleFingerprinted (ascii "k1")) = .ok (sampleFingerprinted (ascii "k1")) := by decide +kernel
  have h2 : newWriteDataRequest (sampleFingerprinted (ascii "k2")) = .ok (sampleFingerprinted (ascii "k2")) := by decide +kernel
  have hheld (key : Bytes) : (sampleFingerprinted key).Held :=
    ⟨by simp [sampleFingerprinted, maxUint64], by simp [sampleFingerprinted, Representable]⟩
  exact ⟨h1, h2, (@fingerprintWriteData_input_iff Primitives.constant _ _ _ _ h1 h2 (hheld _) (hheld _)).2.2⟩

end PolicyEngine
