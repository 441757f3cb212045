import PolicyEngine.Core.Authorization
import PolicyEngine.Lib.Rfc3339
import PolicyEngine.Store.Fingerprint

/-!
# Request fingerprints

What `checkFingerprint` and `batchFingerprint` hash. A check's bytes carry no counts.
Its arguments stop where the eight bytes of a number are not followed by text; its
tuples stop because the seventh text of a tuple is an expiry, which no attribute path
can hold; an attribute's path stops at the value's kind.
-/

open PolicyEngine.Lib List

namespace PolicyEngine

/-! ## Requests as Go values -/

/-- Facts as Go values: valid, and every expiry an instant a Go time can hold. -/
structure ContextualData.Held (d : ContextualData) : Prop where
  tuples : ∀ t ∈ d.tuples, t.Held
  attributes : ∀ a ∈ d.attributes, a.valid = true

theorem ContextualData.held_of_valid {d : ContextualData} (h : d.valid = true)
    (hrep : ∀ t ∈ d.tuples, Representable t.expiresAt) : d.Held := by
  obtain ⟨-, -, -, htuples, -, hattributes, -⟩ := ContextualData.valid_iff.1 h
  exact ⟨fun t ht => ⟨htuples t ht, hrep t ht⟩, hattributes⟩

/-- A request without the evidence, which is not hashed. -/
def CheckRequest.withoutEvidence (r : CheckRequest) : CheckRequest :=
  { r with approvalEvidence := [], delegationEvidence := [] }

def BatchCheckRequest.withoutEvidence (r : BatchCheckRequest) : BatchCheckRequest :=
  { r with approvalEvidence := [], delegationEvidence := [] }

/-- A valid request whose expiries are instants a Go time can hold. -/
structure CheckRequest.Held (r : CheckRequest) : Prop where
  valid : r.valid = true
  expiries : ∀ t ∈ r.contextualData.tuples, Representable t.expiresAt

structure BatchCheckRequest.Held (r : BatchCheckRequest) : Prop where
  valid : r.valid = true
  expiries : ∀ t ∈ r.contextualData.tuples, Representable t.expiresAt

end PolicyEngine

namespace PolicyEngine.App

/-! ## Writers -/

abbrev writeFingerprintString (value : Bytes) : Bytes := writeString value

abbrev writeFingerprintUint64 (value : Nat) : Bytes := writeUint64 value

def writeEntityFingerprint (entity : EntityRef) : Bytes :=
  writeFingerprintString entity.type ++ writeFingerprintString entity.id

def writeValueFingerprint (value : Value) : Bytes := kindAndPayload [] value

def writeArgumentsFingerprint (arguments : Arguments) : Bytes :=
  arguments.sortedEntries.flatMap fun (key, value) => writeFingerprintString key ++ writeValueFingerprint value

/-- The instant as `time.RFC3339Nano` in UTC; empty without an expiry. -/
def expiryText (t : RelationshipTuple) : Bytes := if t.hasExpiry then Rfc3339.format t.expiresAt else []

def writeTupleFingerprint (t : RelationshipTuple) : Bytes :=
  writeRelationshipFields t.tuple ++ writeFingerprintString (expiryText t)

def writeAttributeFingerprint (a : Attribute) : Bytes :=
  writeEntityFingerprint a.entity ++ a.path.flatMap writeFingerprintString ++ writeValueFingerprint a.value

def writeContextualFingerprint (d : ContextualData) : Bytes :=
  d.tuples.flatMap writeTupleFingerprint ++ d.attributes.flatMap writeAttributeFingerprint

/-- The selector branches both fingerprints write out. -/
def writeSelectorFingerprint (selector : Selector) : Bytes :=
  match selector.Slot with
  | some slot => writeFingerprintString (ascii "slot") ++ writeFingerprintString slot
  | none =>
    match selector.ExactRevision with
    | some revision => writeFingerprintString (ascii "revision") ++ writeFingerprintString revision
    | none => []

def checkFingerprintInput (r : CheckRequest) : Bytes :=
  writeFingerprintString r.namespace_ ++ writeSelectorFingerprint r.selector ++ writeEntityFingerprint r.subject ++
    writeEntityFingerprint r.resource ++ writeFingerprintString r.action ++ writeArgumentsFingerprint r.arguments ++
    writeFingerprintUint64 r.minimumGeneration.toNat ++ writeContextualFingerprint r.contextualData

def writeItemFingerprint (i : BatchCheckItem) : Bytes :=
  writeEntityFingerprint i.subject ++ writeEntityFingerprint i.resource ++ writeFingerprintString i.action ++
    writeFingerprintUint64 i.arguments.size ++ writeArgumentsFingerprint i.arguments

def batchFingerprintInput (r : BatchCheckRequest) : Bytes :=
  writeFingerprintString r.namespace_ ++ writeSelectorFingerprint r.selector ++
    writeFingerprintUint64 r.items.length ++ r.items.flatMap writeItemFingerprint ++
    writeFingerprintUint64 r.minimumGeneration.toNat ++ writeFingerprintUint64 r.contextualData.tuples.length ++
    writeFingerprintUint64 r.contextualData.attributes.length ++ writeContextualFingerprint r.contextualData

section Digests

variable [Primitives]

def checkFingerprint (r : CheckRequest) : Bytes := sha256 (checkFingerprintInput r)

def batchFingerprint (r : BatchCheckRequest) : Bytes := sha256 (batchFingerprintInput r)

end Digests

/-! ## Entities, selectors and arguments -/

theorem delimited_writeEntityFingerprint :
    Delimited (fun e => validateEntityRef e = .ok ()) writeEntityFingerprint :=
  (delimited_writeString.prod delimited_writeString).comap (f := fun e : EntityRef => (e.type, e.id))
    (fun _ h => shortText_entity h) fun a b _ _ h => by
      cases a; cases b
      simpa using h

theorem shortText_revisionID {value : Bytes} (h : validRevisionIDString value = true) : ShortText value :=
  shortText_of_le (validRevisionIDString_length h).le (by decide)

theorem delimited_writeSelectorFingerprint : Delimited (fun s => s.valid = true) writeSelectorFingerprint := by
  have hslot : ShortText (ascii "slot") := by simp [ShortText, ascii]
  have hrevision : ShortText (ascii "revision") := by simp [ShortText, ascii]
  intro s t hs ht u v heq
  -- the first text says which of the two names follows
  rcases Selector.valid_cases hs with ⟨a, rfl, ha, ha'⟩ | ⟨a, rfl, ha, ha'⟩ <;>
    rcases Selector.valid_cases ht with ⟨b, rfl, hb, hb'⟩ | ⟨b, rfl, hb, hb'⟩ <;>
    simp only [writeSelectorFingerprint, Selector.Slot, Selector.ExactRevision, ha, hb, ne_eq, not_true_eq_false,
      not_false_eq_true, and_true, and_false, if_true, if_false, append_assoc] at heq
  · obtain ⟨-, heq⟩ := delimited_writeString hslot hslot heq
    obtain ⟨rfl, huv⟩ := delimited_writeString (shortText_identifier ha') (shortText_identifier hb') heq
    exact ⟨rfl, huv⟩
  · exact absurd (delimited_writeString hslot hrevision heq).1 (by decide)
  · exact absurd (delimited_writeString hrevision hslot heq).1 (by decide)
  · obtain ⟨-, heq⟩ := delimited_writeString hrevision hrevision heq
    obtain ⟨rfl, huv⟩ := delimited_writeString (shortText_revisionID ha') (shortText_revisionID hb') heq
    exact ⟨rfl, huv⟩

/-- A named argument that passed validation. -/
def ValidEntry (e : Bytes × Value) : Prop := validateIdentifier e.1 = .ok () ∧ e.2.valid = true

theorem delimited_writeEntry :
    Delimited ValidEntry fun e : Bytes × Value => writeFingerprintString e.1 ++ writeValueFingerprint e.2 :=
  (delimited_writeString.prod (delimited_kindAndPayload [])).mono fun _ h => ⟨shortText_identifier h.1, h.2⟩

/-- Eight bytes, then a byte of text. -/
def TextFollows (input : Bytes) : Prop := ∃ b, input[8]? = some b ∧ b ≠ 0

/-- The first byte of safe text is not zero. -/
theorem SafeText.head_ne_zero {b rest} (h : SafeText (b :: rest)) : b ≠ 0 := by
  rintro rfl
  obtain ⟨runes, hrunes, hsafe⟩ := h
  have hdecode : Utf8.decodeRune (0 :: rest) = some (0, rest) := rfl
  simp only [Utf8.runes, length_cons, Utf8.runesFrom, hdecode, Option.map_eq_some_iff] at hrunes
  obtain ⟨tail, -, rfl⟩ := hrunes
  exact absurd (hsafe 0 mem_cons_self) (by decide)

theorem textFollows_writeString {value : Bytes} (h : validateIdentifier value = .ok ()) (rest : Bytes) :
    TextFollows (writeFingerprintString value ++ rest) := by
  obtain ⟨hne, -, hsafe⟩ := validateIdentifier_eq_ok.1 h
  obtain ⟨b, tail, rfl⟩ := exists_cons_of_ne_nil hne
  refine ⟨b, ?_, SafeText.head_ne_zero hsafe⟩
  simp [writeFingerprintString, writeString, writeUint64, length_be]

/-- A number followed by nothing or by a length is no text. -/
theorem not_textFollows_uint64 {n rest} (h : rest = [] ∨ StartsZero rest) :
    ¬ TextFollows (writeFingerprintUint64 n ++ rest) := by
  rintro ⟨b, hb, hne⟩
  have hrest : rest.head? = some b := by
    simpa [writeFingerprintUint64, writeUint64, length_be, getElem?_append_right, head?_eq_getElem?] using hb
  rcases h with rfl | h
  · simp at hrest
  · rw [StartsZero, hrest] at h
    exact hne (Option.some.inj h)

theorem textFollows_writeEntry {e} (h : ValidEntry e) (rest : Bytes) :
    TextFollows (writeFingerprintString e.1 ++ writeValueFingerprint e.2 ++ rest) := by
  rw [append_assoc]
  exact textFollows_writeString h.1 _

/-- Arguments end where no text follows the next eight bytes. -/
theorem arguments_inj {a b : Arguments} (ha : validateArguments a = .ok ()) (hb : validateArguments b = .ok ())
    {u v : Bytes} (hu : ¬ TextFollows u) (hv : ¬ TextFollows v)
    (heq : writeArgumentsFingerprint a ++ u = writeArgumentsFingerprint b ++ v) : a = b ∧ u = v := by
  obtain ⟨hentries, huv⟩ := delimited_writeEntry.flatMap (fun e he => textFollows_writeEntry he)
    (validateArguments_eq_ok.1 ha).2 (validateArguments_eq_ok.1 hb).2 hu hv heq
  exact ⟨StringMap.sortedEntries_injective hentries, huv⟩

/-! ## Contextual facts -/

theorem representable_natAbs {t : Int} (h : Representable t) : t.natAbs < 10 ^ 30 := by
  simp only [Representable] at h
  omega

variable {t : RelationshipTuple}

theorem shortText_expiryText (h : t.Held) : ShortText (expiryText t) := by
  unfold expiryText
  split
  · exact shortText_of_le (Rfc3339.length_format_le (representable_natAbs h.2)) (by decide)
  · simp [ShortText]

/-- No expiry text is a path segment. -/
theorem not_validDSLIdentifier_expiryText (t : RelationshipTuple) : validDSLIdentifier (expiryText t) = false := by
  unfold expiryText
  split
  · obtain ⟨b, rest, hformat, hb⟩ := Rfc3339.format_head t.expiresAt
    have hstart : isDSLIdentifierStart b = false := by
      have hb' : b.toNat < 58 := UInt8.lt_iff_toNat_lt.1 hb
      simp only [isDSLIdentifierStart, Bool.or_eq_false_iff, Bool.and_eq_false_iff, beq_eq_false_iff_ne,
        decide_eq_false_iff_not, UInt8.le_iff_toNat_le, ne_eq, ← UInt8.toNat_inj]
      refine ⟨⟨fun h => ?_, .inl fun h => ?_⟩, .inl fun h => ?_⟩ <;> simp at h <;> omega
    rw [hformat, validDSLIdentifier, hstart, Bool.false_and]
  · rfl

/-- The seven texts of a tuple. -/
def tupleTexts (t : RelationshipTuple) : List Bytes := relationshipTexts t.tuple ++ [expiryText t]

theorem shortText_tupleTexts (h : t.Held) : ∀ x ∈ tupleTexts t, ShortText x := by
  intro x hx
  rcases mem_append.1 hx with hx | hx
  · exact shortText_relationshipTexts (RelationshipTuple.valid_iff.1 h.1).1 x hx
  · rw [mem_singleton.1 hx]
    exact shortText_expiryText h

theorem writeTupleFingerprint_eq (t : RelationshipTuple) :
    writeTupleFingerprint t = (tupleTexts t).flatMap writeString := by
  simp [writeTupleFingerprint, tupleTexts, relationshipTexts, writeRelationshipFields]

theorem tupleTexts_inj {s} (hs : s.Held) (ht : t.Held) (h : tupleTexts s = tupleTexts t) :
    s = t := by
  obtain ⟨s, sat, sexp⟩ := s
  obtain ⟨t, tat, texp⟩ := t
  obtain ⟨-, -, hsz⟩ := RelationshipTuple.valid_iff.1 hs.1
  obtain ⟨-, -, htz⟩ := RelationshipTuple.valid_iff.1 ht.1
  obtain ⟨htuple, hexpiry⟩ := append_inj h rfl
  obtain rfl := relationshipTexts_inj htuple
  have hne (x : Time) : Rfc3339.format x ≠ [] := by
    obtain ⟨b, rest, hformat, -⟩ := Rfc3339.format_head x
    simp [hformat]
  -- an expiry has a text, no expiry has none
  cases sexp <;> cases texp <;> simp only [expiryText, if_true, if_false, Bool.false_eq_true] at hexpiry
  · simp only [forall_const] at hsz htz
    simp [hsz, htz]
  · exact absurd (singleton_inj.1 hexpiry).symm (hne tat)
  · exact absurd (singleton_inj.1 hexpiry) (hne sat)
  · obtain rfl : sat = tat := Rfc3339.format_injective (singleton_inj.1 hexpiry)
    rfl

theorem delimited_writeTupleFingerprint : Delimited RelationshipTuple.Held writeTupleFingerprint := by
  intro s t hs ht u v heq
  rw [writeTupleFingerprint_eq, writeTupleFingerprint_eq] at heq
  obtain ⟨htexts, huv⟩ := delimited_texts 7 ⟨rfl, shortText_tupleTexts hs⟩ ⟨rfl, shortText_tupleTexts ht⟩ heq
  exact ⟨tupleTexts_inj hs ht htexts, huv⟩

theorem startsZero_writeTupleFingerprint (h : t.Held) (rest : Bytes) :
    StartsZero (writeTupleFingerprint t ++ rest) := by
  rw [writeTupleFingerprint, append_assoc]
  exact startsZero_writeRelationshipFields (RelationshipTuple.valid_iff.1 h.1).1 _

/-- The texts of an attribute: its entity and its path. -/
def attributeTexts (a : Attribute) : List Bytes := a.entity.type :: a.entity.id :: a.path

variable {a : Attribute}

theorem shortText_attributeTexts (h : a.valid = true) : ∀ x ∈ attributeTexts a, ShortText x := by
  obtain ⟨hentity, hpath⟩ := AttributeKey.valid_iff.1 (Attribute.valid_iff.1 h).1
  obtain ⟨htype, hid⟩ := shortText_entity hentity
  simp only [attributeTexts, mem_cons, forall_eq_or_imp]
  exact ⟨htype, hid, (shortText_path hpath).2⟩

theorem writeAttributeFingerprint_eq (a : Attribute) :
    writeAttributeFingerprint a = (attributeTexts a).flatMap writeString ++ writeValueFingerprint a.value := by
  simp [writeAttributeFingerprint, attributeTexts, writeEntityFingerprint]

/-- A kind is not the first byte of a length. -/
theorem not_startsZero_writeValueFingerprint {v : Value} (h : v.valid = true) (rest : Bytes) :
    ¬ StartsZero (writeValueFingerprint v ++ rest) := by
  simp only [StartsZero, writeValueFingerprint, kindAndPayload, cons_append, head?_cons, Option.some.injEq]
  have hkind : v.kind ≠ .unset := fun hk => by simp [Value.valid, hk] at h
  revert hkind
  cases v.kind <;> decide

theorem delimited_writeAttributeFingerprint :
    Delimited (fun a : Attribute => a.valid = true) writeAttributeFingerprint := by
  intro a b ha hb u v heq
  obtain ⟨-, hav⟩ := Attribute.valid_iff.1 ha
  obtain ⟨-, hbv⟩ := Attribute.valid_iff.1 hb
  rw [writeAttributeFingerprint_eq, writeAttributeFingerprint_eq b, append_assoc, append_assoc] at heq
  obtain ⟨htexts, heq⟩ := delimited_writeString.flatMap (fun _ hx => startsZero_writeString hx)
    (shortText_attributeTexts ha) (shortText_attributeTexts hb) (not_startsZero_writeValueFingerprint hav u)
    (not_startsZero_writeValueFingerprint hbv v) heq
  obtain ⟨hvalue, huv⟩ := delimited_kindAndPayload _ hav hbv heq
  obtain ⟨⟨ty, id⟩, path, value⟩ := a
  obtain ⟨⟨ty', id'⟩, path', value'⟩ := b
  simp only [attributeTexts, List.cons.injEq] at htexts
  obtain ⟨rfl, rfl, rfl⟩ := htexts
  exact ⟨by rw [show value = value' from hvalue], huv⟩

theorem startsZero_writeAttributeFingerprint (h : a.valid = true) (rest : Bytes) :
    StartsZero (writeAttributeFingerprint a ++ rest) := by
  rw [writeAttributeFingerprint_eq, attributeTexts, flatMap_cons, append_assoc, append_assoc]
  exact startsZero_writeString (shortText_attributeTexts h _ (by simp [attributeTexts])) _

/-- No attribute reads as a tuple: the tuple's expiry would be a segment of its path. -/
theorem attribute_ne_tuple (ha : a.valid = true) (ht : t.Held) {u v : Bytes} :
    writeAttributeFingerprint a ++ u ≠ writeTupleFingerprint t ++ v := by
  intro heq
  obtain ⟨hkey, hvalue⟩ := Attribute.valid_iff.1 ha
  rw [writeAttributeFingerprint_eq, writeTupleFingerprint_eq, append_assoc] at heq
  obtain ⟨rest, hrest⟩ := delimited_writeString.isPrefix_of_flatMap (fun _ hx => startsZero_writeString hx)
    (shortText_attributeTexts ha) (shortText_tupleTexts ht) (not_startsZero_writeValueFingerprint hvalue u) heq
  have hmem : expiryText t ∈ a.path := by
    simp only [tupleTexts, relationshipTexts, attributeTexts, cons_append, nil_append,
      List.cons.injEq] at hrest
    rw [← hrest.2.2]
    simp
  have hsegment := ((validateAttributePath_eq_ok.1 (AttributeKey.valid_iff.1 hkey).2).2.2.2 _ hmem).2
  rw [not_validDSLIdentifier_expiryText] at hsegment
  cases hsegment

/-- The input goes on with a tuple. -/
def TupleFollows (input : Bytes) : Prop := ∃ t rest, t.Held ∧ input = writeTupleFingerprint t ++ rest

theorem tupleFollows_writeTupleFingerprint (h : t.Held) (rest : Bytes) :
    TupleFollows (writeTupleFingerprint t ++ rest) :=
  ⟨t, rest, h, rfl⟩

theorem not_tupleFollows_attributes {l : List Attribute} (hl : ∀ a ∈ l, a.valid = true) :
    ¬ TupleFollows (l.flatMap writeAttributeFingerprint) := by
  rintro ⟨t, v, ht, hv⟩
  cases l with
  | nil =>
    have hstart := startsZero_writeTupleFingerprint ht v
    rw [← hv] at hstart
    simp [StartsZero] at hstart
  | cons a l => exact attribute_ne_tuple (hl a mem_cons_self) ht hv

theorem writeContextualFingerprint_inj {d e : ContextualData} (hd : d.Held)
    (he : e.Held) (heq : writeContextualFingerprint d = writeContextualFingerprint e) : d = e := by
  obtain ⟨htuples, heq⟩ := delimited_writeTupleFingerprint.flatMap
    (fun _ ht => tupleFollows_writeTupleFingerprint ht) hd.tuples he.tuples
    (not_tupleFollows_attributes hd.attributes) (not_tupleFollows_attributes he.attributes) heq
  have hnil : ¬ StartsZero [] := by simp [StartsZero]
  rw [← append_nil (List.flatMap _ _), ← append_nil (List.flatMap _ e.attributes)] at heq
  obtain ⟨hattributes, -⟩ := delimited_writeAttributeFingerprint.flatMap
    (fun a ha => startsZero_writeAttributeFingerprint ha) hd.attributes he.attributes hnil hnil heq
  cases d; cases e
  simp_all

/-- Facts are written as nothing, or starting with a length. -/
theorem writeContextualFingerprint_start {d} (hd : d.Held) :
    writeContextualFingerprint d = [] ∨ StartsZero (writeContextualFingerprint d) := by
  obtain ⟨tuples, attributes⟩ := d
  cases tuples with
  | cons t tuples =>
    rw [writeContextualFingerprint, flatMap_cons, append_assoc]
    exact .inr (startsZero_writeTupleFingerprint (hd.tuples t mem_cons_self) _)
  | nil =>
    cases attributes with
    | nil => exact .inl rfl
    | cons a attributes =>
      rw [writeContextualFingerprint, flatMap_nil, nil_append, flatMap_cons]
      exact .inr (startsZero_writeAttributeFingerprint (hd.attributes a mem_cons_self) _)

/-! ## The fingerprints -/

theorem toNat_lt_pow (n : UInt64) : n.toNat < 256 ^ 8 := by
  have := n.toNat_lt
  omega

theorem checkFingerprintInput_inj {a b : CheckRequest} (ha : a.Held) (hb : b.Held)
    (heq : checkFingerprintInput a = checkFingerprintInput b) :
    a.withoutEvidence = b.withoutEvidence := by
  obtain ⟨hsa, hia, -⟩ := CheckRequest.valid_iff.1 ha.valid
  obtain ⟨hsb, hib, -⟩ := CheckRequest.valid_iff.1 hb.valid
  have hca := ContextualData.held_of_valid hsa.contextualData ha.expiries
  have hcb := ContextualData.held_of_valid hsb.contextualData hb.expiries
  simp only [checkFingerprintInput, append_assoc] at heq
  obtain ⟨hns, heq⟩ := delimited_writeString (shortText_namespace hsa.namespace_ok) (shortText_namespace hsb.namespace_ok) heq
  obtain ⟨hselector, heq⟩ := delimited_writeSelectorFingerprint hsa.selector hsb.selector heq
  obtain ⟨hsubject, heq⟩ := delimited_writeEntityFingerprint hia.subject hib.subject heq
  obtain ⟨hresource, heq⟩ := delimited_writeEntityFingerprint hia.resource hib.resource heq
  obtain ⟨haction, heq⟩ := delimited_writeString (shortText_identifier hia.action) (shortText_identifier hib.action) heq
  obtain ⟨harguments, heq⟩ := arguments_inj hia.arguments hib.arguments
    (not_textFollows_uint64 (writeContextualFingerprint_start hca))
    (not_textFollows_uint64 (writeContextualFingerprint_start hcb)) heq
  obtain ⟨hminimum, heq⟩ := delimited_be 8 (toNat_lt_pow _) (toNat_lt_pow _) heq
  have hcontext := writeContextualFingerprint_inj hca hcb heq
  simp only [CheckRequest.withoutEvidence, CheckRequest.mk.injEq, true_and]
  exact ⟨hns, hselector, hsubject, hresource, haction, harguments, hcontext, UInt64.toNat_inj.1 hminimum⟩

/-- Items carry the number of their arguments. -/
theorem delimited_writeItemFingerprint :
    Delimited (fun i : BatchCheckItem => ValidItem i.subject i.resource i.action i.arguments) writeItemFingerprint := by
  intro i j hi hj u v heq
  have hsize {a : Arguments} (h : validateArguments a = .ok ()) : a.size < 256 ^ 8 := by
    have := (validateArguments_eq_ok.1 h).1
    simp only [maxArgumentItems] at this
    omega
  simp only [writeItemFingerprint, append_assoc] at heq
  obtain ⟨hsubject, heq⟩ := delimited_writeEntityFingerprint hi.subject hj.subject heq
  obtain ⟨hresource, heq⟩ := delimited_writeEntityFingerprint hi.resource hj.resource heq
  obtain ⟨haction, heq⟩ := delimited_writeString (shortText_identifier hi.action) (shortText_identifier hj.action) heq
  obtain ⟨hcount, heq⟩ := delimited_be 8 (hsize hi.arguments) (hsize hj.arguments) heq
  obtain ⟨hentries, huv⟩ := delimited_writeEntry.replicate _
    ⟨StringMap.length_sortedEntries _, (validateArguments_eq_ok.1 hi.arguments).2⟩
    ⟨(StringMap.length_sortedEntries _).trans hcount.symm, (validateArguments_eq_ok.1 hj.arguments).2⟩ heq
  refine ⟨?_, huv⟩
  obtain ⟨_, _, _, _⟩ := i
  obtain ⟨_, _, _, _⟩ := j
  simp only [BatchCheckItem.mk.injEq]
  exact ⟨hsubject, hresource, haction, StringMap.sortedEntries_injective hentries⟩

theorem batchFingerprintInput_inj {a b : BatchCheckRequest} (ha : a.Held)
    (hb : b.Held) (heq : batchFingerprintInput a = batchFingerprintInput b) :
    a.withoutEvidence = b.withoutEvidence := by
  obtain ⟨hsa, -, hna, hia, -⟩ := BatchCheckRequest.valid_iff.1 ha.valid
  obtain ⟨hsb, -, hnb, hib, -⟩ := BatchCheckRequest.valid_iff.1 hb.valid
  have hca := ContextualData.held_of_valid hsa.contextualData ha.expiries
  have hcb := ContextualData.held_of_valid hsb.contextualData hb.expiries
  have hitems {n : Nat} (h : n ≤ maxBatchItems) : n < 256 ^ 8 := by
    simp only [maxBatchItems] at h
    omega
  simp only [batchFingerprintInput, append_assoc] at heq
  obtain ⟨hns, heq⟩ := delimited_writeString (shortText_namespace hsa.namespace_ok) (shortText_namespace hsb.namespace_ok) heq
  obtain ⟨hselector, heq⟩ := delimited_writeSelectorFingerprint hsa.selector hsb.selector heq
  obtain ⟨hcount, heq⟩ := delimited_be 8 (hitems hna) (hitems hnb) heq
  have hvalid (i : BatchCheckItem) (hi : i.valid = true) := (BatchCheckItem.valid_iff.1 hi).1
  obtain ⟨hitem, heq⟩ := (delimited_writeItemFingerprint.mono hvalid).replicate _ ⟨rfl, hia⟩ ⟨hcount.symm, hib⟩ heq
  obtain ⟨hminimum, heq⟩ := delimited_be 8 (toNat_lt_pow _) (toNat_lt_pow _) heq
  -- the two counts are of a fixed width, so the facts follow at one place
  have hcounts := (append_inj heq (by simp [writeFingerprintUint64, writeUint64, length_be])).2
  have hrest := (append_inj hcounts (by simp [writeFingerprintUint64, writeUint64, length_be])).2
  have hcontext := writeContextualFingerprint_inj hca hcb hrest
  simp only [BatchCheckRequest.withoutEvidence, BatchCheckRequest.mk.injEq, true_and]
  exact ⟨hns, hselector, hitem, hcontext, UInt64.toNat_inj.1 hminimum⟩

/-- After the selector a check goes on with its subject's text, a batch with a count and a length. -/
theorem checkFingerprintInput_ne_batch {a b} (ha : a.valid = true) (hb : b.valid = true) :
    checkFingerprintInput a ≠ batchFingerprintInput b := by
  intro heq
  obtain ⟨hsa, hia, -⟩ := CheckRequest.valid_iff.1 ha
  obtain ⟨hsb, hne, -, hib, -⟩ := BatchCheckRequest.valid_iff.1 hb
  obtain ⟨item, items, hitems⟩ := exists_cons_of_ne_nil hne
  obtain ⟨hitem, -⟩ := BatchCheckItem.valid_iff.1 (hib item (hitems ▸ mem_cons_self))
  simp only [checkFingerprintInput, batchFingerprintInput, append_assoc] at heq
  obtain ⟨-, heq⟩ := delimited_writeString (shortText_namespace hsa.namespace_ok) (shortText_namespace hsb.namespace_ok) heq
  obtain ⟨-, heq⟩ := delimited_writeSelectorFingerprint hsa.selector hsb.selector heq
  simp only [writeEntityFingerprint, append_assoc, hitems, flatMap_cons, writeItemFingerprint] at heq
  refine not_textFollows_uint64 (.inr ?_) (heq ▸ textFollows_writeString (validateEntityRef_eq_ok.1 hia.subject).1 _)
  exact startsZero_writeString (shortText_entity hitem.subject).1 _

/-- The hashed bytes of a check or of a batch determine all of it but the evidence, and no check shares them with a
batch. -/
theorem fingerprint_inputs_separate :
    (∀ a b : CheckRequest, a.Held → b.Held →
      (checkFingerprintInput a = checkFingerprintInput b ↔
        a.withoutEvidence = b.withoutEvidence)) ∧
    (∀ a b : BatchCheckRequest, a.Held → b.Held →
      (batchFingerprintInput a = batchFingerprintInput b ↔
        a.withoutEvidence = b.withoutEvidence)) ∧
    ∀ (a : CheckRequest) (b : BatchCheckRequest), a.valid = true → b.valid = true → checkFingerprintInput a ≠ batchFingerprintInput b := by
  refine ⟨fun a b ha hb => ⟨checkFingerprintInput_inj ha hb, fun h => ?_⟩,
    fun a b ha hb => ⟨batchFingerprintInput_inj ha hb, fun h => ?_⟩,
    fun a b ha hb => checkFingerprintInput_ne_batch ha hb⟩
  · have hinput (r : CheckRequest) : checkFingerprintInput r = checkFingerprintInput r.withoutEvidence := rfl
    rw [hinput a, h, ← hinput]
  · have hinput (r : BatchCheckRequest) :
        batchFingerprintInput r = batchFingerprintInput r.withoutEvidence := rfl
    rw [hinput a, h, ← hinput]

/-! A check with one argument, one expiring tuple and one attribute, and the batch of it alone. -/

def sampleBatch : BatchCheckRequest where
  namespace_ := ascii "tenant"
  selector := ⟨ascii "live", []⟩
  items := [⟨⟨ascii "user", ascii "amy"⟩, ⟨ascii "doc", ascii "readme"⟩, ascii "read",
    Finmap.singleton (ascii "reason") (newBooleanValue true)⟩]
  contextualData :=
    { tuples := [⟨⟨⟨ascii "doc", ascii "readme"⟩, ascii "viewer", ⟨ascii "user", ascii "amy", []⟩⟩, 7, true⟩]
      attributes := [⟨⟨ascii "doc", ascii "readme"⟩, [ascii "owner", ascii "name"], newIntegerValue 3⟩] }
  approvalEvidence := []
  delegationEvidence := []
  minimumGeneration := 2

def sampleCheck (approvalEvidence : Bytes) : CheckRequest where
  namespace_ := ascii "tenant"
  selector := ⟨ascii "live", []⟩
  subject := ⟨ascii "user", ascii "amy"⟩
  resource := ⟨ascii "doc", ascii "readme"⟩
  action := ascii "read"
  arguments := Finmap.singleton (ascii "reason") (newBooleanValue true)
  contextualData := sampleBatch.contextualData
  approvalEvidence
  delegationEvidence := []
  minimumGeneration := 2

theorem fingerprint_inputs_separate_sample :
    checkFingerprintInput (sampleCheck []) = checkFingerprintInput (sampleCheck [1]) ∧
      checkFingerprintInput (sampleCheck []) ≠ batchFingerprintInput sampleBatch ∧
      (batchFingerprintInput sampleBatch = batchFingerprintInput { sampleBatch with minimumGeneration := 1 } ↔
        sampleBatch.withoutEvidence = { sampleBatch with minimumGeneration := 1 }.withoutEvidence) := by
  have hrep : ∀ t ∈ sampleBatch.contextualData.tuples, Representable t.expiresAt := by decide
  have hcheck : (sampleCheck []).Held := ⟨by decide +kernel, hrep⟩
  have hcheck' : (sampleCheck [1]).Held := ⟨by decide +kernel, hrep⟩
  have hbatch : sampleBatch.Held := ⟨by decide +kernel, hrep⟩
  have hbatch' : { sampleBatch with minimumGeneration := 1 }.Held := ⟨by decide +kernel, hrep⟩
  exact ⟨(fingerprint_inputs_separate.1 _ _ hcheck hcheck').2 rfl,
    fingerprint_inputs_separate.2.2 _ _ hcheck.valid hbatch.valid,
    fingerprint_inputs_separate.2.1 _ _ hbatch hbatch'⟩

end PolicyEngine.App
