import PolicyEngine.Lib.Codec
import PolicyEngine.Store.Records

/-!
# Durable records of the SQLite adapter

`codec.go`: the version-1 byte forms of provenance and events. Every encoder is a
check followed by a plain concatenation of fields, every decoder a reader followed
by the value's own constructor. The readers are inverse to the byte forms on the
values the encoders admit.
-/

open PolicyEngine.Lib

namespace PolicyEngine.Sqlite

def codecVersion : UInt8 := 1

/-! ## Fields -/

def codecString16 (value : Bytes) : Bytes := be 2 value.length ++ value

def codecBytes32 (value : Bytes) : Bytes := be 4 value.length ++ value

def string16 (maximum : Nat) : Reader Bytes := Reader.prefixed 2 maximum

def bytes32 (maximum : Nat) : Reader Bytes := Reader.prefixed 4 maximum

def int64 : Reader Int := fun data => (Reader.uint 8 data).map fun (n, rest) => (signed64 n, rest)

variable {x : Bytes}

theorem string16_append (maximum : Nat) (hm : maximum ≤ 65535) (h : x.length ≤ maximum) (rest : Bytes) :
    string16 maximum (codecString16 x ++ rest) = some (x, rest) :=
  Reader.prefixed_append (by omega) h rest

theorem bytes32_append (maximum : Nat) (hm : maximum ≤ 4294967295) (h : x.length ≤ maximum) (rest : Bytes) :
    bytes32 maximum (codecBytes32 x ++ rest) = some (x, rest) :=
  Reader.prefixed_append (by omega) h rest

theorem int64_append {n : Int} (hlo : -2 ^ 63 ≤ n) (hhi : n < 2 ^ 63) (rest : Bytes) :
    int64 (be 8 (twos64 n) ++ rest) = some (n, rest) := by
  rw [int64, Reader.uint_append (twos64_lt n), Option.map_some]
  exact congrArg (fun m => some (m, rest)) (signed64_twos64 hlo hhi)

variable {data rest : Bytes}

theorem string16_eq_some {maximum : Nat} (h : string16 maximum data = some (x, rest)) :
    data = codecString16 x ++ rest :=
  (Reader.prefixed_eq_some h).1

theorem bytes32_eq_some {maximum : Nat} (h : bytes32 maximum data = some (x, rest)) :
    data = codecBytes32 x ++ rest ∧ x.length ≤ maximum :=
  ⟨(Reader.prefixed_eq_some h).1, (Reader.prefixed_eq_some h).2.1⟩

theorem int64_eq_some {n : Int} (h : int64 data = some (n, rest)) :
    data = be 8 (twos64 n) ++ rest ∧ -2 ^ 63 ≤ n ∧ n < 2 ^ 63 := by
  obtain ⟨⟨m, tail⟩, hm, heq⟩ := Option.map_eq_some_iff.1 h
  obtain ⟨rfl, hlt⟩ := Reader.uint_eq_some hm
  obtain ⟨rfl, rfl⟩ := Prod.mk.inj heq
  exact ⟨by rw [twos64_signed64 hlt], signed64_bounds hlt⟩

theorem guard_eq_some {p : Prop} [Decidable p] {u : Unit} : (guard p : Option Unit) = some u ↔ p := by
  by_cases h : p <;> simp [h, guard]

theorem guard_bind {p : Prop} [Decidable p] {α : Type} (f : Unit → Option α) :
    (guard p : Option Unit).bind f = if p then f () else none := by
  by_cases h : p <;> simp [h, guard]

@[simp] theorem length_codecString16 (x : Bytes) : (codecString16 x).length = 2 + x.length := by
  simp [codecString16]

@[simp] theorem length_codecBytes32 (x : Bytes) : (codecBytes32 x).length = 4 + x.length := by
  simp [codecBytes32]

/-- An identifier read from the front. -/
theorem string16_identifier (h : x.length ≤ maxIdentifierBytes) (rest : Bytes) :
    string16 maxIdentifierBytes (codecString16 x ++ rest) = some (x, rest) :=
  string16_append _ (by decide) h rest

/-! ## Times -/

def nanosPerSecond : Int := 1000000000

/-- Seconds since the epoch, rounded down, and the nanoseconds within the second. -/
def codecTime (value : Int) : Option (Int × Nat) :=
  if value = zeroTime then none else some (value / nanosPerSecond, (value % nanosPerSecond).toNat)

theorem seconds_nanos (value : Int) :
    value / nanosPerSecond * nanosPerSecond + ((value % nanosPerSecond).toNat : Int) = value := by
  simp only [nanosPerSecond]
  omega

def decodeCodecTime (seconds : Int) (nanos : Nat) : Option Time :=
  if nanos ≥ 1000000000 then none
  else if seconds * nanosPerSecond + nanos = zeroTime then none
  else some (seconds * nanosPerSecond + nanos)

theorem decodeCodecTime_codecTime {value seconds nanos} (h : codecTime value = some (seconds, nanos)) :
    decodeCodecTime seconds nanos = some value := by
  unfold codecTime at h
  split at h
  · cases h
  next hz =>
    simp only [Option.some.injEq, Prod.mk.injEq] at h
    obtain ⟨rfl, rfl⟩ := h
    unfold decodeCodecTime
    rw [if_neg (by simp only [nanosPerSecond]; omega), seconds_nanos, if_neg hz]

/-- The byte form of a time. -/
def timeBytes (value : Int) : Bytes :=
  be 8 (twos64 (value / nanosPerSecond)) ++ be 4 (value % nanosPerSecond).toNat

/-- Reads a time at the end of a record. -/
def readTime (data : Bytes) : Option (Time × Bytes) := do
  let (seconds, data) ← int64 data
  let (nanos, data) ← Reader.uint 4 data
  let value ← decodeCodecTime seconds nanos
  some (value, data)

/-- The times whose seconds fit their field. -/
def EncodableTime (value : Int) : Prop :=
  value ≠ zeroTime ∧ -2 ^ 63 ≤ value / nanosPerSecond ∧ value / nanosPerSecond < 2 ^ 63

theorem readTime_append {value : Int} (h : EncodableTime value) (rest : Bytes) :
    readTime (timeBytes value ++ rest) = some (value, rest) := by
  have hnanos : (value % nanosPerSecond).toNat < 256 ^ 4 := by
    simp only [nanosPerSecond]
    omega
  have hcodec : codecTime value = some (value / nanosPerSecond, (value % nanosPerSecond).toNat) := by
    rw [codecTime, if_neg h.1]
  simp [readTime, timeBytes, int64_append h.2.1 h.2.2, Reader.uint_append hnanos, decodeCodecTime_codecTime hcodec]

/-- The seconds and nanoseconds that a decoded time came from. -/
theorem decodeCodecTime_eq_some {seconds nanos value} (h : decodeCodecTime seconds nanos = some value) :
    value ≠ zeroTime ∧ value / nanosPerSecond = seconds ∧ (value % nanosPerSecond).toNat = nanos := by
  unfold decodeCodecTime at h
  split at h
  · cases h
  next hn =>
    split at h
    · cases h
    next hz =>
      obtain rfl := Option.some.inj h
      have hdivide : (seconds * 1000000000 + (nanos : Int)) / 1000000000 = seconds ∧
          ((seconds * 1000000000 + (nanos : Int)) % 1000000000).toNat = nanos := by omega
      exact ⟨hz, hdivide⟩

theorem readTime_eq_some {value : Time} (h : readTime data = some (value, rest)) :
    data = timeBytes value ++ rest ∧ EncodableTime value := by
  simp only [readTime, Option.bind_eq_bind, Option.bind_eq_some_iff, Option.some.injEq] at h
  obtain ⟨⟨seconds, data⟩, hs, ⟨nanos, data⟩, hn, value, hv, heq⟩ := h
  obtain ⟨rfl, rfl⟩ := Prod.mk.inj heq
  obtain ⟨rfl, hlo, hhi⟩ := int64_eq_some hs
  obtain ⟨rfl, -⟩ := Reader.uint_eq_some hn
  obtain ⟨hz, rfl, rfl⟩ := decodeCodecTime_eq_some hv
  exact ⟨by rw [timeBytes, List.append_assoc], hz, hlo, hhi⟩

section Records

variable [Primitives]

/-! ## Provenance -/

def provenanceAbsent : UInt8 := 0
def provenancePresent : UInt8 := 1

def encodeRevisionProvenance (value : RevisionProvenance) : Result Bytes :=
  if value.Valid then
    if value.sourceName.length > maxSourceNameBytes ∨ value.originalSource.length > maxPolicySourceBytes then
      .error .integrity
    else
      .ok (codecVersion :: provenancePresent ::
        (codecString16 value.sourceName ++ codecBytes32 value.originalSource))
  else if value.sourceName = [] ∧ value.originalSource = [] then .ok [codecVersion, provenanceAbsent]
  else .error .integrity

/-- The fields of a present provenance. -/
def readProvenance (data : Bytes) : Option (Bytes × Bytes) := do
  let (sourceName, data) ← string16 maxSourceNameBytes data
  let (source, data) ← bytes32 maxPolicySourceBytes data
  guard (data = [])
  some (sourceName, source)

def decodeRevisionProvenance (namespace_ : Bytes) (encoded : Bytes) : Result RevisionProvenance :=
  match encoded with
  | version :: presence :: data =>
    if version ≠ codecVersion then .error .integrity
    else if presence = provenanceAbsent then if data = [] then .ok .none else .error .integrity
    else if presence = provenancePresent then
      match readProvenance data with
      | none => .error .integrity
      | some (sourceName, source) =>
        match newRevisionProvenance namespace_ sourceName source with
        | .error _ => .error .integrity
        | .ok result => .ok result
    else .error .integrity
  | _ => .error .integrity

/-- What `Valid` says of a provenance: it was built from a well-formed source. -/
theorem RevisionProvenance.valid_iff {p : RevisionProvenance} : p.Valid = true ↔
    p.valid = true ∧ p.originalSource ≠ [] ∧ sha256 p.originalSource = p.originalSourceDigest ∧
      p.originalSource.length ≤ maxPolicySourceBytes ∧ validateText p.sourceName maxSourceNameBytes false = .ok () := by
  have hns : validateNamespace (ascii "provenance") = .ok () := by decide +kernel
  simp only [RevisionProvenance.Valid, Bool.and_eq_true, bne_iff_ne, decide_eq_true_eq, isOk_unit,
    checkPublishRequest_eq_ok]
  constructor
  · rintro ⟨⟨⟨hv, hne⟩, hd⟩, -, hlen, -, hname⟩
    exact ⟨hv, hne, hd, hlen, hname⟩
  · rintro ⟨hv, hne, hd, hlen, hname⟩
    exact ⟨⟨⟨hv, hne⟩, hd⟩, hne, hlen, hns, hname⟩

/-- The provenance of a well-formed revision is stored and read back. -/
theorem decodeRevisionProvenance_encode {ns : Bytes} (hns : validateNamespace ns = .ok ()) {p : RevisionProvenance}
    (hp : p.zero = true ∨ p.Valid = true) :
    ∃ b, encodeRevisionProvenance p = .ok b ∧ decodeRevisionProvenance ns b = .ok p ∧
      b.length ≤ 2 + (2 + maxSourceNameBytes) + (4 + maxPolicySourceBytes) := by
  by_cases hv : p.Valid = true
  · obtain ⟨hvalid, hne, hdigest, hlen, hname⟩ := RevisionProvenance.valid_iff.1 hv
    have hnamelen := (validateText_eq_ok.1 hname).2.1
    refine ⟨codecVersion :: provenancePresent :: (codecString16 p.sourceName ++ codecBytes32 p.originalSource), ?_, ?_, ?_⟩
    · rw [encodeRevisionProvenance, if_pos hv, if_neg (by omega)]
    · have hread : readProvenance (codecString16 p.sourceName ++ codecBytes32 p.originalSource) =
          some (p.sourceName, p.originalSource) := by
        have h32 := bytes32_append maxPolicySourceBytes (by decide) hlen []
        rw [List.append_nil] at h32
        simp [readProvenance, string16_append maxSourceNameBytes (by decide) hnamelen, h32]
      have hnew : newRevisionProvenance ns p.sourceName p.originalSource = .ok p := by
        simp only [newRevisionProvenance, checkPublishRequest_eq_ok.2 ⟨hne, hlen, hns, hname⟩, ok_bind, hdigest]
        rw [← hvalid]
      simp only [decodeRevisionProvenance, ne_eq, not_true_eq_false, if_false, hread, hnew]
      rw [if_neg (by decide), if_pos trivial]
    · simp
      omega
  · have hzero : p = .none := by simpa [RevisionProvenance.zero, hv] using hp
    subst hzero
    refine ⟨[codecVersion, provenanceAbsent], ?_, ?_, by simp; omega⟩
    · rw [encodeRevisionProvenance, if_neg hv, if_pos ⟨rfl, rfl⟩]
    · simp [decodeRevisionProvenance]

end Records

/-! ## State events -/

/-- The kind of a byte of the source's enumeration. -/
def kindOfCode (code : UInt8) : Option StateEventKind :=
  [StateEventKind.revisionPublished, .slotActivated, .dataWritten].find? fun kind => kind.code = code

@[simp] theorem kindOfCode_code (kind : StateEventKind) : kindOfCode kind.code = some kind := by
  cases kind <;> rfl

def stateEventBytes (e : StateEvent) : Bytes :=
  codecVersion :: e.kind.code :: (codecString16 e.namespace_ ++ (codecString16 e.cursor ++ (codecString16 e.revisionID ++
    (codecString16 e.slot ++ (be 8 e.slotGeneration ++ (be 8 e.dataGeneration ++ timeBytes e.occurredAt))))))

def encodeStateEvent (value : StateEvent) : Result Bytes :=
  match newStateEvent value with
  | .error _ => .error .integrity
  | .ok canonical => if canonical.occurredAt = zeroTime then .error .integrity else .ok (stateEventBytes canonical)

def readStateEvent (data : Bytes) : Option StateEvent := do
  let (version, data) ← Reader.byte data
  guard (version = codecVersion)
  let (kind, data) ← Reader.byte data
  let (namespace_, data) ← string16 maxNamespaceBytes data
  let (cursor, data) ← string16 maxIdentifierBytes data
  let (revisionID, data) ← string16 maxIdentifierBytes data
  let (slot, data) ← string16 maxIdentifierBytes data
  let (slotGeneration, data) ← Reader.uint 8 data
  let (dataGeneration, data) ← Reader.uint 8 data
  let (occurredAt, data) ← readTime data
  guard (data = [])
  let kind ← kindOfCode kind
  some ⟨namespace_, cursor, kind, revisionID, slot, slotGeneration, dataGeneration, occurredAt⟩

def decodeStateEvent (encoded : Bytes) : Result StateEvent :=
  match readStateEvent encoded with
  | none => .error .integrity
  | some input =>
    match newStateEvent input with
    | .error _ => .error .integrity
    | .ok event => .ok event

variable {e : StateEvent}

/-- The bounds on the texts of a well-formed event. -/
theorem StateEvent.lengths (h : newStateEvent e = .ok e) :
    e.namespace_.length ≤ maxNamespaceBytes ∧ e.cursor.length ≤ maxIdentifierBytes ∧
      e.revisionID.length ≤ 64 ∧ e.slot.length ≤ maxIdentifierBytes := by
  obtain ⟨-, -, hns, hc, hk⟩ := newStateEvent_eq_ok.1 h
  refine ⟨(validateNamespace_eq_ok.1 hns).2.1, (validateIdentifier_eq_ok.1 hc).2.1, ?_⟩
  unfold StateEvent.fieldsMatchKind at hk
  split at hk <;> simp only [Bool.and_eq_true, decide_eq_true_eq, validIdentifier_iff] at hk
  · exact ⟨(validRevisionIDString_length hk.1.1.1).le, by simp [hk.1.1.2]⟩
  · exact ⟨(validRevisionIDString_length hk.1.1.1).le, (validateIdentifier_eq_ok.1 hk.1.1.2).2.1⟩
  · exact ⟨by simp [hk.1.1.1], by simp [hk.1.1.2]⟩

/-- A well-formed event is encoded, and its payload reads back as the event. -/
theorem decodeStateEvent_encode (h : newStateEvent e = .ok e) (ht : EncodableTime e.occurredAt)
    (hs : e.slotGeneration < 256 ^ 8) (hd : e.dataGeneration < 256 ^ 8) :
    encodeStateEvent e = .ok (stateEventBytes e) ∧ decodeStateEvent (stateEventBytes e) = .ok e := by
  obtain ⟨hns, hc, hr, hslot⟩ := StateEvent.lengths h
  have htime := readTime_append ht []
  rw [List.append_nil] at htime
  have hread : readStateEvent (stateEventBytes e) = some e := by
    simp [readStateEvent, stateEventBytes, string16_append maxNamespaceBytes (by decide) hns, string16_identifier hc,
      string16_identifier (Nat.le_trans hr (by decide)), string16_identifier hslot, Reader.uint_append hs,
      Reader.uint_append hd, htime]
  constructor
  · simp [encodeStateEvent, h, ht.1]
  · simp [decodeStateEvent, hread, h]

theorem length_stateEventBytes (h : newStateEvent e = .ok e) :
    (stateEventBytes e).length ≤ 2 + (2 + maxNamespaceBytes) + 3 * (2 + maxIdentifierBytes) + 28 := by
  obtain ⟨hns, hc, hr, hslot⟩ := StateEvent.lengths h
  simp only [stateEventBytes, List.length_cons, List.length_append, length_codecString16, length_be, timeBytes]
  simp only [maxIdentifierBytes] at *
  omega

end PolicyEngine.Sqlite
