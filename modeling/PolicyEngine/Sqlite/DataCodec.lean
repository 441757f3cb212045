import PolicyEngine.Sqlite.Codec

/-!
# Durable tuples, attributes and idempotency records

`tuples.go`, `attributes.go` and the record codecs of `idempotency.go`. A tuple key
and an attribute key are encoded injectively. The path encoder probes its path with
a fixed entity, so it admits exactly the valid paths that would fit the key budget
next to that entity, whichever entity the key has.
-/

open PolicyEngine.Lib List

namespace PolicyEngine.Sqlite

/-! ## Timestamps -/

/-- `sqliteTimestamp`: the nanoseconds of an instant that fits an INTEGER column. The canonical
time that the source returns with them is the same instant. -/
def sqliteTimestamp (value : Int) : Option Int64 :=
  if value = zeroTime then none
  else
    let seconds := value / nanosPerSecond
    let nanosecond := value % nanosPerSecond
    if seconds > 9223372036 ∨ seconds < -9223372036 then none
    else
      let base := seconds * nanosPerSecond
      if base > maxInt64 - nanosecond then none else some (Int64.ofInt (base + nanosecond))

/-- The instant of an INTEGER column. -/
def unixTime (nanos : Int64) : Int := nanos.toInt

/-- The first instant that a column may hold. -/
def minTimestamp : Int := -9223372036000000000

variable {nanos : Int64}

theorem sqliteTimestamp_eq_some {value : Int} :
    sqliteTimestamp value = some nanos ↔ unixTime nanos = value ∧ minTimestamp ≤ value := by
  have hsplit : value / nanosPerSecond * nanosPerSecond + value % nanosPerSecond = value := Int.ediv_mul_add_emod _ _
  have hlo := Int64.le_toInt nanos
  have hhi := Int64.toInt_lt nanos
  unfold sqliteTimestamp unixTime
  constructor
  · intro h
    split at h
    · cases h
    · dsimp only at h
      split at h
      · cases h
      · split at h
        · cases h
        next h1 h2 =>
          obtain rfl := Option.some.inj h
          rw [hsplit]
          simp only [minTimestamp, maxInt64, nanosPerSecond] at *
          rw [Int64.toInt_ofInt_of_le (by omega) (by omega)]
          exact ⟨rfl, by omega⟩
  · rintro ⟨rfl, hmin⟩
    dsimp only
    rw [hsplit, Int64.ofInt_toInt]
    rw [if_neg, if_neg, if_neg] <;> simp only [minTimestamp, maxInt64, zeroTime, nanosPerSecond] at * <;> omega

/-- Accepted timestamps fit every record. -/
theorem encodableTime_of_sqliteTimestamp {value : Int} (h : sqliteTimestamp value = some nanos) :
    EncodableTime value := by
  obtain ⟨rfl, hmin⟩ := sqliteTimestamp_eq_some.1 h
  have hhi := Int64.toInt_lt nanos
  simp only [EncodableTime, unixTime, minTimestamp, zeroTime, nanosPerSecond] at *
  omega

/-- No column holds Go's zero time. -/
theorem unixTime_ne_zeroTime (nanos : Int64) : unixTime nanos ≠ zeroTime := by
  have := Int64.le_toInt nanos
  simp only [unixTime, zeroTime]
  omega

/-- The check that every stored timestamp passes: its instant is canonical. -/
def validTimestamp (nanos : Int64) : Bool := sqliteTimestamp (unixTime nanos) = some nanos

theorem validTimestamp_iff : validTimestamp nanos = true ↔ minTimestamp ≤ unixTime nanos := by
  simp [validTimestamp, sqliteTimestamp_eq_some]

/-! ## Tuples -/

def tupleKeyBytes (t : Tuple) : Bytes :=
  codecVersion :: (codecString16 t.resource.type ++ (codecString16 t.resource.id ++ (codecString16 t.relation ++
    (codecString16 t.subject.type ++ (codecString16 t.subject.id ++ codecString16 t.subject.relation)))))

def encodeTupleKey (value : Tuple) : Result Bytes :=
  match newTupleKey value with
  | .error _ => .error .integrity
  | .ok key => .ok (tupleKeyBytes key.tuple)

def readTupleKey (data : Bytes) : Option Tuple := do
  let (version, data) ← Reader.byte data
  guard (version = codecVersion)
  let (resourceType, data) ← string16 maxIdentifierBytes data
  let (resourceID, data) ← string16 maxIdentifierBytes data
  let (relation, data) ← string16 maxIdentifierBytes data
  let (subjectType, data) ← string16 maxIdentifierBytes data
  let (subjectID, data) ← string16 maxIdentifierBytes data
  let (subjectRelation, data) ← string16 maxIdentifierBytes data
  guard (data = [])
  some ⟨⟨resourceType, resourceID⟩, relation, ⟨subjectType, subjectID, subjectRelation⟩⟩

variable {t : Tuple}

theorem newTupleKey_eq_ok {k : TupleKey} :
    newTupleKey t = .ok k ↔ k = ⟨t⟩ ∧ validateDSLRelationship t = .ok () := by
  simp only [newTupleKey, check_eq_ok]
  constructor
  · rintro ⟨h, hk⟩
    exact ⟨(Except.ok.inj hk).symm, h⟩
  · rintro ⟨rfl, h⟩
    exact ⟨h, rfl⟩

/-- Every text of a well-formed tuple fits its field. -/
theorem tuple_lengths (h : validateDSLRelationship t = .ok ()) :
    t.resource.type.length ≤ maxIdentifierBytes ∧ t.resource.id.length ≤ maxIdentifierBytes ∧
      t.relation.length ≤ maxIdentifierBytes ∧ t.subject.type.length ≤ maxIdentifierBytes ∧
      t.subject.id.length ≤ maxIdentifierBytes ∧ t.subject.relation.length ≤ maxIdentifierBytes := by
  obtain ⟨hr, hrel, hs⟩ := validateDSLRelationship_eq_ok.1 h
  obtain ⟨hrt, hri⟩ := validateEntityRef_eq_ok.1 hr
  obtain ⟨hst, hsi, hsr⟩ := validateSubjectRef_eq_ok.1 hs
  exact ⟨(validateIdentifier_eq_ok.1 hrt).2.1, (validateIdentifier_eq_ok.1 hri).2.1,
    (validateIdentifier_eq_ok.1 hrel).2.1, (validateIdentifier_eq_ok.1 hst).2.1, (validateIdentifier_eq_ok.1 hsi).2.1,
    (validateOptionalIdentifier_eq_ok.1 hsr).1⟩

theorem length_tupleKeyBytes (h : validateDSLRelationship t = .ok ()) :
    (tupleKeyBytes t).length ≤ 1 + 6 * (2 + maxIdentifierBytes) := by
  obtain ⟨h1, h2, h3, h4, h5, h6⟩ := tuple_lengths h
  simp only [tupleKeyBytes, length_cons, length_append, length_codecString16]
  omega

theorem encodeTupleKey_eq (h : validateDSLRelationship t = .ok ()) :
    encodeTupleKey t = .ok (tupleKeyBytes t) := by
  simp only [encodeTupleKey, newTupleKey_eq_ok.2 ⟨rfl, h⟩]

/-- The expiry column of a tuple; `none` when its instant fits no column. -/
def durableExpiry (value : RelationshipTuple) : Option (Option Int64) :=
  if value.hasExpiry then (sqliteTimestamp value.expiresAt).map some else some none

structure DurableTuple where
  key : Bytes
  tuple : RelationshipTuple
  expiresAtNS : Option Int64
  deriving DecidableEq

def canonicalDurableTuple (value : RelationshipTuple) : Result DurableTuple :=
  match durableExpiry value with
  | none => .error .invalidArgument
  | some expiresAtNS =>
    match newRelationshipTuple value.tuple (expiresAtNS.map unixTime) with
    | .error _ => .error .invalidArgument
    | .ok canonical =>
      match encodeTupleKey canonical.tuple with
      | .error e => .error e
      | .ok key => .ok ⟨key, canonical, expiresAtNS⟩

/-- The tuple stands for the columns it is assembled from. -/
def decodeDurableTuple (key : Bytes) (tuple : Tuple) (expiresAtNS : Option Int64) : Result RelationshipTuple :=
  if !expiresAtNS.all validTimestamp then .error .integrity
  else
    match newRelationshipTuple tuple (expiresAtNS.map unixTime) with
    | .error _ => .error .integrity
    | .ok result =>
      match encodeTupleKey result.tuple with
      | .error _ => .error .integrity
      | .ok expected => if expected = key then .ok result else .error .integrity

/-- The tuple of a row. -/
def storedTuple (tuple : Tuple) (expiresAtNS : Option Int64) : RelationshipTuple :=
  ⟨tuple, (expiresAtNS.map unixTime).getD zeroTime, expiresAtNS.isSome⟩

theorem newRelationshipTuple_stored (tuple : Tuple) (expiresAtNS : Option Int64) {t} :
    newRelationshipTuple tuple (expiresAtNS.map unixTime) = .ok t ↔
      validateDSLRelationship tuple = .ok () ∧ t = storedTuple tuple expiresAtNS := by
  simp only [newRelationshipTuple, check_eq_ok]
  cases expiresAtNS with
  | none => simp [storedTuple, eq_comm]
  | some nanos =>
    simp only [Option.map_some, check_eq_ok, require_eq_ok, bne_iff_ne, ne_eq]
    refine and_congr_right fun _ => ?_
    have hz : ¬ unixTime nanos = zeroTime := unixTime_ne_zeroTime nanos
    rw [eq_comm (a := t)]
    simp [storedTuple, hz]

variable {key : Bytes}

theorem decodeDurableTuple_eq_ok {tuple expiresAtNS t} :
    decodeDurableTuple key tuple expiresAtNS = .ok t ↔ validateDSLRelationship tuple = .ok () ∧
      key = tupleKeyBytes tuple ∧ expiresAtNS.all validTimestamp = true ∧ t = storedTuple tuple expiresAtNS := by
  unfold decodeDurableTuple
  by_cases hexp : expiresAtNS.all validTimestamp = true
  · rw [if_neg (by simp [hexp])]
    by_cases hv : validateDSLRelationship tuple = .ok ()
    · have hnew := (newRelationshipTuple_stored tuple expiresAtNS).2 ⟨hv, rfl⟩
      have hkey : encodeTupleKey (storedTuple tuple expiresAtNS).tuple = .ok (tupleKeyBytes tuple) := encodeTupleKey_eq hv
      simp only [hnew, hkey, hv, hexp, true_and]
      by_cases hk : tupleKeyBytes tuple = key
      · simp [hk, eq_comm]
      · simp [hk, Ne.symm hk]
    · have hnew : ∀ t, newRelationshipTuple tuple (expiresAtNS.map unixTime) ≠ .ok t := fun t ht =>
        hv ((newRelationshipTuple_stored tuple expiresAtNS).1 ht).1
      cases h : newRelationshipTuple tuple (expiresAtNS.map unixTime) with
      | error e => simp [hv]
      | ok t => exact absurd h (hnew t)
  · rw [if_pos (by simpa using hexp)]
    simp [hexp]

/-- A well-formed tuple is its own canonical form; only its expiry can be refused. -/
theorem canonicalDurableTuple_valid {t} (h : t.valid = true) :
    canonicalDurableTuple t = .error .invalidArgument ∧ durableExpiry t = none ∨
      ∃ ns, durableExpiry t = some ns ∧ canonicalDurableTuple t = .ok ⟨tupleKeyBytes t.tuple, t, ns⟩ ∧
        t = storedTuple t.tuple ns ∧ ns.all validTimestamp = true := by
  simp only [RelationshipTuple.valid, Bool.and_eq_true, isOk_unit, Bool.or_eq_true, Bool.not_eq_true', bne_iff_ne,
    beq_iff_eq] at h
  obtain ⟨⟨hv, -⟩, hno⟩ := h
  cases hexp : durableExpiry t with
  | none => exact .inl ⟨by simp [canonicalDurableTuple, hexp], rfl⟩
  | some ns =>
    have hstored : t = storedTuple t.tuple ns ∧ ns.all validTimestamp = true := by
      unfold durableExpiry at hexp
      split at hexp
      next hhas =>
        obtain ⟨n, hn, rfl⟩ := Option.map_eq_some_iff.1 hexp
        obtain ⟨hu, hmin⟩ := sqliteTimestamp_eq_some.1 hn
        refine ⟨?_, ?_⟩
        · cases t
          simp_all [storedTuple]
        · rw [Option.all_some, validTimestamp_iff, hu]
          exact hmin
      next hhas =>
        obtain rfl := Option.some.inj hexp
        refine ⟨?_, rfl⟩
        cases t
        simp_all [storedTuple]
    refine .inr ⟨ns, rfl, ?_, hstored⟩
    have hnew := (newRelationshipTuple_stored t.tuple ns).2 ⟨hv, hstored.1⟩
    simp only [canonicalDurableTuple, hexp, hnew, encodeTupleKey_eq hv]

/-! ## Attribute paths -/

/-- The entity that the path encoder probes with. -/
def codecEntity : EntityRef := ⟨ascii "codec", ascii "codec"⟩

def attributePathBytes (path : Path) : Bytes := codecVersion :: (be 4 path.length ++ path.flatMap codecString16)

def encodeAttributePath (path : Path) : Result Bytes :=
  match newAttributeKeyPath codecEntity path with
  | .error _ => .error .integrity
  | .ok probe => if probe.path.length > 4294967295 then .error .integrity else .ok (attributePathBytes probe.path)

def readSegments : Nat → Bytes → Option (Path × Bytes)
  | 0, data => some ([], data)
  | count + 1, data => do
    let (segment, data) ← string16 maxIdentifierBytes data
    let (path, data) ← readSegments count data
    some (segment :: path, data)

def readAttributePath (data : Bytes) : Option Path := do
  let (version, data) ← Reader.byte data
  guard (version = codecVersion)
  let (count, data) ← Reader.uint 4 data
  guard (count ≠ 0 ∧ count ≤ maxAggregateWorkItems ∧ count * 2 ≤ data.length)
  let (path, data) ← readSegments count data
  guard (data = [])
  some path

def decodeAttributePath (encoded : Bytes) : Result Path :=
  match readAttributePath encoded with
  | none => .error .integrity
  | some path =>
    match newAttributeKeyPath codecEntity path with
    | .error _ => .error .integrity
    | .ok probe => .ok probe.path

/-- The valid paths that pass the probe: their cost leaves room for the probe's entity. -/
def EncodablePath (path : Path) : Prop :=
  validateAttributePath path = .ok () ∧ attributePathCost path + 26 ≤ maxAggregateInputBytes

variable {path : Path} {k : AttributeKey}

theorem newAttributeKeyPath_codecEntity :
    newAttributeKeyPath codecEntity path = .ok k ↔ k = ⟨codecEntity, path⟩ ∧ EncodablePath path := by
  have he : validateEntityRef codecEntity = .ok () := by decide +kernel
  have hcost : attributeKeyCost ⟨codecEntity, path⟩ = attributePathCost path + 26 := by
    have : entityRefCost codecEntity = 26 := by decide +kernel
    rw [attributeKeyCost, this, Nat.add_comm]
  rw [newAttributeKeyPath_eq_ok, hcost, EncodablePath]
  simp [he]

theorem encodeAttributePath_eq (h : EncodablePath path) :
    encodeAttributePath path = .ok (attributePathBytes path) := by
  have hlen := (validateAttributePath_eq_ok.1 h.1).2.1
  simp only [maxAggregateWorkItems] at hlen
  simp only [encodeAttributePath, newAttributeKeyPath_codecEntity.2 ⟨rfl, h⟩]
  rw [if_neg (by omega)]

theorem encodeAttributePath_of_not (h : ¬ EncodablePath path) :
    encodeAttributePath path = .error .integrity := by
  unfold encodeAttributePath
  split
  · rfl
  next probe hp => exact absurd (newAttributeKeyPath_codecEntity.1 hp).2 h

theorem readSegments_append (h : ∀ s ∈ path, s.length ≤ maxIdentifierBytes) (rest : Bytes) :
    readSegments path.length (path.flatMap codecString16 ++ rest) = some (path, rest) := by
  induction path with
  | nil => rfl
  | cons s path ih =>
    have hs := h s mem_cons_self
    simp [readSegments, string16_identifier hs, ih fun x hx => h x (mem_cons_of_mem _ hx)]

theorem length_flatMap_codecString16 (path : Path) :
    2 * path.length ≤ (path.flatMap codecString16).length ∧
      (path.flatMap codecString16).length + 6 * path.length = (path.map textCost).sum := by
  induction path with
  | nil => simp
  | cons s path ih =>
    simp only [flatMap_cons, length_append, length_codecString16, length_cons, map_cons,
      sum_cons, textCost, fieldMetadataBytes]
    omega

theorem segment_lengths (h : validateAttributePath path = .ok ()) :
    ∀ s ∈ path, s.length ≤ maxIdentifierBytes := fun s hs =>
  (validateIdentifier_eq_ok.1 ((validateAttributePath_eq_ok.1 h).2.2.2 s hs).1).2.1

theorem decodeAttributePath_bytes (h : EncodablePath path) :
    decodeAttributePath (attributePathBytes path) = .ok path := by
  obtain ⟨hne, hlen, -, -⟩ := validateAttributePath_eq_ok.1 h.1
  have hsegs := readSegments_append (segment_lengths h.1) []
  rw [append_nil] at hsegs
  have hcount : path.length < 256 ^ 4 := by
    simp only [maxAggregateWorkItems] at hlen
    omega
  have hguard : ¬ path.length = 0 ∧ path.length ≤ maxAggregateWorkItems ∧
      path.length * 2 ≤ (path.flatMap codecString16).length :=
    ⟨by simpa using hne, hlen, by have := (length_flatMap_codecString16 path).1; omega⟩
  have hread : readAttributePath (attributePathBytes path) = some path := by
    simp only [readAttributePath, attributePathBytes, Reader.byte_cons, Option.bind_eq_bind, Option.bind_some,
      guard_true, Reader.uint_append hcount, ne_eq, hguard, hsegs, not_false_eq_true, and_self]
    rfl
  simp only [decodeAttributePath, hread, newAttributeKeyPath_codecEntity.2 ⟨rfl, h⟩]

theorem length_attributePathBytes_le (path : Path) : (attributePathBytes path).length ≤ attributePathCost path + 5 := by
  have := (length_flatMap_codecString16 path).2
  simp only [attributePathBytes, length_cons, length_append, length_be, attributePathCost,
    collectionMetadataBytes]
  omega

/-! ## Attribute keys -/

def attributeKeyBytes (k : AttributeKey) : Bytes :=
  codecVersion :: (codecString16 k.entity.type ++ (codecString16 k.entity.id ++ codecBytes32 (attributePathBytes k.path)))

def encodeAttributeKey (value : AttributeKey) : Result Bytes :=
  match newAttributeKeyPath value.entity value.path with
  | .error _ => .error .integrity
  | .ok canonical =>
    match encodeAttributePath canonical.path with
    | .error e => .error e
    | .ok path =>
      if path.length > maxAggregateInputBytes then .error .integrity else .ok (attributeKeyBytes canonical)

def readAttributeKey (data : Bytes) : Option (EntityRef × Bytes) := do
  let (version, data) ← Reader.byte data
  guard (version = codecVersion)
  let (entityType, data) ← string16 maxIdentifierBytes data
  let (entityID, data) ← string16 maxIdentifierBytes data
  let (path, data) ← bytes32 maxAggregateInputBytes data
  guard (data = [])
  some (⟨entityType, entityID⟩, path)

def decodeAttributeKey (encoded : Bytes) : Result AttributeKey :=
  match readAttributeKey encoded with
  | none => .error .integrity
  | some (entity, pathEncoded) =>
    match decodeAttributePath pathEncoded with
    | .error e => .error e
    | .ok path =>
      match newAttributeKeyPath entity path with
      | .error _ => .error .integrity
      | .ok result => .ok result

/-- The valid keys whose path passes the probe. -/
def EncodableKey (k : AttributeKey) : Prop :=
  newAttributeKeyPath k.entity k.path = .ok k ∧ EncodablePath k.path

theorem encodeAttributeKey_eq (h : EncodableKey k) :
    encodeAttributeKey k = .ok (attributeKeyBytes k) := by
  have hlen := length_attributePathBytes_le k.path
  have hcost := h.2.2
  simp only [encodeAttributeKey, h.1, encodeAttributePath_eq h.2]
  rw [if_neg (by omega)]

theorem encodeAttributeKey_of_not (h : ¬ EncodableKey k) :
    encodeAttributeKey k = .error .integrity := by
  unfold encodeAttributeKey
  split
  · rfl
  next canonical hc =>
    obtain ⟨rfl, -⟩ := newAttributeKeyPath_eq_ok.1 hc
    rw [encodeAttributePath_of_not fun hp => h ⟨hc, hp⟩]

variable {b : Bytes}

theorem encodeAttributeKey_eq_ok :
    encodeAttributeKey k = .ok b ↔ EncodableKey k ∧ b = attributeKeyBytes k := by
  by_cases h : EncodableKey k
  · rw [encodeAttributeKey_eq h]
    simp [h, eq_comm]
  · rw [encodeAttributeKey_of_not h]
    simp [h]

theorem entity_lengths (h : newAttributeKeyPath k.entity k.path = .ok k) :
    k.entity.type.length ≤ maxIdentifierBytes ∧ k.entity.id.length ≤ maxIdentifierBytes := by
  obtain ⟨-, he, -⟩ := newAttributeKeyPath_eq_ok.1 h
  obtain ⟨ht, hi⟩ := validateEntityRef_eq_ok.1 he
  exact ⟨(validateIdentifier_eq_ok.1 ht).2.1, (validateIdentifier_eq_ok.1 hi).2.1⟩

theorem decodeAttributeKey_bytes (h : EncodableKey k) :
    decodeAttributeKey (attributeKeyBytes k) = .ok k := by
  obtain ⟨ht, hi⟩ := entity_lengths h.1
  have hlen : (attributePathBytes k.path).length ≤ maxAggregateInputBytes := by
    have := length_attributePathBytes_le k.path
    have := h.2.2
    omega
  have h32 := bytes32_append maxAggregateInputBytes (by decide) hlen []
  rw [append_nil] at h32
  have hread : readAttributeKey (attributeKeyBytes k) = some (k.entity, attributePathBytes k.path) := by
    simp [readAttributeKey, attributeKeyBytes, string16_identifier ht, string16_identifier hi, h32]
  simp only [decodeAttributeKey, hread, decodeAttributePath_bytes h.2, h.1]

theorem attributeKeyBytes_inj {k'} (h : EncodableKey k) (h' : EncodableKey k')
    (heq : attributeKeyBytes k = attributeKeyBytes k') : k = k' := by
  have hd := decodeAttributeKey_bytes h
  rw [heq, decodeAttributeKey_bytes h'] at hd
  exact (Except.ok.inj hd).symm

/-- An encoded key is no longer than what the key costs. -/
theorem length_attributeKeyBytes_le (h : EncodableKey k) :
    (attributeKeyBytes k).length ≤ maxAggregateInputBytes := by
  obtain ⟨-, -, -, hcost⟩ := newAttributeKeyPath_eq_ok.1 h.1
  have := length_attributePathBytes_le k.path
  simp only [attributeKeyBytes, length_cons, length_append, length_codecString16, length_codecBytes32]
  simp only [attributeKeyCost, entityRefCost, textCost, fieldMetadataBytes] at hcost
  omega

/-! ### Prefixes -/

/-- A non-empty prefix costs no more than the path. -/
theorem validateAttributePath_take (h : validateAttributePath path = .ok ()) {n : Nat} (hn : 0 < n) :
    validateAttributePath (path.take n) = .ok () ∧ attributePathCost (path.take n) ≤ attributePathCost path := by
  obtain ⟨hne, hlen, hcost, hsegs⟩ := validateAttributePath_eq_ok.1 h
  have hle : attributePathCost (path.take n) ≤ attributePathCost path := by
    exact Nat.add_le_add_left (sum_map_le_of_subperm (take_sublist _ _).subperm) _
  refine ⟨validateAttributePath_eq_ok.2 ⟨?_, ?_, by omega, fun s hs => hsegs s (mem_of_mem_take hs)⟩, hle⟩
  · cases path with
    | nil => exact absurd rfl hne
    | cons s path =>
      cases n with
      | zero => omega
      | succ n => simp
  · exact Nat.le_trans (length_take_le' _ _) hlen

theorem EncodableKey.take (h : EncodableKey k) {n : Nat} (hn : 0 < n) :
    EncodableKey ⟨k.entity, k.path.take n⟩ := by
  obtain ⟨-, he, hp, hcost⟩ := newAttributeKeyPath_eq_ok.1 h.1
  obtain ⟨hv, hle⟩ := validateAttributePath_take hp hn
  refine ⟨newAttributeKeyPath_eq_ok.2 ⟨rfl, he, hv, ?_⟩, hv, ?_⟩
  · simp only [attributeKeyCost] at hcost ⊢
    omega
  · have := h.2.2
    show attributePathCost (k.path.take n) + 26 ≤ _
    omega

def strictAttributePrefixes (key : AttributeKey) : Result (List Bytes) :=
  (List.range' 1 (key.path.length - 1)).mapM fun length =>
    match newAttributeKeyPath key.entity (key.path.take length) with
    | .error _ => .error .internal
    | .ok prefix_ => encodeAttributeKey prefix_

/-- The encoded strict prefixes of a key, shortest first. -/
def prefixBytes (key : AttributeKey) : List Bytes :=
  (List.range' 1 (key.path.length - 1)).map fun length => attributeKeyBytes ⟨key.entity, key.path.take length⟩

theorem strictAttributePrefixes_eq (h : EncodableKey k) :
    strictAttributePrefixes k = .ok (prefixBytes k) := by
  rw [strictAttributePrefixes, mapM_eq_ok, prefixBytes, map_map]
  refine map_congr_left fun n hn => ?_
  have hk := h.take (n := n) (by have := (mem_range'_1.1 hn).1; omega)
  rw [hk.1]
  exact encodeAttributeKey_eq hk

/-- The encoded strict prefixes are the encodings of the keys that strictly precede the path. -/
theorem mem_prefixBytes :
    b ∈ prefixBytes k ↔ ∃ path, path ≠ [] ∧ path ≠ k.path ∧ path <+: k.path ∧ b = attributeKeyBytes ⟨k.entity, path⟩ := by
  simp only [prefixBytes, mem_map, mem_range'_1]
  constructor
  · rintro ⟨n, ⟨h1, h2⟩, rfl⟩
    have hlen : (k.path.take n).length = n := length_take_of_le (by omega)
    refine ⟨_, ?_, ?_, take_prefix _ _, rfl⟩ <;> intro h <;> rw [h] at hlen
    · simp only [length_nil] at hlen
      omega
    · omega
  · rintro ⟨path, hne, hne', hpre, rfl⟩
    have htake := prefix_iff_eq_take.1 hpre
    have hlt : path.length < k.path.length := by
      refine lt_of_le_of_ne hpre.length_le fun hlen => hne' ?_
      exact hpre.eq_of_length hlen
    have hpos := length_pos_iff.2 hne
    exact ⟨path.length, ⟨by omega, by omega⟩, by rw [← htake]⟩

/-! ## Attribute values -/

def attributeValueString : UInt8 := 1
def attributeValueInteger : UInt8 := 2
def attributeValueBoolean : UInt8 := 3
def attributeValueNull : UInt8 := 4

def encodeAttributeValue (value : Value) : Result Bytes :=
  match value.kind with
  | .string =>
    if value.text.length > maxStringValueBytes then .error .integrity
    else .ok (codecVersion :: attributeValueString :: codecBytes32 value.text)
  | .integer => .ok (codecVersion :: attributeValueInteger :: be 8 (twos64 value.integer.toInt))
  | .boolean => .ok [codecVersion, attributeValueBoolean, if value.boolean then 1 else 0]
  | .null => .ok [codecVersion, attributeValueNull]
  | .unset => .error .integrity

def readAttributeValue (kind : UInt8) (data : Bytes) : Option Value :=
  if kind = attributeValueString then do
    let (text, data) ← bytes32 maxStringValueBytes data
    guard (data = [])
    (newStringValue text).toOption
  else if kind = attributeValueInteger then do
    let (integer, data) ← int64 data
    guard (data = [])
    some (newIntegerValue (Int64.ofInt integer))
  else if kind = attributeValueBoolean then do
    let (boolean, data) ← Reader.byte data
    guard (data = [] ∧ (boolean = 0 ∨ boolean = 1))
    some (newBooleanValue (boolean = 1))
  else if kind = attributeValueNull then do
    guard (data = [])
    some newNullValue
  else none

def decodeAttributeValue (encoded : Bytes) : Result Value :=
  match encoded with
  | version :: kind :: data =>
    if version ≠ codecVersion then .error .integrity
    else
      match readAttributeValue kind data with
      | none => .error .integrity
      | some value => .ok value
  | _ => .error .integrity

/-- A valid value is encoded and reads back. -/
theorem decodeAttributeValue_encode {v : Value} (h : v.valid = true) :
    ∃ b, encodeAttributeValue v = .ok b ∧ decodeAttributeValue b = .ok v ∧ b.length ≤ 6 + maxStringValueBytes := by
  obtain ⟨kind, text, integer, boolean⟩ := v
  unfold Value.valid at h
  split at h <;> rename_i hk <;> dsimp only at hk <;> subst hk <;>
    simp only [Bool.and_eq_true, beq_iff_eq, Bool.not_eq_true', isOk_unit, Bool.false_eq_true] at h
  · obtain ⟨⟨rfl, rfl⟩, htext⟩ := h
    have hlen := (validateText_eq_ok.1 htext).2.1
    have h32 := bytes32_append maxStringValueBytes (by decide) hlen []
    rw [append_nil] at h32
    refine ⟨codecVersion :: attributeValueString :: codecBytes32 text, ?_, ?_, ?_⟩
    · simp only [encodeAttributeValue]
      rw [if_neg (by omega)]
    · simp [decodeAttributeValue, readAttributeValue, h32, newStringValue, htext, Except.toOption]
    · simp only [length_cons, length_codecBytes32]
      omega
  · obtain ⟨rfl, rfl⟩ := h
    have h64 := int64_append (Int64.le_toInt integer) (Int64.toInt_lt integer) []
    rw [append_nil] at h64
    refine ⟨codecVersion :: attributeValueInteger :: be 8 (twos64 integer.toInt), rfl, ?_, ?_⟩
    · simp [decodeAttributeValue, readAttributeValue, h64, newIntegerValue, attributeValueString, attributeValueInteger]
    · simp [maxStringValueBytes]
  · obtain ⟨rfl, rfl⟩ := h
    refine ⟨[codecVersion, attributeValueBoolean, if boolean then 1 else 0], rfl, ?_, by simp [maxStringValueBytes]⟩
    cases boolean <;> rfl
  · obtain ⟨⟨rfl, rfl⟩, rfl⟩ := h
    exact ⟨[codecVersion, attributeValueNull], rfl, rfl, by simp [maxStringValueBytes]⟩

/-- What is read is valid. -/
theorem decodeAttributeValue_valid {v : Value} (h : decodeAttributeValue b = .ok v) : v.valid = true := by
  unfold decodeAttributeValue at h
  split at h
  · split at h
    · cases h
    · split at h
      · cases h
      next value hread =>
        obtain rfl := Except.ok.inj h
        unfold readAttributeValue at hread
        split at hread
        · simp only [Option.bind_eq_bind, Option.bind_eq_some_iff] at hread
          obtain ⟨⟨text, rest⟩, -, -, -, hnew⟩ := hread
          cases htext : validateText text maxStringValueBytes true with
          | error e => simp [newStringValue, htext, Except.toOption] at hnew
          | ok u =>
            simp only [newStringValue, htext, ok_bind, Except.toOption, Option.some.injEq] at hnew
            subst hnew
            simp [Value.valid, isOk_unit, htext]
        · split at hread
          · simp only [Option.bind_eq_bind, Option.bind_eq_some_iff] at hread
            obtain ⟨⟨n, rest⟩, -, -, -, hnew⟩ := hread
            obtain rfl := Option.some.inj hnew
            rfl
          · split at hread
            · simp only [Option.bind_eq_bind, Option.bind_eq_some_iff] at hread
              obtain ⟨⟨n, rest⟩, -, -, -, hnew⟩ := hread
              obtain rfl := Option.some.inj hnew
              rfl
            · split at hread
              · simp only [Option.bind_eq_bind, Option.bind_eq_some_iff] at hread
                obtain ⟨-, -, hnew⟩ := hread
                obtain rfl := Option.some.inj hnew
                rfl
              · cases hread
  · cases h

/-! ## Durable attributes -/

structure DurableAttribute where
  key : Bytes
  attribute_ : Attribute
  path : Bytes
  value : Bytes
  deriving DecidableEq

def canonicalDurableAttribute (value : Attribute) : Result DurableAttribute :=
  match newAttributePath value.entity value.path value.value with
  | .error _ => .error .invalidArgument
  | .ok canonical =>
    match newAttributeKeyPath canonical.entity canonical.path with
    | .error _ => .error .internal
    | .ok keyValue => do
      let key ← encodeAttributeKey keyValue
      let path ← encodeAttributePath canonical.path
      let encodedValue ← encodeAttributeValue canonical.value
      .ok ⟨key, canonical, path, encodedValue⟩

def decodeDurableAttribute (key path encodedValue : Bytes) (entity : EntityRef) : Result Attribute := do
  let decodedPath ← decodeAttributePath path
  let decodedValue ← decodeAttributeValue encodedValue
  match newAttributePath entity decodedPath decodedValue with
  | .error _ => .error .integrity
  | .ok result =>
    match newAttributeKeyPath result.entity result.path with
    | .error _ => .error .integrity
    | .ok attributeKey =>
      match encodeAttributeKey attributeKey with
      | .error _ => .error .integrity
      | .ok expected => if expected = key then .ok result else .error .integrity

def attributeKeyFromAttribute (value : Attribute) : Result AttributeKey :=
  match newAttributeKeyPath value.entity value.path with
  | .error _ => .error .integrity
  | .ok result => .ok result

variable {a : Attribute}

/-- The key of a well-formed attribute is well formed. -/
theorem newAttributeKeyPath_of_attribute (h : newAttributePath a.entity a.path a.value = .ok a) :
    newAttributeKeyPath a.entity a.path = .ok a.key := by
  obtain ⟨-, he, hp, -, hcost⟩ := newAttributePath_eq_ok.1 h
  refine newAttributeKeyPath_eq_ok.2 ⟨rfl, he, hp, ?_⟩
  simp only [attributeCost, attributeKeyCost] at hcost ⊢
  omega

theorem attributeKeyFromAttribute_eq (h : newAttributePath a.entity a.path a.value = .ok a) :
    attributeKeyFromAttribute a = .ok a.key := by
  simp only [attributeKeyFromAttribute, newAttributeKeyPath_of_attribute h]

/-- What a stored attribute row decodes to. -/
structure Decodes (key path encodedValue : Bytes) (entity : EntityRef) (a : Attribute) : Prop where
  entity : a.entity = entity
  path : decodeAttributePath path = .ok a.path
  value : decodeAttributeValue encodedValue = .ok a.value
  wellFormed : newAttributePath a.entity a.path a.value = .ok a
  encodable : EncodablePath a.path
  key : key = attributeKeyBytes a.key

variable {value : Bytes}

theorem Decodes.encodableKey {path e} (h : Decodes key path value e a) :
    EncodableKey a.key := ⟨newAttributeKeyPath_of_attribute h.wellFormed, h.encodable⟩

theorem decodeDurableAttribute_eq_ok {path e} :
    decodeDurableAttribute key path value e = .ok a ↔ Decodes key path value e a := by
  constructor
  · intro h
    simp only [decodeDurableAttribute, bind_eq_ok] at h
    obtain ⟨p, hp, v, hv, h⟩ := h
    split at h
    · cases h
    next result hnew =>
      split at h
      · cases h
      next k hk =>
        split at h
        · cases h
        next expected henc =>
          split at h
          next heq =>
            obtain rfl := Except.ok.inj h
            obtain ⟨rfl, he⟩ := newAttributePath_eq_ok.1 hnew
            obtain ⟨rfl, -⟩ := newAttributeKeyPath_eq_ok.1 hk
            obtain ⟨hek, rfl⟩ := encodeAttributeKey_eq_ok.1 henc
            exact ⟨rfl, hp, hv, hnew, hek.2, heq.symm⟩
          · cases h
  · intro h
    have hk := encodeAttributeKey_eq h.encodableKey
    have hwf := h.wellFormed
    rw [h.entity] at hwf
    simp only [decodeDurableAttribute, h.path, h.value, ok_bind, hwf, newAttributeKeyPath_of_attribute h.wellFormed, hk,
      h.key, if_true]

/-- A well-formed attribute whose path passes the probe is stored as a row that decodes to it. -/
theorem canonicalDurableAttribute_eq (h : newAttributePath a.entity a.path a.value = .ok a)
    (hp : EncodablePath a.path) :
    ∃ v, canonicalDurableAttribute a = .ok ⟨attributeKeyBytes a.key, a, attributePathBytes a.path, v⟩ ∧
      Decodes (attributeKeyBytes a.key) (attributePathBytes a.path) v a.entity a ∧
      v.length ≤ 6 + maxStringValueBytes := by
  obtain ⟨-, -, -, hv, -⟩ := newAttributePath_eq_ok.1 h
  obtain ⟨b, henc, hdec, hlen⟩ := decodeAttributeValue_encode hv
  have hk : EncodableKey a.key := ⟨newAttributeKeyPath_of_attribute h, hp⟩
  refine ⟨b, ?_, ⟨rfl, decodeAttributePath_bytes hp, hdec, h, hp, rfl⟩, hlen⟩
  simp only [canonicalDurableAttribute, h, newAttributeKeyPath_of_attribute h, encodeAttributeKey_eq hk,
    encodeAttributePath_eq hp, henc, ok_bind]

/-! ## Idempotency records -/

def idempotencyCodecFingerprint : UInt8 := 1

def encodeIdempotencyFingerprint (value : Bytes) : Result Bytes :=
  if value.length ≠ 32 then .error .integrity else .ok (codecVersion :: value)

def decodeIdempotencyFingerprint (encoded : Bytes) : Result Bytes :=
  match encoded with
  | version :: value => if value.length ≠ 32 ∨ version ≠ codecVersion then .error .integrity else .ok value
  | [] => .error .integrity

def encodeIdempotencyResponse (value : WriteDataResponse) : Result Bytes :=
  if value.generation = 0 ∨ value.replayed then .error .integrity
  else .ok (codecVersion :: idempotencyCodecFingerprint :: be 8 value.generation)

def readIdempotencyResponse (data : Bytes) : Option Nat := do
  let (version, data) ← Reader.byte data
  guard (version = codecVersion)
  let (kind, data) ← Reader.byte data
  guard (kind = idempotencyCodecFingerprint)
  let (generation, data) ← Reader.uint 8 data
  guard (data = [])
  some generation

def decodeIdempotencyResponse (encoded : Bytes) (replayed : Bool) : Result WriteDataResponse :=
  match readIdempotencyResponse encoded with
  | none => .error .integrity
  | some generation =>
    match newWriteDataResponse generation replayed with
    | .error _ => .error .integrity
    | .ok result => .ok result

theorem decodeIdempotencyFingerprint_cons (h : value.length = 32) :
    decodeIdempotencyFingerprint (codecVersion :: value) = .ok value := by
  simp [decodeIdempotencyFingerprint, h]

theorem decodeIdempotencyResponse_bytes {g : Nat} (h0 : g ≠ 0) (h : g < 256 ^ 8) (replayed : Bool) :
    decodeIdempotencyResponse (codecVersion :: idempotencyCodecFingerprint :: be 8 g) replayed = .ok ⟨g, replayed⟩ := by
  have hu := Reader.uint_append h []
  rw [append_nil] at hu
  have hread : readIdempotencyResponse (codecVersion :: idempotencyCodecFingerprint :: be 8 g) = some g := by
    simp [readIdempotencyResponse, hu]
  simp [decodeIdempotencyResponse, hread, newWriteDataResponse, h0]

/-- A stored response never carries generation zero. -/
theorem decodeIdempotencyResponse_eq_ok {replayed r} (h : decodeIdempotencyResponse b replayed = .ok r) :
    r.generation ≠ 0 ∧ r.replayed = replayed := by
  unfold decodeIdempotencyResponse at h
  split at h
  · cases h
  next g hg =>
    unfold newWriteDataResponse at h
    split at h
    · cases h
    next r' hr =>
      obtain rfl := Except.ok.inj h
      split at hr
      · cases hr
      next h0 =>
        obtain rfl := Except.ok.inj hr
        exact ⟨h0, rfl⟩

end PolicyEngine.Sqlite
