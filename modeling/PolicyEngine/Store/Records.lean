import PolicyEngine.Core.Data
import PolicyEngine.Core.Events
import PolicyEngine.Lib.Codec

/-!
# Store records

The contracts shared by both adapters (`store/revisions.go`,
`store/idempotency.go`): source provenance, verified revision records and the
fingerprint of a write. The hash functions and the DSL's artifact codec are not
part of this repository; they are the fields of `Primitives`, of which only the
length of a digest is assumed.
-/

namespace PolicyEngine

open Lib

/-- What the engine takes from outside: SHA-256, HMAC-SHA-256 and the DSL's artifacts. -/
class Primitives where
  sha256 : Bytes → Bytes
  /-- The code of a message under a key. -/
  hmac : Bytes → Bytes → Bytes
  Artifact : Type
  decodeArtifact : Bytes → Option Artifact
  marshalArtifact : Artifact → Option Bytes
  artifactDigest : Artifact → Bytes
  maxPolicyArtifactBytes : Nat
  sha256_length : ∀ m, (sha256 m).length = 32
  hmac_length : ∀ k m, (hmac k m).length = 32

export Primitives (sha256 hmac Artifact decodeArtifact marshalArtifact artifactDigest maxPolicyArtifactBytes)

/-- The degenerate instance: constant hashes, and every byte string is its own artifact. -/
@[reducible] def Primitives.constant : Primitives where
  sha256 _ := List.replicate 32 0
  hmac _ _ := List.replicate 32 0
  Artifact := Bytes
  decodeArtifact := some
  marshalArtifact := some
  artifactDigest _ := List.replicate 32 0
  maxPolicyArtifactBytes := 1048576
  sha256_length _ := List.length_replicate
  hmac_length _ _ := List.length_replicate

/-- Lowercase hexadecimal. -/
def hexDigit (n : Nat) : UInt8 := if n < 10 then UInt8.ofNat (n + 0x30) else UInt8.ofNat (n + 0x57)

def hexEncode (bytes : Bytes) : Bytes := bytes.flatMap fun b => [hexDigit (b.toNat / 16), hexDigit (b.toNat % 16)]

variable [Primitives]

/-- `RevisionIDFromArtifact`, on the string form of the result. -/
def revisionIDFromArtifact (artifact : Artifact) : Result Bytes :=
  match marshalArtifact artifact with
  | none => .error .invalidArgument
  | some _ => .ok (hexEncode (artifactDigest artifact))

/-! ## Revision records -/

structure RevisionProvenance where
  sourceName : Bytes
  originalSource : Bytes
  originalSourceDigest : Bytes
  valid : Bool
  deriving DecidableEq, Repr

/-- Go's zero provenance. -/
def RevisionProvenance.none : RevisionProvenance := ⟨[], [], List.replicate 32 0, false⟩

def newRevisionProvenance (namespace_ sourceName source : Bytes) : Result RevisionProvenance := do
  checkPublishRequest namespace_ sourceName source
  .ok ⟨sourceName, source, sha256 source, true⟩

def RevisionProvenance.Valid (p : RevisionProvenance) : Bool :=
  p.valid && p.originalSource != [] && sha256 p.originalSource = p.originalSourceDigest &&
    (checkPublishRequest (ascii "provenance") p.sourceName p.originalSource).isOk

def RevisionProvenance.zero (p : RevisionProvenance) : Bool := p = .none

/-- A candidate revision; `RevisionRecord` has the same fields. -/
structure RevisionWrite where
  metadata : RevisionMetadata
  artifact : Bytes
  provenance : RevisionProvenance
  deriving DecidableEq, Repr

abbrev RevisionRecord := RevisionWrite

def validateRevisionMetadata (metadata : RevisionMetadata) : Result Unit := do
  require (metadata.namespace_ != [] && metadata.id != [] && metadata.publishedAt != zeroTime) .invalidArgument
  let _ ← newGetRevisionRequest metadata.namespace_ metadata.id
  let id ← parseRevisionID metadata.id
  let _ ← newRevisionMetadata metadata.namespace_ id metadata.publishedAt
  .ok ()

def newRevisionWrite (metadata : RevisionMetadata) (artifact : Bytes) : Result RevisionWrite := do
  validateRevisionMetadata metadata
  require (artifact != []) .invalidArgument
  require (artifact.length ≤ maxPolicyArtifactBytes) .resourceExhausted
  .ok ⟨metadata, artifact, .none⟩

def newRevisionWriteWithProvenance (metadata : RevisionMetadata) (artifact : Bytes) (provenance : RevisionProvenance) :
    Result RevisionWrite := do
  let write ← newRevisionWrite metadata artifact
  require provenance.Valid .invalidArgument
  .ok { write with provenance := provenance }

def RevisionWrite.Valid (w : RevisionWrite) : Bool :=
  (validateRevisionMetadata w.metadata).isOk && w.artifact != [] && w.artifact.length ≤ maxPolicyArtifactBytes &&
    (w.provenance.zero || w.provenance.Valid)

/-- The artifact decodes, its digest is the declared id, and its bytes are canonical. -/
def verifyRevisionContent (w : RevisionWrite) : Result Unit :=
  match decodeArtifact w.artifact with
  | none => .error .integrity
  | some artifact =>
    match revisionIDFromArtifact artifact with
    | .error _ => .error .integrity
    | .ok id =>
      if id ≠ w.metadata.id then .error .integrity
      else if marshalArtifact artifact = some w.artifact then .ok ()
      else .error .integrity

def newRevisionRecordFromWrite (w : RevisionWrite) : Result RevisionRecord := do
  require w.Valid .invalidArgument
  verifyRevisionContent w
  .ok w

/-- `RevisionRecord.Valid`. -/
def validRecord (r : RevisionRecord) : Bool := r.Valid && (verifyRevisionContent r).isOk

structure PutRevisionResult where
  record : RevisionRecord
  created : Bool
  deriving DecidableEq, Repr

def newPutRevisionResult (record : RevisionRecord) (created : Bool) : Result PutRevisionResult :=
  if validRecord record then .ok ⟨record, created⟩ else .error .invalidArgument

omit [Primitives] in
theorem validateRevisionMetadata_eq_ok {m} :
    validateRevisionMetadata m = .ok () ↔ newRevisionMetadata m.namespace_ m.id m.publishedAt = .ok m := by
  rw [validateRevisionMetadata, check_eq_ok, require_eq_ok, newRevisionMetadata_eq_ok]
  simp only [bind_eq_ok, newGetRevisionRequest_eq_ok, parseRevisionID_eq_ok, newRevisionMetadata_eq_ok,
    Bool.and_eq_true, bne_iff_ne]
  constructor
  · rintro ⟨⟨_, ht⟩, _, ⟨_, hns, hid⟩, _⟩
    exact ⟨trivial, hns, hid, ht⟩
  · rintro ⟨_, hns, hid, ht⟩
    have hne : m.id ≠ [] := fun h => absurd (validRevisionIDString_length hid) (by simp [h])
    exact ⟨⟨⟨(validateNamespace_eq_ok.1 hns).1, hne⟩, ht⟩, _, ⟨rfl, hns, hid⟩, m.id, ⟨rfl, hid⟩, _,
      ⟨rfl, hns, hid, ht⟩, trivial⟩

theorem newRevisionRecordFromWrite_eq_ok {w r} :
    newRevisionRecordFromWrite w = .ok r ↔ r = w ∧ validRecord w = true := by
  simp only [newRevisionRecordFromWrite, check_eq_ok, require_eq_ok, validRecord, Bool.and_eq_true, isOk_unit]
  constructor
  · rintro ⟨hv, hc, h⟩
    exact ⟨(Except.ok.inj h).symm, hv, hc⟩
  · rintro ⟨rfl, hv, hc⟩
    exact ⟨hv, hc, rfl⟩

/-! ## The fingerprint of a write -/

/-- The bytes hashed so far; every `write` of the source appends to them. -/
def writeUint64 (n : Nat) : Bytes := be 8 n

def writeString (value : Bytes) : Bytes := writeUint64 value.length ++ value

def writeStrings (values : List Bytes) : Bytes := writeUint64 values.length ++ values.flatMap writeString

def writeRelationshipFields (tuple : Tuple) : Bytes :=
  [tuple.resource.type, tuple.resource.id, tuple.relation, tuple.subject.type, tuple.subject.id,
    tuple.subject.relation].flatMap writeString

/-- `time.MarshalBinary` of a UTC instant: version, seconds since year 1, nanoseconds, the UTC offset. -/
def marshalTime (t : Time) : Bytes :=
  1 :: (be 8 (twos64 (t / 1000000000 + 62135596800)) ++ be 4 (t % 1000000000).toNat ++ [0xFF, 0xFF])

def writeTuple (t : RelationshipTuple) : Bytes :=
  writeRelationshipFields t.tuple ++ if t.hasExpiry then 1 :: writeString (marshalTime t.expiresAt) else [0]

def writeValue (v : Value) : Bytes :=
  match v.kind with
  | .string => writeString v.text
  | .integer => be 8 (twos64 v.integer.toInt)
  | .boolean => [if v.boolean then 1 else 0]
  | .null => [0]
  | .unset => []

def writeAttribute (a : Attribute) : Bytes :=
  writeString a.entity.type ++ writeString a.entity.id ++ writeStrings a.path ++ [a.value.kind.code] ++ writeValue a.value

def writeAttributeKey (k : AttributeKey) : Bytes :=
  writeString k.entity.type ++ writeString k.entity.id ++ writeStrings k.path

/-- Everything that is hashed: all of a request but its idempotency key. -/
def fingerprintInput (r : WriteDataRequest) : Bytes :=
  writeString r.namespace_ ++ writeString r.validationRevisionID ++ writeUint64 r.expectedGeneration ++
    r.tupleWrites.flatMap writeTuple ++ [0xFF] ++ r.tupleDeletes.flatMap (fun k => writeRelationshipFields k.tuple) ++
    [0xFE] ++ r.attributeWrites.flatMap writeAttribute ++ [0xFD] ++ r.attributeDeletes.flatMap writeAttributeKey

/-- `FingerprintWriteData`: the scope it also returns is the request's namespace and key. -/
def fingerprintWriteData (request : WriteDataRequest) : Result Bytes := do
  let canonical ← newWriteDataRequest request
  let _ ← newResolveRequest canonical.namespace_ canonical.idempotencyKey
  .ok (sha256 (fingerprintInput canonical))

/-- A constructed request always has a fingerprint, and it is that of the request itself. -/
theorem fingerprintWriteData_constructed {r} (h : Constructed r) :
    fingerprintWriteData r = .ok (sha256 (fingerprintInput r)) := by
  have hfix := h.fixed
  have hwf := newWriteDataRequest_wellFormed hfix
  have hscope : newResolveRequest r.namespace_ r.idempotencyKey = .ok ⟨r.namespace_, r.idempotencyKey⟩ :=
    newResolveRequest_eq_ok.2 ⟨rfl, hwf.namespace_ok, hwf.key⟩
  simp only [fingerprintWriteData, hfix, ok_bind, hscope]

/-- Only well-formed requests have a fingerprint. -/
theorem fingerprintWriteData_eq_ok {r f} (h : fingerprintWriteData r = .ok f) :
    ∃ c, newWriteDataRequest r = .ok c ∧ f = sha256 (fingerprintInput c) := by
  simp only [fingerprintWriteData, bind_eq_ok] at h
  obtain ⟨c, hc, _, _, hf⟩ := h
  exact ⟨c, hc, (Except.ok.inj hf).symm⟩

end PolicyEngine
