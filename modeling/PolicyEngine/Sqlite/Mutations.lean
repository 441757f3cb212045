import PolicyEngine.Sqlite.Schema

/-!
# Mutations of the SQLite adapter

The callbacks that PutRevision, Activate and WriteData run in one write
transaction (`revisions.go`, `slots.go`, `idempotency.go`), and the three calls as
they run alone: validation, the transaction, the answer.
-/

open PolicyEngine.Lib

namespace PolicyEngine.Sqlite

/-! ## Revisions -/

section

variable [Primitives]

/-- A write with its provenance, when it has one. -/
def rebuildRevisionWrite (metadata : RevisionMetadata) (artifact : Bytes) (provenance : RevisionProvenance) :
    Result RevisionWrite :=
  if provenance.Valid then newRevisionWriteWithProvenance metadata artifact provenance
  else newRevisionWrite metadata artifact

def canonicalRevisionRecord (write : RevisionWrite) : Result (RevisionRecord × Int64 × Bytes) := do
  require write.Valid .invalidArgument
  let id ← orFail .invalidArgument (parseRevisionID write.metadata.id)
  match sqliteTimestamp write.metadata.publishedAt with
  | none => .error .invalidArgument
  | some publishedAtNS =>
    let metadata ← orFail .invalidArgument (newRevisionMetadata write.metadata.namespace_ id (unixTime publishedAtNS))
    let canonical ← orFail .invalidArgument (rebuildRevisionWrite metadata write.artifact write.provenance)
    let record ← newRevisionRecordFromWrite canonical
    let provenance ← encodeRevisionProvenance record.provenance
    .ok (record, publishedAtNS, provenance)

def decodeRevisionRecord (row : RevisionRow) : Result RevisionRecord := do
  require (row.artifact != [] && row.artifact.length ≤ maxPolicyArtifactBytes) .integrity
  let id ← orFail .integrity (parseRevisionID row.revisionID)
  let metadata ← orFail .integrity (newRevisionMetadata row.namespace_ id (unixTime row.publishedAtNS))
  let provenance ← decodeRevisionProvenance row.namespace_ row.provenance
  let write ← orFail .integrity (rebuildRevisionWrite metadata row.artifact provenance)
  orFail .integrity (newRevisionRecordFromWrite write)

def readRevision (db : Database) (namespace_ revisionID : Bytes) : Result (Option RevisionRecord) :=
  match db.revisions.get? (namespace_, revisionID) with
  | none => .ok none
  | some row => do
    let record ← decodeRevisionRecord row
    .ok (some record)

/-- The callback of PutRevision: the record stored before, if any. -/
def putRevisionTx (s : Store) (db : Database) (clock : Clock) (record : RevisionRecord) (publishedAtNS : Int64)
    (provenance : Bytes) : Result (Option RevisionRecord × Database) := do
  let namespace_ := record.metadata.namespace_
  match ← readRevision db namespace_ record.metadata.id with
  | some stored => if stored.artifact ≠ record.artifact then .error .integrity else .ok (some stored, db)
  | none =>
    let revisions ← insertRow db.revisions
      ⟨namespace_, record.metadata.id, record.artifact, provenance, publishedAtNS⟩
    let (occurredAt, db) ← effectiveNow { db with revisions := revisions } clock namespace_
    let db ← appendStateEvent s db ⟨namespace_, [], .revisionPublished, record.metadata.id, [], 0, 0, zeroTime⟩ occurredAt
    .ok (none, db)

def putRevision (s : Store) (db : Database) (clock : Clock) (write : RevisionWrite) :
    Result (PutRevisionResult × Database) := do
  let (record, publishedAtNS, provenance) ← canonicalRevisionRecord write
  let created ← orFail .internal (newPutRevisionResult record true)
  match ← putRevisionTx s db clock record publishedAtNS provenance with
  | (some existing, db) => do
    let result ← newPutRevisionResult existing false
    .ok (result, db)
  | (none, db) => .ok (created, db)

/-! ## Slots -/

def activationExpectationMatches (expectation : SlotExpectation) (current : Option Activation) : Bool :=
  if expectation.isUnset then current.isNone
  else
    match expectation.active?, current with
    | some (revisionID, generation), some current =>
      current.revisionID == revisionID && current.generation == generation
    | _, _ => false

def readSlotHead (db : Database) (namespace_ slot : Bytes) : Result (Option Activation) :=
  match db.slotHeads.get? (namespace_, slot) with
  | none => .ok none
  | some row => do
    require (row.generation.toInt > 0) .integrity
    let result ← orFail .integrity
      (newActivation namespace_ slot row.revisionID row.generation.toInt.toNat (unixTime row.activatedAtNS))
    .ok (some result)

/-- The retained history of a slot. -/
def historyOf (db : Database) (namespace_ slot : Bytes) : List ActivationRow :=
  db.activationHistory.rows.filter fun r => r.namespace_ = namespace_ ∧ r.slot = slot

def generationsOf (db : Database) (namespace_ slot : Bytes) : List Int :=
  (historyOf db namespace_ slot).map (·.generation.toInt)

omit [Primitives] in
theorem mem_generationsOf {db ns slot x} :
    x ∈ generationsOf db ns slot ↔ ∃ r ∈ db.activationHistory, r.slotKey = (ns, slot) ∧ r.generation.toInt = x := by
  simp [generationsOf, historyOf, Table.mem_def, ActivationRow.slotKey, and_assoc]

/-- The oldest generation within the newest `retention`. -/
def retainedTail (db : Database) (namespace_ slot : Bytes) (retention : Nat) : Option Int :=
  ((generationsOf db namespace_ slot).mergeSort (· ≥ ·))[retention - 1]?

def pruneActivationHistory (db : Database) (namespace_ slot : Bytes) (retention : Nat) : Result Database :=
  if retention < 2 then .error .internal
  else
    match retainedTail db namespace_ slot retention with
    | none => .ok db
    | some tail =>
      if tail ≤ 0 then .error .integrity
      else
        .ok { db with
          activationHistory := db.activationHistory.deleteWhere fun r =>
            r.namespace_ = namespace_ ∧ r.slot = slot ∧ r.generation.toInt < tail }

/-- The callback of Activate. -/
def activateTx (s : Store) (db : Database) (clock : Clock) (request : ActivateRequest) : Result (Activation × Database) := do
  match ← readRevision db request.namespace_ request.targetRevisionID with
  | none => .error .notFound
  | some _ =>
    let current ← readSlotHead db request.namespace_ request.slot
    require (activationExpectationMatches request.expectation current) .conflict
    require (current.all (·.generation < maxInt64)) .resourceExhausted
    let generation := (current.map (·.generation)).getD 0 + 1
    let (occurredAt, db) ← effectiveNow db clock request.namespace_
    let activation ← orFail .internal
      (newActivation request.namespace_ request.slot request.targetRevisionID generation occurredAt)
    match sqliteTimestamp activation.activatedAt with
    | none => .error .internal
    | some occurredAtNS =>
      let row : ActivationRow :=
        ⟨request.namespace_, request.slot, request.targetRevisionID, Int64.ofNat generation, occurredAtNS⟩
      require (db.revisions.get? (request.namespace_, request.targetRevisionID)).isSome .internal
      let activationHistory ← insertRow db.activationHistory row
      let db ← pruneActivationHistory
        { db with slotHeads := db.slotHeads.set row, activationHistory := activationHistory }
        request.namespace_ request.slot s.activationHistoryRetention
      let db ← appendStateEvent s db
        ⟨request.namespace_, [], .slotActivated, request.targetRevisionID, request.slot, generation, 0, zeroTime⟩ occurredAt
      let response ← orFail .internal (newActivateResponse activation)
      .ok (response, db)

def activate (s : Store) (db : Database) (clock : Clock) (request : ActivateRequest) : Result (Activation × Database) := do
  let _ ← newActivateRequest request.namespace_ request.slot request.targetRevisionID request.expectation
  activateTx s db clock request

end

/-! ## Data -/

def readIdempotencyRecord (db : Database) (namespace_ key : Bytes) : Result (Option (Bytes × WriteDataResponse)) :=
  match db.idempotencyRecords.get? (namespace_, key) with
  | none => .ok none
  | some row => do
    let fingerprint ← decodeIdempotencyFingerprint row.fingerprint
    let response ← decodeIdempotencyResponse row.response false
    .ok (some (fingerprint, response))

def deleteTuple (namespace_ : Bytes) (db : Database) (key : TupleKey) : Result Database := do
  let canonical ← orFail .invalidArgument (newTupleKey key.tuple)
  let encoded ← encodeTupleKey canonical.tuple
  .ok { db with tuples := db.tuples.deleteWhere fun r => r.namespace_ = namespace_ ∧ r.tupleKey = encoded }

def upsertTuple (namespace_ : Bytes) (db : Database) (value : RelationshipTuple) : Result Database := do
  let record ← canonicalDurableTuple value
  .ok { db with tuples := db.tuples.set ⟨namespace_, record.key, record.tuple.tuple, record.expiresAtNS⟩ }

/-- The foreign key of `attribute_ancestors` deletes the ancestors with their attribute. -/
def deleteAttribute (namespace_ : Bytes) (db : Database) (value : AttributeKey) : Result Database := do
  let canonical ← orFail .invalidArgument (newAttributeKeyPath value.entity value.path)
  let key ← encodeAttributeKey canonical
  .ok { db with
    attributes := db.attributes.deleteWhere fun r => r.namespace_ = namespace_ ∧ r.attributeKey = key
    attributeAncestors := db.attributeAncestors.deleteWhere fun r => r.namespace_ = namespace_ ∧ r.attributeKey = key }

/-- A stored strict prefix of the key at a length is a conflict. -/
def ensureNoPrefix (db : Database) (namespace_ : Bytes) (key : AttributeKey) (length : Nat) : Result Unit := do
  let prefix_ ← orFail .internal (newAttributeKeyPath key.entity (key.path.take length))
  let encoded ← encodeAttributeKey prefix_
  require (db.attributes.get? (namespace_, encoded)).isNone .conflict

def ensureNoAttributeConflict (db : Database) (namespace_ : Bytes) (value : Attribute) : Result Unit := do
  let key ← attributeKeyFromAttribute value
  forM (List.range' 1 (key.path.length - 1)) (ensureNoPrefix db namespace_ key)
  let encoded ← encodeAttributeKey key
  require (!db.attributeAncestors.rows.any fun r => r.namespace_ = namespace_ ∧ r.ancestorPath = encoded) .conflict

def upsertAttribute (namespace_ : Bytes) (db : Database) (value : Attribute) : Result Database := do
  let record ← canonicalDurableAttribute value
  let db := { db with
    attributes := db.attributes.set ⟨namespace_, record.key, record.attribute_.entity, record.path, record.value, none⟩
    attributeAncestors :=
      db.attributeAncestors.deleteWhere fun r => r.namespace_ = namespace_ ∧ r.attributeKey = record.key }
  let key ← attributeKeyFromAttribute record.attribute_
  let prefixes ← strictAttributePrefixes key
  let attributeAncestors ← prefixes.foldlM (fun t ancestor => insertRow t ⟨namespace_, record.key, ancestor⟩)
    db.attributeAncestors
  .ok { db with attributeAncestors := attributeAncestors }

def writeAttribute (namespace_ : Bytes) (db : Database) (value : Attribute) : Result Database := do
  ensureNoAttributeConflict db namespace_ value
  upsertAttribute namespace_ db value

/-- The four mutation loops. -/
def applyMutations (db : Database) (request : WriteDataRequest) : Result Database := do
  let db ← request.tupleDeletes.foldlM (deleteTuple request.namespace_) db
  let db ← request.tupleWrites.foldlM (upsertTuple request.namespace_) db
  let db ← request.attributeDeletes.foldlM (deleteAttribute request.namespace_) db
  request.attributeWrites.foldlM (writeAttribute request.namespace_) db

variable [Primitives]

/-- What follows the replay check in the callback of WriteData. -/
def commitData (s : Store) (db : Database) (clock : Clock) (canonical : WriteDataRequest) (fingerprintEncoded : Bytes) :
    Result (WriteDataResponse × Database) := do
  match ← readRevision db canonical.namespace_ canonical.validationRevisionID with
  | none => .error .notFound
  | some _ =>
    let (head, db) ← ensureNamespaceHead db canonical.namespace_
    require (head.dataGeneration.toInt.toNat = canonical.expectedGeneration) .conflict
    require (head.dataGeneration.toInt ≠ maxInt64) .resourceExhausted
    let nextGeneration := head.dataGeneration.toInt.toNat + 1
    let db ← applyMutations db canonical
    let (occurredAt, db) ← effectiveNow db clock canonical.namespace_
    let response ← orFail .internal (newWriteDataResponse nextGeneration false)
    let responseEncoded ← encodeIdempotencyResponse response
    let db ← appendStateEvent s db ⟨canonical.namespace_, [], .dataWritten, [], [], 0, nextGeneration, zeroTime⟩ occurredAt
    let idempotencyRecords ← insertRow db.idempotencyRecords
      ⟨canonical.namespace_, canonical.idempotencyKey, fingerprintEncoded, responseEncoded⟩
    .ok (response, updateHead { db with idempotencyRecords := idempotencyRecords } canonical.namespace_ fun head =>
      { head with dataGeneration := Int64.ofNat nextGeneration })

/-- The callback of WriteData. -/
def writeDataTx (s : Store) (db : Database) (clock : Clock) (canonical : WriteDataRequest)
    (fingerprint fingerprintEncoded : Bytes) : Result (WriteDataResponse × Database) := do
  match ← readIdempotencyRecord db canonical.namespace_ canonical.idempotencyKey with
  | some (storedFingerprint, storedResponse) =>
    require (storedFingerprint = fingerprint) .conflict
    let response ← orFail .integrity (newWriteDataResponse storedResponse.generation true)
    .ok (response, db)
  | none => commitData s db clock canonical fingerprintEncoded

def writeData (s : Store) (db : Database) (clock : Clock) (request : WriteDataRequest) :
    Result (WriteDataResponse × Database) := do
  let canonical ← newWriteDataRequest request
  let fingerprint ← fingerprintWriteData canonical
  let fingerprintEncoded ← encodeIdempotencyFingerprint fingerprint
  writeDataTx s db clock canonical fingerprint fingerprintEncoded

end PolicyEngine.Sqlite
