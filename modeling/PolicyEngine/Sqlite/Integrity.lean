import PolicyEngine.Lib.Compact
import PolicyEngine.Lib.Interval
import PolicyEngine.Sqlite.Mutations

/-!
# The full integrity check

The row-level checks of `fullIntegrityCheck` (`integrity.go`): one function per
table, each a scan that returns the first failure. A map that a scan builds to
refuse duplicate keys is the table itself, whose keys are distinct.
-/

open PolicyEngine.Lib

namespace PolicyEngine.Sqlite

/-! ## Bounds -/

def maxRevisionProvenanceBytes : Nat := 1 + 1 + 2 + maxSourceNameBytes + 4 + maxPolicySourceBytes
def maxTupleKeyBytes : Nat := 1 + 6 * (2 + maxIdentifierBytes)
def maxAttributeKeyBytes : Nat :=
  1 + 2 + maxIdentifierBytes + 2 + maxIdentifierBytes + 4 + maxAggregateInputBytes
def maxAttributeValueBytes : Nat := 1 + 1 + 4 + maxStringValueBytes
def maxStateEventPayloadBytes : Nat :=
  1 + 1 + 2 + maxNamespaceBytes + 3 * (2 + maxIdentifierBytes) + 8 + 8 + 8 + 4

def activationBounded (r : ActivationRow) : Bool :=
  r.namespace_.length ≤ maxNamespaceBytes && r.slot.length ≤ maxIdentifierBytes &&
    r.revisionID.length ≤ maxIdentifierBytes

def tupleBounded (r : TupleRow) : Bool :=
  r.namespace_.length ≤ maxNamespaceBytes && r.tupleKey.length ≤ maxTupleKeyBytes &&
    r.tuple.subject.type.length ≤ maxIdentifierBytes && r.tuple.subject.id.length ≤ maxIdentifierBytes &&
    r.tuple.subject.relation.length ≤ maxIdentifierBytes && r.tuple.relation.length ≤ maxIdentifierBytes &&
    r.tuple.resource.type.length ≤ maxIdentifierBytes && r.tuple.resource.id.length ≤ maxIdentifierBytes

def attributeBounded (r : AttributeRow) : Bool :=
  r.namespace_.length ≤ maxNamespaceBytes && r.attributeKey.length ≤ maxAttributeKeyBytes &&
    r.entity.type.length ≤ maxIdentifierBytes && r.entity.id.length ≤ maxIdentifierBytes &&
    r.path.length ≤ maxAggregateInputBytes && r.value.length ≤ maxAttributeValueBytes

def ancestorBounded (r : AncestorRow) : Bool :=
  r.namespace_.length ≤ maxNamespaceBytes && r.attributeKey.length ≤ maxAttributeKeyBytes &&
    r.ancestorPath.length ≤ maxAggregateInputBytes

def eventBounded (r : EventRow) : Bool :=
  r.namespace_.length ≤ maxNamespaceBytes && r.kind.length ≤ 32 && r.payload.length ≤ maxStateEventPayloadBytes

def idempotencyBounded (r : IdempotencyRow) : Bool :=
  r.namespace_.length ≤ maxNamespaceBytes && r.idempotencyKey.length ≤ maxIdentifierBytes &&
    r.fingerprint.length ≤ 1 + 32 && r.response.length ≤ 1 + 1 + 8

section

variable [Primitives]

def revisionBounded (r : RevisionRow) : Bool :=
  r.namespace_.length ≤ maxNamespaceBytes && r.revisionID.length ≤ maxIdentifierBytes &&
    r.artifact.length ≤ maxPolicyArtifactBytes && r.provenance.length ≤ maxRevisionProvenanceBytes

def validateFullValueBounds (db : Database) : Result Unit := do
  require (db.revisions.rows.all revisionBounded) .integrity
  require (db.slotHeads.rows.all activationBounded) .integrity
  require (db.activationHistory.rows.all activationBounded) .integrity
  require (db.tuples.rows.all tupleBounded) .integrity
  require (db.attributes.rows.all attributeBounded) .integrity
  require (db.attributeAncestors.rows.all ancestorBounded) .integrity
  require (db.stateEvents.rows.all eventBounded) .integrity
  require (db.idempotencyRecords.rows.all idempotencyBounded) .integrity
  require (db.namespaceHeads.rows.all fun r => r.namespace_.length ≤ maxNamespaceBytes) .integrity

end

/-! ## Heads, revisions and slots -/

def readCursorKey (db : Database) : Result Bytes := do
  require (db.cadrenaMeta.rows.length = 1) .integrity
  match db.cadrenaMeta.get? cursorKeyMetaKey with
  | none => .error .integrity
  | some (_, value) => if value.length ≠ 32 then .error .integrity else .ok value

def validateNamespaceHeadValues (head : HeadRow) : Result Unit := do
  require (validNamespace head.namespace_ && head.dataGeneration.toInt ≥ 0 && head.eventSequence.toInt ≥ 0 &&
    head.expiredThrough.toInt ≥ 0 && head.expiredThrough.toInt ≤ head.eventSequence.toInt) .integrity
  require (head.effectiveTimeNS.all validTimestamp) .integrity

def validateFullNamespaceHeads (db : Database) : Result Unit :=
  forM db.namespaceHeads.rows validateNamespaceHeadValues

def hasHead (db : Database) (namespace_ : Bytes) : Bool := (db.namespaceHeads.get? namespace_).isSome

def hasRevision (db : Database) (namespace_ revisionID : Bytes) : Bool :=
  (db.revisions.get? (namespace_, revisionID)).isSome

def validateFullRevisions [Primitives] (db : Database) : Result Unit :=
  forM db.revisions.rows fun row => do
    require (hasHead db row.namespace_) .integrity
    let _ ← decodeRevisionRecord row

/-- The checks that the two activation tables share. -/
def validateActivationRow (db : Database) (row : ActivationRow) : Result Unit := do
  require (row.generation.toInt > 0) .integrity
  require (hasHead db row.namespace_) .integrity
  require (hasRevision db row.namespace_ row.revisionID) .integrity
  let _ ← orFail .integrity
    (newActivation row.namespace_ row.slot row.revisionID row.generation.toInt.toNat (unixTime row.activatedAtNS))

def validateFullActivationHistory (db : Database) : Result Unit :=
  forM db.activationHistory.rows (validateActivationRow db)

/-- The history has the head's generation with the same activation. -/
def validateHeadRecord (db : Database) (row : ActivationRow) : Result Unit :=
  match db.activationHistory.get? row.historyKey with
  | none => .error .integrity
  | some record =>
    require (record.revisionID = row.revisionID && unixTime record.activatedAtNS = unixTime row.activatedAtNS) .integrity

def validateFullSlotHeads (db : Database) : Result Unit :=
  forM db.slotHeads.rows fun row => do
    validateActivationRow db row
    validateHeadRecord db row

/-- The retained generations of a slot, in order, are consecutive and end at its head. -/
def validateRetained (db : Database) (head : ActivationRow) : Result Unit := do
  let generations := (generationsOf db head.namespace_ head.slot).mergeSort (· ≤ ·)
  require (generations != []) .integrity
  require (generations.getLast? = some head.generation.toInt) .integrity
  require (generations.IsChain fun x y => y = x + 1) .integrity

/-- A history row is not beyond the head of its slot. -/
def validateCovered (db : Database) (row : ActivationRow) : Result Unit :=
  match db.slotHeads.get? row.slotKey with
  | none => .error .integrity
  | some head => require (row.generation.toInt ≤ head.generation.toInt) .integrity

def validateFullHistoryHeads (db : Database) : Result Unit := do
  forM db.activationHistory.rows (validateCovered db)
  forM db.slotHeads.rows (validateRetained db)

/-! ## Tuples and attributes -/

def validateFullTuples (db : Database) : Result Unit :=
  forM db.tuples.rows fun row => do
    require (hasHead db row.namespace_) .integrity
    let _ ← decodeDurableTuple row.tupleKey row.tuple row.expiresAtNS

/-- The ancestor rows that an attribute row must have. -/
def expectedAncestors (db : Database) (row : AttributeRow) : Result (List AncestorRow) := do
  require (hasHead db row.namespace_) .integrity
  let attribute_ ← decodeDurableAttribute row.attributeKey row.path row.value row.entity
  require (row.expiresAtNS.all validTimestamp) .integrity
  let attributeKey ← attributeKeyFromAttribute attribute_
  let prefixes ← strictAttributePrefixes attributeKey
  .ok (prefixes.map fun ancestor => ⟨row.namespace_, row.attributeKey, ancestor⟩)

/-- An ancestor row strikes itself off the expected ones. -/
def strikeAncestor (db : Database) (expected : List AncestorRow) (row : AncestorRow) : Result (List AncestorRow) := do
  require (db.attributes.get? (row.namespace_, row.attributeKey)).isSome .integrity
  let _ ← decodeAttributeKey row.attributeKey
  let _ ← decodeAttributeKey row.ancestorPath
  require (expected.contains row) .integrity
  .ok (expected.filter (· ≠ row))

def validateFullAttributes (db : Database) : Result Unit := do
  let expected ← db.attributes.rows.mapM (expectedAncestors db)
  let left ← db.attributeAncestors.rows.foldlM (strikeAncestor db) expected.flatten
  require (left = []) .integrity

/-! ## Events and idempotency records -/

/-- What an event refers to must exist. -/
def validateEventReferences (db : Database) (head : HeadRow) (event : StateEvent) : Result Unit :=
  match event.kind with
  | .revisionPublished => require (hasRevision db head.namespace_ event.revisionID) .integrity
  | .slotActivated => do
    match db.slotHeads.get? (head.namespace_, event.slot) with
    | none => .error .integrity
    | some slot => require (event.slotGeneration ≤ slot.generation.toInt.toNat) .integrity
    require (hasRevision db head.namespace_ event.revisionID) .integrity
  | .dataWritten => require (event.dataGeneration ≤ head.dataGeneration.toInt.toNat) .integrity

/-- `ORDER BY namespace, sequence`. -/
def compareEventRow : EventRow → EventRow → Ordering :=
  compareLex (compareOn EventRow.namespace_) (compareOn fun r => r.sequence.toInt)

instance : Std.TransCmp compareEventRow :=
  inferInstanceAs (Std.TransCmp (compareLex (compareOn EventRow.namespace_) (compareOn fun r => r.sequence.toInt)))

section

variable [Primitives]

/-- What an event row must be, whatever came before it. -/
def validateEventRow (key : Bytes) (db : Database) (head : HeadRow) (row : EventRow) : Result Unit := do
  let event ← decodeStateEvent row.payload
  require (validTimestamp row.createdAtNS && event.namespace_ = row.namespace_ &&
    stateEventKindName event.kind = row.kind && event.occurredAt = unixTime row.createdAtNS) .integrity
  let cursor ← orFail .integrity (decodeCursor key event.cursor .event row.namespace_ [])
  require (cursor.position = row.sequence.toInt.toNat && cursor.boundary ≤ head.expiredThrough.toInt.toNat) .integrity
  validateEventReferences db head event

/-- One row of the event scan; `last` is the last sequence seen in each namespace. -/
def scanEventRow (key : Bytes) (db : Database) (last : Bytes → Option Int) (row : EventRow) :
    Result (Bytes → Option Int) := do
  require (row.sequence.toInt > 0) .integrity
  match db.namespaceHeads.get? row.namespace_ with
  | none => .error .integrity
  | some head =>
    require (row.sequence.toInt ≤ head.eventSequence.toInt && row.sequence.toInt > head.expiredThrough.toInt) .integrity
    require (row.sequence.toInt = (last row.namespace_).getD head.expiredThrough.toInt + 1) .integrity
    validateEventRow key db head row
    .ok fun ns => if ns = row.namespace_ then some row.sequence.toInt else last ns

def validateFullEvents (key : Bytes) (db : Database) : Result Unit := do
  let last ← (sortBy compareEventRow db.stateEvents.rows).foldlM (scanEventRow key db) fun _ => none
  forM db.namespaceHeads.rows fun head =>
    require ((last head.namespace_).getD head.expiredThrough.toInt = head.eventSequence.toInt) .integrity

end

/-- One row of the idempotency scan; `seen` are the generations answered in each namespace. -/
def scanIdempotencyRow (db : Database) (seen : Bytes → List Nat) (row : IdempotencyRow) : Result (Bytes → List Nat) :=
  match db.namespaceHeads.get? row.namespace_ with
  | none => .error .integrity
  | some head => do
    let _ ← orFail .integrity (newResolveRequest row.namespace_ row.idempotencyKey)
    let _ ← decodeIdempotencyFingerprint row.fingerprint
    let decoded ← orFail .integrity (decodeIdempotencyResponse row.response false)
    require (decoded.generation ≤ head.dataGeneration.toInt.toNat) .integrity
    require (!(seen row.namespace_).contains decoded.generation) .integrity
    .ok fun ns => if ns = row.namespace_ then decoded.generation :: seen ns else seen ns

def validateFullIdempotency (db : Database) : Result Unit := do
  let seen ← db.idempotencyRecords.rows.foldlM (scanIdempotencyRow db) fun _ => []
  forM db.namespaceHeads.rows fun head =>
    require ((seen head.namespace_).length = head.dataGeneration.toInt.toNat) .integrity

/-- The row-level checks, in the order of the source. -/
def fullIntegrityCheck [Primitives] (db : Database) : Result Unit := do
  let key ← readCursorKey db
  validateFullValueBounds db
  validateFullNamespaceHeads db
  validateFullRevisions db
  validateFullActivationHistory db
  validateFullSlotHeads db
  validateFullHistoryHeads db
  validateFullTuples db
  validateFullAttributes db
  validateFullEvents key db
  validateFullIdempotency db

end PolicyEngine.Sqlite
