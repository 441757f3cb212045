import PolicyEngine.Sqlite.Mutations
import PolicyEngine.Store.Queries

/-!
# Reads of the SQLite adapter

The lookups and listings of `revisions.go`, `slots.go` and `events.go`, and the
snapshot queries of `snapshot.go`. A listing is cut at its statements: each reads
the database as it is committed at that moment, so a call that runs among others
may see a different database in each. `SELECT … ORDER BY … LIMIT` is a filter, a
sort and a prefix; a `LIMIT` without an order takes the first row the table has.
-/

open PolicyEngine.Lib

namespace PolicyEngine.Sqlite

/-- The page of a listing that read one row more than its limit. -/
def cutPage {α : Type} (limit : Nat) (values : List α) : List α × Option α :=
  if values.length > limit then (values.take limit, (values.take limit).getLast?) else (values, none)

/-! ## Events -/

/-- The rows of `sequence > position`, in order. -/
def eventPageRows (db : Database) (namespace_ : Bytes) (position limit : Nat) : List EventRow :=
  (((eventsOf db namespace_).filter fun r => r.sequence.toInt > (Int64.ofNat position).toInt).mergeSort
    fun a b => a.sequence.toInt ≤ b.sequence.toInt).take (limit + 1)

section Listings

variable [Primitives]

def scanEvents (cursorKey namespace_ : Bytes) : Int → List EventRow → Result (List StateEvent)
  | _, [] => .ok []
  | previous, row :: rest => do
    require (row.sequence.toInt > 0 && row.sequence.toInt > previous) .integrity
    let event ← decodeStateEvent row.payload
    require (event.namespace_ = namespace_ && stateEventKindName event.kind = row.kind &&
      event.occurredAt = unixTime row.createdAtNS) .integrity
    let cursor ← orFail .integrity (decodeCursor cursorKey event.cursor .event namespace_ [])
    require (cursor.position = row.sequence.toInt.toNat) .integrity
    let events ← scanEvents cursorKey namespace_ row.sequence.toInt rest
    .ok (event :: events)

/-- The head read of ListEvents: the watermark that the cursor must be beyond. -/
def readEventHead (db : Database) (request : ListEventsRequest) (cursor : CursorState) : Result Unit := do
  let head ← readNamespaceHead db request.namespace_
  let expiredThrough := (head.map (·.expiredThrough.toInt.toNat)).getD 0
  require (request.afterCursor = [] || !(cursor.position ≤ expiredThrough || cursor.boundary > expiredThrough))
    .cursorExpired

/-- The row query of ListEvents, with the checks of its loop. -/
def readEventRows (s : Store) (db : Database) (request : ListEventsRequest) (cursor : CursorState) :
    Result (List StateEvent) :=
  scanEvents s.cursorKey request.namespace_ 0 (eventPageRows db request.namespace_ cursor.position request.limit)

def eventPage (request : ListEventsRequest) (events : List StateEvent) : Result (Page StateEvent) :=
  let (events, last) := cutPage request.limit events
  newListEventsResponse request events ((last.map (·.cursor)).getD [])

/-- What ListEvents checks before it touches the database. -/
def listEventsCursor (s : Store) (request : ListEventsRequest) : Result CursorState := do
  let _ ← newListEventsRequest request.namespace_ request.afterCursor request.limit
  decodeCursor s.cursorKey request.afterCursor .event request.namespace_ []

def listEvents (s : Store) (db : Database) (clock : Clock) (request : ListEventsRequest) :
    Result (Page StateEvent × Database) := do
  let cursor ← listEventsCursor s request
  let candidateNS ← canonicalClockNow clock
  let db ← pruneEventsForRead db candidateNS request.namespace_
  readEventHead db request cursor
  let events ← readEventRows s db request cursor
  let page ← eventPage request events
  .ok (page, db)

/-! ## Slots -/

def resolve (db : Database) (request : ResolveRequest) : Result Activation := do
  let _ ← newResolveRequest request.namespace_ request.slot
  match ← readSlotHead db request.namespace_ request.slot with
  | none => .error .notFound
  | some activation => newResolveResponse activation

/-- The first query of ListActivationHistory: the oldest retained generation, or zero. -/
def oldestGeneration (db : Database) (namespace_ slot : Bytes) : Nat :=
  (((generationsOf db namespace_ slot).mergeSort (· ≤ ·)).head?.getD 0).toNat

def checkHistoryCursor (request : ListActivationHistoryRequest) (cursor : CursorState) (oldest : Nat) : Result Unit :=
  require (request.cursor = [] || !(oldest > 0 && cursor.position < oldest)) .cursorExpired

/-- The rows of `generation > position`, in order. -/
def historyPageRows (db : Database) (namespace_ slot : Bytes) (position limit : Nat) : List ActivationRow :=
  (((historyOf db namespace_ slot).filter fun r => r.generation.toInt > (Int64.ofNat position).toInt).mergeSort
    fun a b => a.generation.toInt ≤ b.generation.toInt).take (limit + 1)

def scanHistory (namespace_ slot : Bytes) : Int → List ActivationRow → Result (List Activation)
  | _, [] => .ok []
  | previous, row :: rest => do
    require (row.generation.toInt > 0 && row.generation.toInt > previous) .integrity
    let activation ← orFail .integrity
      (newActivation namespace_ slot row.revisionID row.generation.toInt.toNat (unixTime row.activatedAtNS))
    let values ← scanHistory namespace_ slot row.generation.toInt rest
    .ok (activation :: values)

/-- The second query of ListActivationHistory, with the checks of its loop. -/
def readHistoryRows (db : Database) (request : ListActivationHistoryRequest) (cursor : CursorState) :
    Result (List Activation) :=
  scanHistory request.namespace_ request.slot 0
    (historyPageRows db request.namespace_ request.slot cursor.position request.limit)

def historyPage (s : Store) (request : ListActivationHistoryRequest) (oldest : Nat) (values : List Activation) :
    Result (Page Activation) := do
  let (values, last) := cutPage request.limit values
  let next ←
    match last with
    | none => .ok []
    | some activation =>
      newCursor s.cursorKey
        ⟨.history, request.namespace_, request.slot, activation.generation, oldest - 1, zeroTime, []⟩
  newListActivationHistoryResponse request values next

/-- What ListActivationHistory checks before it touches the database. -/
def listHistoryCursor (s : Store) (request : ListActivationHistoryRequest) : Result CursorState := do
  let _ ← newListActivationHistoryRequest request.namespace_ request.slot request.cursor request.limit
  decodeCursor s.cursorKey request.cursor .history request.namespace_ request.slot

def listActivationHistory (s : Store) (db : Database) (request : ListActivationHistoryRequest) :
    Result (Page Activation) := do
  let cursor ← listHistoryCursor s request
  let oldest := oldestGeneration db request.namespace_ request.slot
  checkHistoryCursor request cursor oldest
  let values ← readHistoryRows db request cursor
  historyPage s request oldest values

/-! ## Revisions -/

def getRevision (db : Database) (request : GetRevisionRequest) : Result RevisionRecord := do
  let _ ← newGetRevisionRequest request.namespace_ request.revisionID
  match ← readRevision db request.namespace_ request.revisionID with
  | none => .error .notFound
  | some record => .ok record

/-- Publication time first, then the revision id. -/
def revisionRowLE (a b : RevisionRow) : Bool :=
  a.publishedAtNS.toInt < b.publishedAtNS.toInt ||
    (a.publishedAtNS = b.publishedAtNS && compare a.revisionID b.revisionID != .gt)

/-- The rows after a publication time and id, in order. -/
def revisionPageRows (db : Database) (namespace_ : Bytes) (after : Option (Int64 × Bytes)) (limit : Nat) :
    List RevisionRow :=
  ((db.revisions.rows.filter fun r => r.namespace_ = namespace_ && after.all fun (nanos, id) =>
    r.publishedAtNS.toInt > nanos.toInt || (r.publishedAtNS = nanos && compare r.revisionID id = .gt)).mergeSort
      revisionRowLE).take (limit + 1)

def decodeRevisionMetadataColumns (namespace_ : Bytes) (row : RevisionRow) : Result RevisionMetadata := do
  let id ← orFail .integrity (parseRevisionID row.revisionID)
  orFail .integrity (newRevisionMetadata namespace_ id (unixTime row.publishedAtNS))

/-- Where a revision listing starts. -/
def revisionCursorStart (request : ListRevisionsRequest) (cursor : CursorState) : Result (Option (Int64 × Bytes)) :=
  if request.cursor = [] then .ok none
  else
    match sqliteTimestamp cursor.revisionPublishedAt with
    | none => .error .invalidArgument
    | some nanos => .ok (some (nanos, cursor.revisionID))

def listRevisions (s : Store) (db : Database) (request : ListRevisionsRequest) : Result (Page RevisionMetadata) := do
  let _ ← newListRevisionsRequest request.namespace_ request.cursor request.limit
  let cursor ← decodeCursor s.cursorKey request.cursor .revision request.namespace_ []
  let after ← revisionCursorStart request cursor
  let metadata ← (revisionPageRows db request.namespace_ after request.limit).mapM
    (decodeRevisionMetadataColumns request.namespace_)
  let (metadata, last) := cutPage request.limit metadata
  let next ←
    match last with
    | none => .ok []
    | some last => newCursor s.cursorKey ⟨.revision, request.namespace_, [], 0, 0, last.publishedAt, last.id⟩
  newListRevisionsResponse request metadata next

end Listings

/-! ## Snapshots -/

/-- A pinned read transaction. -/
structure Snapshot where
  db : Database
  namespace_ : Bytes
  generation : Nat
  readAtNS : Int64

def openPinnedSnapshot (db : Database) (namespace_ : Bytes) (readAtNS : Int64) : Result Snapshot := do
  let head ← readNamespaceHead db namespace_
  .ok ⟨db, namespace_, (head.map (·.dataGeneration.toInt.toNat)).getD 0, readAtNS⟩

/-- A row is read while it has not expired. -/
def active (readAtNS : Int64) (expiresAtNS : Option Int64) : Bool := expiresAtNS.all fun n => n.toInt > readAtNS.toInt

def tupleRows (snapshot : Snapshot) (query : TupleQuery) : List TupleRow :=
  ((snapshot.db.tuples.rows.filter fun r => r.namespace_ = snapshot.namespace_ && r.tuple.resource = query.resource &&
    r.tuple.relation = query.relation && active snapshot.readAtNS r.expiresAtNS).mergeSort
      fun a b => compareSubject a.tuple.subject b.tuple.subject != .gt).take (query.limit + 1)

/-- The loop of QueryTuples; `count` subjects were read before. -/
def scanTuples (query : TupleQuery) : Nat → List TupleRow → Result (List SubjectRef)
  | _, [] => .ok []
  | count, row :: rest => do
    let tuple ← decodeDurableTuple row.tupleKey row.tuple row.expiresAtNS
    require (tuple.tuple.resource = query.resource && tuple.tuple.relation = query.relation) .integrity
    require (count + 1 ≤ query.limit) .resourceExhausted
    let subjects ← scanTuples query (count + 1) rest
    .ok (tuple.tuple.subject :: subjects)

def queryTuples (snapshot : Snapshot) (query : TupleQuery) : Result (List SubjectRef) := do
  require query.valid .invalidArgument
  let subjects ← scanTuples query 0 (tupleRows snapshot query)
  newTupleResult query subjects

/-- The canonical key of a point read. -/
def canonicalAttributeKey (key : AttributeKey) : Result AttributeKey := do
  let canonical ← orFail .invalidArgument (newAttributeKeyPath key.entity key.path)
  require (canonical.path = key.path) .invalidArgument
  .ok canonical

def getAttribute (snapshot : Snapshot) (key : AttributeKey) : Result (Option Value) := do
  let canonical ← canonicalAttributeKey key
  let encoded ← encodeAttributeKey canonical
  match (snapshot.db.attributes.get? (snapshot.namespace_, encoded)).filter fun r =>
      active snapshot.readAtNS r.expiresAtNS with
  | none => newAttributeResult canonical .zero false
  | some row =>
    let attribute_ ← decodeDurableAttribute encoded row.path row.value row.entity
    require (attribute_.entity = canonical.entity && attribute_.path = canonical.path) .integrity
    newAttributeResult canonical attribute_.value true

/-- The join of an ancestor row with its attribute, kept while the attribute has not expired. -/
def joinAttribute (snapshot : Snapshot) (encoded : Bytes) (r : AncestorRow) : Option AttributeRow :=
  if r.namespace_ = snapshot.namespace_ ∧ r.ancestorPath = encoded then
    (snapshot.db.attributes.get? (r.namespace_, r.attributeKey)).filter fun a => active snapshot.readAtNS a.expiresAtNS
  else none

def hasAttributeDescendant (snapshot : Snapshot) (key : AttributeKey) : Result Bool := do
  let canonical ← canonicalAttributeKey key
  let encoded ← encodeAttributeKey canonical
  match snapshot.db.attributeAncestors.rows.findSome? (joinAttribute snapshot encoded) with
  | none => .ok false
  | some row =>
    let attribute_ ← decodeDurableAttribute row.attributeKey row.path row.value row.entity
    let attributeKey ← attributeKeyFromAttribute attribute_
    let prefixes ← strictAttributePrefixes attributeKey
    require (prefixes.contains encoded) .integrity
    .ok true

end PolicyEngine.Sqlite
