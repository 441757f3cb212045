import PolicyEngine.Lib.Table
import PolicyEngine.Sqlite.Cursors
import PolicyEngine.Sqlite.DataCodec

/-!
# Tables, namespace heads and events

The schema of `0001_initial.sql` and the functions of `events.go` that run inside a
write transaction. TEXT and BLOB columns are byte strings, INTEGER columns are
64-bit, a nullable column is an `Option`. A function of a transaction takes the
database and returns its result with the database it leaves; an error leaves the
caller to roll back, so no database goes with it.
-/

open PolicyEngine.Lib

namespace PolicyEngine.Sqlite

/-! ## Rows -/

structure HeadRow where
  namespace_ : Bytes
  dataGeneration : Int64
  eventSequence : Int64
  expiredThrough : Int64
  effectiveTimeNS : Option Int64
  deriving DecidableEq

structure RevisionRow where
  namespace_ : Bytes
  revisionID : Bytes
  artifact : Bytes
  provenance : Bytes
  publishedAtNS : Int64
  deriving DecidableEq

/-- A row of `slot_heads` or of `activation_history`. -/
structure ActivationRow where
  namespace_ : Bytes
  slot : Bytes
  revisionID : Bytes
  generation : Int64
  activatedAtNS : Int64
  deriving DecidableEq

/-- The six reference columns are one tuple. -/
structure TupleRow where
  namespace_ : Bytes
  tupleKey : Bytes
  tuple : Tuple
  expiresAtNS : Option Int64
  deriving DecidableEq

/-- The two entity columns are one entity. -/
structure AttributeRow where
  namespace_ : Bytes
  attributeKey : Bytes
  entity : EntityRef
  path : Bytes
  value : Bytes
  expiresAtNS : Option Int64
  deriving DecidableEq

structure AncestorRow where
  namespace_ : Bytes
  attributeKey : Bytes
  ancestorPath : Bytes
  deriving DecidableEq

structure EventRow where
  namespace_ : Bytes
  sequence : Int64
  kind : Bytes
  payload : Bytes
  createdAtNS : Int64
  deriving DecidableEq

structure IdempotencyRow where
  namespace_ : Bytes
  idempotencyKey : Bytes
  fingerprint : Bytes
  response : Bytes
  deriving DecidableEq

/-! Primary keys. -/

def RevisionRow.key (r : RevisionRow) : Bytes × Bytes := (r.namespace_, r.revisionID)
def ActivationRow.slotKey (r : ActivationRow) : Bytes × Bytes := (r.namespace_, r.slot)
def ActivationRow.historyKey (r : ActivationRow) : Bytes × Bytes × Int64 := (r.namespace_, r.slot, r.generation)
def TupleRow.key (r : TupleRow) : Bytes × Bytes := (r.namespace_, r.tupleKey)
def AttributeRow.key (r : AttributeRow) : Bytes × Bytes := (r.namespace_, r.attributeKey)
def AncestorRow.key (r : AncestorRow) : Bytes × Bytes × Bytes := (r.namespace_, r.attributeKey, r.ancestorPath)
def EventRow.key (r : EventRow) : Bytes × Int64 := (r.namespace_, r.sequence)
def IdempotencyRow.key (r : IdempotencyRow) : Bytes × Bytes := (r.namespace_, r.idempotencyKey)

structure Database where
  cadrenaMeta : Table (Prod.fst : Bytes × Bytes → Bytes)
  namespaceHeads : Table HeadRow.namespace_
  revisions : Table RevisionRow.key
  slotHeads : Table ActivationRow.slotKey
  activationHistory : Table ActivationRow.historyKey
  tuples : Table TupleRow.key
  attributes : Table AttributeRow.key
  attributeAncestors : Table AncestorRow.key
  stateEvents : Table EventRow.key
  idempotencyRecords : Table IdempotencyRow.key

def cursorKeyMetaKey : Bytes := ascii "cursor_hmac_key"

/-- The database that the migration leaves; its cursor key is drawn at random. -/
def Database.migrated (cursorKey : Bytes) : Database where
  cadrenaMeta := Table.empty.set (cursorKeyMetaKey, cursorKey)
  namespaceHeads := .empty
  revisions := .empty
  slotHeads := .empty
  activationHistory := .empty
  tuples := .empty
  attributes := .empty
  attributeAncestors := .empty
  stateEvents := .empty
  idempotencyRecords := .empty

/-- What a store handle holds beside its connections. -/
structure Store where
  cursorKey : Bytes
  activationHistoryRetention : Nat

/-- SQL INSERT: a taken key or a missing parent row is a constraint violation, which `mapError` reports
as INTERNAL. -/
def insertRow {ρ κ : Type} {key : ρ → κ} [DecidableEq κ] (t : Table key) (r : ρ) : Result (Table key) :=
  match t.insert? r with
  | none => .error .internal
  | some t => .ok t

theorem insertRow_eq {ρ κ : Type} {key : ρ → κ} [DecidableEq κ] {t : Table key} {r : ρ} (h : ∀ x ∈ t, key x ≠ key r) :
    insertRow t r = .ok (t.set r) := by
  rw [insertRow, Table.insert?_eq_some.2 ⟨h, rfl⟩]

/-! ## Namespace heads -/

/-- The row that an INSERT of the namespace alone creates. -/
def HeadRow.initial (namespace_ : Bytes) : HeadRow := ⟨namespace_, 0, 0, 0, none⟩

/-- `none` stands for `sql.ErrNoRows`. -/
def readNamespaceHead (db : Database) (namespace_ : Bytes) : Result (Option HeadRow) :=
  match db.namespaceHeads.get? namespace_ with
  | none => .ok none
  | some head =>
    if head.dataGeneration.toInt < 0 ∨ head.eventSequence.toInt < 0 ∨ head.expiredThrough.toInt < 0 ∨
        head.expiredThrough.toInt > head.eventSequence.toInt then .error .integrity
    else .ok (some head)

def ensureNamespaceHead (db : Database) (namespace_ : Bytes) : Result (HeadRow × Database) := do
  let db :=
    match db.namespaceHeads.get? namespace_ with
    | some _ => db
    | none => { db with namespaceHeads := db.namespaceHeads.set (.initial namespace_) }
  match ← readNamespaceHead db namespace_ with
  | none => .error .internal
  | some head => .ok (head, db)

def updateHead (db : Database) (namespace_ : Bytes) (f : HeadRow → HeadRow) : Database :=
  { db with namespaceHeads := db.namespaceHeads.update namespace_ f }

/-! ## Clocks -/

/-- A reading; `none` is a clock that panics. -/
abbrev Clock := Option Int

def canonicalClockNow (clock : Clock) : Result Int64 :=
  match clock with
  | none => .error .internal
  | some now =>
    match sqliteTimestamp now with
    | none => .error .internal
    | some nanos => .ok nanos

/-- The effective time of a namespace never goes back. -/
def effectiveTime (head : HeadRow) (candidateNS : Int64) : Int64 :=
  match head.effectiveTimeNS with
  | none => candidateNS
  | some stored => if candidateNS.toInt < stored.toInt then stored else candidateNS

/-- Writes the effective time when it moves. -/
def advanceEffectiveTime (db : Database) (head : HeadRow) (effectiveNS : Int64) : Database :=
  if head.effectiveTimeNS = some effectiveNS then db
  else updateHead db head.namespace_ fun head => { head with effectiveTimeNS := some effectiveNS }

def effectiveNow (db : Database) (clock : Clock) (namespace_ : Bytes) : Result (Int × Database) := do
  let candidateNS ← canonicalClockNow clock
  let (head, db) ← ensureNamespaceHead db namespace_
  let effectiveNS := effectiveTime head candidateNS
  .ok (unixTime effectiveNS, advanceEffectiveTime db head effectiveNS)

/-! ## Events -/

def eventRetentionLimit : Nat := maxAggregateWorkItems

/-- Twenty-four hours. -/
def eventRetentionDuration : Int := 86400000000000

def minInt64 : Int := -2 ^ 63

/-- The sequence and the boundary of the next event. -/
def nextEventSequence (db : Database) (namespace_ : Bytes) : Result ((Int64 × Int64) × Database) := do
  let (head, db) ← ensureNamespaceHead db namespace_
  if head.eventSequence.toInt = maxInt64 then .error .resourceExhausted
  else
    let next := head.eventSequence + 1
    .ok ((next, head.expiredThrough), updateHead db namespace_ fun head => { head with eventSequence := next })

def stateEventKindName : StateEventKind → Bytes
  | .revisionPublished => ascii "revision_published"
  | .slotActivated => ascii "slot_activated"
  | .dataWritten => ascii "data_written"

/-- The events of a namespace. -/
def eventsOf (db : Database) (namespace_ : Bytes) : List EventRow :=
  db.stateEvents.rows.filter fun r => r.namespace_ = namespace_

def sequencesOf (db : Database) (namespace_ : Bytes) : List Int := (eventsOf db namespace_).map (·.sequence.toInt)

theorem mem_sequencesOf {db ns x} :
    x ∈ sequencesOf db ns ↔ ∃ r ∈ db.stateEvents, r.namespace_ = ns ∧ r.sequence.toInt = x := by
  simp [sequencesOf, eventsOf, Table.mem_def, and_assoc]

/-- The last sequence that time retention gives up, or zero. -/
def timeCutoff (db : Database) (namespace_ : Bytes) (effectiveNowNS : Int64) : Int :=
  let timeThreshold :=
    if effectiveNowNS.toInt ≥ minInt64 + eventRetentionDuration then effectiveNowNS.toInt - eventRetentionDuration
    else minInt64
  (((eventsOf db namespace_).filter fun r => r.createdAtNS.toInt ≤ timeThreshold).map (·.sequence.toInt)).max?.getD 0

/-- The last sequence that count retention gives up, or zero. -/
def countCutoff (db : Database) (namespace_ : Bytes) : Int :=
  ((sequencesOf db namespace_).mergeSort (· ≥ ·))[eventRetentionLimit]?.getD 0

/-- Deletes one prefix of the sequence and moves the watermark to its end. -/
def expireThrough (db : Database) (namespace_ : Bytes) (cutoff : Int) : Database :=
  updateHead
    { db with stateEvents := db.stateEvents.deleteWhere fun r => r.namespace_ = namespace_ ∧ r.sequence.toInt ≤ cutoff }
    namespace_ fun head =>
      if head.expiredThrough.toInt < cutoff then { head with expiredThrough := Int64.ofInt cutoff } else head

def pruneEvents (db : Database) (namespace_ : Bytes) (effectiveNowNS : Int64) : Database :=
  let cutoff := max (timeCutoff db namespace_ effectiveNowNS) (countCutoff db namespace_)
  if cutoff ≤ 0 then db else expireThrough db namespace_ cutoff

/-- The write transaction of `pruneEventsForRead`, after its clock reading. -/
def pruneEventsForRead (db : Database) (candidateNS : Int64) (namespace_ : Bytes) : Result Database := do
  match ← readNamespaceHead db namespace_ with
  | none => .ok db
  | some head =>
    let effectiveNS := effectiveTime head candidateNS
    .ok (pruneEvents (advanceEffectiveTime db head effectiveNS) namespace_ effectiveNS)

variable [Primitives]

/-- The input's cursor and time are filled in here. -/
def appendStateEvent (s : Store) (db : Database) (input : StateEvent) (occurredAt : Int) : Result Database := do
  let ((sequence, boundary), db) ← nextEventSequence db input.namespace_
  let cursor ← newCursor s.cursorKey
    ⟨.event, input.namespace_, [], sequence.toInt.toNat, boundary.toInt.toNat, zeroTime, []⟩
  match newStateEvent { input with cursor := cursor, occurredAt := occurredAt } with
  | .error _ => .error .internal
  | .ok event =>
    let payload ← encodeStateEvent event
    match sqliteTimestamp event.occurredAt with
    | none => .error .internal
    | some occurredAtNS =>
      let stateEvents ← insertRow db.stateEvents
        ⟨input.namespace_, sequence, stateEventKindName event.kind, payload, occurredAtNS⟩
      .ok (pruneEvents { db with stateEvents := stateEvents } input.namespace_ occurredAtNS)

end PolicyEngine.Sqlite
