import PolicyEngine.App.Schema

/-!
# Reading a pinned snapshot

`internal/evaluator`: the tuples and attributes an evaluation sees are those of its
snapshot together with the contextual facts of the request. Contexts are alive, so the
checks of a context drop out.
-/

open PolicyEngine.Lib

namespace PolicyEngine.App

/-- One snapshot with request-scoped additive facts. -/
structure SnapshotReader where
  snapshot : Snapshot
  contextual : ContextualData

/-! ## Tuples -/

/-- Appends unless the value repeats the last one. -/
def appendSubject (canonical : List SubjectRef) (subject : SubjectRef) : List SubjectRef :=
  if canonical.getLast? = some subject then canonical else canonical ++ [subject]

/-- The merge loop of `canonicalSubjects`. -/
def mergeSubjects (canonical : List SubjectRef) : (contextual persistent : List SubjectRef) → List SubjectRef
  | [], persistent => persistent.foldl appendSubject canonical
  | contextual, [] => contextual.foldl appendSubject canonical
  | c :: contextual, p :: persistent =>
    match compareSubject c p with
    | .lt => mergeSubjects (appendSubject canonical c) contextual (p :: persistent)
    | .eq => mergeSubjects (appendSubject canonical c) contextual persistent
    | .gt => mergeSubjects (appendSubject canonical p) (c :: contextual) persistent
termination_by contextual persistent => contextual.length + persistent.length

def canonicalSubjects (contextual persistent : List SubjectRef) : List SubjectRef :=
  mergeSubjects [] contextual persistent

/-- The contextual tuple is of the bucket, and has not expired. -/
def SnapshotReader.matchesBucket (r : SnapshotReader) (resource : EntityRef) (relation : Bytes)
    (t : RelationshipTuple) : Bool :=
  t.tuple.resource = resource && t.tuple.relation = relation && !(t.hasExpiry && t.expiresAt ≤ r.snapshot.readAt)

def SnapshotReader.ReadTuples (r : SnapshotReader) (resource : EntityRef) (relation : Bytes) :
    Result (List SubjectRef) := do
  let query ← orFail .invalidArgument (newTupleQuery resource relation maxAggregateWorkItems)
  let subjects := (r.contextual.tuples.filter (r.matchesBucket resource relation)).map (·.tuple.subject)
  let persistent ← r.snapshot.queryTuples query
  require (persistent.length ≤ maxAggregateWorkItems - subjects.length) .resourceExhausted
  let subjects := canonicalSubjects subjects persistent
  require (subjects.length ≤ maxAggregateWorkItems) .resourceExhausted
  .ok subjects

/-! ## Values -/

def resolveValue (value : Value) : Result Scalar :=
  match value.kind with
  | .string => .ok (.string value.text)
  | .integer => .ok (.integer value.integer)
  | .boolean => .ok (.boolean value.boolean)
  | .null => .ok .null
  | .unset => .error .invalidArgument

def ResolveArguments (arguments : Arguments) : Result (StringMap Scalar) :=
  arguments.sortedEntries.foldlM (fun resolved (name, value) => do
    let converted ← resolveValue value
    .ok (resolved.insert name converted)) ∅

/-! ## Attributes -/

def pathPrefix (left right : Path) : Bool := left.length < right.length && left.isPrefixOf right

/-- The value of the last contextual attribute at a path. -/
def SnapshotReader.contextualValue (r : SnapshotReader) (entity : EntityRef) (path : Path) : Option Value :=
  r.contextual.attributes.foldl
    (fun found a => if a.entity = entity ∧ a.path = path then some a.value else found) none

/-- Some contextual attribute of the entity stands strictly above or below the path. -/
def SnapshotReader.contextualPathConflict (r : SnapshotReader) (entity : EntityRef) (path : Path) : Bool :=
  r.contextual.attributes.any fun a => a.entity = entity && a.path ≠ path &&
    (pathPrefix a.path path || pathPrefix path a.path)

def SnapshotReader.rejectPersistentPathConflict (r : SnapshotReader) (entity : EntityRef) (path : Path)
    (key : AttributeKey) : Result Unit := do
  let descendant ← r.snapshot.hasAttributeDescendant key
  require (!descendant) .invalidArgument
  forM (List.range' 1 (path.length - 1)) fun index => do
    let ancestor ← orFail .invalidArgument (newAttributeKeyPath entity (path.take index))
    let result ← r.snapshot.getAttribute ancestor
    require (result.Valid && decide (result.key = ancestor)) .integrity
    require (!result.found) .invalidArgument

def SnapshotReader.ResolveAttribute (r : SnapshotReader) (entity : EntityRef) (path : Path) :
    Result (Option Scalar) := do
  let key ← orFail .invalidArgument (newAttributeKeyPath entity path)
  let contextual := r.contextualValue entity path
  let persistent ← r.snapshot.getAttribute key
  require (persistent.Valid && decide (persistent.key = key)) .integrity
  require (!(persistent.found && r.contextualPathConflict entity path)) .invalidArgument
  match contextual with
  | some value => do
    require (!persistent.found || decide (value = persistent.value)) .invalidArgument
    r.rejectPersistentPathConflict entity path key
    let converted ← resolveValue value
    .ok (some converted)
  | none =>
    match persistent.Value with
    | none => .ok none
    | some value => do
      let converted ← resolveValue value
      .ok (some converted)

end PolicyEngine.App
