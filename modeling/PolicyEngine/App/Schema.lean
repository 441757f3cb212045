import PolicyEngine.App.Dsl
import PolicyEngine.Store.Snapshot

/-!
# The data shape of a policy

`internal/domain`: what a policy's declarations say about tuples and attributes, and
how contextual facts are checked against them and against the stored attributes.
-/

open PolicyEngine.Lib

namespace PolicyEngine.App

abbrev AttributePathTrie := PathTrie Bytes

structure DataEntity where
  relations : StringMap (List RelationTarget)
  attributePaths : AttributePathTrie

structure DataSchema where
  entities : StringMap DataEntity
  resourcePaths : Finmap fun _ : Bytes × Bytes => List Path

/-- Inserts the path of every comparison on a field of the resource. -/
def collectResourcePaths (paths : AttributePathTrie) : Condition → AttributePathTrie
  | .comparison (root :: segment :: rest) =>
    if root = ascii "resource" then PathTrie.insert compare paths (segment :: rest) else paths
  | .comparison _ => paths
  | .logical left right => collectResourcePaths (collectResourcePaths paths left) right
  | .other => paths

def newDataEntity (entity : EntityDeclaration) : DataEntity where
  relations := entity.relations.foldl (fun relations r => relations.insert r.name r.targets) ∅
  attributePaths := .empty

/-- Indexes one guard: its paths join those of its entity and become those of its action. -/
def DataSchema.addGuard (result : DataSchema) (guard : Guard) : Result DataSchema :=
  match result.entities.lookup guard.entity with
  | none => .error .integrity
  | some entity =>
    let indexed := { entity with attributePaths := guard.conditions.foldl collectResourcePaths entity.attributePaths }
    let paths := guard.conditions.foldl collectResourcePaths .empty
    .ok { entities := result.entities.insert guard.entity indexed
          resourcePaths := result.resourcePaths.insert (guard.entity, guard.action) (paths.paths []) }

def newDataSchema [Dsl] (artifact : Artifact) : Result DataSchema :=
  match Dsl.parse artifact with
  | none => .error .integrity
  | some schema =>
    schema.guards.foldlM DataSchema.addGuard
      ⟨schema.entities.foldl (fun entities e => entities.insert e.name (newDataEntity e)) ∅, ∅⟩

/-- The paths of the guard of an action. -/
def DataSchema.ResourcePaths (s : DataSchema) (entity action : Bytes) : List Path :=
  (s.resourcePaths.lookup (entity, action)).getD []

/-! ## Tuples -/

def DataSchema.validTuple (s : DataSchema) (tuple : Tuple) : Bool :=
  match s.entities.lookup tuple.resource.type with
  | none => false
  | some entity =>
    match entity.relations.lookup tuple.relation with
    | none => false
    | some targets => targets.any fun target =>
      target.entity = tuple.subject.type && target.relation = tuple.subject.relation

def DataSchema.ValidateContextualTuples (s : DataSchema) (contextual : ContextualData) : Result Unit :=
  forM contextual.tuples fun tuple => require (s.validTuple tuple.tuple) .invalidArgument

/-! ## Attributes -/

def DataSchema.validAttributePath (s : DataSchema) (entity : EntityRef) (path : Path) : Bool :=
  match s.entities.lookup entity.type with
  | none => false
  | some indexed => indexed.attributePaths.contains path

def equalValue (left right : Value) : Bool :=
  left.kind = right.kind &&
    match left.kind with
    | .string => left.text == right.text
    | .integer => left.integer == right.integer
    | .boolean => left.boolean == right.boolean
    | .null => true
    | .unset => false

/-- Looks up the first `length` segments of an attribute's path. A stored attribute there
is an override, unless the path is the whole one and the value the same. -/
def checkStoredPrefix (snapshot : Snapshot) (a : Attribute) (exactDuplicate : Bool) (length : Nat) :
    Result Bool := do
  let key ← newAttributeKeyPath a.entity (a.path.take length)
  let persistent ← snapshot.getAttribute key
  require (persistent.Valid && decide (persistent.key = key)) .integrity
  match persistent.Value with
  | none => .ok exactDuplicate
  | some value => do
    require (length = a.path.length && equalValue value a.value) .invalidArgument
    .ok true

/-- Whether an attribute adds to the stored ones; it fails when it would override one. -/
def DataSchema.additive (s : DataSchema) (snapshot : Snapshot) (a : Attribute) : Result Bool := do
  require (s.validAttributePath a.entity a.path) .invalidArgument
  let exactDuplicate ← (List.range' 1 a.path.length).foldlM (checkStoredPrefix snapshot a) false
  let key ← newAttributeKeyPath a.entity a.path
  let hasDescendant ← snapshot.hasAttributeDescendant key
  require (!hasDescendant) .invalidArgument
  .ok !exactDuplicate

def DataSchema.NormalizeContextualData (s : DataSchema) (snapshot : Snapshot) (contextual : ContextualData) :
    Result ContextualData := do
  let validated ← newContextualData contextual.tuples contextual.attributes
  let additive ← validated.attributes.foldlM (fun additive a => do
    let adds ← s.additive snapshot a
    .ok (if adds then additive ++ [a] else additive)) []
  newContextualData validated.tuples additive

end PolicyEngine.App
