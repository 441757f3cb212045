import PolicyEngine.Core.Decision
import PolicyEngine.Lib.PathTrie

/-!
# The policy language, as the engine uses it

`github.com/cadrena/dsl` is not part of this repository. What the engine takes from it
are the fields of `Dsl`: the parsed declarations of an artifact, and the check of a
request, which is a deterministic function of the request and of the tuples it reads. A
check is therefore the tree of its reads. A read that fails ends the check with the
reader's error (`E_CHECK_TUPLE_READER`).
-/

open PolicyEngine.Lib

namespace PolicyEngine.App

/-! ## Declarations -/

structure RelationTarget where
  entity : Bytes
  relation : Bytes
  deriving DecidableEq, Repr

structure RelationDeclaration where
  name : Bytes
  targets : List RelationTarget
  deriving DecidableEq, Repr

/-- An entity with the names of its permissions and actions. -/
structure EntityDeclaration where
  name : Bytes
  relations : List RelationDeclaration
  permissions : List Bytes
  actions : List Bytes
  deriving DecidableEq, Repr

inductive Condition where
  | comparison (field : List Bytes)
  | logical (left right : Condition)
  /-- Any expression the engine does not look into. -/
  | other
  deriving DecidableEq, Repr

/-- The guard of an action, with the conditions of its rules. -/
structure Guard where
  entity : Bytes
  action : Bytes
  conditions : List Condition
  deriving DecidableEq, Repr

structure Schema where
  entities : List EntityDeclaration
  guards : List Guard
  deriving DecidableEq, Repr

/-! ## Checks -/

/-- The primitive values of a request. -/
inductive Scalar where
  | string (text : Bytes)
  | integer (value : Int64)
  | boolean (value : Bool)
  | null
  deriving DecidableEq, Repr

/-- A `map[string]any` of scalars and further maps. -/
abbrev ResourceAttributes := List (Bytes × Nested Bytes Scalar)

structure DslRequest where
  subject : EntityRef
  resource : EntityRef
  action : Bytes
  arguments : StringMap Scalar
  resourceAttributes : ResourceAttributes

inductive DslDecision where
  | allow
  | deny
  | requireApproval
  | other
  deriving DecidableEq, Repr

structure TraceStep where
  resource : EntityRef
  declaration : Bytes
  kind : Bytes
  matched : Bool
  deriving DecidableEq, Repr

structure DslResult where
  decision : DslDecision
  reason : Bytes
  requiredApprovals : List Bytes
  trace : List TraceStep
  deriving DecidableEq, Repr

/-- The errors a check ends with of its own: `E_CHECK_MAX_DEPTH`, or another code. -/
inductive CheckFailure where
  | maxDepth
  | other
  deriving DecidableEq, Repr

/-- `sanitizeEvaluationError`, for the check's own errors. -/
def CheckFailure.category : CheckFailure → ErrorCategory
  | .maxDepth => .resourceExhausted
  | .other => .failedPrecondition

inductive CheckTree where
  | done (result : Except CheckFailure DslResult)
  | read (resource : EntityRef) (relation : Bytes) (next : List SubjectRef → CheckTree)

/-- What the engine takes from the language. -/
class Dsl extends Primitives where
  /-- The declarations of an artifact's canonical source. -/
  parse : Artifact → Option Schema
  hasProgram : Artifact → Bool
  check : Artifact → DslRequest → CheckTree

/-- Runs a check over a way to read tuples. -/
def CheckTree.run {m : Type → Type} [Monad m] [MonadExceptOf ErrorCategory m]
    (readTuples : EntityRef → Bytes → m (List SubjectRef)) : CheckTree → m DslResult
  | .done (.ok result) => pure result
  | .done (.error failure) => throw failure.category
  | .read resource relation next => do
    let subjects ← readTuples resource relation
    (next subjects).run readTuples

end PolicyEngine.App
