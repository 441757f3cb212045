import PolicyEngine.Spec.Dataset
import PolicyEngine.Store.Queries

/-!
# The snapshot port

The `Snapshot` interface of `store/data.go`: what an evaluation may ask of one pinned
view. The adapters implement it; an evaluation sees only this.
-/

open PolicyEngine.Lib

namespace PolicyEngine

/-- The key that was asked for, and the value found; `valid` is the constructor's mark. -/
structure AttributeResult where
  key : AttributeKey
  value : Value
  found : Bool
  valid : Bool
  deriving DecidableEq, Repr

def AttributeResult.Value (r : AttributeResult) : Option Value := if r.found then some r.value else none

def AttributeResult.Valid (r : AttributeResult) : Bool := r.valid && (newAttributeResult r.key r.value r.found).isOk

structure Snapshot where
  namespace_ : Bytes
  generation : UInt64
  readAt : Time
  /-- The subjects of a result, which carries its query along. -/
  queryTuples : TupleQuery → Result (List SubjectRef)
  getAttribute : AttributeKey → Result AttributeResult
  hasAttributeDescendant : AttributeKey → Result Bool
  close : Result Unit

end PolicyEngine
