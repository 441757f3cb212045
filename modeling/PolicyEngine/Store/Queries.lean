import PolicyEngine.Core.Order

/-!
# Snapshot queries and results

The part of `store/data.go` that both adapters build their reads from: the bounded
tuple query and the two result constructors.
-/

open PolicyEngine.Lib

namespace PolicyEngine

/-! ## Tuples -/

structure TupleQuery where
  resource : EntityRef
  relation : Bytes
  limit : Nat
  deriving DecidableEq, Repr

/-- The subject that completes a query to a tuple for its check. -/
def querySubject : SubjectRef := ⟨ascii "query", ascii "validation", []⟩

def newTupleQuery (resource : EntityRef) (relation : Bytes) (limit : Nat) : Result TupleQuery := do
  require (limit != 0) .invalidArgument
  require (limit ≤ maxAggregateWorkItems) .resourceExhausted
  let _ ← newTupleKey ⟨resource, relation, querySubject⟩
  .ok ⟨resource, relation, limit⟩

def TupleQuery.valid (q : TupleQuery) : Bool := newTupleQuery q.resource q.relation q.limit = .ok q

def addTupleResultCost (b : BudgetCounter) (query : TupleQuery) (subjects : List SubjectRef) : Result BudgetCounter := do
  let b ← [query.resource.type, query.resource.id, query.relation].foldlM addTextCost b
  let b ← addFixedFieldCost b uint64Bytes
  let b ← b.add collectionMetadataBytes
  subjects.foldlM addSubjectRefCost b

/-- The subjects in order and without duplicates; the query travels with the caller. -/
def newTupleResult (query : TupleQuery) (subjects : List SubjectRef) : Result (List SubjectRef) := do
  require query.valid .invalidArgument
  require (subjects.length ≤ query.limit && subjects.length ≤ maxAggregateWorkItems) .resourceExhausted
  withinBudget maxAggregateOutputBytes (addTupleResultCost · query subjects)
  forM subjects fun subject => do
    let _ ← orFail .integrity (newRelationshipTuple ⟨query.resource, query.relation, subject⟩ none)
  .ok (sortDedup compareSubject subjects)

/-! ## Attributes -/

def addAttributeResultCost (b : BudgetCounter) (key : AttributeKey) (value : Value) : Result BudgetCounter := do
  let b ← addEntityRefCost b key.entity
  let b ← addAttributePathCost b key.path
  let b ← addFixedFieldCost b boolBytes
  addValueCost b value

/-- The value found, or none; the key travels with the caller. -/
def newAttributeResult (key : AttributeKey) (value : Value) (found : Bool) : Result (Option Value) := do
  let canonical ← orFail .invalidArgument (newAttributeKeyPath key.entity key.path)
  if found then do
    let _ ← orFail .integrity (newAttributePath canonical.entity canonical.path value)
    withinBudget maxAggregateOutputBytes (addAttributeResultCost · canonical value)
    .ok (some value)
  else do
    require (value.kind = .unset) .integrity
    withinBudget maxAggregateOutputBytes (addAttributeResultCost · canonical value)
    .ok none

/-! ## What the constructors establish -/

theorem charges_tupleResult (query : TupleQuery) (subjects : List SubjectRef) :
    Charges (addTupleResultCost · query subjects)
      (([query.resource.type, query.resource.id, query.relation].map textCost).sum +
        (fieldMetadataBytes + uint64Bytes + (collectionMetadataBytes + (subjects.map subjectRefCost).sum))) :=
  (charges_foldlM charges_text _).bind ((charges_fixedField _).bind ((charges_add _).bind
    (charges_foldlM charges_subjectRef _)))

theorem charges_attributeResult (key : AttributeKey) (value : Value) :
    Charges (addAttributeResultCost · key value)
      (entityRefCost key.entity + (attributePathCost key.path + (fieldMetadataBytes + boolBytes + valueCost value))) :=
  (charges_entityRef _).bind ((charges_attributePath _).bind ((charges_fixedField _).bind (charges_value _)))

theorem newRelationshipTuple_none {t : Tuple} (h : validateDSLRelationship t = .ok ()) :
    newRelationshipTuple t none = .ok ⟨t, zeroTime, false⟩ := by
  simp [newRelationshipTuple, h]

/-- Subjects of well-formed tuples never make a result fail its integrity check. -/
theorem newTupleResult_outcome {query subjects}
    (hs : ∀ s ∈ subjects, validateDSLRelationship ⟨query.resource, query.relation, s⟩ = .ok ()) :
    Outcome (· ≠ .integrity) (fun r => r = sortDedup compareSubject subjects) (newTupleResult query subjects) := by
  unfold newTupleResult
  refine .bind (require_outcome (by decide)) fun _ _ => ?_
  refine .bind (require_outcome (by decide)) fun _ _ => ?_
  refine .bind ((charges_tupleResult query subjects).outcome (by decide) _) fun _ _ => ?_
  rw [forM_eq_ok.2 fun s hmem => ?_]
  · exact .ok rfl
  · rw [newRelationshipTuple_none (hs s hmem)]
    rfl

/-- A well-formed attribute never makes a result fail its integrity check. -/
theorem newAttributeResult_outcome {key value found}
    (hv : if found then ∃ a, newAttributePath key.entity key.path value = .ok a else value.kind = .unset) :
    Outcome (· ≠ .integrity) (fun r => r = if found then some value else none) (newAttributeResult key value found) := by
  unfold newAttributeResult
  refine .bind (orFail_outcome (by decide) _) fun canonical hc => ?_
  obtain ⟨rfl, -⟩ := newAttributeKeyPath_eq_ok.1 hc
  cases found with
  | true =>
    obtain ⟨a, ha⟩ := hv
    simp only [if_true, ha, orFail_ok, ok_bind]
    exact .bind ((charges_attributeResult _ value).outcome (by decide) _) fun _ _ => .ok rfl
  | false =>
    simp only [Bool.false_eq_true, if_false] at hv ⊢
    rw [require_eq_ok.2 (decide_eq_true hv), ok_bind]
    exact .bind ((charges_attributeResult _ value).outcome (by decide) _) fun _ _ => .ok rfl

end PolicyEngine
