import Mathlib
import PolicyEngine.Core.Validation

/-!
# Relationship and attribute values

The DSL's reference types as the engine uses them, typed attribute values,
relationship tuples and attribute paths, with their validation and their byte
costs (`data.go`, `validation.go`, `cost.go`). The zero value of a Go struct is
written out field by field.
-/

namespace PolicyEngine

/-! ## References -/

structure EntityRef where
  type : Bytes
  id : Bytes
  deriving DecidableEq, Repr

structure SubjectRef where
  type : Bytes
  id : Bytes
  relation : Bytes
  deriving DecidableEq, Repr

/-- The DSL's relationship tuple. -/
structure Tuple where
  resource : EntityRef
  relation : Bytes
  subject : SubjectRef
  deriving DecidableEq, Repr

abbrev Path := List Bytes

def validateEntityRef (entity : EntityRef) : Result Unit := do
  validateIdentifier entity.type
  validateIdentifier entity.id

def validateSubjectRef (subject : SubjectRef) : Result Unit := do
  validateIdentifier subject.type
  validateIdentifier subject.id
  validateOptionalIdentifier subject.relation

def validateDSLRelationship (tuple : Tuple) : Result Unit := do
  validateEntityRef tuple.resource
  validateIdentifier tuple.relation
  validateSubjectRef tuple.subject

variable {e : EntityRef}

theorem validateEntityRef_eq_ok :
    validateEntityRef e = .ok () ↔ validateIdentifier e.type = .ok () ∧ validateIdentifier e.id = .ok () := by
  simp only [validateEntityRef, check_eq_ok]

theorem validateSubjectRef_eq_ok {s : SubjectRef} :
    validateSubjectRef s = .ok () ↔ validateIdentifier s.type = .ok () ∧ validateIdentifier s.id = .ok () ∧
      validateOptionalIdentifier s.relation = .ok () := by
  simp only [validateSubjectRef, check_eq_ok]

theorem validateDSLRelationship_eq_ok {t : Tuple} :
    validateDSLRelationship t = .ok () ↔ validateEntityRef t.resource = .ok () ∧
      validateIdentifier t.relation = .ok () ∧ validateSubjectRef t.subject = .ok () := by
  simp only [validateDSLRelationship, check_eq_ok]

/-! ## Costs of the parts -/

def valueMetadataBytes : Nat := 9
def collectionMetadataBytes : Nat := 8
def fieldMetadataBytes : Nat := 8
def timestampBytes : Nat := 40
def uint64Bytes : Nat := 8
def boolBytes : Nat := 1
def enumBytes : Nat := 1

def addTextCost (b : BudgetCounter) (value : Bytes) : Result BudgetCounter := do
  let b ← b.add fieldMetadataBytes
  b.add value.length

def addFixedFieldCost (b : BudgetCounter) (size : Nat) : Result BudgetCounter := do
  let b ← b.add fieldMetadataBytes
  b.add size

def addEntityRefCost (b : BudgetCounter) (entity : EntityRef) : Result BudgetCounter := do
  let b ← addTextCost b entity.type
  addTextCost b entity.id

def addSubjectRefCost (b : BudgetCounter) (subject : SubjectRef) : Result BudgetCounter := do
  let b ← addTextCost b subject.type
  let b ← addTextCost b subject.id
  addTextCost b subject.relation

def addTupleCost (b : BudgetCounter) (tuple : Tuple) : Result BudgetCounter := do
  let b ← addEntityRefCost b tuple.resource
  let b ← addTextCost b tuple.relation
  addSubjectRefCost b tuple.subject

def addAttributePathCost (b : BudgetCounter) (path : Path) : Result BudgetCounter := do
  let b ← b.add collectionMetadataBytes
  path.foldlM addTextCost b

/-- What the `add…Cost` functions charge. -/
def textCost (value : Bytes) : Nat := fieldMetadataBytes + value.length

def entityRefCost (e : EntityRef) : Nat := textCost e.type + textCost e.id

def subjectRefCost (s : SubjectRef) : Nat := textCost s.type + (textCost s.id + textCost s.relation)

def tupleCost (t : Tuple) : Nat := entityRefCost t.resource + (textCost t.relation + subjectRefCost t.subject)

def attributePathCost (p : Path) : Nat := collectionMetadataBytes + (p.map textCost).sum

theorem charges_text (value : Bytes) : Charges (addTextCost · value) (textCost value) :=
  (charges_add _).bind (charges_add _)

theorem charges_fixedField (size : Nat) : Charges (addFixedFieldCost · size) (fieldMetadataBytes + size) :=
  (charges_add _).bind (charges_add _)

theorem charges_entityRef (e : EntityRef) : Charges (addEntityRefCost · e) (entityRefCost e) :=
  (charges_text _).bind (charges_text _)

theorem charges_subjectRef (s : SubjectRef) : Charges (addSubjectRefCost · s) (subjectRefCost s) :=
  (charges_text _).bind ((charges_text _).bind (charges_text _))

theorem charges_tuple (t : Tuple) : Charges (addTupleCost · t) (tupleCost t) :=
  (charges_entityRef _).bind ((charges_text _).bind (charges_subjectRef _))

theorem charges_attributePath (p : Path) : Charges (addAttributePathCost · p) (attributePathCost p) :=
  (charges_add _).bind (charges_foldlM charges_text p)

/-! ## Attribute paths -/

def validateAttributePath (path : Path) : Result Unit := do
  require (path != []) .invalidArgument
  require (path.length ≤ maxAggregateWorkItems) .resourceExhausted
  withinBudget maxAggregateInputBytes (addAttributePathCost · path)
  forM path fun segment => do
    validateIdentifier segment
    require (validDSLIdentifier segment) .invalidArgument

theorem validateAttributePath_eq_ok {path : Path} :
    validateAttributePath path = .ok () ↔ path ≠ [] ∧ path.length ≤ maxAggregateWorkItems ∧
      attributePathCost path ≤ maxAggregateInputBytes ∧
      ∀ s ∈ path, validateIdentifier s = .ok () ∧ validDSLIdentifier s = true := by
  simp [validateAttributePath, check_eq_ok, forM_eq_ok, (charges_attributePath path).withinBudget_eq_ok]

/-! ## Values -/

inductive ValueKind where
  | unset
  | string
  | integer
  | boolean
  | null
  deriving DecidableEq, Repr

/-- The `ValueKind` constants. -/
def ValueKind.code : ValueKind → UInt8
  | .unset => 0
  | .string => 1
  | .integer => 2
  | .boolean => 3
  | .null => 4

structure Value where
  kind : ValueKind
  text : Bytes
  integer : Int64
  boolean : Bool
  deriving DecidableEq, Repr

def Value.zero : Value := ⟨.unset, [], 0, false⟩

def newStringValue (value : Bytes) : Result Value := do
  validateText value maxStringValueBytes true
  .ok ⟨.string, value, 0, false⟩

def newIntegerValue (value : Int64) : Value := ⟨.integer, [], value, false⟩

def newBooleanValue (value : Bool) : Value := ⟨.boolean, [], 0, value⟩

def newNullValue : Value := ⟨.null, [], 0, false⟩

def Value.valid (v : Value) : Bool :=
  match v.kind with
  | .string => v.integer == 0 && !v.boolean && (validateText v.text maxStringValueBytes true).isOk
  | .integer => v.text == [] && !v.boolean
  | .boolean => v.text == [] && v.integer == 0
  | .null => v.text == [] && v.integer == 0 && !v.boolean
  | .unset => false

def validateValue (v : Value) : Result Unit := do
  require v.valid .invalidArgument
  match v.kind with
  | .string => validateText v.text maxStringValueBytes true
  | _ => .ok ()

theorem validateValue_eq_ok {v : Value} : validateValue v = .ok () ↔ v.valid = true := by
  simp only [validateValue, check_eq_ok, require_eq_ok, and_iff_left_iff_imp]
  intro h
  split
  next hk =>
    simp only [Value.valid, hk, Bool.and_eq_true, isOk_unit] at h
    exact h.2
  next => rfl

def addValueCost (b : BudgetCounter) (value : Value) : Result BudgetCounter := do
  let b ← b.add valueMetadataBytes
  if value.kind = .string then b.add value.text.length else .ok b

def valueCost (v : Value) : Nat := valueMetadataBytes + if v.kind = .string then v.text.length else 0

theorem charges_value (v : Value) : Charges (addValueCost · v) (valueCost v) := by
  unfold addValueCost valueCost
  by_cases h : v.kind = .string
  · simp only [h, if_true]
    exact (charges_add _).bind (charges_add _)
  · simp only [h, if_false]
    exact (charges_add _).bind charges_ok

/-! ## Relationship tuples -/

structure RelationshipTuple where
  tuple : Tuple
  expiresAt : Time
  hasExpiry : Bool
  deriving DecidableEq, Repr

def newRelationshipTuple (tuple : Tuple) (expiresAt : Option Time) : Result RelationshipTuple := do
  validateDSLRelationship tuple
  match expiresAt with
  | none => .ok ⟨tuple, zeroTime, false⟩
  | some at_ =>
    require (at_ != zeroTime) .invalidArgument
    .ok ⟨tuple, at_, true⟩

def RelationshipTuple.valid (t : RelationshipTuple) : Bool :=
  (validateDSLRelationship t.tuple).isOk && (!t.hasExpiry || t.expiresAt != zeroTime) &&
    (t.hasExpiry || t.expiresAt == zeroTime)

def addRelationshipTupleCost (b : BudgetCounter) (t : RelationshipTuple) : Result BudgetCounter := do
  let b ← addTupleCost b t.tuple
  let b ← addFixedFieldCost b boolBytes
  if t.hasExpiry then addFixedFieldCost b timestampBytes else .ok b

def relationshipTupleCost (t : RelationshipTuple) : Nat :=
  tupleCost t.tuple + (fieldMetadataBytes + boolBytes + if t.hasExpiry then fieldMetadataBytes + timestampBytes else 0)

theorem charges_relationshipTuple (t : RelationshipTuple) :
    Charges (addRelationshipTupleCost · t) (relationshipTupleCost t) := by
  unfold addRelationshipTupleCost relationshipTupleCost
  cases t.hasExpiry
  · exact (charges_tuple _).bind ((charges_fixedField _).bind charges_ok)
  · exact (charges_tuple _).bind ((charges_fixedField _).bind (charges_fixedField _))

/-- Identifies a relationship tuple for deletion. -/
structure TupleKey where
  tuple : Tuple
  deriving DecidableEq, Repr

def newTupleKey (tuple : Tuple) : Result TupleKey := do
  validateDSLRelationship tuple
  .ok ⟨tuple⟩

def TupleKey.valid (k : TupleKey) : Bool := (validateDSLRelationship k.tuple).isOk

/-! ## Attributes -/

structure Attribute where
  entity : EntityRef
  path : Path
  value : Value
  deriving DecidableEq, Repr

def addAttributeCost (b : BudgetCounter) (a : Attribute) : Result BudgetCounter := do
  let b ← addEntityRefCost b a.entity
  let b ← addAttributePathCost b a.path
  addValueCost b a.value

def attributeCost (a : Attribute) : Nat := entityRefCost a.entity + (attributePathCost a.path + valueCost a.value)

theorem charges_attribute (a : Attribute) : Charges (addAttributeCost · a) (attributeCost a) :=
  (charges_entityRef _).bind ((charges_attributePath _).bind (charges_value _))

def newAttributePath (entity : EntityRef) (path : Path) (value : Value) : Result Attribute := do
  validateEntityRef entity
  validateAttributePath path
  validateValue value
  withinBudget maxAggregateInputBytes (addAttributeCost · ⟨entity, path, value⟩)
  .ok ⟨entity, path, value⟩

def Attribute.valid (a : Attribute) : Bool :=
  (validateEntityRef a.entity).isOk && (validateAttributePath a.path).isOk && (validateValue a.value).isOk

theorem newAttributePath_eq_ok {p v a} :
    newAttributePath e p v = .ok a ↔ a = ⟨e, p, v⟩ ∧ validateEntityRef e = .ok () ∧
      validateAttributePath p = .ok () ∧ v.valid = true ∧ attributeCost ⟨e, p, v⟩ ≤ maxAggregateInputBytes := by
  simp only [newAttributePath, check_eq_ok, (charges_attribute _).withinBudget_eq_ok, validateValue_eq_ok]
  constructor
  · rintro ⟨he, hp, hv, hc, ha⟩
    exact ⟨(Except.ok.inj ha).symm, he, hp, hv, hc⟩
  · rintro ⟨rfl, he, hp, hv, hc⟩
    exact ⟨he, hp, hv, hc, rfl⟩

/-- Identifies an attribute. -/
structure AttributeKey where
  entity : EntityRef
  path : Path
  deriving DecidableEq, Repr

def Attribute.key (a : Attribute) : AttributeKey := ⟨a.entity, a.path⟩

def newAttributeKeyPath (entity : EntityRef) (path : Path) : Result AttributeKey := do
  validateEntityRef entity
  validateAttributePath path
  withinBudget maxAggregateInputBytes fun b => do
    let b ← addEntityRefCost b entity
    addAttributePathCost b path
  .ok ⟨entity, path⟩

def AttributeKey.valid (k : AttributeKey) : Bool :=
  (validateEntityRef k.entity).isOk && (validateAttributePath k.path).isOk

def attributeKeyCost (k : AttributeKey) : Nat := entityRefCost k.entity + attributePathCost k.path

theorem newAttributeKeyPath_eq_ok {p k} :
    newAttributeKeyPath e p = .ok k ↔ k = ⟨e, p⟩ ∧ validateEntityRef e = .ok () ∧
      validateAttributePath p = .ok () ∧ attributeKeyCost ⟨e, p⟩ ≤ maxAggregateInputBytes := by
  have hc : Charges (fun b => addEntityRefCost b e >>= fun b => addAttributePathCost b p) (attributeKeyCost ⟨e, p⟩) :=
    (charges_entityRef e).bind (charges_attributePath p)
  simp only [newAttributeKeyPath, check_eq_ok, hc.withinBudget_eq_ok]
  constructor
  · rintro ⟨he, hp, hcost, hk⟩
    exact ⟨(Except.ok.inj hk).symm, he, hp, hcost⟩
  · rintro ⟨rfl, he, hp, hcost⟩
    exact ⟨he, hp, hcost, rfl⟩

/-- Both name one entity, and one path strictly extends the other. -/
def attributePathPrefixConflict (leftEntity : EntityRef) (leftPath : Path) (rightEntity : EntityRef)
    (rightPath : Path) : Bool :=
  if leftEntity ≠ rightEntity ∨ leftPath.length = rightPath.length then false
  else if leftPath.length > rightPath.length then rightPath.isPrefixOf leftPath
  else leftPath.isPrefixOf rightPath

end PolicyEngine
