import PolicyEngine.Core.Order
import PolicyEngine.Lib.StringMap

/-!
# Authorization requests

Selectors, contextual data, and the Check, BatchCheck and Explain requests of
`policy.go`, `data.go` and `authorization.go`. A Go map is a finite map; where the
source ranges over one, the entries come here in key order, which only decides which of
several failing entries names the error. The constructors' inputs have the fields of
what they build.
-/

open PolicyEngine.Lib

namespace PolicyEngine

/-! ## Hard maxima -/

def maxArgumentItems : Nat := 128
def maxContextualTuples : Nat := 1024
def maxContextualAttributes : Nat := 1024
def maxBatchItems : Nat := 1000
def maxEvidenceBytes : Nat := 65536

/-! ## Selectors -/

/-- Exactly one of a slot and a revision. -/
structure Selector where
  slot : Bytes
  revisionID : Bytes
  deriving DecidableEq, Repr

def newSelector (slot exactRevision : Bytes) : Result Selector := do
  require (decide (slot = []) != decide (exactRevision = [])) .invalidArgument
  if slot ≠ [] then validateIdentifier slot else .ok ()
  require (exactRevision = [] || validRevisionIDString exactRevision) .invalidArgument
  .ok ⟨slot, exactRevision⟩

def Selector.Slot (s : Selector) : Option Bytes := if s.slot ≠ [] ∧ s.revisionID = [] then some s.slot else none

def Selector.ExactRevision (s : Selector) : Option Bytes :=
  if s.revisionID ≠ [] ∧ s.slot = [] then some s.revisionID else none

def Selector.valid (s : Selector) : Bool :=
  if (s.slot = []) = (s.revisionID = []) then false
  else (s.slot ≠ [] && validIdentifier s.slot) || (s.revisionID ≠ [] && validRevisionIDString s.revisionID)

/-- A valid selector names a slot or a revision. -/
theorem Selector.valid_cases {s : Selector} (h : s.valid = true) :
    (∃ slot, s = ⟨slot, []⟩ ∧ slot ≠ [] ∧ validateIdentifier slot = .ok ()) ∨
      ∃ revision, s = ⟨[], revision⟩ ∧ revision ≠ [] ∧ validRevisionIDString revision = true := by
  obtain ⟨slot, revision⟩ := s
  unfold Selector.valid at h
  split at h
  · cases h
  next hne =>
    by_cases hslot : slot = []
    · subst hslot
      have hrev : revision ≠ [] := by simpa using hne
      exact .inr ⟨revision, rfl, hrev, by simpa [hrev] using h⟩
    · have hrev : revision = [] := by simpa [hslot] using hne
      subst hrev
      exact .inl ⟨slot, rfl, hslot, by simpa [hslot] using h⟩

/-! ## Contextual data -/

/-- Request-scoped additive facts. -/
structure ContextualData where
  tuples : List RelationshipTuple
  attributes : List Attribute
  deriving DecidableEq, Repr

def ContextualData.none : ContextualData := ⟨[], []⟩

def ContextualData.Empty (d : ContextualData) : Bool := d.tuples.isEmpty && d.attributes.isEmpty

def addContextualDataCost (b : BudgetCounter) (d : ContextualData) : Result BudgetCounter := do
  let b ← b.addMany 2 collectionMetadataBytes
  let b ← d.tuples.foldlM addRelationshipTupleCost b
  d.attributes.foldlM addAttributeCost b

def contextualDataCost (d : ContextualData) : Nat :=
  2 * collectionMetadataBytes + ((d.tuples.map relationshipTupleCost).sum + (d.attributes.map attributeCost).sum)

theorem charges_contextualData (d : ContextualData) : Charges (addContextualDataCost · d) (contextualDataCost d) :=
  (charges_addMany _ _).bind ((charges_foldlM charges_relationshipTuple _).bind (charges_foldlM charges_attribute _))

def newContextualData (tuples : List RelationshipTuple) (attributes : List Attribute) : Result ContextualData := do
  require (tuples.length ≤ maxContextualTuples && attributes.length ≤ maxContextualAttributes) .resourceExhausted
  withinBudget maxAggregateInputBytes (addContextualDataCost · ⟨tuples, attributes⟩)
  require (tuples.all (·.valid)) .invalidArgument
  require (attributes.all (·.valid)) .invalidArgument
  let tuples ← canonicalRelationshipTuples tuples
  let attributes ← canonicalAttributes attributes
  .ok ⟨tuples, attributes⟩

variable {tuples : List RelationshipTuple} {attributes : List Attribute} {d : ContextualData}

/-- The constructor's checks; what it builds is the canonical form of either list. -/
theorem newContextualData_eq_ok :
    newContextualData tuples attributes = .ok d ↔
      tuples.length ≤ maxContextualTuples ∧ attributes.length ≤ maxContextualAttributes ∧
        contextualDataCost ⟨tuples, attributes⟩ ≤ maxAggregateInputBytes ∧ (∀ t ∈ tuples, t.valid = true) ∧
        (∀ a ∈ attributes, a.valid = true) ∧ canonicalRelationshipTuples tuples = .ok d.tuples ∧
        canonicalAttributes attributes = .ok d.attributes := by
  simp only [newContextualData, check_eq_ok, require_eq_ok, Bool.and_eq_true, decide_eq_true_eq, List.all_eq_true,
    (charges_contextualData _).withinBudget_eq_ok]
  constructor
  · rintro ⟨⟨h1, h2⟩, h3, h4, h5, h⟩
    obtain ⟨ts, hts, h⟩ := bind_eq_ok.1 h
    obtain ⟨as, has, h⟩ := bind_eq_ok.1 h
    obtain rfl := Except.ok.inj h
    exact ⟨h1, h2, h3, h4, h5, hts, has⟩
  · rintro ⟨h1, h2, h3, h4, h5, hts, has⟩
    exact ⟨⟨h1, h2⟩, h3, h4, h5, bind_eq_ok.2 ⟨_, hts, bind_eq_ok.2 ⟨_, has, rfl⟩⟩⟩

/-- What the constructor built it accepts again, whole or with fewer attributes, and changes nothing. -/
theorem newContextualData_part {part} (h : newContextualData tuples attributes = .ok d)
    (hpart : part.Sublist d.attributes) :
    newContextualData d.tuples part = .ok ⟨d.tuples, part⟩ := by
  obtain ⟨htlen, halen, hcost, htvalid, havalid, hts, has⟩ := newContextualData_eq_ok.1 h
  have ht := (canonicalRelationshipTuples_ok hts).subperm
  have ha : part.Subperm attributes := hpart.subperm.trans (canonicalAttributes_ok has).subperm
  refine newContextualData_eq_ok.2 ⟨ht.length_le.trans htlen, ha.length_le.trans halen, ?_,
    fun t hmem => htvalid t (ht.subset hmem), fun a hmem => havalid a (ha.subset hmem),
    (canonicalRelationshipTuples_ok hts).fixed, canonicalAttributes_sublist has hpart⟩
  have htsum := sum_map_le_of_subperm (f := relationshipTupleCost) ht
  have hasum := sum_map_le_of_subperm (f := attributeCost) ha
  simp only [contextualDataCost] at hcost ⊢
  omega

/-- The order in which facts are supplied does not matter, not even to the error. -/
theorem newContextualData_perm {tuples' attributes'} (ht : tuples.Perm tuples') (ha : attributes.Perm attributes') :
    newContextualData tuples attributes = newContextualData tuples' attributes' := by
  have hcost : contextualDataCost ⟨tuples, attributes⟩ = contextualDataCost ⟨tuples', attributes'⟩ := by
    simp only [contextualDataCost, (ht.map _).sum_eq, (ha.map _).sum_eq]
  have hallt : tuples.all (·.valid) = tuples'.all (·.valid) := by rw [Bool.eq_iff_iff]; simp [ht.mem_iff]
  have halla : attributes.all (·.valid) = attributes'.all (·.valid) := by rw [Bool.eq_iff_iff]; simp [ha.mem_iff]
  simp only [newContextualData, (charges_contextualData _).withinBudget, hcost, ht.length_eq, ha.length_eq, hallt, halla,
    canonicalRelationshipTuples, canonicalAttributes, sortBy_eq_of_perm ht, sortBy_eq_of_perm ha]

/-- `valid` compares neighbours for order and equal keys, but not for path prefixes as the constructor does. -/
def ContextualData.valid (d : ContextualData) : Bool :=
  d.tuples.length ≤ maxContextualTuples && d.attributes.length ≤ maxContextualAttributes &&
    (withinBudget maxAggregateInputBytes (addContextualDataCost · d)).isOk &&
    d.tuples.all (·.valid) &&
    decide (d.tuples.IsChain fun a b =>
      ¬ (compareTuple a.tuple b.tuple = .eq ∨ compareRelationshipTuple a b ≠ .lt)) &&
    d.attributes.all (·.valid) &&
    decide (d.attributes.IsChain fun a b => ¬ (compareAttributeKey a b = .eq ∨ compareAttribute a b ≠ .lt))

theorem ContextualData.valid_iff :
    d.valid = true ↔ d.tuples.length ≤ maxContextualTuples ∧ d.attributes.length ≤ maxContextualAttributes ∧
      contextualDataCost d ≤ maxAggregateInputBytes ∧ (∀ t ∈ d.tuples, t.valid = true) ∧
      (d.tuples.IsChain fun a b => ¬ (compareTuple a.tuple b.tuple = .eq ∨ compareRelationshipTuple a b ≠ .lt)) ∧
      (∀ a ∈ d.attributes, a.valid = true) ∧
      d.attributes.IsChain fun a b => ¬ (compareAttributeKey a b = .eq ∨ compareAttribute a b ≠ .lt) := by
  simp only [ContextualData.valid, Bool.and_eq_true, decide_eq_true_eq, List.all_eq_true, isOk_unit,
    (charges_contextualData d).withinBudget_eq_ok, and_assoc]

/-! ## Arguments -/

abbrev Arguments := StringMap Value

def validateArguments (arguments : Arguments) : Result Unit := do
  require (arguments.size ≤ maxArgumentItems) .resourceExhausted
  forM arguments.sortedEntries fun (key, value) => do
    validateIdentifier key
    validateValue value

theorem validateArguments_eq_ok {arguments : Arguments} :
    validateArguments arguments = .ok () ↔ arguments.size ≤ maxArgumentItems ∧
      ∀ e ∈ arguments.sortedEntries, validateIdentifier e.1 = .ok () ∧ e.2.valid = true := by
  simp only [validateArguments, check_eq_ok, require_eq_ok, decide_eq_true_eq, forM_eq_ok, validateValue_eq_ok]

def addArgumentsCost (b : BudgetCounter) (arguments : Arguments) : Result BudgetCounter := do
  let b ← b.add collectionMetadataBytes
  arguments.sortedEntries.foldlM (fun b e => do
    let b ← addTextCost b e.1
    addValueCost b e.2) b

def argumentsCost (arguments : Arguments) : Nat :=
  collectionMetadataBytes + (arguments.sortedEntries.map fun e => textCost e.1 + valueCost e.2).sum

theorem charges_arguments (arguments : Arguments) : Charges (addArgumentsCost · arguments) (argumentsCost arguments) :=
  (charges_add _).bind
    (charges_foldlM (fun e : Bytes × Value => (charges_text e.1).bind (charges_value e.2)) _)

/-! ## Check -/

structure CheckRequest where
  namespace_ : Bytes
  selector : Selector
  subject : EntityRef
  resource : EntityRef
  action : Bytes
  arguments : Arguments
  contextualData : ContextualData
  approvalEvidence : Bytes
  delegationEvidence : Bytes
  minimumGeneration : UInt64
  deriving DecidableEq

def addSelectorCost (b : BudgetCounter) (selector : Selector) : Result BudgetCounter := do
  let b ← addTextCost b selector.slot
  addTextCost b selector.revisionID

def selectorCost (s : Selector) : Nat := textCost s.slot + textCost s.revisionID

theorem charges_selector (s : Selector) : Charges (addSelectorCost · s) (selectorCost s) :=
  (charges_text _).bind (charges_text _)

def addBytesCost (b : BudgetCounter) (value : Bytes) : Result BudgetCounter := do
  let b ← b.add fieldMetadataBytes
  b.add value.length

theorem charges_bytes (value : Bytes) : Charges (addBytesCost · value) (textCost value) :=
  (charges_add _).bind (charges_add _)

def addCheckRequestCost (b : BudgetCounter) (r : CheckRequest) : Result BudgetCounter := do
  let b ← addTextCost b r.namespace_
  let b ← addSelectorCost b r.selector
  let b ← addEntityRefCost b r.subject
  let b ← addEntityRefCost b r.resource
  let b ← addTextCost b r.action
  let b ← addArgumentsCost b r.arguments
  let b ← addContextualDataCost b r.contextualData
  let b ← addBytesCost b r.approvalEvidence
  let b ← addBytesCost b r.delegationEvidence
  addFixedFieldCost b uint64Bytes

/-- What an item costs: its subject, resource, action and arguments. -/
def itemCost (subject resource : EntityRef) (action : Bytes) (arguments : Arguments) : Nat :=
  entityRefCost subject + (entityRefCost resource + (textCost action + argumentsCost arguments))

/-- What the fields a batch shares with a check cost after the items. -/
def sharedCost (d : ContextualData) (approval delegation : Bytes) : Nat :=
  contextualDataCost d + (textCost approval + (textCost delegation + (fieldMetadataBytes + uint64Bytes)))

def checkRequestCost (r : CheckRequest) : Nat :=
  textCost r.namespace_ + (selectorCost r.selector +
    (itemCost r.subject r.resource r.action r.arguments +
      sharedCost r.contextualData r.approvalEvidence r.delegationEvidence))

theorem charges_checkRequest (r : CheckRequest) : Charges (addCheckRequestCost · r) (checkRequestCost r) := by
  have h : Charges (addCheckRequestCost · r) _ := (charges_text r.namespace_).bind <| (charges_selector r.selector).bind <|
    (charges_entityRef r.subject).bind <| (charges_entityRef r.resource).bind <| (charges_text r.action).bind <|
      (charges_arguments r.arguments).bind <| (charges_contextualData r.contextualData).bind <|
        (charges_bytes r.approvalEvidence).bind <| (charges_bytes r.delegationEvidence).bind
          (charges_fixedField uint64Bytes)
  simpa only [checkRequestCost, itemCost, sharedCost, Nat.add_assoc] using h

def newCheckRequest (input : CheckRequest) : Result CheckRequest := do
  require (input.arguments.size ≤ maxArgumentItems && input.approvalEvidence.length ≤ maxEvidenceBytes &&
    input.delegationEvidence.length ≤ maxEvidenceBytes) .resourceExhausted
  withinBudget maxAggregateInputBytes (addCheckRequestCost · input)
  require (input.selector.valid && input.contextualData.valid) .invalidArgument
  validateNamespace input.namespace_
  validateEntityRef input.subject
  validateEntityRef input.resource
  validateIdentifier input.action
  validateArguments input.arguments
  .ok input

def CheckRequest.valid (r : CheckRequest) : Bool :=
  validNamespace r.namespace_ && r.selector.valid && (validateEntityRef r.subject).isOk &&
    (validateEntityRef r.resource).isOk && validIdentifier r.action && (validateArguments r.arguments).isOk &&
    r.contextualData.valid && r.approvalEvidence.length ≤ maxEvidenceBytes &&
    r.delegationEvidence.length ≤ maxEvidenceBytes &&
    (withinBudget maxAggregateInputBytes (addCheckRequestCost · r)).isOk

/-- What a check and an item of a batch say about the action. -/
structure ValidItem (subject resource : EntityRef) (action : Bytes) (arguments : Arguments) : Prop where
  subject : validateEntityRef subject = .ok ()
  resource : validateEntityRef resource = .ok ()
  action : validateIdentifier action = .ok ()
  arguments : validateArguments arguments = .ok ()

/-- What a check and a batch say about the state they are evaluated on. -/
structure ValidShared (ns : Bytes) (selector : Selector) (d : ContextualData) (approval delegation : Bytes) : Prop where
  namespace_ok : validateNamespace ns = .ok ()
  selector : selector.valid = true
  contextualData : d.valid = true
  approval : approval.length ≤ maxEvidenceBytes
  delegation : delegation.length ≤ maxEvidenceBytes

theorem CheckRequest.valid_iff {r} :
    r.valid = true ↔
      ValidShared r.namespace_ r.selector r.contextualData r.approvalEvidence r.delegationEvidence ∧
        ValidItem r.subject r.resource r.action r.arguments ∧ checkRequestCost r ≤ maxAggregateInputBytes := by
  simp only [CheckRequest.valid, Bool.and_eq_true, validNamespace_iff, validIdentifier_iff, isOk_unit,
    decide_eq_true_eq, (charges_checkRequest r).withinBudget_eq_ok]
  constructor
  · rintro ⟨⟨⟨⟨⟨⟨⟨⟨⟨h1, h2⟩, h3⟩, h4⟩, h5⟩, h6⟩, h7⟩, h8⟩, h9⟩, h10⟩
    exact ⟨⟨h1, h2, h7, h8, h9⟩, ⟨h3, h4, h5, h6⟩, h10⟩
  · rintro ⟨⟨h1, h2, h7, h8, h9⟩, ⟨h3, h4, h5, h6⟩, h10⟩
    exact ⟨⟨⟨⟨⟨⟨⟨⟨⟨h1, h2⟩, h3⟩, h4⟩, h5⟩, h6⟩, h7⟩, h8⟩, h9⟩, h10⟩

/-- The constructor accepts exactly what `valid` accepts, and changes nothing. -/
theorem newCheckRequest_eq_ok {input r} :
    newCheckRequest input = .ok r ↔ r = input ∧ input.valid = true := by
  simp only [newCheckRequest, check_eq_ok, require_eq_ok, Bool.and_eq_true, decide_eq_true_eq,
    (charges_checkRequest input).withinBudget_eq_ok, CheckRequest.valid_iff]
  constructor
  · rintro ⟨⟨⟨-, h8⟩, h9⟩, h10, ⟨h2, h7⟩, h1, h3, h4, h5, h6, h⟩
    exact ⟨(Except.ok.inj h).symm, ⟨h1, h2, h7, h8, h9⟩, ⟨h3, h4, h5, h6⟩, h10⟩
  · rintro ⟨rfl, ⟨h1, h2, h7, h8, h9⟩, ⟨h3, h4, h5, h6⟩, h10⟩
    exact ⟨⟨⟨(validateArguments_eq_ok.1 h6).1, h8⟩, h9⟩, h10, ⟨h2, h7⟩, h1, h3, h4, h5, h6, rfl⟩

/-! ## BatchCheck -/

structure BatchCheckItem where
  subject : EntityRef
  resource : EntityRef
  action : Bytes
  arguments : Arguments
  deriving DecidableEq

def addBatchItemCost (b : BudgetCounter) (item : BatchCheckItem) : Result BudgetCounter := do
  let b ← addEntityRefCost b item.subject
  let b ← addEntityRefCost b item.resource
  let b ← addTextCost b item.action
  addArgumentsCost b item.arguments

def BatchCheckItem.cost (i : BatchCheckItem) : Nat := itemCost i.subject i.resource i.action i.arguments

theorem charges_batchItem (i : BatchCheckItem) : Charges (addBatchItemCost · i) i.cost :=
  (charges_entityRef _).bind ((charges_entityRef _).bind ((charges_text _).bind (charges_arguments _)))

def newBatchCheckItem (subject resource : EntityRef) (action : Bytes) (arguments : Arguments) :
    Result BatchCheckItem := do
  require (arguments.size ≤ maxArgumentItems) .resourceExhausted
  withinBudget maxAggregateInputBytes (addBatchItemCost · ⟨subject, resource, action, arguments⟩)
  validateEntityRef subject
  validateEntityRef resource
  validateIdentifier action
  validateArguments arguments
  .ok ⟨subject, resource, action, arguments⟩

def BatchCheckItem.valid (i : BatchCheckItem) : Bool :=
  (validateEntityRef i.subject).isOk && (validateEntityRef i.resource).isOk && validIdentifier i.action &&
    (validateArguments i.arguments).isOk && (withinBudget maxAggregateInputBytes (addBatchItemCost · i)).isOk

theorem BatchCheckItem.valid_iff {i : BatchCheckItem} :
    i.valid = true ↔ ValidItem i.subject i.resource i.action i.arguments ∧ i.cost ≤ maxAggregateInputBytes := by
  simp only [BatchCheckItem.valid, Bool.and_eq_true, validIdentifier_iff, isOk_unit,
    (charges_batchItem i).withinBudget_eq_ok]
  constructor
  · rintro ⟨⟨⟨⟨h1, h2⟩, h3⟩, h4⟩, h5⟩
    exact ⟨⟨h1, h2, h3, h4⟩, h5⟩
  · rintro ⟨⟨h1, h2, h3, h4⟩, h5⟩
    exact ⟨⟨⟨⟨h1, h2⟩, h3⟩, h4⟩, h5⟩

structure BatchCheckRequest where
  namespace_ : Bytes
  selector : Selector
  items : List BatchCheckItem
  contextualData : ContextualData
  approvalEvidence : Bytes
  delegationEvidence : Bytes
  minimumGeneration : UInt64
  deriving DecidableEq

def addBatchRequestCost (b : BudgetCounter) (r : BatchCheckRequest) : Result BudgetCounter := do
  let b ← addTextCost b r.namespace_
  let b ← addSelectorCost b r.selector
  let b ← b.add collectionMetadataBytes
  let b ← r.items.foldlM addBatchItemCost b
  let b ← addContextualDataCost b r.contextualData
  let b ← addBytesCost b r.approvalEvidence
  let b ← addBytesCost b r.delegationEvidence
  addFixedFieldCost b uint64Bytes

def batchRequestCost (r : BatchCheckRequest) : Nat :=
  textCost r.namespace_ + (selectorCost r.selector + (collectionMetadataBytes +
    ((r.items.map BatchCheckItem.cost).sum + sharedCost r.contextualData r.approvalEvidence r.delegationEvidence)))

theorem charges_batchRequest (r : BatchCheckRequest) : Charges (addBatchRequestCost · r) (batchRequestCost r) :=
  (charges_text _).bind <| (charges_selector _).bind <| (charges_add _).bind <|
    (charges_foldlM charges_batchItem _).bind <| (charges_contextualData _).bind <| (charges_bytes _).bind <|
      (charges_bytes _).bind (charges_fixedField _)

def contextualWorkItems (d : ContextualData) : Nat := d.tuples.length + d.attributes.length

/-- The work a batch asks for: its contextual facts, its items and their arguments. -/
def addBatchWork (b : BudgetCounter) (r : BatchCheckRequest) : Result BudgetCounter := do
  let b ← b.add (contextualWorkItems r.contextualData)
  r.items.foldlM (fun b item => b.add (1 + item.arguments.size)) b

def newBatchCheckRequest (input : BatchCheckRequest) : Result BatchCheckRequest := do
  require (input.items.length ≤ maxBatchItems && input.approvalEvidence.length ≤ maxEvidenceBytes &&
    input.delegationEvidence.length ≤ maxEvidenceBytes) .resourceExhausted
  withinBudget maxAggregateInputBytes (addBatchRequestCost · input)
  withinBudget maxAggregateWorkItems (addBatchWork · input)
  require (input.selector.valid && !input.items.isEmpty && input.contextualData.valid) .invalidArgument
  validateNamespace input.namespace_
  require (input.items.all (·.valid)) .invalidArgument
  .ok input

def BatchCheckRequest.valid (r : BatchCheckRequest) : Bool :=
  validNamespace r.namespace_ && r.selector.valid && !r.items.isEmpty && r.items.length ≤ maxBatchItems &&
    r.contextualData.valid && r.approvalEvidence.length ≤ maxEvidenceBytes &&
    r.delegationEvidence.length ≤ maxEvidenceBytes &&
    (withinBudget maxAggregateInputBytes (addBatchRequestCost · r)).isOk &&
    r.items.all (·.valid) && (withinBudget maxAggregateWorkItems (addBatchWork · r)).isOk

variable {r : BatchCheckRequest}

theorem BatchCheckRequest.valid_iff :
    r.valid = true ↔
      ValidShared r.namespace_ r.selector r.contextualData r.approvalEvidence r.delegationEvidence ∧
        r.items ≠ [] ∧ r.items.length ≤ maxBatchItems ∧ (∀ i ∈ r.items, i.valid = true) ∧
        batchRequestCost r ≤ maxAggregateInputBytes ∧
        withinBudget maxAggregateWorkItems (addBatchWork · r) = .ok () := by
  simp only [BatchCheckRequest.valid, Bool.and_eq_true, Bool.not_eq_true', List.isEmpty_eq_false_iff,
    validNamespace_iff, isOk_unit, decide_eq_true_eq, List.all_eq_true, (charges_batchRequest r).withinBudget_eq_ok]
  constructor
  · rintro ⟨⟨⟨⟨⟨⟨⟨⟨⟨h1, h2⟩, h3⟩, h4⟩, h5⟩, h6⟩, h7⟩, h8⟩, h9⟩, h10⟩
    exact ⟨⟨h1, h2, h5, h6, h7⟩, h3, h4, h9, h8, h10⟩
  · rintro ⟨⟨h1, h2, h5, h6, h7⟩, h3, h4, h9, h8, h10⟩
    exact ⟨⟨⟨⟨⟨⟨⟨⟨⟨h1, h2⟩, h3⟩, h4⟩, h5⟩, h6⟩, h7⟩, h8⟩, h9⟩, h10⟩

theorem newBatchCheckRequest_eq_ok {input} (h : newBatchCheckRequest input = .ok r) :
    r = input ∧ input.valid = true := by
  simp only [newBatchCheckRequest, check_eq_ok, require_eq_ok, Bool.and_eq_true, decide_eq_true_eq,
    Bool.not_eq_true', List.isEmpty_eq_false_iff, List.all_eq_true, (charges_batchRequest input).withinBudget_eq_ok] at h
  obtain ⟨⟨⟨h1, h2⟩, h3⟩, h4, h5, ⟨⟨h6, h7⟩, h8⟩, h9, h10, h⟩ := h
  exact ⟨(Except.ok.inj h).symm, BatchCheckRequest.valid_iff.2 ⟨⟨h9, h6, h8, h2, h3⟩, h7, h1, h10, h4, h5⟩⟩

/-- The check of one item under the batch's shared fields. -/
def BatchCheckRequest.check (r : BatchCheckRequest) (item : BatchCheckItem) : CheckRequest where
  namespace_ := r.namespace_
  selector := r.selector
  subject := item.subject
  resource := item.resource
  action := item.action
  arguments := item.arguments
  contextualData := r.contextualData
  approvalEvidence := r.approvalEvidence
  delegationEvidence := r.delegationEvidence
  minimumGeneration := r.minimumGeneration

/-- One item costs no more than its batch. -/
theorem BatchCheckRequest.check_valid (h : r.valid = true) {item : BatchCheckItem} (hitem : item ∈ r.items) :
    (r.check item).valid = true := by
  obtain ⟨hshared, -, -, hitems, hcost, -⟩ := BatchCheckRequest.valid_iff.1 h
  obtain ⟨hvalid, -⟩ := BatchCheckItem.valid_iff.1 (hitems item hitem)
  refine CheckRequest.valid_iff.2 ⟨hshared, hvalid, Nat.le_trans ?_ hcost⟩
  have hle := sum_map_le_of_subperm (f := BatchCheckItem.cost) (List.singleton_subperm_iff.2 hitem)
  simp only [List.map_cons, List.map_nil, List.sum_cons, List.sum_nil] at hle
  simp only [checkRequestCost, BatchCheckRequest.check, batchRequestCost, BatchCheckItem.cost] at hle ⊢
  omega

end PolicyEngine
