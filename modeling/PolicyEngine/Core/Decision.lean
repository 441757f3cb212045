import PolicyEngine.Core.Evidence

/-!
# Decisions and responses

The results of `authorization.go`: one compact decision, and the responses of Check,
BatchCheck and Explain, each bound to the request it answers. A digest of thirty-two
zero bytes stands for no approval binding, as in the source.
-/

open PolicyEngine.Lib

namespace PolicyEngine

def maxExplainSteps : Nat := 4096

/-- The decisions; the zero value, which no constructor accepts, has no name here. -/
inductive Decision where
  | allow
  | deny
  | requireApproval
  deriving DecidableEq, Repr

def Decision.code : Decision → UInt8
  | .allow => 1
  | .deny => 2
  | .requireApproval => 3

def zeroDigest : Bytes := List.replicate digestBytes 0

structure DecisionResult where
  decision : Decision
  decisionID : Bytes
  reasonCode : Bytes
  revisionID : Bytes
  slotGeneration : UInt64
  dataGeneration : UInt64
  evaluatedAt : Time
  requirements : List Bytes
  approvalBindingDigest : Bytes
  usedContextualData : Bool
  usedApproval : Bool
  usedDelegation : Bool
  deriving DecidableEq, Repr

/-- Only a digest that is not all zero is a binding. -/
def DecisionResult.hasApprovalBinding (r : DecisionResult) : Bool := r.approvalBindingDigest != zeroDigest

def addDecisionResultCost (b : BudgetCounter) (r : DecisionResult) : Result BudgetCounter := do
  let b ← [r.decisionID, r.reasonCode, r.revisionID].foldlM addTextCost b
  let b ← [enumBytes, uint64Bytes, uint64Bytes, timestampBytes, boolBytes, boolBytes, boolBytes].foldlM
    addFixedFieldCost b
  let b ← (if r.hasApprovalBinding then addFixedFieldCost b digestBytes else .ok b)
  addIdentifiersCost b r.requirements

def decisionResultCost (r : DecisionResult) : Nat :=
  ([r.decisionID, r.reasonCode, r.revisionID].map textCost).sum +
    (([enumBytes, uint64Bytes, uint64Bytes, timestampBytes, boolBytes, boolBytes, boolBytes].map
        (fieldMetadataBytes + ·)).sum +
      ((if r.hasApprovalBinding then fieldMetadataBytes + digestBytes else 0) + identifiersCost r.requirements))

theorem charges_decisionResult (r : DecisionResult) :
    Charges (addDecisionResultCost · r) (decisionResultCost r) := by
  have hdigest : Charges (fun b => if r.hasApprovalBinding then addFixedFieldCost b digestBytes else .ok b)
      (if r.hasApprovalBinding then fieldMetadataBytes + digestBytes else 0) := by
    cases r.hasApprovalBinding
    · exact charges_ok
    · exact charges_fixedField _
  exact (charges_foldlM charges_text _).bind ((charges_foldlM charges_fixedField _).bind
    (hdigest.bind (charges_identifiers _)))

/-- The input's requirements are sorted and compacted; everything else is kept. -/
def newDecisionResult (input : DecisionResult) : Result DecisionResult := do
  require (input.requirements.length ≤ maxVerifierOutputItems) .resourceExhausted
  withinBudget maxAggregateOutputBytes (addDecisionResultCost · input)
  require (validRevisionIDString input.revisionID && input.evaluatedAt != zeroTime) .invalidArgument
  validateIdentifier input.decisionID
  validateIdentifier input.reasonCode
  let requirements ← canonicalIdentifiers input.requirements maxVerifierOutputItems maxAggregateOutputBytes
  require (input.decision = .requireApproval || requirements.isEmpty) .invalidArgument
  require (input.decision ≠ .requireApproval || !requirements.isEmpty) .invalidArgument
  require (decide (input.decision = .requireApproval) == input.hasApprovalBinding) .invalidArgument
  .ok { input with requirements := requirements }

def DecisionResult.valid (r : DecisionResult) : Bool :=
  validIdentifier r.decisionID && validIdentifier r.reasonCode && validRevisionIDString r.revisionID &&
    r.evaluatedAt != zeroTime &&
    validCanonicalIdentifiers r.requirements maxVerifierOutputItems maxAggregateOutputBytes &&
    decide (r.decision = .requireApproval) == r.hasApprovalBinding &&
    (withinBudget maxAggregateOutputBytes (addDecisionResultCost · r)).isOk &&
    decide (r.decision = .requireApproval) == !r.requirements.isEmpty

def selectorMatchesResult (selector : Selector) (result : DecisionResult) : Bool :=
  match selector.ExactRevision with
  | some exactRevision => result.slotGeneration == 0 && result.revisionID = exactRevision
  | none => selector.valid && result.slotGeneration != 0

/-! ## Responses -/

structure CheckResponse where
  selector : Selector
  result : DecisionResult
  deriving DecidableEq, Repr

def newCheckResponse (request : CheckRequest) (result : DecisionResult) : Result CheckResponse := do
  require (request.valid && result.valid) .invalidArgument
  require (selectorMatchesResult request.selector result) .invalidArgument
  .ok ⟨request.selector, result⟩

structure BatchCheckResponse where
  selector : Selector
  results : List DecisionResult
  deriving DecidableEq, Repr

def addBatchResponseCost (b : BudgetCounter) (results : List DecisionResult) : Result BudgetCounter := do
  let b ← b.add collectionMetadataBytes
  results.foldlM addDecisionResultCost b

/-- One revision, slot generation, data generation and time. -/
def samePin (first result : DecisionResult) : Bool :=
  result.revisionID = first.revisionID && result.slotGeneration == first.slotGeneration &&
    result.dataGeneration == first.dataGeneration && result.evaluatedAt == first.evaluatedAt

def newBatchCheckResponse (request : BatchCheckRequest) (results : List DecisionResult) : Result BatchCheckResponse := do
  require (results.length ≤ maxBatchItems) .resourceExhausted
  require (request.valid && results.length == request.items.length) .invalidArgument
  withinBudget maxAggregateOutputBytes (addBatchResponseCost · results)
  match results with
  | [] => .error .invalidArgument -- a valid request has an item
  | first :: _ => do
    forM results fun result => do
      require result.valid .invalidArgument
      require (samePin first result) .invalidArgument
    require (selectorMatchesResult request.selector first) .invalidArgument
    .ok ⟨request.selector, results⟩

/-- An explain request is the check it wraps. -/
def newExplainRequest (check : CheckRequest) : Result CheckRequest := do
  require check.valid .invalidArgument
  .ok check

structure ExplainStep where
  schemaPath : Bytes
  operator : Bytes
  outcome : Bool
  deriving DecidableEq, Repr

def newExplainStep (schemaPath operator : Bytes) (outcome : Bool) : Result ExplainStep := do
  validateIdentifier schemaPath
  validateIdentifier operator
  .ok ⟨schemaPath, operator, outcome⟩

def ExplainStep.valid (s : ExplainStep) : Bool := validIdentifier s.schemaPath && validIdentifier s.operator

structure ExplainResponse where
  selector : Selector
  result : DecisionResult
  steps : List ExplainStep
  deriving DecidableEq, Repr

def addExplainResponseCost (b : BudgetCounter) (result : DecisionResult) (steps : List ExplainStep) :
    Result BudgetCounter := do
  let b ← addDecisionResultCost b result
  let b ← b.add collectionMetadataBytes
  steps.foldlM (fun b step => do
    let b ← addTextCost b step.schemaPath
    let b ← addTextCost b step.operator
    addFixedFieldCost b boolBytes) b

/-- The request is the check an explain request wraps. -/
def newExplainResponse (request : CheckRequest) (result : DecisionResult) (steps : List ExplainStep) :
    Result ExplainResponse := do
  require (steps.length ≤ maxExplainSteps) .resourceExhausted
  withinBudget maxAggregateOutputBytes (addExplainResponseCost · result steps)
  require (request.valid && result.valid) .invalidArgument
  require (selectorMatchesResult request.selector result) .invalidArgument
  require (steps.all (·.valid)) .invalidArgument
  .ok ⟨request.selector, result, steps⟩

/-! ## What a response says about its result -/

variable {result : DecisionResult}

theorem newCheckResponse_eq_ok {request response} :
    newCheckResponse request result = .ok response ↔ response = ⟨request.selector, result⟩ ∧
      request.valid = true ∧ result.valid = true ∧ selectorMatchesResult request.selector result = true := by
  simp only [newCheckResponse, check_eq_ok, require_eq_ok, Bool.and_eq_true, Except.ok.injEq,
    eq_comm (a := response)]
  tauto

theorem newExplainResponse_eq_ok {request steps response} (h : newExplainResponse request result steps = .ok response) :
    response = ⟨request.selector, result, steps⟩ ∧ request.valid = true ∧ result.valid = true ∧
      selectorMatchesResult request.selector result = true := by
  simp only [newExplainResponse, check_eq_ok, require_eq_ok, Bool.and_eq_true, Except.ok.injEq] at h
  obtain ⟨-, -, ⟨hrequest, hresult⟩, hselector, -, rfl⟩ := h
  exact ⟨rfl, hrequest, hresult, hselector⟩

/-- A selector reads only the pin of a result. -/
theorem selectorMatchesResult_of_samePin {selector first} (h : samePin first result = true) :
    selectorMatchesResult selector result = selectorMatchesResult selector first := by
  simp only [samePin, Bool.and_eq_true, decide_eq_true_eq, beq_iff_eq] at h
  obtain ⟨⟨⟨hrevision, hslot⟩, -⟩, -⟩ := h
  simp only [selectorMatchesResult, hrevision, hslot]

theorem newBatchCheckResponse_eq_ok {request results response}
    (h : newBatchCheckResponse request results = .ok response) :
    response = ⟨request.selector, results⟩ ∧ request.valid = true ∧ results.length = request.items.length ∧
      ∀ result ∈ results, result.valid = true ∧ selectorMatchesResult request.selector result = true := by
  simp only [newBatchCheckResponse, check_eq_ok, require_eq_ok, Bool.and_eq_true, beq_iff_eq] at h
  obtain ⟨-, ⟨hrequest, hlength⟩, -, h⟩ := h
  cases results with
  | nil => cases h
  | cons first rest =>
    simp only [check_eq_ok, require_eq_ok, forM_eq_ok, Except.ok.injEq] at h
    obtain ⟨hall, hselector, rfl⟩ := h
    refine ⟨rfl, hrequest, hlength, fun result hmem => ⟨(hall result hmem).1, ?_⟩⟩
    rw [selectorMatchesResult_of_samePin (hall result hmem).2, hselector]

/-! ## Results that differ in their identifier -/

/-- A result without the identifier of its decision. -/
def DecisionResult.withoutID (r : DecisionResult) : DecisionResult := { r with decisionID := [] }

section SwapID

variable {r : DecisionResult} {id : Bytes} (hid : validateIdentifier id = .ok ()) (hlen : id.length = r.decisionID.length)

include hlen in
theorem decisionResultCost_swapID : decisionResultCost { r with decisionID := id } = decisionResultCost r := by
  simp only [decisionResultCost, List.map_cons, List.sum_cons, textCost, hlen]
  rfl

include hid hlen

/-- Another identifier of the same length leaves a result valid. -/
theorem DecisionResult.valid_swapID (h : r.valid = true) : { r with decisionID := id }.valid = true := by
  simp only [DecisionResult.valid, Bool.and_eq_true, isOk_unit, (charges_decisionResult _).withinBudget_eq_ok,
    decisionResultCost_swapID hlen] at h ⊢
  simp only [validIdentifier_iff] at h ⊢
  obtain ⟨⟨⟨⟨⟨⟨⟨-, h2⟩, h3⟩, h4⟩, h5⟩, h6⟩, h7⟩, h8⟩ := h
  exact ⟨⟨⟨⟨⟨⟨⟨hid, h2⟩, h3⟩, h4⟩, h5⟩, h6⟩, h7⟩, h8⟩

omit hid hlen in
/-- Only the requirements are changed. -/
theorem newDecisionResult_eq (h : newDecisionResult r = .ok result) :
    result = { r with requirements := result.requirements } := by
  simp only [newDecisionResult, check_eq_ok] at h
  obtain ⟨-, -, -, -, -, h⟩ := h
  obtain ⟨requirements, -, h⟩ := bind_eq_ok.1 h
  simp only [check_eq_ok] at h
  obtain ⟨-, -, -, h⟩ := h
  obtain rfl := Except.ok.inj h
  rfl

theorem newDecisionResult_swapID (h : newDecisionResult r = .ok result) :
    newDecisionResult { r with decisionID := id } = .ok { result with decisionID := id } := by
  simp only [newDecisionResult, check_eq_ok, require_eq_ok, (charges_decisionResult _).withinBudget_eq_ok,
    decisionResultCost_swapID hlen] at h ⊢
  obtain ⟨h1, h2, h3, -, h5, h6⟩ := h
  obtain ⟨requirements, hcanonical, h6⟩ := bind_eq_ok.1 h6
  simp only [check_eq_ok, require_eq_ok] at h6
  obtain ⟨h7, h8, h9, h⟩ := h6
  refine ⟨h1, h2, h3, hid, h5, bind_eq_ok.2 ⟨requirements, hcanonical, ?_⟩⟩
  simp only [check_eq_ok, require_eq_ok]
  exact ⟨h7, h8, h9, by rw [← Except.ok.inj h]⟩

end SwapID

end PolicyEngine
