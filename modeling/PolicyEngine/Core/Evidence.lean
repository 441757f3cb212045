import PolicyEngine.Core.Authorization
import PolicyEngine.Store.Records

/-!
# Callers, evidence and verifiers

`caller.go`, `evidence.go` and the verifier boundary of `extensions.go` and
`invocation.go`: what opaque evidence is bound to, the digest an approval is resumed by,
and what the engine accepts from a verifier. Contexts are alive and the slots of
concurrent extension calls are free. A binding that its constructor did not build is
the zero value, whose caller is none.
-/

open PolicyEngine.Lib

namespace PolicyEngine

def maxCallerAttributes : Nat := 128
def maxVerifierOutputItems : Nat := 1024
def maxVerifierOutputBytes : Nat := 4194304
def digestBytes : Nat := 32

/-! ## Callers -/

structure Caller where
  id : Bytes
  attributes : StringMap Bytes
  deriving DecidableEq

def addCallerCost (b : BudgetCounter) (c : Caller) : Result BudgetCounter := do
  let b ← addTextCost b c.id
  let b ← b.add collectionMetadataBytes
  c.attributes.sortedEntries.foldlM (fun b e => do
    let b ← addTextCost b e.1
    addTextCost b e.2) b

def newCaller (id : Bytes) (attributes : StringMap Bytes) : Result Caller := do
  require (attributes.size ≤ maxCallerAttributes) .resourceExhausted
  withinBudget maxAggregateInputBytes (addCallerCost · ⟨id, attributes⟩)
  validateIdentifier id
  forM attributes.sortedEntries fun (key, value) => do
    validateIdentifier key
    validateText value maxIdentifierBytes true
  .ok ⟨id, attributes⟩

def Caller.valid (c : Caller) : Bool :=
  validIdentifier c.id && c.attributes.size ≤ maxCallerAttributes &&
    c.attributes.sortedEntries.all (fun (key, value) =>
      validIdentifier key && (validateText value maxIdentifierBytes true).isOk) &&
    (withinBudget maxAggregateInputBytes (addCallerCost · c)).isOk

/-! ## Capabilities -/

inductive Capability where
  | policyRead
  | policyPublish
  | policyActivate
  | authorizationCheck
  | authorizationContextualData
  | authorizationExplicitRevision
  | authorizationExplain
  | dataWrite
  | eventsRead
  | systemStatus
  deriving DecidableEq, Repr

def capabilityRank : Capability → Nat
  | .policyRead => 0
  | .policyPublish => 1
  | .policyActivate => 2
  | .authorizationCheck => 3
  | .authorizationContextualData => 4
  | .authorizationExplicitRevision => 5
  | .authorizationExplain => 6
  | .dataWrite => 7
  | .eventsRead => 8
  | .systemStatus => 9

/-- Each capability once, by rank. -/
def canonicalCapabilities (capabilities : List Capability) : List Capability :=
  sortDedup (fun a b => compare (capabilityRank a) (capabilityRank b)) capabilities

/-- What a check and a batch both ask for. -/
def evaluationCapabilities (contextualData : ContextualData) (selector : Selector) : List Capability :=
  canonicalCapabilities ([.authorizationCheck] ++
    (if contextualData.Empty then [] else [.authorizationContextualData]) ++
    if selector.ExactRevision.isSome then [.authorizationExplicitRevision] else [])

def CheckRequest.RequiredCapabilities (r : CheckRequest) : List Capability :=
  evaluationCapabilities r.contextualData r.selector

def BatchCheckRequest.RequiredCapabilities (r : BatchCheckRequest) : List Capability :=
  evaluationCapabilities r.contextualData r.selector

/-- What an explanation of a check asks for. -/
def CheckRequest.explainCapabilities (r : CheckRequest) : List Capability :=
  canonicalCapabilities (r.RequiredCapabilities ++ [.authorizationExplain])

/-! ## Identifier lists -/

/-- Charges and checks each identifier in turn. -/
def checkIdentifiers (values : List Bytes) (maximumBytes : Nat) : Result BudgetCounter :=
  values.foldlM (fun b value => do
    let b ← b.add value.length
    validateIdentifier value
    .ok b) ⟨0, maximumBytes⟩

def canonicalIdentifiers (values : List Bytes) (maximumItems maximumBytes : Nat) : Result (List Bytes) := do
  require (values.length ≤ maximumItems) .resourceExhausted
  let _ ← checkIdentifiers values maximumBytes
  .ok (sortDedup compare values)

def validCanonicalIdentifiers (values : List Bytes) (maximumItems maximumBytes : Nat) : Bool :=
  values.length ≤ maximumItems && (checkIdentifiers values maximumBytes).isOk &&
    decide (values.IsChain fun a b => compare a b = .lt)

def addIdentifiersCost (b : BudgetCounter) (values : List Bytes) : Result BudgetCounter := do
  let b ← b.add collectionMetadataBytes
  values.foldlM addTextCost b

def identifiersCost (values : List Bytes) : Nat := collectionMetadataBytes + (values.map textCost).sum

theorem charges_identifiers (values : List Bytes) : Charges (addIdentifiersCost · values) (identifiersCost values) :=
  (charges_add _).bind (charges_foldlM charges_text _)

/-! ## Evidence bindings -/

/-- What evidence is bound to: the digest of the caller, the pinned state, and a fingerprint. -/
structure EvidenceBinding where
  caller : Option Bytes
  namespace_ : Bytes
  selector : Selector
  revisionID : Bytes
  slotGeneration : UInt64
  dataGeneration : UInt64
  evaluatedAt : Time
  fingerprint : Bytes
  deriving DecidableEq, Repr

def addEvidenceBindingCost (b : BudgetCounter) (binding : EvidenceBinding) : Result BudgetCounter := do
  let b ← addFixedFieldCost b digestBytes
  let b ← addTextCost b binding.namespace_
  let b ← addSelectorCost b binding.selector
  let b ← addTextCost b binding.revisionID
  let b ← addFixedFieldCost b uint64Bytes
  let b ← addFixedFieldCost b uint64Bytes
  let b ← addFixedFieldCost b timestampBytes
  addFixedFieldCost b digestBytes

/-- The exact selector names the revision and has no slot generation; a slot has one. -/
def EvidenceBinding.selectorMatches (b : EvidenceBinding) : Bool :=
  match b.selector.ExactRevision with
  | some exactRevision => exactRevision = b.revisionID && b.slotGeneration == 0
  | none => b.slotGeneration != 0

def newEvidenceBinding (input : EvidenceBinding) : Result EvidenceBinding := do
  withinBudget maxAggregateInputBytes (addEvidenceBindingCost · input)
  require (input.caller.isSome && input.selector.valid && validRevisionIDString input.revisionID &&
    input.evaluatedAt != zeroTime) .invalidArgument
  validateNamespace input.namespace_
  require input.selectorMatches .invalidArgument
  .ok input

def EvidenceBinding.valid (b : EvidenceBinding) : Bool :=
  b.caller.isSome && validNamespace b.namespace_ && b.selector.valid && validRevisionIDString b.revisionID &&
    b.evaluatedAt != zeroTime && (withinBudget maxAggregateInputBytes (addEvidenceBindingCost · b)).isOk &&
    b.selectorMatches

theorem newEvidenceBinding_eq_ok {input b} :
    newEvidenceBinding input = .ok b ↔ b = input ∧ input.valid = true := by
  simp only [newEvidenceBinding, EvidenceBinding.valid, check_eq_ok, require_eq_ok, Bool.and_eq_true, bne_iff_ne,
    validNamespace_iff, isOk_unit]
  constructor
  · rintro ⟨hcost, ⟨⟨⟨h1, h2⟩, h3⟩, h4⟩, h5, h6, h⟩
    exact ⟨(Except.ok.inj h).symm, ⟨⟨⟨⟨⟨h1, h5⟩, h2⟩, h3⟩, h4⟩, hcost⟩, h6⟩
  · rintro ⟨rfl, ⟨⟨⟨⟨⟨h1, h5⟩, h2⟩, h3⟩, h4⟩, hcost⟩, h6⟩
    exact ⟨hcost, ⟨⟨⟨h1, h2⟩, h3⟩, h4⟩, h5, h6, rfl⟩

/-! ## Verification requests -/

structure ApprovalVerificationRequest where
  binding : EvidenceBinding
  requirementIDs : List Bytes
  evidence : Bytes
  deriving DecidableEq, Repr

def addApprovalVerificationRequestCost (b : BudgetCounter) (binding : EvidenceBinding) (requirementIDs : List Bytes)
    (evidence : Bytes) : Result BudgetCounter := do
  let b ← addEvidenceBindingCost b binding
  let b ← addIdentifiersCost b requirementIDs
  addBytesCost b evidence

def newApprovalVerificationRequest (binding : EvidenceBinding) (requirementIDs : List Bytes) (evidence : Bytes) :
    Result ApprovalVerificationRequest := do
  require (requirementIDs.length ≤ maxVerifierOutputItems && evidence.length ≤ maxEvidenceBytes) .resourceExhausted
  require (!requirementIDs.isEmpty && !evidence.isEmpty) .invalidArgument
  withinBudget maxAggregateInputBytes (addApprovalVerificationRequestCost · binding requirementIDs evidence)
  require binding.valid .invalidArgument
  let requirements ← canonicalIdentifiers requirementIDs maxVerifierOutputItems maxVerifierOutputBytes
  .ok ⟨binding, requirements, evidence⟩

def ApprovalVerificationRequest.valid (r : ApprovalVerificationRequest) : Bool :=
  r.binding.valid && !r.requirementIDs.isEmpty &&
    validCanonicalIdentifiers r.requirementIDs maxVerifierOutputItems maxVerifierOutputBytes &&
    !r.evidence.isEmpty && r.evidence.length ≤ maxEvidenceBytes &&
    (withinBudget maxAggregateInputBytes
      (addApprovalVerificationRequestCost · r.binding r.requirementIDs r.evidence)).isOk

structure DelegationVerificationRequest where
  binding : EvidenceBinding
  evidence : Bytes
  deriving DecidableEq, Repr

def addDelegationVerificationRequestCost (b : BudgetCounter) (binding : EvidenceBinding) (evidence : Bytes) :
    Result BudgetCounter := do
  let b ← addEvidenceBindingCost b binding
  addBytesCost b evidence

def newDelegationVerificationRequest (binding : EvidenceBinding) (evidence : Bytes) :
    Result DelegationVerificationRequest := do
  require (evidence.length ≤ maxEvidenceBytes) .resourceExhausted
  require (!evidence.isEmpty) .invalidArgument
  withinBudget maxAggregateInputBytes (addDelegationVerificationRequestCost · binding evidence)
  require binding.valid .invalidArgument
  .ok ⟨binding, evidence⟩

def DelegationVerificationRequest.valid (r : DelegationVerificationRequest) : Bool :=
  r.binding.valid && !r.evidence.isEmpty && r.evidence.length ≤ maxEvidenceBytes &&
    (withinBudget maxAggregateInputBytes (addDelegationVerificationRequestCost · r.binding r.evidence)).isOk

/-! ## Verifier answers -/

/-- The satisfied identifiers a verifier may answer with. -/
def newApprovalVerificationResult (satisfied : List Bytes) : Result (List Bytes) := do
  require (satisfied.length ≤ maxVerifierOutputItems) .resourceExhausted
  withinBudget maxVerifierOutputBytes (addIdentifiersCost · satisfied)
  canonicalIdentifiers satisfied maxVerifierOutputItems maxVerifierOutputBytes

def validApprovalVerificationResult (satisfied : List Bytes) : Bool :=
  validCanonicalIdentifiers satisfied maxVerifierOutputItems maxVerifierOutputBytes &&
    (withinBudget maxVerifierOutputBytes (addIdentifiersCost · satisfied)).isOk

/-- Walks both sorted lists; every satisfied identifier was requested. -/
def allRequested : (requested satisfied : List Bytes) → Bool
  | _, [] => true
  | [], _ :: _ => false
  | r :: requested, s :: satisfied =>
    if compare r s = .lt then allRequested requested (s :: satisfied)
    else if r = s then allRequested (r :: requested) satisfied
    else false
termination_by requested satisfied => requested.length + satisfied.length

/-- A verifier's answer to a request; an error carries its category. -/
def invokeApprovalVerifier (verifier : ApprovalVerificationRequest → Result (List Bytes))
    (request : ApprovalVerificationRequest) : Result (List Bytes) := do
  require request.valid .invalidArgument
  let satisfied ← verifier request
  require (validApprovalVerificationResult satisfied) .internal
  require (allRequested request.requirementIDs satisfied) .internal
  .ok satisfied

/-- The item and byte limits of delegated facts. -/
def validDelegationVerificationResult (d : ContextualData) : Bool :=
  d.valid && (withinBudget maxVerifierOutputItems fun b => do
    let b ← b.add d.tuples.length
    b.add d.attributes.length).isOk &&
    (withinBudget maxVerifierOutputBytes (addContextualDataCost · d)).isOk

def invokeDelegationVerifier (verifier : DelegationVerificationRequest → Result ContextualData)
    (request : DelegationVerificationRequest) : Result ContextualData := do
  require request.valid .invalidArgument
  let delegated ← verifier request
  require (validDelegationVerificationResult delegated) .internal
  .ok delegated

/-! ## Digests -/

section Digests

variable [Primitives]

/-- What `Caller.Binding` hashes: the identifier, then the attributes in key order. -/
def callerBindingInput (c : Caller) : Bytes :=
  writeString c.id ++ c.attributes.sortedEntries.flatMap fun (key, value) => writeString key ++ writeString value

def Caller.Binding (c : Caller) : Option Bytes := if c.valid then some (sha256 (callerBindingInput c)) else none

def writeSelectorBinding (selector : Selector) : Bytes :=
  match selector.Slot with
  | some slot => writeString (ascii "slot") ++ writeString slot
  | none => writeString (ascii "revision") ++ writeString (selector.ExactRevision.getD [])

/-- Everything of a binding but the evaluation time. -/
def authorizationInput (b : EvidenceBinding) : Bytes :=
  ascii "cadrena.approval.authorization.v1" ++ b.caller.getD (List.replicate digestBytes 0) ++
    writeString b.namespace_ ++ writeSelectorBinding b.selector ++ writeString b.revisionID ++
    writeUint64 b.slotGeneration.toNat ++ writeUint64 b.dataGeneration.toNat ++ b.fingerprint

def EvidenceBinding.AuthorizationDigest (b : EvidenceBinding) : Option Bytes :=
  if b.valid then some (sha256 (authorizationInput b)) else none

end Digests

end PolicyEngine
