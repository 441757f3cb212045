import PolicyEngine.App.Fingerprints
import PolicyEngine.App.Reader
import PolicyEngine.Lib.Simulation

/-!
# Evaluation sessions

`internal/app`: how an evaluation resolves its revision, opens its snapshot, gathers
contextual and delegated facts, and evaluates items on them. The store, the clock and
the extensions are the fields of `Ports`: each answers as a function of what it is asked,
which is what it means to evaluate on one state and at one time. A store that waits for
a generation it has not reached answers with the error its wait ends in. An error is its
category, which `sanitizeRuntimeError` passes on.
-/

open PolicyEngine.Lib

namespace PolicyEngine

/-- `sharedEvaluationRequest`: what a check and a batch have in common. -/
structure SharedRequest where
  namespace_ : Bytes
  selector : Selector
  contextualData : ContextualData
  approvalEvidence : Bytes
  delegationEvidence : Bytes
  minimumGeneration : UInt64

def CheckRequest.shared (r : CheckRequest) : SharedRequest :=
  ⟨r.namespace_, r.selector, r.contextualData, r.approvalEvidence, r.delegationEvidence, r.minimumGeneration⟩

def BatchCheckRequest.shared (r : BatchCheckRequest) : SharedRequest :=
  ⟨r.namespace_, r.selector, r.contextualData, r.approvalEvidence, r.delegationEvidence, r.minimumGeneration⟩

/-- What a check evaluates, as an item of a batch. -/
def CheckRequest.item (r : CheckRequest) : BatchCheckItem := ⟨r.subject, r.resource, r.action, r.arguments⟩

end PolicyEngine

namespace PolicyEngine.App

variable [Dsl]

structure Ports where
  resolve : ResolveRequest → Result Activation
  getRevision : GetRevisionRequest → Result RevisionRecord
  /-- The artifacts the revision cache holds, by namespace and revision. -/
  cachedRevision : Bytes → Bytes → Option Artifact
  getDataGeneration : Bytes → Result UInt64
  /-- The namespace, the least generation and the read time of a snapshot request. -/
  openSnapshot : Bytes → UInt64 → Time → Result Snapshot
  authorizeCaller : Caller → Bytes → List Capability → Result Unit
  verifyApproval : ApprovalVerificationRequest → Result (List Bytes)
  verifyDelegation : DelegationVerificationRequest → Result ContextualData
  clock : Time

/-! ## Work budgets -/

structure WorkBudget where
  items : Nat
  bytes : Nat
  maxItems : Nat
  maxBytes : Nat
  deriving DecidableEq, Repr

def WorkBudget.of (maxItems maxBytes : Nat) : WorkBudget := ⟨0, 0, maxItems, maxBytes⟩

/-- No budget, the nil pointer of the source, is never exhausted. -/
def addWork (items bytes : Nat) : Option WorkBudget → Result (Option WorkBudget)
  | none => .ok none
  | some b =>
    if items > b.maxItems - b.items ∨ bytes > b.maxBytes - b.bytes then .error .resourceExhausted
    else .ok (some { b with items := b.items + items, bytes := b.bytes + bytes })

/-- The budgets of a session. -/
structure Budgets where
  attribute_ : Option WorkBudget
  verifier : Option WorkBudget
  graph : Option WorkBudget

abbrev Evaluator := StateT Budgets (Except ErrorCategory)

def chargeAttribute (items bytes : Nat) : Evaluator Unit :=
  charge fun b => (addWork items bytes b.attribute_).map fun w => { b with attribute_ := w }

def chargeVerifier (items bytes : Nat) : Evaluator Unit :=
  charge fun b => (addWork items bytes b.verifier).map fun w => { b with verifier := w }

def chargeGraph (items bytes : Nat) : Evaluator Unit :=
  charge fun b => (addWork items bytes b.graph).map fun w => { b with graph := w }

/-- `contextualDataVerifierBytes`, with its own constants. -/
def contextualDataVerifierBytes (contextual : ContextualData) : Nat :=
  let fieldMetadata := 8
  let collectionMetadata := 8
  let valueMetadata := 9
  let timestampBytes := 40
  let textBytes (value : Bytes) := fieldMetadata + value.length
  2 * collectionMetadata +
    (contextual.tuples.map fun t =>
      textBytes t.tuple.resource.type + textBytes t.tuple.resource.id + textBytes t.tuple.relation +
        (textBytes t.tuple.subject.type + textBytes t.tuple.subject.id + textBytes t.tuple.subject.relation) +
        (fieldMetadata + 1) + if t.hasExpiry then fieldMetadata + timestampBytes else 0).sum +
    (contextual.attributes.map fun a =>
      textBytes a.entity.type + textBytes a.entity.id + collectionMetadata + (a.path.map textBytes).sum +
        valueMetadata + if a.value.kind = .string then a.value.text.length else 0).sum

/-! ## Fingerprints of one item -/

def writeEffectiveAttribute (a : Attribute) : Bytes :=
  writeEntityFingerprint a.entity ++ writeFingerprintUint64 a.path.length ++ a.path.flatMap writeFingerprintString ++
    writeValueFingerprint a.value

def effectiveContextInput (contextual : ContextualData) : Bytes :=
  ascii "cadrena.approval.effective-context.v1" ++ writeFingerprintUint64 contextual.tuples.length ++
    contextual.tuples.flatMap writeTupleFingerprint ++ writeFingerprintUint64 contextual.attributes.length ++
    contextual.attributes.flatMap writeEffectiveAttribute

def fingerprintEffectiveContext (contextual : ContextualData) : Bytes := sha256 (effectiveContextInput contextual)

def approvalItemInput (item : BatchCheckItem) (effectiveContextFingerprint : Bytes) (usedDelegation : Bool) : Bytes :=
  ascii "cadrena.approval.item.v1" ++ writeEntityFingerprint item.subject ++ writeEntityFingerprint item.resource ++
    writeFingerprintString item.action ++ writeFingerprintUint64 item.arguments.size ++
    writeArgumentsFingerprint item.arguments ++ effectiveContextFingerprint ++ [if usedDelegation then 1 else 0]

def approvalItemFingerprint (item : BatchCheckItem) (effectiveContextFingerprint : Bytes) (usedDelegation : Bool) :
    Bytes :=
  sha256 (approvalItemInput item effectiveContextFingerprint usedDelegation)

/-! ## Opening a session -/

structure ResolvedRevision where
  namespace_ : Bytes
  revisionID : Bytes
  slotGeneration : UInt64

/-- An exact selector names its revision; a slot is resolved by the store. -/
def resolveRevision (ports : Ports) (request : SharedRequest) : Result ResolvedRevision :=
  match request.selector.ExactRevision with
  | some revisionID => .ok ⟨request.namespace_, revisionID, 0⟩
  | none =>
    match request.selector.Slot with
    | none => .error .invalidArgument
    | some slot => do
      let resolveRequest ← newResolveRequest request.namespace_ slot
      let activation ← ports.resolve resolveRequest
      let generation := UInt64.ofNat activation.generation
      require (activation.namespace_ = request.namespace_ && activation.slot = slot && activation.revisionID != [] &&
        generation != 0) .integrity
      .ok ⟨request.namespace_, activation.revisionID, generation⟩

/-- The cached artifact, or the stored one once it is verified, decoded and hydrated. -/
def loadRevision (ports : Ports) (pin : ResolvedRevision) : Result Artifact := do
  require (pin.namespace_ != [] && pin.revisionID != []) .internal
  match ports.cachedRevision pin.namespace_ pin.revisionID with
  | some artifact => do
    require (Dsl.hasProgram artifact) .integrity
    .ok artifact
  | none => do
    let request ← newGetRevisionRequest pin.namespace_ pin.revisionID
    let record ← ports.getRevision request
    require (validRecord record && record.metadata.namespace_ = pin.namespace_ &&
      record.metadata.id = pin.revisionID) .integrity
    match decodeArtifact record.artifact with
    | none => .error .integrity
    | some artifact => do
      require (Dsl.hasProgram artifact && (marshalArtifact artifact).isSome) .internal
      .ok artifact

def evaluationTime (ports : Ports) : Result Time := do
  require (ports.clock != zeroTime) .internal
  .ok ports.clock

def openExactSnapshot (ports : Ports) (request : SharedRequest) (readAt : Time) : Result Snapshot := do
  validateNamespace request.namespace_
  let head ← ports.getDataGeneration request.namespace_
  let minimum := if head > request.minimumGeneration then head else request.minimumGeneration
  require (readAt != zeroTime) .invalidArgument
  let snapshot ← ports.openSnapshot request.namespace_ minimum readAt
  require (snapshot.namespace_ = request.namespace_ && snapshot.readAt == readAt && snapshot.generation == head &&
    request.minimumGeneration ≤ snapshot.generation) .failedPrecondition
  .ok snapshot

structure Session where
  revisionID : Bytes
  slotGeneration : UInt64
  dataGeneration : UInt64
  evaluatedAt : Time
  artifact : Artifact
  reader : SnapshotReader
  schema : DataSchema
  binding : EvidenceBinding
  effectiveContextFingerprint : Bytes
  usedContextualData : Bool
  usedDelegation : Bool
  approvalEvidence : Bytes
  batch : Bool

/-- The binding of a session, over the fingerprint of its whole request. -/
def sessionBinding (caller : Caller) (request : SharedRequest) (pin : ResolvedRevision) (snapshot : Snapshot)
    (evaluatedAt : Time) (fingerprint : Bytes) : Result EvidenceBinding :=
  orFail .internal (newEvidenceBinding
    { caller := caller.Binding
      namespace_ := request.namespace_
      selector := request.selector
      revisionID := pin.revisionID
      slotGeneration := pin.slotGeneration
      dataGeneration := snapshot.generation
      evaluatedAt := evaluatedAt
      fingerprint := fingerprint })

/-- Verifies delegation evidence and adds the facts it yields. -/
def addDelegation (ports : Ports) (schema : DataSchema) (snapshot : Snapshot) (binding : EvidenceBinding)
    (evidence : Bytes) (contextual : ContextualData) : Evaluator ContextualData := do
  let verification ← newDelegationVerificationRequest binding evidence
  let delegated ← invokeDelegationVerifier ports.verifyDelegation verification
  chargeVerifier (delegated.tuples.length + delegated.attributes.length) (contextualDataVerifierBytes delegated)
  schema.ValidateContextualTuples delegated
  let merged ← newContextualData (contextual.tuples ++ delegated.tuples) (contextual.attributes ++ delegated.attributes)
  schema.NormalizeContextualData snapshot merged

def openEvaluationSession (ports : Ports) (caller : Caller) (request : SharedRequest) (fingerprint : Bytes) :
    Evaluator Session := do
  let pin ← resolveRevision ports request
  let artifact ← loadRevision ports pin
  let evaluatedAt ← evaluationTime ports
  let snapshot ← openExactSnapshot ports request evaluatedAt
  let binding ← sessionBinding caller request pin snapshot evaluatedAt fingerprint
  let schema ← newDataSchema artifact
  schema.ValidateContextualTuples request.contextualData
  let own ← schema.NormalizeContextualData snapshot request.contextualData
  let usedDelegation := !request.delegationEvidence.isEmpty
  let contextual ← (if usedDelegation then
      addDelegation ports schema snapshot binding request.delegationEvidence own
    else pure own)
  pure
    { revisionID := pin.revisionID
      slotGeneration := pin.slotGeneration
      dataGeneration := snapshot.generation
      evaluatedAt := evaluatedAt
      artifact := artifact
      reader := ⟨snapshot, contextual⟩
      schema := schema
      binding := binding
      effectiveContextFingerprint := fingerprintEffectiveContext contextual
      usedContextualData := !contextual.Empty
      usedDelegation := usedDelegation
      approvalEvidence := request.approvalEvidence
      batch := false }

end PolicyEngine.App
