import PolicyEngine.App.Session

/-!
# Check, BatchCheck and Explain

`internal/app/check.go`, `batch.go`, `explain.go` and `resource_attributes.go`: one item
evaluated in a session, and the three calls built on it. The delivery of decision
events does not change a response and is left out.
-/

open PolicyEngine.Lib

namespace PolicyEngine.App

variable [Dsl]

/-! ## Resource attributes -/

/-- The bytes a value is charged for. -/
def scalarBytes : Scalar → Nat
  | .string text => 8 + text.length
  | _ => 8

/-- Resolves one declared path and inserts what it finds. -/
def resolveResourcePath (session : Session) (resource : EntityRef) (attributes : ResourceAttributes) (path : Path) :
    Evaluator ResourceAttributes := do
  chargeAttribute (path.length + 2) (8 * path.length + (path.map List.length).sum)
  match ← session.reader.ResolveAttribute resource path with
  | none => pure attributes
  | some value => do
    chargeAttribute 0 (scalarBytes value)
    match Nested.insert compare attributes path value with
    | none => throw .integrity
    | some attributes => pure attributes

def resolveResourceAttributes (session : Session) (resource : EntityRef) (action : Bytes) :
    Evaluator ResourceAttributes :=
  (session.schema.ResourcePaths resource.type action).foldlM (resolveResourcePath session resource) []

/-! ## Approval -/

/-- The requirements, in order, that are not among the satisfied ones; both lists are sorted. -/
def unsatisfiedRequirements : (requirements satisfied : List Bytes) → List Bytes
  | [], _ => []
  | requirement :: rest, [] => requirement :: unsatisfiedRequirements rest []
  | requirement :: rest, s :: satisfied =>
    if compare s requirement = .lt then unsatisfiedRequirements (requirement :: rest) satisfied
    else if s = requirement then unsatisfiedRequirements rest (s :: satisfied)
    else requirement :: unsatisfiedRequirements rest (s :: satisfied)
termination_by requirements satisfied => requirements.length + satisfied.length

structure Approval where
  decision : Decision
  requirements : List Bytes
  usedApproval : Bool
  deriving DecidableEq, Repr

def finalizeApproval (ports : Ports) (binding : EvidenceBinding) (evidence : Bytes) (result : DslResult) :
    Evaluator Approval := do
  if result.requiredApprovals.isEmpty && !evidence.isEmpty then throw .failedPrecondition
  else
    match result.decision with
    | .deny => pure ⟨.deny, [], false⟩
    | .allow => pure ⟨.allow, [], false⟩
    | .other => throw .internal
    | .requireApproval =>
      if result.requiredApprovals.isEmpty then throw .internal
      else
        let requirements := sortBy compare result.requiredApprovals
        if evidence.isEmpty then pure ⟨.requireApproval, requirements, false⟩
        else do
          let verification ← newApprovalVerificationRequest binding requirements evidence
          let satisfied ← invokeApprovalVerifier ports.verifyApproval verification
          chargeVerifier satisfied.length (8 + (satisfied.map fun identifier => 8 + identifier.length).sum)
          let unsatisfied := unsatisfiedRequirements requirements satisfied
          if unsatisfied.isEmpty then pure ⟨.allow, [], true⟩
          else pure ⟨.requireApproval, unsatisfied, true⟩

/-! ## One item -/

/-- The binding an item's approval is verified against. -/
def itemBinding (session : Session) (item : BatchCheckItem) : Result EvidenceBinding :=
  orFail .internal (newEvidenceBinding
    { caller := session.binding.caller
      namespace_ := session.binding.namespace_
      selector := session.binding.selector
      revisionID := session.revisionID
      slotGeneration := session.slotGeneration
      dataGeneration := session.dataGeneration
      evaluatedAt := session.evaluatedAt
      fingerprint := approvalItemFingerprint item session.effectiveContextFingerprint session.usedDelegation })

/-- Reads through the reader; in a batch every read is charged. -/
def sessionReadTuples (session : Session) (resource : EntityRef) (relation : Bytes) : Evaluator (List SubjectRef) := do
  let subjects ← session.reader.ReadTuples resource relation
  chargeGraph (1 + subjects.length) 0
  pure subjects

/-- The digest an approval is resumed by, for a decision that requires one. -/
def approvalBindingDigest (binding : EvidenceBinding) (decision : Decision) : Result Bytes :=
  if decision = .requireApproval then
    match binding.AuthorizationDigest with
    | some digest => .ok digest
    | none => .error .internal
  else .ok zeroDigest

def decisionID (session : Session) (item : BatchCheckItem) (decision : Decision) : Bytes :=
  hexEncode (sha256 (session.binding.fingerprint ++
    (if session.batch then
      writeEntityFingerprint item.subject ++ writeEntityFingerprint item.resource ++
        writeFingerprintString item.action ++ writeArgumentsFingerprint item.arguments
    else []) ++ [decision.code]))

/-- Everything of an item's evaluation but its last step, which makes the result. -/
structure ItemOutcome where
  approval : Approval
  digest : Bytes
  dslResult : DslResult

def evaluateItem (ports : Ports) (session : Session) (item : BatchCheckItem) : Evaluator ItemOutcome := do
  let arguments ← ResolveArguments item.arguments
  let attributes ← resolveResourceAttributes session item.resource item.action
  let dslResult ← (Dsl.check session.artifact
    ⟨item.subject, item.resource, item.action, arguments, attributes⟩).run (sessionReadTuples session)
  chargeGraph dslResult.trace.length 0
  let binding ← itemBinding session item
  let approval ← finalizeApproval ports binding session.approvalEvidence dslResult
  let digest ← approvalBindingDigest binding approval.decision
  pure ⟨approval, digest, dslResult⟩

/-- The result before its construction. -/
def decisionInput (session : Session) (item : BatchCheckItem) (outcome : ItemOutcome) : DecisionResult where
  decision := outcome.approval.decision
  decisionID := decisionID session item outcome.approval.decision
  reasonCode := outcome.dslResult.reason
  revisionID := session.revisionID
  slotGeneration := session.slotGeneration
  dataGeneration := session.dataGeneration
  evaluatedAt := session.evaluatedAt
  requirements := outcome.approval.requirements
  approvalBindingDigest := outcome.digest
  usedContextualData := session.usedContextualData
  usedApproval := outcome.approval.usedApproval
  usedDelegation := session.usedDelegation

def evaluateSessionItemWithTrace (ports : Ports) (session : Session) (item : BatchCheckItem) :
    Evaluator (DecisionResult × List TraceStep) := do
  let outcome ← evaluateItem ports session item
  let result ← orFail .internal (newDecisionResult (decisionInput session item outcome))
  pure (result, outcome.dslResult.trace)

def evaluateSessionItem (ports : Ports) (session : Session) (item : BatchCheckItem) : Evaluator DecisionResult := do
  let (result, _) ← evaluateSessionItemWithTrace ports session item
  pure result

/-! ## The calls -/

/-- The budgets of a session: its own attribute budget, and what the call brings. -/
def sessionBudgets (verifier graph : Option WorkBudget) : Budgets where
  attribute_ := some (.of maxAggregateWorkItems maxAggregateInputBytes)
  verifier := verifier
  graph := graph

def verifierBudget : WorkBudget := .of maxVerifierOutputItems maxVerifierOutputBytes

/-- The graph budget of a batch counts items only. -/
def graphBudget : WorkBudget := .of maxAggregateWorkItems 0

def checkEvaluator (ports : Ports) (caller : Caller) (request : CheckRequest) : Evaluator CheckResponse := do
  let session ← openEvaluationSession ports caller request.shared (checkFingerprint request)
  let result ← evaluateSessionItem ports session request.item
  session.reader.snapshot.close
  orFail .internal (newCheckResponse request result)

def Check (ports : Ports) (caller : Caller) (request : CheckRequest) : Result CheckResponse := do
  let validated ← newCheckRequest request
  ports.authorizeCaller caller validated.namespace_ validated.RequiredCapabilities
  let (response, _) ← (checkEvaluator ports caller validated).run (sessionBudgets none none)
  .ok response

def batchEvaluator (ports : Ports) (caller : Caller) (request : BatchCheckRequest) : Evaluator BatchCheckResponse := do
  let session ← openEvaluationSession ports caller request.shared (batchFingerprint request)
  let session := { session with batch := true }
  let results ← request.items.foldlM (fun results item => do
    let result ← evaluateSessionItem ports session item
    pure (results ++ [result])) []
  session.reader.snapshot.close
  newBatchCheckResponse request results

def BatchCheck (ports : Ports) (caller : Caller) (request : BatchCheckRequest) : Result BatchCheckResponse := do
  let validated ← newBatchCheckRequest request
  ports.authorizeCaller caller validated.namespace_ validated.RequiredCapabilities
  let (response, _) ← (batchEvaluator ports caller validated).run (sessionBudgets (some verifierBudget) (some graphBudget))
  .ok response

/-- The declared names of a schema, with their kind. -/
def declared (schema : Schema) (entity name kind : Bytes) : Bool :=
  schema.entities.any fun e => e.name = entity &&
    ((kind = ascii "relation" && e.relations.any (·.name = name)) ||
      (kind = ascii "permission" && e.permissions.contains name) || (kind = ascii "action" && e.actions.contains name))

def redactedExplainSteps (artifact : Artifact) (trace : List TraceStep) : Result (List ExplainStep) := do
  require (trace.length ≤ maxExplainSteps) .resourceExhausted
  match Dsl.parse artifact with
  | none => .error .internal
  | some schema => trace.mapM fun step => do
    require (declared schema step.resource.type step.declaration step.kind) .internal
    orFail .internal (newExplainStep (step.resource.type ++ ascii "." ++ step.declaration) step.kind step.matched)

def explainEvaluator (ports : Ports) (caller : Caller) (request : CheckRequest) : Evaluator ExplainResponse := do
  let session ← openEvaluationSession ports caller request.shared (checkFingerprint request)
  let (result, trace) ← evaluateSessionItemWithTrace ports session request.item
  session.reader.snapshot.close
  let steps ← redactedExplainSteps session.artifact trace
  newExplainResponse request result steps

/-- The request is the check that the explain request wraps. -/
def Explain (ports : Ports) (caller : Caller) (request : CheckRequest) : Result ExplainResponse := do
  let validatedCheck ← newCheckRequest request
  let validated ← newExplainRequest validatedCheck
  ports.authorizeCaller caller validated.namespace_ validated.explainCapabilities
  let (response, _) ← (explainEvaluator ports caller validated).run (sessionBudgets (some verifierBudget) none)
  .ok response

end PolicyEngine.App
