import PolicyEngine.App.Check

/-!
# The three calls agree

A batch charges all its items to shared budgets, and its session is bound to the whole
batch. Neither reaches a decision: an evaluation that fits into its budgets succeeds
with the same outcome in more generous ones, and only the decision's identifier is made
from the session's fingerprint. So BatchCheck is Check item by item, and Explain answers
with the result of Check.
-/

open PolicyEngine.Lib

namespace PolicyEngine.App

/-! ## Budgets -/

/-- The second budget has at least the room of the first; no budget has any room. -/
def RoomLE : Option WorkBudget → Option WorkBudget → Prop
  | _, none => True
  | none, some _ => False
  | some b, some c => b.maxItems - b.items ≤ c.maxItems - c.items ∧ b.maxBytes - b.bytes ≤ c.maxBytes - c.bytes

theorem RoomLE.refl (b : Option WorkBudget) : RoomLE b b := by
  cases b with
  | none => trivial
  | some b => exact ⟨Nat.le_refl _, Nat.le_refl _⟩

/-- What fits into a budget fits into a more generous one, and leaves it more generous. -/
theorem addWork_mono {b c b' items bytes} (h : RoomLE b c) (hb : addWork items bytes b = .ok b') :
    ∃ c', addWork items bytes c = .ok c' ∧ RoomLE b' c' := by
  cases c with
  | none => exact ⟨none, rfl, trivial⟩
  | some c =>
    cases b with
    | none => exact h.elim
    | some b =>
      obtain ⟨hitems, hbytes⟩ := h
      simp only [addWork] at hb ⊢
      split at hb
      · cases hb
      next hfits =>
        obtain rfl := Except.ok.inj hb
        rw [if_neg (by omega)]
        exact ⟨_, rfl, by simp only; omega, by simp only; omega⟩

/-- Work leaves a budget no more room than it had. -/
theorem addWork_spends {b c b' items bytes} (h : RoomLE b c) (hb : addWork items bytes b = .ok b') : RoomLE b' c := by
  cases b with
  | none => exact Except.ok.inj hb ▸ h
  | some b =>
    simp only [addWork] at hb
    split at hb
    · cases hb
    · obtain rfl := Except.ok.inj hb
      cases c with
      | none => trivial
      | some c => exact ⟨by have := h.1; simp only; omega, by have := h.2; simp only; omega⟩

/-- Budget by budget. -/
structure Budgets.LE (b c : Budgets) : Prop where
  attribute_ : RoomLE b.attribute_ c.attribute_
  verifier : RoomLE b.verifier c.verifier
  graph : RoomLE b.graph c.graph

theorem map_eq_ok {α β : Type} {x : Result α} {f : α → β} {b : β} : x.map f = .ok b ↔ ∃ a, x = .ok a ∧ f a = b := by
  cases x <;> simp [Except.map]

/-- The evaluation succeeds with the same answer in more generous budgets, and gives no room back. -/
structure Metered {α : Type} (x : Evaluator α) : Prop where
  generous : Sim Budgets.LE Eq x x
  spends : Sim Budgets.LE (fun _ _ => True) x (pure () : Evaluator Unit)

namespace Metered

variable {α β : Type}

theorem pure (a : α) : Metered (Pure.pure a : Evaluator α) := ⟨Sim.pure rfl, Sim.pure trivial⟩

theorem lift (x : Result α) : Metered (liftM x : Evaluator α) where
  generous := Sim.lift_self x
  spends := Sim.lift (q := .ok ()) fun _ _ => ⟨(), rfl, trivial⟩

theorem throw (e : ErrorCategory) : Metered (MonadExcept.throw e : Evaluator α) := ⟨Sim.throw, Sim.throw⟩

theorem bind {x : Evaluator α} {f : α → Evaluator β} (hx : Metered x) (hf : ∀ a, Metered (f a)) :
    Metered (x >>= f) where
  generous := Sim.bind hx.generous fun a _ hab => hab ▸ (hf a).generous
  spends := Sim.bind hx.spends fun a _ _ => (hf a).spends

theorem foldlM {f : β → α → Evaluator β} (l : List α) (hf : ∀ b a, Metered (f b a)) (b : β) :
    Metered (l.foldlM f b) := by
  induction l generalizing b with
  | nil => exact pure b
  | cons a l ih =>
    rw [List.foldlM_cons]
    exact (hf b a).bind ih

end Metered

theorem metered_chargeAttribute (items bytes : Nat) : Metered (chargeAttribute items bytes) := by
  refine ⟨.charge fun b c h b' hb => ?_, .charge_pure fun b c h b' hb => ?_⟩ <;> obtain ⟨w, hw, rfl⟩ := map_eq_ok.1 hb
  · obtain ⟨w', hw', hle⟩ := addWork_mono h.attribute_ hw
    exact ⟨_, map_eq_ok.2 ⟨w', hw', rfl⟩, hle, h.verifier, h.graph⟩
  · exact ⟨addWork_spends h.attribute_ hw, h.verifier, h.graph⟩

theorem metered_chargeVerifier (items bytes : Nat) : Metered (chargeVerifier items bytes) := by
  refine ⟨.charge fun b c h b' hb => ?_, .charge_pure fun b c h b' hb => ?_⟩ <;> obtain ⟨w, hw, rfl⟩ := map_eq_ok.1 hb
  · obtain ⟨w', hw', hle⟩ := addWork_mono h.verifier hw
    exact ⟨_, map_eq_ok.2 ⟨w', hw', rfl⟩, h.attribute_, hle, h.graph⟩
  · exact ⟨h.attribute_, addWork_spends h.verifier hw, h.graph⟩

theorem metered_chargeGraph (items bytes : Nat) : Metered (chargeGraph items bytes) := by
  refine ⟨.charge fun b c h b' hb => ?_, .charge_pure fun b c h b' hb => ?_⟩ <;> obtain ⟨w, hw, rfl⟩ := map_eq_ok.1 hb
  · obtain ⟨w', hw', hle⟩ := addWork_mono h.graph hw
    exact ⟨_, map_eq_ok.2 ⟨w', hw', rfl⟩, h.attribute_, h.verifier, hle⟩
  · exact ⟨h.attribute_, h.verifier, addWork_spends h.graph hw⟩

/-- A check reads the same tuples, and so ends the same way. -/
theorem metered_run {readTuples : EntityRef → Bytes → Evaluator (List SubjectRef)}
    (hread : ∀ resource relation, Metered (readTuples resource relation)) (tree : CheckTree) :
    Metered (tree.run readTuples) := by
  induction tree with
  | done result =>
    cases result with
    | ok result => exact .pure _
    | error failure => exact .throw _
  | read resource relation next ih => exact (hread resource relation).bind ih

/-! ## One item -/

variable [Dsl]

theorem metered_resolveResourcePath (session : Session) (resource : EntityRef) (attributes : ResourceAttributes)
    (path : Path) : Metered (resolveResourcePath session resource attributes path) := by
  refine (metered_chargeAttribute _ _).bind fun _ => (Metered.lift _).bind fun found => ?_
  cases found with
  | none => exact .pure _
  | some value =>
    refine (metered_chargeAttribute _ _).bind fun _ => ?_
    cases Nested.insert compare attributes path value with
    | none => exact .throw _
    | some attributes => exact .pure _

theorem metered_resolveResourceAttributes (session : Session) (resource : EntityRef) (action : Bytes) :
    Metered (resolveResourceAttributes session resource action) :=
  .foldlM _ (metered_resolveResourcePath session resource) _

theorem metered_sessionReadTuples (session : Session) (resource : EntityRef) (relation : Bytes) :
    Metered (sessionReadTuples session resource relation) :=
  (Metered.lift _).bind fun _ => (metered_chargeGraph _ _).bind fun _ => .pure _

theorem metered_finalizeApproval (ports : Ports) (binding : EvidenceBinding) (evidence : Bytes) (result : DslResult) :
    Metered (finalizeApproval ports binding evidence result) := by
  unfold finalizeApproval
  split
  · exact .throw _
  split
  · exact .pure _
  · exact .pure _
  · exact .throw _
  split
  · exact .throw _
  split
  · exact .pure _
  refine (Metered.lift _).bind fun _ => (Metered.lift _).bind fun _ => (metered_chargeVerifier _ _).bind fun _ => ?_
  dsimp only
  split <;> exact .pure _

theorem metered_evaluateItem (ports : Ports) (session : Session) (item : BatchCheckItem) :
    Metered (evaluateItem ports session item) :=
  (Metered.lift _).bind fun _ => (metered_resolveResourceAttributes _ _ _).bind fun _ =>
    (metered_run (metered_sessionReadTuples session) _).bind fun _ => (metered_chargeGraph _ _).bind fun _ =>
      (Metered.lift _).bind fun _ => (metered_finalizeApproval _ _ _ _).bind fun _ =>
        (Metered.lift _).bind fun _ => .pure _

/-! ## Another fingerprint -/

/-- The session over another fingerprint of the request, and as part of a batch or not. -/
def Session.rebind (s : Session) (fingerprint : Bytes) (batch : Bool) : Session :=
  { s with binding := { s.binding with fingerprint := fingerprint }, batch := batch }

omit [Dsl] in
theorem validateIdentifier_hexEncode {b : Bytes} (hne : b ≠ []) (hlen : b.length ≤ 512) :
    validateIdentifier (hexEncode b) = .ok () := by
  refine validateIdentifier_eq_ok.2 ⟨?_, ?_, safeText_ascii fun c hc => ?_⟩
  · obtain ⟨x, rest, rfl⟩ := List.exists_cons_of_ne_nil hne
    simp [hexEncode]
  · simp [hexEncode, List.length_flatMap, maxIdentifierBytes]
    omega
  · obtain ⟨x, -, hx⟩ := List.mem_flatMap.1 hc
    have hdigit : ∀ n : Fin 16, 0x20 ≤ hexDigit n ∧ hexDigit n < 0x7F := by decide
    have hlow : x.toNat % 16 < 16 := Nat.mod_lt _ (by decide)
    have hhigh : x.toNat / 16 < 16 := by
      have := x.toNat_lt
      omega
    simp only [List.mem_cons, List.not_mem_nil, or_false] at hx
    rcases hx with rfl | rfl
    · exact hdigit ⟨_, hhigh⟩
    · exact hdigit ⟨_, hlow⟩

theorem length_decisionDigest (m : Bytes) : (sha256 m).length = 32 := Primitives.sha256_length m

theorem validateIdentifier_decisionID (s : Session) (item : BatchCheckItem) (d : Decision) :
    validateIdentifier (decisionID s item d) = .ok () :=
  validateIdentifier_hexEncode (List.length_pos_iff.1 (by rw [length_decisionDigest]; decide))
    (by rw [length_decisionDigest]; decide)

theorem length_decisionID (s : Session) (item : BatchCheckItem) (d : Decision) :
    (decisionID s item d).length = 64 := by
  simp [decisionID, hexEncode, List.length_flatMap, length_decisionDigest]

/-- Equal but for the identifier of the decision, which is one either way. -/
def SameDecision (r r' : DecisionResult) : Prop :=
  ∃ id, validateIdentifier id = .ok () ∧ id.length = r.decisionID.length ∧ r' = { r with decisionID := id }

variable {s : Session} {r : DecisionResult}

theorem newDecisionResult_rebind {item outcome} (h : newDecisionResult (decisionInput s item outcome) = .ok r)
    (fingerprint : Bytes) (batch : Bool) :
    ∃ r', newDecisionResult (decisionInput (s.rebind fingerprint batch) item outcome) = .ok r' ∧ SameDecision r r' := by
  have hvalid := validateIdentifier_decisionID (s.rebind fingerprint batch) item outcome.approval.decision
  have hlen : (decisionID (s.rebind fingerprint batch) item outcome.approval.decision).length = r.decisionID.length := by
    rw [newDecisionResult_eq h, length_decisionID]
    exact (length_decisionID s item _).symm
  refine ⟨_, newDecisionResult_swapID hvalid ?_ h, _, hvalid, hlen, rfl⟩
  rw [hlen, newDecisionResult_eq h]

theorem sim_evaluateSessionItemWithTrace (ports : Ports) (s : Session) (item : BatchCheckItem) (fingerprint : Bytes)
    (batch : Bool) :
    Sim Budgets.LE (fun p p' => SameDecision p.1 p'.1 ∧ p.2 = p'.2) (evaluateSessionItemWithTrace ports s item)
      (evaluateSessionItemWithTrace ports (s.rebind fingerprint batch) item) := by
  refine Sim.bind (metered_evaluateItem ports s item).generous ?_
  rintro outcome _ rfl
  have hresult : Sim Budgets.LE SameDecision
      (liftM (orFail .internal (newDecisionResult (decisionInput s item outcome))) : Evaluator DecisionResult)
      (liftM (orFail .internal (newDecisionResult (decisionInput (s.rebind fingerprint batch) item outcome)))) := by
    refine Sim.lift fun r hr => ?_
    obtain ⟨r', hr', hsame⟩ := newDecisionResult_rebind (orFail_eq_ok.1 hr) fingerprint batch
    exact ⟨r', orFail_eq_ok.2 hr', hsame⟩
  exact hresult.bind fun r r' hsame => .pure ⟨hsame, rfl⟩

/-! ## Sessions over two requests -/

/-- The delegation verifier returns the same facts whichever of the two fingerprints it is shown. -/
def SameDelegation (ports : Ports) (fingerprint fingerprint' : Bytes) : Prop :=
  ∀ (b : EvidenceBinding) (evidence : Bytes),
    ports.verifyDelegation ⟨{ b with fingerprint := fingerprint }, evidence⟩ =
      ports.verifyDelegation ⟨{ b with fingerprint := fingerprint' }, evidence⟩

variable {caller : Caller} {fingerprint : Bytes} {b : EvidenceBinding}

theorem sessionBinding_eq_ok {request pin snapshot at_}
    (h : sessionBinding caller request pin snapshot at_ fingerprint = .ok b) (fingerprint' : Bytes) :
    b.fingerprint = fingerprint ∧
      sessionBinding caller request pin snapshot at_ fingerprint' = .ok { b with fingerprint := fingerprint' } := by
  simp only [sessionBinding, orFail_eq_ok, newEvidenceBinding_eq_ok] at h ⊢
  obtain ⟨rfl, hvalid⟩ := h
  exact ⟨rfl, rfl, hvalid⟩

variable {ports : Ports} {fingerprint' : Bytes}

theorem invokeDelegationVerifier_rebind (hsame : SameDelegation ports b.fingerprint fingerprint') (evidence : Bytes) :
    invokeDelegationVerifier ports.verifyDelegation ⟨{ b with fingerprint := fingerprint' }, evidence⟩ =
      invokeDelegationVerifier ports.verifyDelegation ⟨b, evidence⟩ := by
  have hverify := hsame b evidence
  simp only [invokeDelegationVerifier]
  rw [← hverify]
  rfl

theorem sim_addDelegation (hsame : SameDelegation ports b.fingerprint fingerprint') (schema : DataSchema)
    (snapshot : Snapshot) (evidence : Bytes) (contextual : ContextualData) :
    Sim Budgets.LE Eq (addDelegation ports schema snapshot b evidence contextual)
      (addDelegation ports schema snapshot { b with fingerprint := fingerprint' } evidence contextual) := by
  have hrequest : Sim Budgets.LE (fun r r' => r = ⟨b, evidence⟩ ∧ r' = ⟨{ b with fingerprint := fingerprint' }, evidence⟩)
      (liftM (newDelegationVerificationRequest b evidence) : Evaluator _)
      (liftM (newDelegationVerificationRequest { b with fingerprint := fingerprint' } evidence)) := by
    refine Sim.lift fun r hr => ?_
    simp only [newDelegationVerificationRequest, check_eq_ok] at hr ⊢
    obtain ⟨h1, h2, h3, h4, hr⟩ := hr
    exact ⟨_, ⟨h1, h2, h3, h4, rfl⟩, (Except.ok.inj hr).symm, rfl⟩
  refine hrequest.bind ?_
  rintro _ _ ⟨rfl, rfl⟩
  rw [invokeDelegationVerifier_rebind hsame]
  exact ((Metered.lift _).bind fun _ => (metered_chargeVerifier _ _).bind fun _ => (Metered.lift _).bind fun _ =>
    (Metered.lift _).bind fun _ => Metered.lift _).generous

/-- Over another fingerprint the same session opens, bound to that one. -/
theorem sim_openEvaluationSession (hsame : SameDelegation ports fingerprint fingerprint') (caller : Caller)
    (request : SharedRequest) :
    Sim Budgets.LE
      (fun s s' => s.binding.fingerprint = fingerprint ∧ s.batch = false ∧ s' = s.rebind fingerprint' false)
      (openEvaluationSession ports caller request fingerprint)
      (openEvaluationSession ports caller request fingerprint') := by
  refine Sim.bind (Metered.lift _).generous ?_
  rintro pin _ rfl
  refine Sim.bind (Metered.lift _).generous ?_
  rintro artifact _ rfl
  refine Sim.bind (Metered.lift _).generous ?_
  rintro at_ _ rfl
  refine Sim.bind (Metered.lift _).generous ?_
  rintro snapshot _ rfl
  have hbinding : Sim Budgets.LE (fun b b' => b.fingerprint = fingerprint ∧ b' = { b with fingerprint := fingerprint' })
      (liftM (sessionBinding caller request pin snapshot at_ fingerprint) : Evaluator _)
      (liftM (sessionBinding caller request pin snapshot at_ fingerprint')) := by
    refine Sim.lift fun b hb => ?_
    obtain ⟨hfp, hb'⟩ := sessionBinding_eq_ok hb fingerprint'
    exact ⟨_, hb', hfp, rfl⟩
  refine hbinding.bind ?_
  rintro b _ ⟨rfl, rfl⟩
  refine Sim.bind (Metered.lift _).generous ?_
  rintro schema _ rfl
  refine Sim.bind (Metered.lift _).generous fun _ _ _ => Sim.bind (Metered.lift _).generous ?_
  rintro own _ rfl
  have hcontextual : Sim Budgets.LE Eq
      (if !request.delegationEvidence.isEmpty then
        addDelegation ports schema snapshot b request.delegationEvidence own else pure own : Evaluator ContextualData)
      (if !request.delegationEvidence.isEmpty then
        addDelegation ports schema snapshot { b with fingerprint := fingerprint' } request.delegationEvidence own
        else pure own) := by
    split
    · exact sim_addDelegation hsame schema snapshot _ own
    · exact Sim.pure rfl
  refine hcontextual.bind ?_
  rintro contextual _ rfl
  exact Sim.pure ⟨rfl, rfl, rfl⟩

/-! ## BatchCheck and Check -/

omit [Dsl] in
theorem sessionBudgets_le (verifier graph : Option WorkBudget) :
    Budgets.LE (sessionBudgets verifier graph) (sessionBudgets none none) :=
  ⟨RoomLE.refl _, trivial, trivial⟩

theorem metered_evaluateSessionItemWithTrace (ports : Ports) (s : Session) (item : BatchCheckItem) :
    Metered (evaluateSessionItemWithTrace ports s item) :=
  (metered_evaluateItem ports s item).bind fun _ => (Metered.lift _).bind fun _ => .pure _

theorem metered_evaluateSessionItem (ports : Ports) (s : Session) (item : BatchCheckItem) :
    Metered (evaluateSessionItem ports s item) :=
  (metered_evaluateSessionItemWithTrace ports s item).bind fun _ => .pure _

variable {request : CheckRequest}

/-- What a successful evaluation of a check answers. -/
theorem check_of_evaluation {b b' trace}
    (hopen : openEvaluationSession ports caller request.shared (checkFingerprint request)
      (sessionBudgets none none) = .ok (s, b))
    (hitem : evaluateSessionItemWithTrace ports s request.item b = .ok ((r, trace), b'))
    (hclose : s.reader.snapshot.close = .ok ()) (hrequest : request.valid = true) (hresult : r.valid = true)
    (hselector : selectorMatchesResult request.selector r = true)
    (hauthorized : ports.authorizeCaller caller request.namespace_ request.RequiredCapabilities = .ok ()) :
    Check ports caller request = .ok ⟨request.selector, r⟩ := by
  have hresponse : newCheckResponse request r = .ok ⟨request.selector, r⟩ :=
    newCheckResponse_eq_ok.2 ⟨rfl, hrequest, hresult, hselector⟩
  have hevaluate : checkEvaluator ports caller request (sessionBudgets none none) =
      .ok (⟨request.selector, r⟩, b') :=
    bind_run_eq_ok.2 ⟨_, _, hopen, bind_run_eq_ok.2 ⟨_, _, bind_run_eq_ok.2 ⟨_, _, hitem, rfl⟩,
      bind_run_eq_ok.2 ⟨(), _, lift_run_eq_ok.2 ⟨hclose, rfl⟩, lift_run_eq_ok.2 ⟨orFail_eq_ok.2 hresponse, rfl⟩⟩⟩⟩
  rw [Check, newCheckRequest_eq_ok.2 ⟨rfl, hrequest⟩, ok_bind, hauthorized, ok_bind, StateT.run, hevaluate]
  rfl

/-- An item evaluated in a batch is the check of that item. -/
theorem check_of_item {b b' t : Budgets}
    (hopen : openEvaluationSession ports caller request.shared (checkFingerprint request)
      (sessionBudgets none none) = .ok (s.rebind (checkFingerprint request) false, t)) (hle : Budgets.LE b t)
    (hitem : evaluateSessionItem ports s request.item b = .ok (r, b')) (hclose : s.reader.snapshot.close = .ok ())
    (hrequest : request.valid = true) (hresult : r.valid = true)
    (hselector : selectorMatchesResult request.selector r = true)
    (hauthorized : ports.authorizeCaller caller request.namespace_ request.RequiredCapabilities = .ok ()) :
    ∃ response, Check ports caller request = .ok response ∧ response.result.withoutID = r.withoutID := by
  obtain ⟨⟨r₀, trace⟩, b₀, hrun, hr⟩ := bind_run_eq_ok.1 hitem
  cases hr
  obtain ⟨⟨r', trace'⟩, t', hrun', ⟨⟨id, hid, hlen, hr'⟩, -⟩, -⟩ :=
    sim_evaluateSessionItemWithTrace ports s request.item (checkFingerprint request) false hle hrun
  subst hr'
  exact ⟨_, check_of_evaluation hopen hrun' hclose hrequest (DecisionResult.valid_swapID hid hlen hresult) hselector
    hauthorized, rfl⟩

/-- BatchCheck is Check item by item. -/
theorem batchCheck_pointwise {ports : Ports} {caller : Caller} {request : BatchCheckRequest}
    (hdelegation : ∀ item ∈ request.items,
      SameDelegation ports (batchFingerprint request) (checkFingerprint (request.check item)))
    {response : BatchCheckResponse} (h : BatchCheck ports caller request = .ok response) :
    response.results.length = request.items.length ∧
      ∀ (i : Nat) (item : BatchCheckItem) (result : DecisionResult), request.items[i]? = some item →
        response.results[i]? = some result → ∃ checked, Check ports caller (request.check item) = .ok checked ∧
          checked.result.withoutID = result.withoutID := by
  obtain ⟨validated, hvalidated, hcall⟩ := bind_eq_ok.1 h
  obtain ⟨heq, hvalid⟩ := newBatchCheckRequest_eq_ok hvalidated
  subst validated
  obtain ⟨hauthorized, hcall⟩ := check_eq_ok.1 hcall
  obtain ⟨⟨_, b⟩, hrun, hresponse⟩ := bind_eq_ok.1 hcall
  obtain rfl := Except.ok.inj hresponse
  -- the steps of the batch
  obtain ⟨s, b₁, hopen, hafterOpen⟩ := bind_run_eq_ok.1 hrun
  obtain ⟨results, b₂, hloop, hafterLoop⟩ := bind_run_eq_ok.1 hafterOpen
  obtain ⟨_, b₃, hcloseRun, hanswerRun⟩ := bind_run_eq_ok.1 hafterLoop
  obtain ⟨hclose, -⟩ := lift_run_eq_ok.1 hcloseRun
  obtain ⟨hanswer, -⟩ := lift_run_eq_ok.1 hanswerRun
  obtain ⟨rfl, -, hlength, hresults⟩ := newBatchCheckResponse_eq_ok hanswer
  refine ⟨hlength, fun i item result hitem hresult => ?_⟩
  have hmem : item ∈ request.items := List.mem_of_getElem? hitem
  -- the check opens its session in budgets no item has touched
  obtain ⟨_, t, hopen', ⟨hfingerprint, hbatch, rfl⟩, hle⟩ :=
    sim_openEvaluationSession (hdelegation item hmem) caller request.shared (sessionBudgets_le _ _) hopen
  have hkeep (j : BatchCheckItem) (c : Budgets) (r : DecisionResult) (c' : Budgets) (hc : Budgets.LE c t)
      (hj : evaluateSessionItem ports { s with batch := true } j c = .ok (r, c')) : Budgets.LE c' t := by
    obtain ⟨_, t', ht, -, hle'⟩ := (metered_evaluateSessionItem ports _ j).spends hc hj
    cases ht
    exact hle'
  obtain ⟨answers, hanswers, hall⟩ := collect_eq_ok hkeep hle hloop
  rw [List.nil_append] at hanswers
  subst hanswers
  obtain ⟨hi, rfl⟩ := List.getElem?_eq_some_iff.1 hitem
  obtain ⟨hi', rfl⟩ := List.getElem?_eq_some_iff.1 hresult
  obtain ⟨c, c', hc, hitemRun⟩ := hall.get hi hi'
  exact check_of_item (s := { s with batch := true }) hopen' hc hitemRun hclose (BatchCheckRequest.check_valid hvalid hmem)
    (hresults _ (List.getElem_mem hi')).1 (hresults _ (List.getElem_mem hi')).2 hauthorized

/-! A policy that reads the viewers of a document and asks for one approval, which the evidence does not give. -/

omit [Dsl] in
def sampleSchema : Schema where
  entities := [⟨ascii "doc", [⟨ascii "viewer", [⟨ascii "user", []⟩]⟩], [], [ascii "read"]⟩]
  guards := [⟨ascii "doc", ascii "read", [.comparison [ascii "resource", ascii "owner", ascii "name"]]⟩]

omit [Dsl] in
@[reducible] def Dsl.sample : Dsl :=
  { Primitives.constant with
    sha256 := fun _ => List.replicate 32 1
    sha256_length := fun _ => List.length_replicate
    parse := fun _ => some sampleSchema
    hasProgram := fun _ => true
    check := fun _ request => .read request.resource (ascii "viewer") fun _ =>
      .done (.ok ⟨.requireApproval, ascii "NEEDS_APPROVAL", [ascii "legal"],
        [⟨request.resource, ascii "viewer", ascii "relation", true⟩]⟩) }

omit [Dsl] in
/-- A store at generation 3 without data. -/
def sampleSnapshot (namespace_ : Bytes) (readAt : Time) : Snapshot where
  namespace_ := namespace_
  generation := 3
  readAt := readAt
  queryTuples _ := .ok []
  getAttribute key := .ok ⟨key, .zero, false, true⟩
  hasAttributeDescendant _ := .ok false
  close := .ok ()

/-- The slot is at a cached revision; everybody may call, and evidence yields nothing. -/
def samplePorts (artifact : Artifact) : Ports where
  resolve r := .ok ⟨r.namespace_, r.slot, List.replicate 64 0x61, 5, 1⟩
  getRevision _ := .error .notFound
  cachedRevision _ _ := some artifact
  getDataGeneration _ := .ok 3
  openSnapshot namespace_ _ readAt := .ok (sampleSnapshot namespace_ readAt)
  authorizeCaller _ _ _ := .ok ()
  verifyApproval _ := .ok []
  verifyDelegation _ := .ok .none
  clock := 1

omit [Dsl] in
def sampleCaller : Caller := ⟨ascii "gateway", ∅⟩

omit [Dsl] in
/-- The sample batch and a second subject, with evidence of both kinds. -/
def sampleEvidenced : BatchCheckRequest :=
  { sampleBatch with
    items := sampleBatch.items ++ [⟨⟨ascii "user", ascii "bob"⟩, ⟨ascii "doc", ascii "readme"⟩, ascii "read", ∅⟩]
    approvalEvidence := [1]
    delegationEvidence := [2] }

omit [Dsl] in
theorem exists_ok_of_isOk {ε α : Type} {x : Except ε α} (h : x.isOk = true) : ∃ a, x = .ok a := by
  cases x with
  | error e => cases h
  | ok a => exact ⟨a, rfl⟩

omit [Dsl] in
set_option maxRecDepth 4000 in
theorem batchCheck_pointwise_sample :
    ∃ response, @BatchCheck Dsl.sample (@samplePorts Dsl.sample []) sampleCaller sampleEvidenced = .ok response ∧
      response.results.length = 2 ∧
      ∀ (i : Nat) (item : BatchCheckItem) (result : DecisionResult), sampleEvidenced.items[i]? = some item →
        response.results[i]? = some result →
        ∃ checked, @Check Dsl.sample (@samplePorts Dsl.sample []) sampleCaller (sampleEvidenced.check item) = .ok checked ∧
          checked.result.withoutID = result.withoutID := by
  have hanswered : (@BatchCheck Dsl.sample (@samplePorts Dsl.sample []) sampleCaller sampleEvidenced).isOk = true := by decide +kernel
  obtain ⟨response, h⟩ := exists_ok_of_isOk hanswered
  have hdelegation : ∀ item ∈ sampleEvidenced.items, @SameDelegation Dsl.sample (@samplePorts Dsl.sample [])
      (@batchFingerprint Dsl.sample.toPrimitives sampleEvidenced)
      (@checkFingerprint Dsl.sample.toPrimitives (sampleEvidenced.check item)) := by
    intro item _ binding evidence
    rfl
  obtain ⟨hlength, hpointwise⟩ := @batchCheck_pointwise Dsl.sample _ _ _ hdelegation _ h
  exact ⟨response, h, hlength, hpointwise⟩

/-! ## Explain and Check -/

theorem Session.rebind_self (hfingerprint : s.binding.fingerprint = fingerprint) (hbatch : s.batch = false) :
    s.rebind fingerprint false = s := by
  subst hfingerprint
  rw [Session.rebind, ← hbatch]

theorem check_of_explain {response}
    (hauthorized : ports.authorizeCaller caller request.namespace_ request.RequiredCapabilities = .ok ())
    (h : Explain ports caller request = .ok response) :
    Check ports caller request = .ok ⟨request.selector, response.result⟩ := by
  obtain ⟨validated, hvalidated, hcall⟩ := bind_eq_ok.1 h
  obtain ⟨heq, hvalid⟩ := newCheckRequest_eq_ok.1 hvalidated
  subst validated
  obtain ⟨_, hwrapped, hcall⟩ := bind_eq_ok.1 hcall
  obtain ⟨-, hwrapped⟩ := check_eq_ok.1 hwrapped
  obtain rfl := Except.ok.inj hwrapped
  obtain ⟨-, hcall⟩ := check_eq_ok.1 hcall
  obtain ⟨⟨_, b⟩, hrun, hresponse⟩ := bind_eq_ok.1 hcall
  obtain rfl := Except.ok.inj hresponse
  -- the steps of the explanation
  obtain ⟨s, b₁, hopen, hafterOpen⟩ := bind_run_eq_ok.1 hrun
  obtain ⟨⟨r, trace⟩, b₂, hitem, hafterItem⟩ := bind_run_eq_ok.1 hafterOpen
  obtain ⟨_, b₃, hcloseRun, hafterClose⟩ := bind_run_eq_ok.1 hafterItem
  obtain ⟨hclose, -⟩ := lift_run_eq_ok.1 hcloseRun
  obtain ⟨steps, b₄, -, hanswerRun⟩ := bind_run_eq_ok.1 hafterClose
  obtain ⟨hanswer, -⟩ := lift_run_eq_ok.1 hanswerRun
  obtain ⟨rfl, -, hresult, hselector⟩ := newExplainResponse_eq_ok hanswer
  -- and the same steps in the budgets of a check
  obtain ⟨_, t, hopen', ⟨hfingerprint, hbatch, rfl⟩, hle⟩ := sim_openEvaluationSession (fun _ _ => rfl) caller
    request.shared (sessionBudgets_le _ _) hopen
  rw [Session.rebind_self hfingerprint hbatch] at hopen'
  obtain ⟨_, t', hitem', rfl, -⟩ := (metered_evaluateSessionItemWithTrace ports s _).generous hle hitem
  exact check_of_evaluation hopen' hitem' hclose hvalid hresult hselector hauthorized

/-- Explain answers with the result of Check, or not at all. -/
theorem explain_agrees_with_check {ports : Ports} {caller : Caller} {request : CheckRequest}
    (hauthorized : ports.authorizeCaller caller request.namespace_ request.RequiredCapabilities = .ok ()) :
    (∀ explained, Explain ports caller request = .ok explained →
      ∃ checked, Check ports caller request = .ok checked ∧ checked.result = explained.result) ∧
    ∀ checked, Check ports caller request = .ok checked →
      (∃ explained, Explain ports caller request = .ok explained ∧ explained.result = checked.result) ∨
        ∃ e, Explain ports caller request = .error e := by
  refine ⟨fun explained h => ⟨_, check_of_explain hauthorized h, rfl⟩, fun checked hchecked => ?_⟩
  cases h : Explain ports caller request with
  | error e => exact .inr ⟨e, rfl⟩
  | ok explained =>
    rw [check_of_explain hauthorized h] at hchecked
    obtain rfl := Except.ok.inj hchecked
    exact .inl ⟨explained, rfl, rfl⟩

omit [Dsl] in
set_option maxRecDepth 4000 in
theorem explain_agrees_with_check_sample :
    ∃ explained, @Explain Dsl.sample (@samplePorts Dsl.sample []) sampleCaller (sampleCheck [1]) = .ok explained ∧
      ∃ checked, @Check Dsl.sample (@samplePorts Dsl.sample []) sampleCaller (sampleCheck [1]) = .ok checked ∧
        checked.result = explained.result := by
  have hanswered : (@Explain Dsl.sample (@samplePorts Dsl.sample []) sampleCaller (sampleCheck [1])).isOk = true := by decide +kernel
  obtain ⟨explained, h⟩ := exists_ok_of_isOk hanswered
  exact ⟨explained, h, (@explain_agrees_with_check Dsl.sample _ _ _ rfl).1 explained h⟩

end PolicyEngine.App
