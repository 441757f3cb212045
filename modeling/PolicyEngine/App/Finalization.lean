import PolicyEngine.App.Check

/-!
# What a finalized approval decides

`finalizeApproval` walks two pairs of sorted lists: the verifier's answer against the
requested identifiers, which are distinct, and the requirements, which may repeat,
against the answer. The first walk passes exactly the answers within the request, the
second keeps exactly the requirements outside the answer. What a verifier's answer is
charged for is what its own limits count.
-/

open PolicyEngine.Lib Std

namespace PolicyEngine

variable {satisfied : List Bytes}

/-- The walk of `invokeApprovalVerifier` decides inclusion. -/
theorem allRequested_iff {requested : List Bytes} (hr : StrictSorted compare requested)
    (hs : StrictSorted compare satisfied) :
    allRequested requested satisfied = true ↔ ∀ s ∈ satisfied, s ∈ requested := by
  fun_induction allRequested requested satisfied with
  | case1 requested => simp
  | case2 s satisfied => exact iff_of_false (by decide) fun h => absurd (h s List.mem_cons_self) List.not_mem_nil
  | case3 r requested s satisfied hlt ih =>
    -- the head of the request is below every answer
    rw [ih hr.of_cons hs]
    refine forall₂_congr fun x hx => ?_
    have hne : x ≠ r := fun h => not_mem_of_lt_head hs.pairwise_isLE hlt (h ▸ hx)
    simp [hne]
  | case4 r requested satisfied hlt ih =>
    rw [ih hr hs.of_cons]
    simp
  | case5 r requested s satisfied hlt hne =>
    refine iff_of_false (by decide) fun h => ?_
    exact not_mem_of_lt_head hr.pairwise_isLE (lt_of_not_lt hlt hne) (h s List.mem_cons_self)

theorem strictSorted_of_validResult (h : validApprovalVerificationResult satisfied = true) :
    StrictSorted compare satisfied := by
  simp only [validApprovalVerificationResult, validCanonicalIdentifiers, Bool.and_eq_true, decide_eq_true_eq] at h
  have : IsTrans Bytes fun a b => compare a b = .lt := ⟨fun _ _ _ => TransCmp.lt_trans⟩
  exact List.isChain_iff_pairwise.1 h.1.2

variable {request : ApprovalVerificationRequest}

/-- A verifier is asked what it was built to be asked, and answers within the request. -/
theorem invokeApprovalVerifier_eq_ok {verifier} (h : invokeApprovalVerifier verifier request = .ok satisfied) :
    verifier request = .ok satisfied ∧ StrictSorted compare satisfied ∧
      allRequested request.requirementIDs satisfied = true := by
  simp only [invokeApprovalVerifier, bind_eq_ok] at h
  obtain ⟨_, -, answer, hanswer, _, hvalid, _, hrequested, heq⟩ := h
  obtain rfl := Except.ok.inj heq
  exact ⟨hanswer, strictSorted_of_validResult (require_eq_ok.1 hvalid), require_eq_ok.1 hrequested⟩

theorem newApprovalVerificationRequest_eq_ok {binding requirementIDs evidence}
    (h : newApprovalVerificationRequest binding requirementIDs evidence = .ok request) :
    request = ⟨binding, sortDedup compare requirementIDs, evidence⟩ := by
  simp only [newApprovalVerificationRequest, canonicalIdentifiers, bind_eq_ok] at h
  obtain ⟨_, -, _, -, _, -, _, -, requirements, ⟨_, -, _, -, hrequirements⟩, heq⟩ := h
  rw [← Except.ok.inj heq, ← Except.ok.inj hrequirements]

end PolicyEngine

namespace PolicyEngine.App

/-- The walk of `finalizeApproval` filters, repetitions kept. -/
theorem unsatisfiedRequirements_eq_filter {requirements satisfied : List Bytes}
    (hr : requirements.Pairwise fun a b => (compare a b).isLE) (hs : StrictSorted compare satisfied) :
    unsatisfiedRequirements requirements satisfied = requirements.filter (· ∉ satisfied) := by
  fun_induction unsatisfiedRequirements requirements satisfied with
  | case1 satisfied => rfl
  | case2 requirement rest ih =>
    rw [ih hr.of_cons hs]
    simp
  | case3 requirement rest s satisfied hlt ih =>
    -- the head of the answer is below every requirement
    rw [ih hr hs.of_cons]
    refine List.filter_congr fun x hx => ?_
    have hne : x ≠ s := fun h => not_mem_of_lt_head hr hlt (h ▸ hx)
    simp [hne]
  | case4 requirement rest satisfied hlt ih =>
    rw [ih hr.of_cons hs]
    simp
  | case5 requirement rest s satisfied hlt hne ih =>
    rw [ih hr.of_cons hs, List.filter_cons_of_pos]
    simpa using not_mem_of_lt_head hs.pairwise_isLE (lt_of_not_lt hlt hne)

theorem sortDedup_sortBy (l : List Bytes) : sortDedup compare (sortBy compare l) = sortDedup compare l :=
  ((sortedSet_sortDedup _).eq_iff (sortedSet_sortDedup _)).2 fun _ => mem_sortBy

theorem filter_not_mem_eq_nil {required satisfied : List Bytes} :
    (sortBy compare required).filter (· ∉ satisfied) = [] ↔ ∀ id ∈ required, id ∈ satisfied := by
  simp [mem_sortBy]

section Decisions

variable [Dsl]

/-- What the verifier reports as satisfied; without evidence it is not asked. -/
def verifiedRequirements (ports : Ports) (binding : EvidenceBinding) (evidence : Bytes) (result : DslResult) :
    List Bytes :=
  if evidence.isEmpty then []
  else
    match ports.verifyApproval ⟨binding, sortDedup compare result.requiredApprovals, evidence⟩ with
    | .ok satisfied => satisfied
    | .error _ => []

variable {ports : Ports} {binding : EvidenceBinding} {evidence : Bytes} {result : DslResult} {approval : Approval}
  {b b' : Budgets}

/-- A required approval, finalized: what is left is what was not verified. -/
theorem finalizeApproval_of_requireApproval (hdecision : result.decision = .requireApproval)
    (h : finalizeApproval ports binding evidence result b = .ok (approval, b')) :
    let satisfied := verifiedRequirements ports binding evidence result
    let unsatisfied := (sortBy compare result.requiredApprovals).filter (· ∉ satisfied)
    (∀ s ∈ satisfied, s ∈ result.requiredApprovals) ∧ approval.requirements = unsatisfied ∧
      approval.decision = if unsatisfied = [] then .allow else .requireApproval := by
  have hsorted : (sortBy compare result.requiredApprovals).Pairwise fun a b => (compare a b).isLE := pairwise_sortBy _
  simp only [finalizeApproval, hdecision] at h
  split at h
  next => cases h
  split at h
  next => cases h
  next hrequired =>
    have hne : sortBy compare result.requiredApprovals ≠ [] := by
      obtain ⟨a, ha⟩ := List.exists_mem_of_ne_nil _ (mt List.isEmpty_iff.2 hrequired)
      exact List.ne_nil_of_mem (mem_sortBy.2 ha)
    split at h
    next hevidence =>
      obtain ⟨rfl, -⟩ := Prod.mk.inj (Except.ok.inj h)
      simp [verifiedRequirements, hevidence, hne]
    next hevidence =>
      obtain ⟨request, _, hrequest, hinvoke⟩ := bind_run_eq_ok.1 h
      obtain ⟨satisfied, _, hsatisfied, hcharge⟩ := bind_run_eq_ok.1 hinvoke
      obtain ⟨_, _, -, hdone⟩ := bind_run_eq_ok.1 hcharge
      obtain rfl := newApprovalVerificationRequest_eq_ok (lift_run_eq_ok.1 hrequest).1
      obtain ⟨hanswer, hstrict, hall⟩ := invokeApprovalVerifier_eq_ok (lift_run_eq_ok.1 hsatisfied).1
      rw [sortDedup_sortBy] at hanswer hall
      have hverified : verifiedRequirements ports binding evidence result = satisfied := by
        simp [verifiedRequirements, hevidence, hanswer]
      rw [unsatisfiedRequirements_eq_filter hsorted hstrict] at hdone
      dsimp only
      rw [hverified]
      refine ⟨fun s hs => ?_, ?_⟩
      · exact ((sortedSet_sortDedup _).mem_iff s).1 ((allRequested_iff (strictSorted_sortDedup _) hstrict).1 hall s hs)
      · split at hdone
        next hempty =>
          rw [List.isEmpty_iff] at hempty
          obtain ⟨rfl, -⟩ := Prod.mk.inj (Except.ok.inj hdone)
          rw [if_pos hempty]
          exact ⟨hempty.symm, rfl⟩
        next hempty =>
          rw [List.isEmpty_iff] at hempty
          obtain ⟨rfl, -⟩ := Prod.mk.inj (Except.ok.inj hdone)
          rw [if_neg hempty]
          exact ⟨rfl, rfl⟩

/-- What is decided once the requirements left over are known. -/
def decided (unsatisfied : List Bytes) : Approval :=
  if unsatisfied.isEmpty then ⟨.allow, [], true⟩ else ⟨.requireApproval, unsatisfied, true⟩

variable {satisfied : List Bytes}

variable {request : ApprovalVerificationRequest}

/-- Past the verifier's answer, only the charge can fail. -/
theorem finalizeApproval_answered (hdecision : result.decision = .requireApproval)
    (hrequired : result.requiredApprovals ≠ []) (hevidence : evidence ≠ [])
    (hrequest : newApprovalVerificationRequest binding (sortBy compare result.requiredApprovals) evidence = .ok request)
    (hinvoke : invokeApprovalVerifier ports.verifyApproval request = .ok satisfied) :
    finalizeApproval ports binding evidence result b =
      (addWork satisfied.length (8 + (satisfied.map fun id => 8 + id.length).sum) b.verifier).map fun w =>
        (decided (unsatisfiedRequirements (sortBy compare result.requiredApprovals) satisfied), { b with verifier := w }) := by
  have hnil : evidence.isEmpty = false := by simpa using hevidence
  have hnone : result.requiredApprovals.isEmpty = false := by simpa using hrequired
  have hlift {α β : Type} {p : Result α} {a : α} (hp : p = .ok a) (f : α → Evaluator β) :
      ((liftM p : Evaluator α) >>= f) b = f a b := by
    subst hp
    rfl
  simp only [finalizeApproval, hdecision, hnone, hnil, Bool.false_and, Bool.false_eq_true, if_false]
  rw [hlift hrequest, hlift hinvoke, bind_run, chargeVerifier, charge]
  cases addWork satisfied.length (8 + (satisfied.map fun id => 8 + id.length).sum) b.verifier with
  | error e => rfl
  | ok w =>
    simp only [Except.map, ok_bind, decided]
    split <;> rfl

/-- It returns when the request can be made, the verifier's answer passes and the budget holds. -/
theorem finalizeApproval_returns {w} (hdecision : result.decision = .requireApproval)
    (hrequired : result.requiredApprovals ≠ []) (hevidence : evidence ≠ [])
    (hrequest : newApprovalVerificationRequest binding (sortBy compare result.requiredApprovals) evidence = .ok request)
    (hinvoke : invokeApprovalVerifier ports.verifyApproval request = .ok satisfied)
    (hcharge : addWork satisfied.length (8 + (satisfied.map fun id => 8 + id.length).sum) b.verifier = .ok w) :
    ∃ approval, finalizeApproval ports binding evidence result b = .ok (approval, { b with verifier := w }) := by
  rw [finalizeApproval_answered hdecision hrequired hevidence hrequest hinvoke, hcharge]
  exact ⟨_, rfl⟩

/-- What may be returned for `result` when `satisfied` is what the verifier reports. -/
structure Finalized (result : DslResult) (satisfied : List Bytes) (approval : Approval) : Prop where
  deny : result.decision = .deny → approval.decision = .deny
  allow_iff : result.decision = .requireApproval →
    (approval.decision = .allow ↔ ∀ id ∈ result.requiredApprovals, id ∈ satisfied)
  otherwise : result.decision = .requireApproval → approval.decision ≠ .allow → approval.decision = .requireApproval
  sorted : approval.requirements.Pairwise fun a b => (compare a b).isLE
  unsatisfied : approval.decision = .requireApproval →
    ∀ id, id ∈ approval.requirements ↔ id ∈ result.requiredApprovals ∧ id ∉ satisfied
  requirements_iff : approval.requirements ≠ [] ↔ approval.decision = .requireApproval

/-- A denial and an allowance pass as they are. -/
theorem finalizeApproval_of_decided {decision : Decision} (h : finalizeApproval ports binding evidence result b =
    .ok (approval, b')) (hdecided : result.decision = .deny ∧ decision = .deny ∨
      result.decision = .allow ∧ decision = .allow) : approval = ⟨decision, [], false⟩ := by
  unfold finalizeApproval at h
  split at h
  next => cases h
  rcases hdecided with ⟨hdecision, rfl⟩ | ⟨hdecision, rfl⟩ <;>
  · rw [hdecision] at h
    exact (Prod.mk.inj (Except.ok.inj h)).1.symm

omit [Dsl] in
theorem Finalized.decided {decision : Decision} (hdecided : result.decision = .deny ∧
    decision = .deny ∨ result.decision = .allow ∧ decision = .allow) :
    Finalized result satisfied ⟨decision, [], false⟩ := by
  rcases hdecided with ⟨hdecision, rfl⟩ | ⟨hdecision, rfl⟩ <;>
  · constructor <;> simp [hdecision]

theorem finalized_of_eq_ok (h : finalizeApproval ports binding evidence result b = .ok (approval, b')) :
    Finalized result (verifiedRequirements ports binding evidence result) approval := by
  cases hdecision : result.decision with
  | requireApproval =>
    obtain ⟨-, hrequirements, hdecided⟩ := finalizeApproval_of_requireApproval hdecision h
    have hcase : approval.decision = .allow ↔ approval.requirements = [] := by
      rw [hrequirements, hdecided]
      split <;> simp_all
    have hother : approval.decision ≠ .allow → approval.decision = .requireApproval := by
      rw [hdecided]
      split <;> simp
    refine ⟨by simp [hdecision], fun _ => ?_, fun _ => hother, ?_, fun _ id => ?_, ?_⟩
    · rw [hcase, hrequirements, filter_not_mem_eq_nil]
    · rw [hrequirements]
      exact (pairwise_sortBy _).filter _
    · rw [hrequirements]
      simp [mem_sortBy]
    · rw [ne_eq, ← hcase]
      refine ⟨hother, fun hrequire hallow => ?_⟩
      rw [hrequire] at hallow
      cases hallow
  | deny =>
    obtain rfl := finalizeApproval_of_decided h (.inl ⟨hdecision, rfl⟩)
    exact .decided (.inl ⟨hdecision, rfl⟩)
  | allow =>
    obtain rfl := finalizeApproval_of_decided h (.inr ⟨hdecision, rfl⟩)
    exact .decided (.inr ⟨hdecision, rfl⟩)
  | other =>
    simp only [finalizeApproval, hdecision] at h
    split at h <;> cases h

/-- Approval finalization: what it returns, and when it fails. -/
theorem finalizeApproval_spec (ports : Ports) (binding : EvidenceBinding) (evidence : Bytes) (result : DslResult)
    (b : Budgets) :
    (∀ approval b', finalizeApproval ports binding evidence result b = .ok (approval, b') →
      Finalized result (verifiedRequirements ports binding evidence result) approval) ∧
    (evidence ≠ [] → result.requiredApprovals = [] →
      finalizeApproval ports binding evidence result b = .error .failedPrecondition) ∧
    (result.decision = .requireApproval →
      (∃ id ∈ verifiedRequirements ports binding evidence result, id ∉ result.requiredApprovals) →
      ∃ e, finalizeApproval ports binding evidence result b = .error e) ∧
    (∀ request satisfied w, result.decision = .requireApproval → result.requiredApprovals ≠ [] → evidence ≠ [] →
      newApprovalVerificationRequest binding (sortBy compare result.requiredApprovals) evidence = .ok request →
      invokeApprovalVerifier ports.verifyApproval request = .ok satisfied →
      addWork satisfied.length (8 + (satisfied.map fun id => 8 + id.length).sum) b.verifier = .ok w →
      ∃ approval, finalizeApproval ports binding evidence result b = .ok (approval, { b with verifier := w })) := by
  refine ⟨fun approval b' h => finalized_of_eq_ok h, fun hevidence hnone => ?_, fun hdecision ⟨id, hid, hout⟩ => ?_,
    fun request satisfied w => finalizeApproval_returns⟩
  · simp [finalizeApproval, hnone, hevidence]
    rfl
  · cases h : finalizeApproval ports binding evidence result b with
    | error e => exact ⟨e, rfl⟩
    | ok p => exact absurd ((finalizeApproval_of_requireApproval hdecision h).1 id hid) hout

/-! ## What answers are charged for -/

omit [Dsl] in
theorem contextualDataVerifierBytes_eq (d : ContextualData) : contextualDataVerifierBytes d = contextualDataCost d := by
  have htext : (fun value : Bytes => 8 + value.length) = textCost := rfl
  have htuple (t : RelationshipTuple) : 8 + t.tuple.resource.type.length + (8 + t.tuple.resource.id.length) +
      (8 + t.tuple.relation.length) + (8 + t.tuple.subject.type.length + (8 + t.tuple.subject.id.length) +
        (8 + t.tuple.subject.relation.length)) + (8 + 1) + (if t.hasExpiry then 8 + 40 else 0) =
      relationshipTupleCost t := by
    simp only [relationshipTupleCost, tupleCost, entityRefCost, subjectRefCost, textCost, fieldMetadataBytes, boolBytes,
      timestampBytes]
    omega
  have hattribute (a : Attribute) : 8 + a.entity.type.length + (8 + a.entity.id.length) + 8 + (a.path.map textCost).sum +
      9 + (if a.value.kind = .string then a.value.text.length else 0) = attributeCost a := by
    simp only [attributeCost, entityRefCost, attributePathCost, valueCost, textCost, fieldMetadataBytes,
      collectionMetadataBytes, valueMetadataBytes]
    omega
  simp only [contextualDataVerifierBytes, contextualDataCost, htext, htuple, hattribute, collectionMetadataBytes]
  exact Nat.add_assoc _ _ _

/-- The bytes that the shared verifier budget is charged are those that the limits of one answer count. -/
theorem verifierBytes_agree (ports : Ports) :
    (∀ d : ContextualData, Charges (addContextualDataCost · d) (contextualDataVerifierBytes d)) ∧
    (∀ satisfied : List Bytes,
      Charges (addIdentifiersCost · satisfied) (8 + (satisfied.map fun id => 8 + id.length).sum)) ∧
    ∀ binding evidence result b request satisfied, result.decision = .requireApproval → result.requiredApprovals ≠ [] →
      evidence ≠ [] →
      newApprovalVerificationRequest binding (sortBy compare result.requiredApprovals) evidence = .ok request →
      invokeApprovalVerifier ports.verifyApproval request = .ok satisfied →
      (finalizeApproval ports binding evidence result b).map (·.2.verifier) =
        addWork satisfied.length (8 + (satisfied.map fun id => 8 + id.length).sum) b.verifier := by
  refine ⟨fun d => ?_, charges_identifiers, ?_⟩
  · rw [contextualDataVerifierBytes_eq]
    exact charges_contextualData d
  · intro binding evidence result b request satisfied hdecision hrequired hevidence hrequest hinvoke
    rw [finalizeApproval_answered hdecision hrequired hevidence hrequest hinvoke]
    cases addWork satisfied.length (8 + (satisfied.map fun id => 8 + id.length).sum) b.verifier <;> rfl

end Decisions

end PolicyEngine.App
