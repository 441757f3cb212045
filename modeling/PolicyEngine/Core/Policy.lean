import PolicyEngine.Core.Values

/-!
# Revisions, slots and their requests

The part of `policy.go` that the stores use. A `RevisionID` is represented by its
lowercase hexadecimal string, which is a bijection with the digest it wraps; the
invalid zero id is the empty string.
-/

namespace PolicyEngine

/-! ## Revisions -/

/-- `ParseRevisionID`, on the string form of the result. -/
def parseRevisionID (value : Bytes) : Result Bytes :=
  if validRevisionIDString value then .ok value else .error .invalidArgument

variable {id : Bytes}

theorem parseRevisionID_eq_ok {value : Bytes} :
    parseRevisionID value = .ok id ↔ id = value ∧ validRevisionIDString value = true := by
  unfold parseRevisionID
  split
  next h => simp only [Except.ok.injEq, h, and_true, eq_comm]
  next h => simp only [reduceCtorEq, h, and_false, Bool.false_eq_true]

structure RevisionMetadata where
  namespace_ : Bytes
  id : Bytes
  publishedAt : Time
  deriving DecidableEq, Repr

def addRevisionMetadataCost (b : BudgetCounter) (r : RevisionMetadata) : Result BudgetCounter := do
  let b ← addTextCost b r.namespace_
  let b ← addFixedFieldCost b 64
  addFixedFieldCost b timestampBytes

def revisionMetadataCost (r : RevisionMetadata) : Nat :=
  textCost r.namespace_ + (fieldMetadataBytes + 64 + (fieldMetadataBytes + timestampBytes))

theorem charges_revisionMetadata (r : RevisionMetadata) :
    Charges (addRevisionMetadataCost · r) (revisionMetadataCost r) :=
  (charges_text _).bind ((charges_fixedField _).bind (charges_fixedField _))

def newRevisionMetadata (namespace_ id : Bytes) (publishedAt : Time) : Result RevisionMetadata := do
  withinBudget maxAggregateOutputBytes (addRevisionMetadataCost · ⟨namespace_, id, publishedAt⟩)
  validateNamespace namespace_
  require (validRevisionIDString id && publishedAt != zeroTime) .invalidArgument
  .ok ⟨namespace_, id, publishedAt⟩

def RevisionMetadata.valid (r : RevisionMetadata) : Bool :=
  validNamespace r.namespace_ && validRevisionIDString r.id && r.publishedAt != zeroTime &&
    (withinBudget maxAggregateOutputBytes (addRevisionMetadataCost · r)).isOk

/-- A text within a bound of at most 1024 bytes never exhausts an output budget. -/
theorem textCost_le {value : Bytes} (h : value.length ≤ 1024) : textCost value ≤ 1032 := by
  simp only [textCost, fieldMetadataBytes]
  omega

variable {ns : Bytes} {t : Time}

theorem newRevisionMetadata_eq_ok {r} :
    newRevisionMetadata ns id t = .ok r ↔ r = ⟨ns, id, t⟩ ∧ validateNamespace ns = .ok () ∧
      validRevisionIDString id = true ∧ t ≠ zeroTime := by
  simp only [newRevisionMetadata, check_eq_ok, (charges_revisionMetadata _).withinBudget_eq_ok, require_eq_ok,
    Bool.and_eq_true, bne_iff_ne]
  constructor
  · rintro ⟨-, hns, ⟨hid, ht⟩, h⟩
    exact ⟨(Except.ok.inj h).symm, hns, hid, ht⟩
  · rintro ⟨rfl, hns, hid, ht⟩
    refine ⟨?_, hns, ⟨hid, ht⟩, rfl⟩
    have := textCost_le (validateNamespace_eq_ok.1 hns).2.1
    simp only [revisionMetadataCost, fieldMetadataBytes, timestampBytes, maxAggregateOutputBytes]
    omega

structure GetRevisionRequest where
  namespace_ : Bytes
  revisionID : Bytes
  deriving DecidableEq, Repr

def newGetRevisionRequest (namespace_ revisionID : Bytes) : Result GetRevisionRequest := do
  validateNamespace namespace_
  require (validRevisionIDString revisionID) .invalidArgument
  .ok ⟨namespace_, revisionID⟩

theorem newGetRevisionRequest_eq_ok {r} :
    newGetRevisionRequest ns id = .ok r ↔ r = ⟨ns, id⟩ ∧ validateNamespace ns = .ok () ∧
      validRevisionIDString id = true := by
  simp only [newGetRevisionRequest, check_eq_ok, require_eq_ok]
  constructor
  · rintro ⟨hns, hid, h⟩
    exact ⟨(Except.ok.inj h).symm, hns, hid⟩
  · rintro ⟨rfl, hns, hid⟩
    exact ⟨hns, hid, rfl⟩

/-- The bounds of a publish request that the stores check again on provenance. -/
def checkPublishRequest (namespace_ sourceName source : Bytes) : Result Unit := do
  require (source != []) .invalidArgument
  require (source.length ≤ maxPolicySourceBytes) .resourceExhausted
  withinBudget maxAggregateInputBytes fun b => do
    let b ← addTextCost b namespace_
    let b ← addTextCost b sourceName
    addTextCost b source
  validateNamespace namespace_
  validateText sourceName maxSourceNameBytes false

theorem checkPublishRequest_eq_ok {name source : Bytes} :
    checkPublishRequest ns name source = .ok () ↔ source ≠ [] ∧ source.length ≤ maxPolicySourceBytes ∧
      validateNamespace ns = .ok () ∧ validateText name maxSourceNameBytes false = .ok () := by
  have hc : Charges (fun b => addTextCost b ns >>= fun b => addTextCost b name >>= fun b => addTextCost b source)
      (textCost ns + (textCost name + textCost source)) :=
    (charges_text _).bind ((charges_text _).bind (charges_text _))
  simp only [checkPublishRequest, check_eq_ok, hc.withinBudget_eq_ok, require_eq_ok, bne_iff_ne, decide_eq_true_eq]
  constructor
  · rintro ⟨hne, hlen, -, hns, hname⟩
    exact ⟨hne, hlen, hns, hname⟩
  · rintro ⟨hne, hlen, hns, hname⟩
    refine ⟨hne, hlen, ?_, hns, hname⟩
    have h1 := textCost_le (validateNamespace_eq_ok.1 hns).2.1
    have h2 := textCost_le (validateText_eq_ok.1 hname).2.1
    simp only [maxPolicySourceBytes] at hlen
    simp only [textCost, fieldMetadataBytes, maxAggregateInputBytes] at *
    omega

/-! ## Slots -/

inductive SlotExpectationKind where
  | zero
  | unset
  | active
  deriving DecidableEq, Repr

structure SlotExpectation where
  kind : SlotExpectationKind
  revisionID : Bytes
  generation : Nat
  deriving DecidableEq, Repr

def newUnsetSlotExpectation : SlotExpectation := ⟨.unset, [], 0⟩

def newActiveSlotExpectation (revisionID : Bytes) (generation : Nat) : Result SlotExpectation :=
  if !validRevisionIDString revisionID || generation = 0 then .error .invalidArgument
  else .ok ⟨.active, revisionID, generation⟩

def SlotExpectation.isUnset (e : SlotExpectation) : Bool :=
  e.kind = .unset && e.revisionID = [] && e.generation = 0

/-- The expected revision and generation of an active expectation. -/
def SlotExpectation.active? (e : SlotExpectation) : Option (Bytes × Nat) :=
  if e.kind = .active ∧ e.revisionID ≠ [] ∧ e.generation > 0 then some (e.revisionID, e.generation) else none

def SlotExpectation.valid (e : SlotExpectation) : Bool :=
  e.isUnset ||
    match e.active? with
    | some (revisionID, _) => validRevisionIDString revisionID
    | none => false

structure ActivateRequest where
  namespace_ : Bytes
  slot : Bytes
  targetRevisionID : Bytes
  expectation : SlotExpectation
  deriving DecidableEq, Repr

def newActivateRequest (namespace_ slot targetRevisionID : Bytes) (expectation : SlotExpectation) :
    Result ActivateRequest := do
  validateNamespace namespace_
  validateIdentifier slot
  require (validRevisionIDString targetRevisionID && expectation.valid) .invalidArgument
  .ok ⟨namespace_, slot, targetRevisionID, expectation⟩

variable {slot : Bytes}

theorem newActivateRequest_eq_ok {target e r} :
    newActivateRequest ns slot target e = .ok r ↔ r = ⟨ns, slot, target, e⟩ ∧ validateNamespace ns = .ok () ∧
      validateIdentifier slot = .ok () ∧ validRevisionIDString target = true ∧ e.valid = true := by
  simp only [newActivateRequest, check_eq_ok, require_eq_ok, Bool.and_eq_true]
  constructor
  · rintro ⟨hns, hslot, ⟨ht, he⟩, h⟩
    exact ⟨(Except.ok.inj h).symm, hns, hslot, ht, he⟩
  · rintro ⟨rfl, hns, hslot, ht, he⟩
    exact ⟨hns, hslot, ⟨ht, he⟩, rfl⟩

structure Activation where
  namespace_ : Bytes
  slot : Bytes
  revisionID : Bytes
  generation : Nat
  activatedAt : Time
  deriving DecidableEq, Repr

def addActivationCost (b : BudgetCounter) (a : Activation) : Result BudgetCounter := do
  let b ← [a.namespace_, a.slot, a.revisionID].foldlM addTextCost b
  let b ← addFixedFieldCost b uint64Bytes
  addFixedFieldCost b timestampBytes

def activationCost (a : Activation) : Nat :=
  ([a.namespace_, a.slot, a.revisionID].map textCost).sum +
    (fieldMetadataBytes + uint64Bytes + (fieldMetadataBytes + timestampBytes))

theorem charges_activation (a : Activation) : Charges (addActivationCost · a) (activationCost a) :=
  (charges_foldlM charges_text _).bind ((charges_fixedField _).bind (charges_fixedField _))

def newActivation (namespace_ slot revisionID : Bytes) (generation : Nat) (activatedAt : Time) : Result Activation := do
  withinBudget maxAggregateOutputBytes (addActivationCost · ⟨namespace_, slot, revisionID, generation, activatedAt⟩)
  validateNamespace namespace_
  validateIdentifier slot
  require (validRevisionIDString revisionID && generation != 0 && activatedAt != zeroTime) .invalidArgument
  .ok ⟨namespace_, slot, revisionID, generation, activatedAt⟩

def Activation.valid (a : Activation) : Bool :=
  validNamespace a.namespace_ && validIdentifier a.slot && validRevisionIDString a.revisionID && a.generation != 0 &&
    a.activatedAt != zeroTime && (withinBudget maxAggregateOutputBytes (addActivationCost · a)).isOk

theorem validRevisionIDString_length {value : Bytes} (h : validRevisionIDString value = true) : value.length = 64 := by
  simp only [validRevisionIDString, Bool.and_eq_true, beq_iff_eq] at h
  exact h.1

theorem newActivation_eq_ok {rev g a} :
    newActivation ns slot rev g t = .ok a ↔ a = ⟨ns, slot, rev, g, t⟩ ∧ validateNamespace ns = .ok () ∧
      validateIdentifier slot = .ok () ∧ validRevisionIDString rev = true ∧ g ≠ 0 ∧ t ≠ zeroTime := by
  simp only [newActivation, check_eq_ok, (charges_activation _).withinBudget_eq_ok, require_eq_ok,
    Bool.and_eq_true, bne_iff_ne]
  constructor
  · rintro ⟨-, hns, hslot, ⟨⟨hrev, hg⟩, ht⟩, h⟩
    exact ⟨(Except.ok.inj h).symm, hns, hslot, hrev, hg, ht⟩
  · rintro ⟨rfl, hns, hslot, hrev, hg, ht⟩
    refine ⟨?_, hns, hslot, ⟨⟨hrev, hg⟩, ht⟩, rfl⟩
    have h1 := textCost_le (validateNamespace_eq_ok.1 hns).2.1
    have h2 := textCost_le (validateIdentifier_eq_ok.1 hslot).2.1
    have h3 : textCost rev ≤ 1032 := textCost_le (by rw [validRevisionIDString_length hrev]; omega)
    simp only [activationCost, List.map_cons, List.map_nil, List.sum_cons, List.sum_nil, fieldMetadataBytes,
      uint64Bytes, timestampBytes, maxAggregateOutputBytes]
    omega

theorem newActivation_valid {rev g a} (h : newActivation ns slot rev g t = .ok a) :
    a.valid = true := by
  have hcost : activationCost ⟨ns, slot, rev, g, t⟩ ≤ maxAggregateOutputBytes := by
    simp only [newActivation, check_eq_ok, (charges_activation _).withinBudget_eq_ok] at h
    exact h.1
  obtain ⟨rfl, hns, hslot, hrev, hg, ht⟩ := newActivation_eq_ok.1 h
  simp [Activation.valid, hns, hslot, hrev, hg, ht, isOk_unit, (charges_activation _).withinBudget_eq_ok, hcost]

def newActivateResponse (activation : Activation) : Result Activation :=
  if activation.valid then .ok activation else .error .invalidArgument

structure ResolveRequest where
  namespace_ : Bytes
  slot : Bytes
  deriving DecidableEq, Repr

def newResolveRequest (namespace_ slot : Bytes) : Result ResolveRequest := do
  validateNamespace namespace_
  validateIdentifier slot
  .ok ⟨namespace_, slot⟩

theorem newResolveRequest_eq_ok {r} :
    newResolveRequest ns slot = .ok r ↔ r = ⟨ns, slot⟩ ∧ validateNamespace ns = .ok () ∧
      validateIdentifier slot = .ok () := by
  simp only [newResolveRequest, check_eq_ok]
  constructor
  · rintro ⟨hns, hs, h⟩
    exact ⟨(Except.ok.inj h).symm, hns, hs⟩
  · rintro ⟨rfl, hns, hs⟩
    exact ⟨hns, hs, rfl⟩

def newResolveResponse (activation : Activation) : Result Activation :=
  if activation.valid then .ok activation else .error .invalidArgument

end PolicyEngine
