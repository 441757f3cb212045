import PolicyEngine.Core.Order

/-!
# Data mutations

`NewWriteDataRequest` and its response (`data.go`). The constructor's input has the
request's fields, so one structure stands for both. A request that the constructor
returned is its own canonical form, which is why the stores may use a caller's
request after validating it once more.
-/

open PolicyEngine.Lib

namespace PolicyEngine

structure WriteDataRequest where
  namespace_ : Bytes
  validationRevisionID : Bytes
  expectedGeneration : Nat
  idempotencyKey : Bytes
  tupleWrites : List RelationshipTuple
  tupleDeletes : List TupleKey
  attributeWrites : List Attribute
  attributeDeletes : List AttributeKey
  deriving DecidableEq, Repr

def WriteDataRequest.zero : WriteDataRequest := ⟨[], [], 0, [], [], [], [], []⟩

/-! ## Cost -/

def addAttributeKeyCost (b : BudgetCounter) (k : AttributeKey) : Result BudgetCounter := do
  let b ← addEntityRefCost b k.entity
  addAttributePathCost b k.path

def addWriteDataRequestCost (b : BudgetCounter) (input : WriteDataRequest) : Result BudgetCounter := do
  let b ← [input.namespace_, input.validationRevisionID, input.idempotencyKey].foldlM addTextCost b
  let b ← addFixedFieldCost b uint64Bytes
  let b ← b.addMany 4 collectionMetadataBytes
  let b ← input.tupleWrites.foldlM addRelationshipTupleCost b
  let b ← input.tupleDeletes.foldlM (fun b k => addTupleCost b k.tuple) b
  let b ← input.attributeWrites.foldlM addAttributeCost b
  input.attributeDeletes.foldlM addAttributeKeyCost b

def writeDataRequestCost (r : WriteDataRequest) : Nat :=
  ([r.namespace_, r.validationRevisionID, r.idempotencyKey].map textCost).sum +
    (fieldMetadataBytes + uint64Bytes +
      (4 * collectionMetadataBytes +
        ((r.tupleWrites.map relationshipTupleCost).sum +
          ((r.tupleDeletes.map fun k => tupleCost k.tuple).sum +
            ((r.attributeWrites.map attributeCost).sum + (r.attributeDeletes.map attributeKeyCost).sum)))))

theorem charges_attributeKey (k : AttributeKey) : Charges (addAttributeKeyCost · k) (attributeKeyCost k) :=
  (charges_entityRef _).bind (charges_attributePath _)

theorem charges_writeDataRequest (r : WriteDataRequest) :
    Charges (addWriteDataRequestCost · r) (writeDataRequestCost r) :=
  (charges_foldlM charges_text _).bind <| (charges_fixedField _).bind <| (charges_addMany _ _).bind <|
    (charges_foldlM charges_relationshipTuple _).bind <|
      (charges_foldlM (fun k : TupleKey => charges_tuple k.tuple) _).bind <|
        (charges_foldlM charges_attribute _).bind (charges_foldlM charges_attributeKey _)

/-! ## Construction -/

/-- The four mutation counts, charged one after the other. -/
def mutationBudget (input : WriteDataRequest) : Result BudgetCounter :=
  [input.tupleWrites.length, input.tupleDeletes.length, input.attributeWrites.length,
    input.attributeDeletes.length].foldlM BudgetCounter.add ⟨0, maxMutationItems⟩

def newWriteDataRequest (input : WriteDataRequest) : Result WriteDataRequest := do
  let mutations ← mutationBudget input
  withinBudget maxAggregateInputBytes (addWriteDataRequestCost · input)
  require (validRevisionIDString input.validationRevisionID && mutations.used != 0) .invalidArgument
  validateNamespace input.namespace_
  validateIdentifier input.idempotencyKey
  require (input.tupleWrites.all (·.valid)) .invalidArgument
  require (input.tupleDeletes.all (·.valid)) .invalidArgument
  require (input.attributeWrites.all (·.valid)) .invalidArgument
  require (input.attributeDeletes.all (·.valid)) .invalidArgument
  let tupleWrites ← canonicalRelationshipTuples input.tupleWrites
  let tupleDeletes := canonicalTupleKeys input.tupleDeletes
  let attributeWrites ← canonicalAttributes input.attributeWrites
  let attributeDeletes ← canonicalAttributeKeys input.attributeDeletes
  require (!(tupleWriteDeleteConflict tupleWrites tupleDeletes ||
    attributeWriteDeleteConflict attributeWrites attributeDeletes)) .invalidArgument
  .ok { input with tupleWrites, tupleDeletes, attributeWrites, attributeDeletes }

/-- How many mutations a request carries. -/
def WriteDataRequest.mutations (r : WriteDataRequest) : Nat :=
  r.tupleWrites.length + (r.tupleDeletes.length + (r.attributeWrites.length + r.attributeDeletes.length))

theorem mutationBudget_eq (r : WriteDataRequest) :
    mutationBudget r =
      if r.mutations ≤ maxMutationItems then .ok ⟨r.mutations, maxMutationItems⟩ else .error .resourceExhausted := by
  have h := charges_foldlM charges_add
    [r.tupleWrites.length, r.tupleDeletes.length, r.attributeWrites.length, r.attributeDeletes.length]
    ⟨0, maxMutationItems⟩ (Nat.zero_le _)
  have hsum : ([r.tupleWrites.length, r.tupleDeletes.length, r.attributeWrites.length,
      r.attributeDeletes.length].map fun n => n).sum = r.mutations := by simp [WriteDataRequest.mutations]
  rw [hsum] at h
  simp only [Nat.zero_add] at h
  exact h

/-- What the constructor checks before it sorts anything. -/
structure WellFormedWrite (r : WriteDataRequest) : Prop where
  count : r.mutations ≤ maxMutationItems
  some_mutation : r.mutations ≠ 0
  cost : writeDataRequestCost r ≤ maxAggregateInputBytes
  revision : validRevisionIDString r.validationRevisionID = true
  namespace_ok : validateNamespace r.namespace_ = .ok ()
  key : validateIdentifier r.idempotencyKey = .ok ()
  tupleWrites : ∀ t ∈ r.tupleWrites, t.valid = true
  tupleDeletes : ∀ k ∈ r.tupleDeletes, k.valid = true
  attributeWrites : ∀ a ∈ r.attributeWrites, a.valid = true
  attributeDeletes : ∀ k ∈ r.attributeDeletes, k.valid = true

variable {r : WriteDataRequest}

/-- Every attribute written passes its own constructor. -/
theorem WellFormedWrite.newAttributePath_eq (h : WellFormedWrite r) {a : Attribute} (ha : a ∈ r.attributeWrites) :
    newAttributePath a.entity a.path a.value = .ok a := by
  have hvalid := h.attributeWrites a ha
  have hle := sum_map_le_of_subperm (f := attributeCost) (List.singleton_subperm_iff.2 ha)
  have hcost := h.cost
  simp only [Attribute.valid, Bool.and_eq_true, isOk_unit, validateValue_eq_ok] at hvalid
  simp only [writeDataRequestCost] at hcost
  rw [List.map_singleton, List.sum_singleton] at hle
  have hfits : attributeCost a ≤ maxAggregateInputBytes := by omega
  exact newAttributePath_eq_ok.2 ⟨rfl, hvalid.1.1, hvalid.1.2, hvalid.2, hfits⟩

variable {input : WriteDataRequest}

theorem newWriteDataRequest_eq_ok :
    newWriteDataRequest input = .ok r ↔ WellFormedWrite input ∧
      ∃ tw aw ad, canonicalRelationshipTuples input.tupleWrites = .ok tw ∧
        canonicalAttributes input.attributeWrites = .ok aw ∧
        canonicalAttributeKeys input.attributeDeletes = .ok ad ∧
        (tupleWriteDeleteConflict tw (canonicalTupleKeys input.tupleDeletes) ||
          attributeWriteDeleteConflict aw ad) = false ∧
        r = { input with tupleWrites := tw, tupleDeletes := canonicalTupleKeys input.tupleDeletes,
                         attributeWrites := aw, attributeDeletes := ad } := by
  rw [newWriteDataRequest, mutationBudget_eq]
  constructor
  · intro h
    obtain ⟨b, hb, h⟩ := bind_eq_ok.1 h
    have hcount : input.mutations ≤ maxMutationItems := by
      by_contra hgt
      rw [if_neg hgt] at hb
      cases hb
    rw [if_pos hcount] at hb
    obtain rfl := Except.ok.inj hb
    simp only [check_eq_ok, require_eq_ok, Bool.and_eq_true, bne_iff_ne, List.all_eq_true,
      (charges_writeDataRequest input).withinBudget_eq_ok] at h
    obtain ⟨hcost, ⟨hrev, hsome⟩, hns, hkey, htw, htd, haw, had, h⟩ := h
    obtain ⟨tw, htw', h⟩ := bind_eq_ok.1 h
    obtain ⟨aw, haw', h⟩ := bind_eq_ok.1 h
    obtain ⟨ad, had', h⟩ := bind_eq_ok.1 h
    simp only [check_eq_ok, require_eq_ok, Bool.not_eq_true'] at h
    exact ⟨⟨hcount, hsome, hcost, hrev, hns, hkey, htw, htd, haw, had⟩, tw, aw, ad, htw', haw', had', h.1,
      (Except.ok.inj h.2).symm⟩
  · rintro ⟨hw, tw, aw, ad, htw, haw, had, hconf, rfl⟩
    rw [if_pos hw.count, ok_bind]
    simp only [check_eq_ok, require_eq_ok, Bool.and_eq_true, bne_iff_ne, List.all_eq_true,
      (charges_writeDataRequest input).withinBudget_eq_ok]
    refine ⟨hw.cost, ⟨hw.revision, hw.some_mutation⟩, hw.namespace_ok, hw.key, hw.tupleWrites, hw.tupleDeletes,
      hw.attributeWrites, hw.attributeDeletes, ?_⟩
    simp only [htw, haw, had, ok_bind, hconf, Bool.not_false, require_eq_ok, check_eq_ok, and_self]

/-! ## Canonical requests -/

/-- A request built by the constructor. -/
def Constructed (r : WriteDataRequest) : Prop := ∃ input, newWriteDataRequest input = .ok r

/-- Canonicalising keeps at most the given mutations, and at least one. -/
theorem wellFormedWrite_of_subperm (hw : WellFormedWrite input) (hns : r.namespace_ = input.namespace_)
    (hrev : r.validationRevisionID = input.validationRevisionID) (hkey : r.idempotencyKey = input.idempotencyKey)
    (hne : r.mutations ≠ 0) (htw : r.tupleWrites.Subperm input.tupleWrites)
    (htd : r.tupleDeletes.Subperm input.tupleDeletes) (haw : r.attributeWrites.Subperm input.attributeWrites)
    (had : r.attributeDeletes.Subperm input.attributeDeletes) : WellFormedWrite r where
  count := by
    have := hw.count
    have h1 := htw.length_le
    have h2 := htd.length_le
    have h3 := haw.length_le
    have h4 := had.length_le
    simp only [WriteDataRequest.mutations] at this ⊢
    omega
  some_mutation := hne
  cost := by
    refine Nat.le_trans ?_ hw.cost
    have h1 := sum_map_le_of_subperm (f := relationshipTupleCost) htw
    have h2 := sum_map_le_of_subperm (f := fun k : TupleKey => tupleCost k.tuple) htd
    have h3 := sum_map_le_of_subperm (f := attributeCost) haw
    have h4 := sum_map_le_of_subperm (f := attributeKeyCost) had
    simp only [writeDataRequestCost, hns, hrev, hkey]
    omega
  revision := hrev ▸ hw.revision
  namespace_ok := hns ▸ hw.namespace_ok
  key := hkey ▸ hw.key
  tupleWrites t ht := hw.tupleWrites t (htw.subset ht)
  tupleDeletes k hk := hw.tupleDeletes k (htd.subset hk)
  attributeWrites a ha := hw.attributeWrites a (haw.subset ha)
  attributeDeletes k hk := hw.attributeDeletes k (had.subset hk)

theorem newWriteDataRequest_wellFormed (h : newWriteDataRequest input = .ok r) :
    WellFormedWrite r := by
  obtain ⟨hw, tw, aw, ad, htw, haw, had, -, rfl⟩ := newWriteDataRequest_eq_ok.1 h
  have htw' := canonicalRelationshipTuples_ok htw
  have htd' := canonicalTupleKeys_ok input.tupleDeletes
  have haw' := canonicalAttributes_ok haw
  have had' := canonicalAttributeKeys_ok had
  refine wellFormedWrite_of_subperm hw rfl rfl rfl ?_ htw'.subperm htd'.subperm haw'.subperm had'.subperm
  -- some list of the input is not empty, and its canonical form is not either
  have hsome := hw.some_mutation
  contrapose! hsome
  simp only [WriteDataRequest.mutations, Nat.add_eq_zero_iff, List.length_eq_zero_iff] at hsome ⊢
  refine ⟨?_, ?_, ?_, ?_⟩
  · by_contra hne; exact htw'.ne_nil hne hsome.1
  · by_contra hne; exact htd'.ne_nil hne hsome.2.1
  · by_contra hne; exact haw'.ne_nil hne hsome.2.2.1
  · by_contra hne; exact had'.ne_nil hne hsome.2.2.2

/-- The constructor is idempotent. -/
theorem newWriteDataRequest_idem (h : newWriteDataRequest input = .ok r) :
    newWriteDataRequest r = .ok r := by
  have hwf := newWriteDataRequest_wellFormed h
  obtain ⟨-, tw, aw, ad, htw, haw, had, hconf, rfl⟩ := newWriteDataRequest_eq_ok.1 h
  have htd : canonicalTupleKeys (canonicalTupleKeys input.tupleDeletes) = canonicalTupleKeys input.tupleDeletes :=
    Except.ok.inj (canonicalTupleKeys_ok input.tupleDeletes).fixed
  refine newWriteDataRequest_eq_ok.2 ⟨hwf, tw, aw, ad, (canonicalRelationshipTuples_ok htw).fixed,
    (canonicalAttributes_ok haw).fixed, (canonicalAttributeKeys_ok had).fixed, ?_, ?_⟩
  · simpa only [htd] using hconf
  · simp only [htd]

theorem Constructed.fixed (h : Constructed r) : newWriteDataRequest r = .ok r :=
  h.elim fun _ hr => newWriteDataRequest_idem hr

/-! ## Responses -/

structure WriteDataResponse where
  generation : Nat
  replayed : Bool
  deriving DecidableEq, Repr

def newWriteDataResponse (generation : Nat) (replayed : Bool) : Result WriteDataResponse :=
  if generation = 0 then .error .invalidArgument else .ok ⟨generation, replayed⟩

end PolicyEngine
