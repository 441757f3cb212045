import PolicyEngine.App.Agreement
import PolicyEngine.App.Opening

/-!
# What an approval is bound to

An approval is resumed by the authorization digest of its item. Four hashes are nested in
it: of the caller, of the effective facts, of the item over those facts, and of the
binding over the caller and the item. Each hashes a self-delimiting input, so the digest
determines everything hashed as long as none of the four collides. The evaluation time,
the rest of the request and the batch are in none of them.
-/

open PolicyEngine.Lib List

namespace PolicyEngine.App

/-- What an approval is for. The facts are sets: their order is not part of it. -/
@[ext] structure Authorization where
  caller : Caller
  namespace_ : Bytes
  selector : Selector
  revisionID : Bytes
  slotGeneration : UInt64
  dataGeneration : UInt64
  subject : EntityRef
  resource : EntityRef
  action : Bytes
  arguments : Arguments
  tuples : Set RelationshipTuple
  attributes : Set Attribute
  usedDelegation : Bool

/-! ## The hashed inputs -/

theorem writeSelectorBinding_eq {s : Selector} (h : s.valid = true) :
    writeSelectorBinding s = writeSelectorFingerprint s := by
  rcases Selector.valid_cases h with ⟨slot, rfl, hne, -⟩ | ⟨revision, rfl, hne, -⟩ <;>
    simp [writeSelectorBinding, writeSelectorFingerprint, Selector.Slot, Selector.ExactRevision, hne]

theorem Caller.shortTexts {c : Caller} (h : c.valid = true) : ShortText c.id ∧
    ∀ e ∈ c.attributes.sortedEntries, ShortText e.1 ∧ ShortText e.2 := by
  simp only [Caller.valid, Bool.and_eq_true, validIdentifier_iff, all_eq_true, isOk_unit] at h
  obtain ⟨⟨⟨hid, -⟩, hentries⟩, -⟩ := h
  refine ⟨shortText_identifier hid, fun e he => ?_⟩
  obtain ⟨hkey, hvalue⟩ := hentries e he
  exact ⟨shortText_identifier hkey, shortText_of_le (validateText_eq_ok.1 hvalue).2.1 (by decide)⟩

theorem callerBindingInput_inj {c c' : Caller} (h : c.valid = true) (h' : c'.valid = true)
    (heq : callerBindingInput c = callerBindingInput c') : c = c' := by
  obtain ⟨hid, hentries⟩ := Caller.shortTexts h
  obtain ⟨hid', hentries'⟩ := Caller.shortTexts h'
  obtain ⟨hids, hrest⟩ := delimited_writeString hid hid' heq
  -- the entries run to the end of the input
  have hmore (e : Bytes × Bytes) (he : ShortText e.1 ∧ ShortText e.2) (u : Bytes) :
      StartsZero (writeString e.1 ++ writeString e.2 ++ u) := by
    rw [append_assoc]
    exact startsZero_writeString he.1 _
  have hnil : ¬ StartsZero [] := by simp [StartsZero]
  rw [← append_nil (List.flatMap _ _), ← append_nil (List.flatMap _ c'.attributes.sortedEntries)] at hrest
  obtain ⟨hattributes, -⟩ := (delimited_writeString.prod delimited_writeString).flatMap hmore hentries hentries' hnil
    hnil hrest
  cases c; cases c'
  simp only [Caller.mk.injEq]
  exact ⟨hids, StringMap.sortedEntries_injective hattributes⟩

theorem delimited_writeEffectiveAttribute :
    Delimited (fun a : Attribute => a.valid = true) writeEffectiveAttribute := by
  intro a b ha hb u v heq
  obtain ⟨hakey, hav⟩ := Attribute.valid_iff.1 ha
  obtain ⟨hbkey, hbv⟩ := Attribute.valid_iff.1 hb
  obtain ⟨hae, hap⟩ := AttributeKey.valid_iff.1 hakey
  obtain ⟨hbe, hbp⟩ := AttributeKey.valid_iff.1 hbkey
  simp only [writeEffectiveAttribute, append_assoc] at heq
  obtain ⟨hentity, heq⟩ := delimited_writeEntityFingerprint hae hbe heq
  obtain ⟨hlength, heq⟩ := delimited_be 8 (shortText_path hap).1 (shortText_path hbp).1 heq
  obtain ⟨hpath, heq⟩ := delimited_texts _ ⟨rfl, (shortText_path hap).2⟩ ⟨hlength.symm, (shortText_path hbp).2⟩ heq
  obtain ⟨hvalue, huv⟩ := delimited_kindAndPayload _ hav hbv heq
  obtain ⟨entity, path, value⟩ := a
  obtain ⟨entity', path', value'⟩ := b
  exact ⟨by rw [show entity = entity' from hentity, show path = path' from hpath, show value = value' from hvalue], huv⟩

/-- The counts of facts are within the limits. -/
theorem effectiveContextInput_inj {d e} (hd : d.Held) (he : e.Held)
    (hdcount : d.tuples.length < 256 ^ 8 ∧ d.attributes.length < 256 ^ 8)
    (hecount : e.tuples.length < 256 ^ 8 ∧ e.attributes.length < 256 ^ 8)
    (heq : effectiveContextInput d = effectiveContextInput e) : d = e := by
  simp only [effectiveContextInput, append_assoc, append_cancel_left_eq] at heq
  obtain ⟨hcount, heq⟩ := delimited_be 8 hdcount.1 hecount.1 heq
  obtain ⟨htuples, heq⟩ := delimited_writeTupleFingerprint.replicate _ ⟨rfl, hd.tuples⟩ ⟨hcount.symm, he.tuples⟩ heq
  obtain ⟨hcount, heq⟩ := delimited_be 8 hdcount.2 hecount.2 heq
  have hattributes := (delimited_writeEffectiveAttribute.replicate _).inj ⟨rfl, hd.attributes⟩
    ⟨hcount.symm, he.attributes⟩ heq
  cases d; cases e
  simp only [ContextualData.mk.injEq]
  exact ⟨htuples, hattributes⟩

theorem approvalItemInput_eq (item : BatchCheckItem) (digest : Bytes) (used : Bool) :
    approvalItemInput item digest used =
      ascii "cadrena.approval.item.v1" ++ (writeItemFingerprint item ++ (digest ++ [if used then 1 else 0])) := by
  simp [approvalItemInput, writeItemFingerprint]

theorem approvalItemInput_inj {item item' digest digest' used used'}
    (hitem : ValidItem item.subject item.resource item.action item.arguments)
    (hitem' : ValidItem item'.subject item'.resource item'.action item'.arguments)
    (hdigest : digest.length = digest'.length)
    (heq : approvalItemInput item digest used = approvalItemInput item' digest' used') :
    item = item' ∧ digest = digest' ∧ used = used' := by
  rw [approvalItemInput_eq, approvalItemInput_eq, append_cancel_left_eq] at heq
  obtain ⟨hitems, heq⟩ := delimited_writeItemFingerprint hitem hitem' heq
  obtain ⟨hdigests, hflag⟩ := append_inj heq hdigest
  refine ⟨hitems, hdigests, ?_⟩
  cases used <;> cases used' <;> first | rfl | exact absurd hflag (by decide)

/-- What a valid binding hashes: two digests and the pinned state between them. -/
theorem authorizationInput_inj {b b'} (h : b.valid = true) (h' : b'.valid = true) {c c' : Bytes}
    (hc : b.caller = some c) (hc' : b'.caller = some c') (hlength : c.length = c'.length)
    (heq : authorizationInput b = authorizationInput b') :
    c = c' ∧ b.namespace_ = b'.namespace_ ∧ b.selector = b'.selector ∧ b.revisionID = b'.revisionID ∧
      b.slotGeneration = b'.slotGeneration ∧ b.dataGeneration = b'.dataGeneration ∧ b.fingerprint = b'.fingerprint := by
  simp only [EvidenceBinding.valid, Bool.and_eq_true, validNamespace_iff] at h h'
  obtain ⟨⟨⟨⟨⟨⟨-, hns⟩, hselector⟩, hrevision⟩, -⟩, -⟩, -⟩ := h
  obtain ⟨⟨⟨⟨⟨⟨-, hns'⟩, hselector'⟩, hrevision'⟩, -⟩, -⟩, -⟩ := h'
  simp only [authorizationInput, hc, hc', Option.getD_some, writeSelectorBinding_eq hselector,
    writeSelectorBinding_eq hselector', append_assoc, append_cancel_left_eq] at heq
  obtain ⟨hcaller, heq⟩ := append_inj heq hlength
  obtain ⟨hns, heq⟩ := delimited_writeString (shortText_namespace hns) (shortText_namespace hns') heq
  obtain ⟨hselector, heq⟩ := delimited_writeSelectorFingerprint hselector hselector' heq
  obtain ⟨hrevision, heq⟩ := delimited_writeString (shortText_revisionID hrevision) (shortText_revisionID hrevision') heq
  obtain ⟨hslot, heq⟩ := delimited_be 8 (toNat_lt_pow _) (toNat_lt_pow _) heq
  obtain ⟨hdata, hfingerprint⟩ := delimited_be 8 (toNat_lt_pow _) (toNat_lt_pow _) heq
  exact ⟨hcaller, hns, hselector, hrevision, UInt64.toNat_inj.1 hslot, UInt64.toNat_inj.1 hdata, hfingerprint⟩

/-! ## Evaluations -/

section Evaluations

variable [Dsl]

/-- A call evaluates an item of its request in the session it opened. -/
inductive Evaluates (ports : Ports) (caller : Caller) : SharedRequest → Session → BatchCheckItem → Prop
  | check {r : CheckRequest} {s : Session} {b : Budgets} (hvalid : newCheckRequest r = .ok r)
      (h : openEvaluationSession ports caller r.shared (checkFingerprint r) (sessionBudgets none none) = .ok (s, b)) :
      Evaluates ports caller r.shared s r.item
  | explain {r : CheckRequest} {s : Session} {b : Budgets} (hvalid : newCheckRequest r = .ok r)
      (h : openEvaluationSession ports caller r.shared (checkFingerprint r)
        (sessionBudgets (some verifierBudget) none) = .ok (s, b)) :
      Evaluates ports caller r.shared s r.item
  | batch {r : BatchCheckRequest} {s : Session} {b : Budgets} {item : BatchCheckItem}
      (hvalid : newBatchCheckRequest r = .ok r)
      (h : openEvaluationSession ports caller r.shared (batchFingerprint r)
        (sessionBudgets (some verifierBudget) (some graphBudget)) = .ok (s, b))
      (hitem : item ∈ r.items) : Evaluates ports caller r.shared { s with batch := true } item

/-- The digest of the binding that the approval of an item is verified against. -/
def authorizationDigest (s : Session) (item : BatchCheckItem) : Option Bytes :=
  match itemBinding s item with
  | .ok binding => binding.AuthorizationDigest
  | .error _ => none

/-- What an evaluation authorizes. -/
def authorization (caller : Caller) (request : SharedRequest) (s : Session) (item : BatchCheckItem) : Authorization where
  caller := caller
  namespace_ := request.namespace_
  selector := request.selector
  revisionID := s.revisionID
  slotGeneration := s.slotGeneration
  dataGeneration := s.dataGeneration
  subject := item.subject
  resource := item.resource
  action := item.action
  arguments := item.arguments
  tuples := { t | t ∈ s.reader.contextual.tuples }
  attributes := { a | a ∈ s.reader.contextual.attributes }
  usedDelegation := s.usedDelegation

/-- The binding of an item, which differs from the session's in the fingerprint. -/
def itemEvidence (s : Session) (item : BatchCheckItem) : EvidenceBinding :=
  { s.binding with fingerprint := approvalItemFingerprint item s.effectiveContextFingerprint s.usedDelegation }

/-- The messages that are hashed on the way to the digest. -/
def hashed (caller : Caller) (s : Session) (item : BatchCheckItem) : List Bytes :=
  [callerBindingInput caller, effectiveContextInput s.reader.contextual,
    approvalItemInput item s.effectiveContextFingerprint s.usedDelegation, authorizationInput (itemEvidence s item)]

/-- No message collides with the other evaluation's message in its place. -/
def CollisionFree (messages messages' : List Bytes) : Prop :=
  List.Forall₂ (fun m m' => sha256 m = sha256 m' → m = m') messages messages'

/-- Every expiry, of the request and of delegated tuples, is an instant a Go time can hold. -/
structure HeldExpiries (ports : Ports) (request : SharedRequest) : Prop where
  own : ∀ t ∈ request.contextualData.tuples, Representable t.expiresAt
  delegated : ∀ v d, ports.verifyDelegation v = .ok d → ∀ t ∈ d.tuples, Representable t.expiresAt

/-- What an evaluation gives the two directions to work with. -/
structure Evaluated (caller : Caller) (request : SharedRequest) (s : Session) (item : BatchCheckItem) : Prop where
  validItem : ValidItem item.subject item.resource item.action item.arguments
  validCaller : caller.valid = true
  binding : s.binding.valid = true
  bound : s.binding.caller = some (sha256 (callerBindingInput caller)) ∧ s.binding.namespace_ = request.namespace_ ∧
    s.binding.selector = request.selector ∧ s.binding.revisionID = s.revisionID ∧
    s.binding.slotGeneration = s.slotGeneration ∧ s.binding.dataGeneration = s.dataGeneration ∧
    s.binding.evaluatedAt = s.evaluatedAt
  canonical : ∃ tuples attributes, newContextualData tuples attributes = .ok s.reader.contextual
  effectiveContext : s.effectiveContextFingerprint = fingerprintEffectiveContext s.reader.contextual

variable {ports : Ports} {caller : Caller} {request : SharedRequest} {s : Session} {item : BatchCheckItem}

theorem Opened.evaluated {fingerprint : Bytes} (h : Opened ports caller request fingerprint s)
    (hitem : ValidItem item.subject item.resource item.action item.arguments) : Evaluated caller request s item := by
  have hbinding := h.binding
  rw [sessionBinding, orFail_eq_ok, newEvidenceBinding_eq_ok] at hbinding
  obtain ⟨hbinding, hvalid⟩ := hbinding
  have hcaller : caller.valid = true := by
    simp only [EvidenceBinding.valid, Bool.and_eq_true] at hvalid
    obtain ⟨⟨⟨⟨⟨⟨hsome, -⟩, -⟩, -⟩, -⟩, -⟩, -⟩ := hvalid
    rw [Caller.Binding] at hsome
    split at hsome
    next hcaller => exact hcaller
    next => cases hsome
  have hbound : caller.Binding = some (sha256 (callerBindingInput caller)) := if_pos hcaller
  refine ⟨hitem, hcaller, hbinding ▸ hvalid, ?_, h.facts.canonical, h.effectiveContext⟩
  rw [hbinding]
  exact ⟨hbound, rfl, rfl, rfl, rfl, h.dataGeneration.symm, rfl⟩

theorem Evaluates.opened (h : Evaluates ports caller request s item) :
    (∃ fingerprint, Opened ports caller request fingerprint s) ∧
      ValidItem item.subject item.resource item.action item.arguments := by
  cases h with
  | check hvalid h =>
    obtain ⟨-, hvalid⟩ := newCheckRequest_eq_ok.1 hvalid
    exact ⟨⟨_, opened_of_openEvaluationSession h⟩, (CheckRequest.valid_iff.1 hvalid).2.1⟩
  | explain hvalid h =>
    obtain ⟨-, hvalid⟩ := newCheckRequest_eq_ok.1 hvalid
    exact ⟨⟨_, opened_of_openEvaluationSession h⟩, (CheckRequest.valid_iff.1 hvalid).2.1⟩
  | batch hvalid h hitem =>
    obtain ⟨-, hvalid⟩ := newBatchCheckRequest_eq_ok hvalid
    obtain ⟨-, -, -, hitems, -⟩ := BatchCheckRequest.valid_iff.1 hvalid
    have hopened := opened_of_openEvaluationSession h
    exact ⟨⟨_, hopened.snapshot, hopened.schema, hopened.binding, hopened.dataGeneration, hopened.facts,
      hopened.effectiveContext⟩, (BatchCheckItem.valid_iff.1 (hitems _ hitem)).1⟩

theorem Evaluates.evaluated (h : Evaluates ports caller request s item) : Evaluated caller request s item := by
  obtain ⟨⟨_, hopened⟩, hitem⟩ := h.opened
  exact hopened.evaluated hitem

/-- Changing its fingerprint keeps a binding valid, so every evaluated item has a digest. -/
theorem Evaluated.authorizationDigest_eq (h : Evaluated caller request s item) :
    authorizationDigest s item = some (sha256 (authorizationInput (itemEvidence s item))) := by
  have hvalid : (itemEvidence s item).valid = true := h.binding
  obtain ⟨-, -, -, hrevision, hslot, hdata, hat⟩ := h.bound
  have hbinding : itemBinding s item = .ok (itemEvidence s item) := by
    rw [itemBinding, ← hrevision, ← hslot, ← hdata, ← hat]
    exact orFail_eq_ok.2 (newEvidenceBinding_eq_ok.2 ⟨rfl, hvalid⟩)
  simp only [authorizationDigest, hbinding]
  exact if_pos hvalid

/-- The facts of an evaluation are Go values. -/
theorem Evaluates.held (h : Evaluates ports caller request s item) (hheld : HeldExpiries ports request) :
    s.reader.contextual.Held := by
  obtain ⟨⟨_, hopened⟩, -⟩ := h.opened
  obtain ⟨tuples, attributes, hd⟩ := hopened.facts.canonical
  obtain ⟨-, -, -, htuples, hattributes, hts, has⟩ := newContextualData_eq_ok.1 hd
  refine ⟨fun t ht => ⟨htuples t (((sortedSet_canonicalRelationshipTuples hts).mem_iff t).1 ht), ?_⟩,
    fun a ha => hattributes a (((sortedSet_canonicalAttributes has).mem_iff a).1 ha)⟩
  cases hopened.facts with
  | own _ hown => exact hheld.own t (((mem_of_normalizeContextualData hown).1 t).1 ht)
  | delegated _ hown hverify _ hmerged hd =>
    obtain ⟨-, -, -, -, -, hts, -⟩ := newContextualData_eq_ok.1 hmerged
    rw [(mem_of_normalizeContextualData hd).1, (sortedSet_canonicalRelationshipTuples hts).mem_iff, mem_append,
      (mem_of_normalizeContextualData hown).1] at ht
    exact ht.elim (hheld.own t) (hheld.delegated _ _ hverify t)

omit [Dsl] in
/-- Canonical facts are at most as many as a count can say. -/
theorem counts_of_canonical {tuples attributes d} (h : newContextualData tuples attributes = .ok d) :
    d.tuples.length < 256 ^ 8 ∧ d.attributes.length < 256 ^ 8 := by
  obtain ⟨ht, ha, -, -, -, hts, has⟩ := newContextualData_eq_ok.1 h
  have hle := (canonicalRelationshipTuples_ok hts).subperm.length_le
  have hle' := (canonicalAttributes_ok has).subperm.length_le
  simp only [maxContextualTuples, maxContextualAttributes] at ht ha
  omega

omit [Dsl] in
/-- Canonical facts are determined by their sets. -/
theorem contextual_eq_of_sets {tuples tuples' attributes attributes' d d'}
    (h : newContextualData tuples attributes = .ok d) (h' : newContextualData tuples' attributes' = .ok d')
    (htuples : { t | t ∈ d.tuples } = { t | t ∈ d'.tuples })
    (hattributes : { a | a ∈ d.attributes } = { a | a ∈ d'.attributes }) : d = d' := by
  obtain ⟨-, -, -, -, -, hts, has⟩ := newContextualData_eq_ok.1 h
  obtain ⟨-, -, -, -, -, hts', has'⟩ := newContextualData_eq_ok.1 h'
  have hsorted := (sortedSet_canonicalRelationshipTuples hts).sorted
  have hsorted' := (sortedSet_canonicalRelationshipTuples hts').sorted
  have heq : d.tuples = d'.tuples :=
    (SortedSet.eq_iff ⟨hsorted, fun _ => Iff.rfl⟩ ⟨hsorted', fun _ => Iff.rfl⟩).2 (Set.ext_iff.1 htuples)
  have hasorted := (sortedSet_canonicalAttributes has).sorted
  have hasorted' := (sortedSet_canonicalAttributes has').sorted
  have heq' : d.attributes = d'.attributes :=
    (SortedSet.eq_iff ⟨hasorted, fun _ => Iff.rfl⟩ ⟨hasorted', fun _ => Iff.rfl⟩).2 (Set.ext_iff.1 hattributes)
  cases d; cases d'
  simp_all

/-- The digest determines what is authorized. -/
theorem authorization_of_digest {ports' caller' request' s' item'} (h : Evaluates ports caller request s item)
    (h' : Evaluates ports' caller' request' s' item') (hheld : HeldExpiries ports request)
    (hheld' : HeldExpiries ports' request') (hfree : CollisionFree (hashed caller s item) (hashed caller' s' item'))
    (heq : authorizationDigest s item = authorizationDigest s' item') :
    authorization caller request s item = authorization caller' request' s' item' := by
  have he := h.evaluated
  have he' := h'.evaluated
  simp only [CollisionFree, hashed, List.forall₂_cons] at hfree
  obtain ⟨hcallerFree, hcontextFree, hitemFree, hbindingFree, -⟩ := hfree
  have hlength (m m' : Bytes) : (sha256 m).length = (sha256 m').length := by
    rw [length_decisionDigest, length_decisionDigest]
  -- from the outermost hash inwards
  rw [he.authorizationDigest_eq, he'.authorizationDigest_eq, Option.some.injEq] at heq
  have hvalid : (itemEvidence s item).valid = true := he.binding
  have hvalid' : (itemEvidence s' item').valid = true := he'.binding
  obtain ⟨hcaller, hns, hselector, hrevision, hslot, hdata, hfingerprint⟩ :=
    authorizationInput_inj hvalid hvalid' he.bound.1 he'.bound.1 (hlength _ _) (hbindingFree heq)
  obtain ⟨hitem, hcontext, hused⟩ := approvalItemInput_inj he.validItem he'.validItem
    (by rw [he.effectiveContext, he'.effectiveContext]; exact hlength _ _) (hitemFree hfingerprint)
  rw [he.effectiveContext, he'.effectiveContext] at hcontext
  obtain ⟨_, _, hcanonical⟩ := he.canonical
  obtain ⟨_, _, hcanonical'⟩ := he'.canonical
  have hfacts := effectiveContextInput_inj (h.held hheld) (h'.held hheld') (counts_of_canonical hcanonical)
    (counts_of_canonical hcanonical') (hcontextFree hcontext)
  have hcallers := callerBindingInput_inj he.validCaller he'.validCaller (hcallerFree hcaller)
  obtain ⟨-, hns₁, hsel₁, hrev₁, hslot₁, hdata₁, -⟩ := he.bound
  obtain ⟨-, hns₂, hsel₂, hrev₂, hslot₂, hdata₂, -⟩ := he'.bound
  subst hitem
  simp only [authorization, Authorization.mk.injEq, hfacts, true_and]
  exact ⟨hcallers, hns₁ ▸ hns₂ ▸ hns, hsel₁ ▸ hsel₂ ▸ hselector, hrev₁ ▸ hrev₂ ▸ hrevision, hslot₁ ▸ hslot₂ ▸ hslot,
    hdata₁ ▸ hdata₂ ▸ hdata, hused⟩

/-- What is authorized determines the digest. -/
theorem digest_of_authorization {ports' caller' request' s' item'} (h : Evaluates ports caller request s item)
    (h' : Evaluates ports' caller' request' s' item')
    (heq : authorization caller request s item = authorization caller' request' s' item') :
    authorizationDigest s item = authorizationDigest s' item' := by
  have he := h.evaluated
  have he' := h'.evaluated
  simp only [authorization, Authorization.mk.injEq] at heq
  obtain ⟨rfl, hns, hselector, hrevision, hslot, hdata, hsubject, hresource, haction, harguments, htuples, hattributes,
    hused⟩ := heq
  obtain ⟨_, _, hcanonical⟩ := he.canonical
  obtain ⟨_, _, hcanonical'⟩ := he'.canonical
  have hfacts := contextual_eq_of_sets hcanonical hcanonical' htuples hattributes
  have hitem : item = item' := by
    cases item; cases item'
    simp_all
  obtain ⟨hcaller₁, hns₁, hsel₁, hrev₁, hslot₁, hdata₁, -⟩ := he.bound
  obtain ⟨hcaller₂, hns₂, hsel₂, hrev₂, hslot₂, hdata₂, -⟩ := he'.bound
  rw [he.authorizationDigest_eq, he'.authorizationDigest_eq]
  simp only [itemEvidence, authorizationInput, he.effectiveContext, he'.effectiveContext, hcaller₁, hcaller₂, hns₁, hns₂,
    hsel₁, hsel₂, hrev₁, hrev₂, hslot₁, hslot₂, hdata₁, hdata₂, hns, hselector, hrevision, hslot, hdata, hitem, hused,
    hfacts]

/-- Every evaluated item has a digest. Equal digests authorize the same, whichever calls the items were evaluated by;
what authorizes the same has equal digests, whatever the time, the order of the facts and the batch. -/
theorem authorizationDigest_binds {ports ports' : Ports} {caller caller' : Caller} {request request' : SharedRequest}
    {s s' : Session} {item item' : BatchCheckItem} (h : Evaluates ports caller request s item)
    (h' : Evaluates ports' caller' request' s' item') (hheld : HeldExpiries ports request)
    (hheld' : HeldExpiries ports' request') :
    (∃ digest, authorizationDigest s item = some digest) ∧
      (CollisionFree (hashed caller s item) (hashed caller' s' item') →
        authorizationDigest s item = authorizationDigest s' item' →
          authorization caller request s item = authorization caller' request' s' item') ∧
      (authorization caller request s item = authorization caller' request' s' item' →
        authorizationDigest s item = authorizationDigest s' item') ∧
      ∀ {tuples tuples' : List RelationshipTuple} {attributes attributes' : List Attribute}, tuples.Perm tuples' →
        attributes.Perm attributes' → newContextualData tuples attributes = newContextualData tuples' attributes' :=
  ⟨⟨_, h.evaluated.authorizationDigest_eq⟩, authorization_of_digest h h' hheld hheld', digest_of_authorization h h',
    newContextualData_perm⟩

end Evaluations

/-! The sample check at two times and by two callers, with a hash that tells their messages apart. -/

section Sample

local instance weighing : Dsl :=
  { Dsl.sample with
    sha256 := fun m => be 32 (m.foldl (fun n b => (257 * n + b.toNat + 1) % 2 ^ 256) 0)
    sha256_length := fun _ => length_be 32 _ }

def portsAt (clock : Time) : Ports := { samplePorts [] with clock := clock }

/-- The session of the sample check. -/
def sessionAt (clock : Time) (caller : Caller) : Option Session :=
  match openEvaluationSession (portsAt clock) caller (sampleCheck [1]).shared (checkFingerprint (sampleCheck [1]))
    (sessionBudgets none none) with
  | .ok (s, _) => some s
  | .error _ => none

theorem evaluates_sessionAt {clock caller s} (h : sessionAt clock caller = some s) :
    Evaluates (portsAt clock) caller (sampleCheck [1]).shared s (sampleCheck [1]).item := by
  have hvalid : newCheckRequest (sampleCheck [1]) = .ok (sampleCheck [1]) :=
    newCheckRequest_eq_ok.2 ⟨rfl, by decide +kernel⟩
  rw [sessionAt] at h
  split at h
  next s' b hopen =>
    obtain rfl := Option.some.inj h
    exact .check hvalid hopen
  next => cases h

theorem heldExpiries_sample (clock : Time) : HeldExpiries (portsAt clock) (sampleCheck [1]).shared where
  own := by decide
  delegated v d h := by
    obtain rfl := Except.ok.inj h
    decide

def otherCaller : Caller := ⟨ascii "backend", ∅⟩

theorem isSome_sessionAt : (sessionAt 1 sampleCaller).isSome = true ∧ (sessionAt 2 sampleCaller).isSome = true ∧
    (sessionAt 1 otherCaller).isSome = true := by
  decide +kernel

/-- The two sessions of the caller hold the same facts at the same state. -/
theorem sessionAt_state :
    ∀ s ∈ sessionAt 1 sampleCaller, ∀ s' ∈ sessionAt 2 sampleCaller, s.reader.contextual = s'.reader.contextual ∧
      s.revisionID = s'.revisionID ∧ s.slotGeneration = s'.slotGeneration ∧ s.dataGeneration = s'.dataGeneration ∧
      s.usedDelegation = s'.usedDelegation := by
  decide +kernel

theorem collisionFree_sample :
    ∀ s ∈ sessionAt 1 sampleCaller, ∀ s' ∈ sessionAt 1 otherCaller,
      CollisionFree (hashed sampleCaller s (sampleCheck [1]).item) (hashed otherCaller s' (sampleCheck [1]).item) := by
  unfold CollisionFree
  decide +kernel

theorem authorizationDigest_binds_sample :
    ∃ s s' s'', Evaluates (portsAt 1) sampleCaller (sampleCheck [1]).shared s (sampleCheck [1]).item ∧
      Evaluates (portsAt 2) sampleCaller (sampleCheck [1]).shared s' (sampleCheck [1]).item ∧
      Evaluates (portsAt 1) otherCaller (sampleCheck [1]).shared s'' (sampleCheck [1]).item ∧
      authorizationDigest s (sampleCheck [1]).item = authorizationDigest s' (sampleCheck [1]).item ∧
      authorizationDigest s (sampleCheck [1]).item ≠ authorizationDigest s'' (sampleCheck [1]).item := by
  obtain ⟨h, h', h''⟩ := isSome_sessionAt
  obtain ⟨s, hs⟩ := Option.isSome_iff_exists.1 h
  obtain ⟨s', hs'⟩ := Option.isSome_iff_exists.1 h'
  obtain ⟨s'', hs''⟩ := Option.isSome_iff_exists.1 h''
  refine ⟨s, s', s'', evaluates_sessionAt hs, evaluates_sessionAt hs', evaluates_sessionAt hs'', ?_, fun heq => ?_⟩
  · obtain ⟨hfacts, hrevision, hslot, hdata, hused⟩ := sessionAt_state s hs s' hs'
    refine (authorizationDigest_binds (evaluates_sessionAt hs) (evaluates_sessionAt hs') (heldExpiries_sample 1)
      (heldExpiries_sample 2)).2.2.1 ?_
    simp only [authorization, hfacts, hrevision, hslot, hdata, hused]
  · have hsame := (authorizationDigest_binds (evaluates_sessionAt hs) (evaluates_sessionAt hs'') (heldExpiries_sample 1)
      (heldExpiries_sample 1)).2.1 (collisionFree_sample s hs s'' hs'') heq
    have hcaller : sampleCaller = otherCaller := congrArg Authorization.caller hsame
    exact absurd hcaller (by decide)

end Sample

end PolicyEngine.App
