import PolicyEngine.Core.Policy

/-!
# State events and listings

`events.go`, and the request and response pages of the three listings. A
response is returned as its items and next cursor, since the request it carries
along is the caller's own.
-/

open PolicyEngine.Lib

namespace PolicyEngine

/-! ## State events -/

inductive StateEventKind where
  | revisionPublished
  | slotActivated
  | dataWritten
  deriving DecidableEq, Repr

/-- The byte of the source's enumeration. -/
def StateEventKind.code : StateEventKind → UInt8
  | .revisionPublished => 1
  | .slotActivated => 2
  | .dataWritten => 3

structure StateEvent where
  namespace_ : Bytes
  cursor : Bytes
  kind : StateEventKind
  revisionID : Bytes
  slot : Bytes
  slotGeneration : Nat
  dataGeneration : Nat
  occurredAt : Time
  deriving DecidableEq, Repr

def addStateEventCost (b : BudgetCounter) (e : StateEvent) : Result BudgetCounter := do
  let b ← [e.namespace_, e.cursor, e.revisionID, e.slot].foldlM addTextCost b
  let b ← addFixedFieldCost b enumBytes
  let b ← addFixedFieldCost b uint64Bytes
  let b ← addFixedFieldCost b uint64Bytes
  addFixedFieldCost b timestampBytes

def stateEventCost (e : StateEvent) : Nat :=
  ([e.namespace_, e.cursor, e.revisionID, e.slot].map textCost).sum +
    (fieldMetadataBytes + enumBytes + (fieldMetadataBytes + uint64Bytes +
      (fieldMetadataBytes + uint64Bytes + (fieldMetadataBytes + timestampBytes))))

theorem charges_stateEvent (e : StateEvent) : Charges (addStateEventCost · e) (stateEventCost e) :=
  (charges_foldlM charges_text _).bind ((charges_fixedField _).bind
    ((charges_fixedField _).bind ((charges_fixedField _).bind (charges_fixedField _))))

/-- The fields an event of each kind must carry, and those it must leave empty. -/
def StateEvent.fieldsMatchKind (e : StateEvent) : Bool :=
  match e.kind with
  | .revisionPublished =>
    validRevisionIDString e.revisionID && e.slot = [] && e.slotGeneration = 0 && e.dataGeneration = 0
  | .slotActivated =>
    validRevisionIDString e.revisionID && validIdentifier e.slot && e.slotGeneration != 0 && e.dataGeneration = 0
  | .dataWritten => e.revisionID = [] && e.slot = [] && e.slotGeneration = 0 && e.dataGeneration != 0

def newStateEvent (input : StateEvent) : Result StateEvent := do
  withinBudget maxEventPageBytes (addStateEventCost · input)
  require (input.occurredAt != zeroTime) .invalidArgument
  validateNamespace input.namespace_
  validateIdentifier input.cursor
  require input.fieldsMatchKind .invalidArgument
  .ok input

def StateEvent.valid (e : StateEvent) : Bool :=
  validNamespace e.namespace_ && validIdentifier e.cursor && e.occurredAt != zeroTime &&
    (withinBudget maxEventPageBytes (addStateEventCost · e)).isOk && e.fieldsMatchKind

/-- A well-formed event's texts are all bounded, so it never exhausts its budget. -/
theorem stateEventCost_le {e : StateEvent} (hns : validateNamespace e.namespace_ = .ok ())
    (hc : validateIdentifier e.cursor = .ok ()) (hk : e.fieldsMatchKind = true) :
    stateEventCost e ≤ maxEventPageBytes := by
  have h1 := textCost_le (validateNamespace_eq_ok.1 hns).2.1
  have h2 := textCost_le (validateIdentifier_eq_ok.1 hc).2.1
  have h3 : textCost e.revisionID ≤ 1032 ∧ textCost e.slot ≤ 1032 := by
    unfold StateEvent.fieldsMatchKind at hk
    split at hk <;> simp only [Bool.and_eq_true, decide_eq_true_eq, validIdentifier_iff] at hk
    · exact ⟨textCost_le (by rw [validRevisionIDString_length hk.1.1.1]; omega), textCost_le (by simp [hk.1.1.2])⟩
    · exact ⟨textCost_le (by rw [validRevisionIDString_length hk.1.1.1]; omega),
        textCost_le (validateIdentifier_eq_ok.1 hk.1.1.2).2.1⟩
    · exact ⟨textCost_le (by simp [hk.1.1.1]), textCost_le (by simp [hk.1.1.2])⟩
  simp only [stateEventCost, List.map_cons, List.map_nil, List.sum_cons, List.sum_nil, fieldMetadataBytes, enumBytes,
    uint64Bytes, timestampBytes, maxEventPageBytes]
  omega

theorem newStateEvent_eq_ok {input e : StateEvent} :
    newStateEvent input = .ok e ↔ e = input ∧ input.occurredAt ≠ zeroTime ∧
      validateNamespace input.namespace_ = .ok () ∧ validateIdentifier input.cursor = .ok () ∧
      input.fieldsMatchKind = true := by
  simp only [newStateEvent, check_eq_ok, (charges_stateEvent _).withinBudget_eq_ok, require_eq_ok, bne_iff_ne]
  constructor
  · rintro ⟨-, ht, hns, hc, hk, h⟩
    exact ⟨(Except.ok.inj h).symm, ht, hns, hc, hk⟩
  · rintro ⟨rfl, ht, hns, hc, hk⟩
    exact ⟨stateEventCost_le hns hc hk, ht, hns, hc, hk, rfl⟩

/-! ## Pages -/

/-- The next cursor is charged before the items of a page. -/
def addPageCost {α : Type} (addItem : BudgetCounter → α → Result BudgetCounter) (b : BudgetCounter) (items : List α)
    (nextCursor : Bytes) : Result BudgetCounter := do
  let b ← b.add collectionMetadataBytes
  let b ← addTextCost b nextCursor
  items.foldlM addItem b

structure Page (α : Type) where
  items : List α
  nextCursor : Bytes
  deriving DecidableEq, Repr

/-- The checks of a page response; `validPage` is what each listing adds. -/
def newPage {α : Type} (requestValid : Bool) (limit maximum budget : Nat)
    (addItem : BudgetCounter → α → Result BudgetCounter) (validPage : List α → Bool) (items : List α)
    (nextCursor : Bytes) : Result (Page α) := do
  require requestValid .invalidArgument
  require (items.length ≤ limit && items.length ≤ maximum) .resourceExhausted
  withinBudget budget (addPageCost addItem · items nextCursor)
  validateOptionalIdentifier nextCursor
  require (validPage items) .invalidArgument
  .ok ⟨items, nextCursor⟩

theorem newPage_eq_ok {α : Type} {rv : Bool} {limit maximum budget : Nat}
    {addItem : BudgetCounter → α → Result BudgetCounter} {validPage : List α → Bool} {items : List α} {next : Bytes}
    {page : Page α} (h : newPage rv limit maximum budget addItem validPage items next = .ok page) :
    page = ⟨items, next⟩ ∧ validPage items = true := by
  simp only [newPage, check_eq_ok, require_eq_ok] at h
  exact ⟨(Except.ok.inj h.2.2.2.2.2).symm, h.2.2.2.2.1⟩

/-- A page is refused as invalid or as too large. -/
theorem newPage_outcome {α : Type} {E : ErrorCategory → Prop} (hinvalid : E .invalidArgument)
    (hexhausted : E .resourceExhausted) {addItem : BudgetCounter → α → Result BudgetCounter} {cost : α → Nat}
    (hcost : ∀ a, Charges (addItem · a) (cost a)) (rv : Bool) (limit maximum budget : Nat) (validPage : List α → Bool)
    (items : List α) (next : Bytes) :
    Outcome E (· = ⟨items, next⟩) (newPage rv limit maximum budget addItem validPage items next) := by
  have hcharges : Charges (addPageCost addItem · items next) _ :=
    (charges_add _).bind ((charges_text _).bind (charges_foldlM hcost items))
  refine .bind (require_outcome hinvalid) fun _ _ => .bind (require_outcome hexhausted) fun _ _ => ?_
  refine .bind (hcharges.outcome hexhausted _) fun _ _ => ?_
  refine .bind (validateText_outcome hinvalid hexhausted _ _ _) fun _ _ => ?_
  exact .bind (require_outcome hinvalid) fun _ _ => .ok rfl

structure ListEventsRequest where
  namespace_ : Bytes
  afterCursor : Bytes
  limit : Nat
  deriving DecidableEq, Repr

def newListEventsRequest (namespace_ afterCursor : Bytes) (limit : Nat) : Result ListEventsRequest := do
  require (limit != 0) .invalidArgument
  validateNamespace namespace_
  validateOptionalIdentifier afterCursor
  require (limit ≤ maxPageRequestItems) .resourceExhausted
  .ok ⟨namespace_, afterCursor, limit⟩

def ListEventsRequest.valid (r : ListEventsRequest) : Bool :=
  validNamespace r.namespace_ && (validateOptionalIdentifier r.afterCursor).isOk && r.limit != 0 &&
    r.limit ≤ maxPageRequestItems

def validEventPage (request : ListEventsRequest) (events : List StateEvent) : Bool :=
  events.all (fun e => e.valid && e.namespace_ == request.namespace_) && (events.map (·.cursor)).Nodup

def newListEventsResponse (request : ListEventsRequest) (events : List StateEvent) (nextCursor : Bytes) :
    Result (Page StateEvent) :=
  newPage request.valid request.limit (min maxEventPageItems maxPageResponseItems) maxEventPageBytes addStateEventCost
    (validEventPage request) events nextCursor

structure ListRevisionsRequest where
  namespace_ : Bytes
  cursor : Bytes
  limit : Nat
  deriving DecidableEq, Repr

def newListRevisionsRequest (namespace_ cursor : Bytes) (limit : Nat) : Result ListRevisionsRequest := do
  require (limit != 0) .invalidArgument
  validateNamespace namespace_
  validateOptionalIdentifier cursor
  require (limit ≤ maxPageRequestItems) .resourceExhausted
  .ok ⟨namespace_, cursor, limit⟩

def ListRevisionsRequest.valid (r : ListRevisionsRequest) : Bool :=
  validNamespace r.namespace_ && (validateOptionalIdentifier r.cursor).isOk && r.limit != 0 &&
    r.limit ≤ maxPageRequestItems

/-- Publication time first, then the revision id. -/
def revisionBefore (a b : RevisionMetadata) : Bool :=
  a.publishedAt < b.publishedAt || (a.publishedAt = b.publishedAt && compare a.id b.id = .lt)

def validRevisionPage (request : ListRevisionsRequest) (revisions : List RevisionMetadata) : Bool :=
  revisions.all (fun r => r.valid && r.namespace_ == request.namespace_) && (revisions.map (·.id)).Nodup &&
    decide (revisions.IsChain (revisionBefore · · = true))

def newListRevisionsResponse (request : ListRevisionsRequest) (revisions : List RevisionMetadata)
    (nextCursor : Bytes) : Result (Page RevisionMetadata) :=
  newPage request.valid request.limit maxPageResponseItems maxAggregateOutputBytes addRevisionMetadataCost
    (validRevisionPage request) revisions nextCursor

structure ListActivationHistoryRequest where
  namespace_ : Bytes
  slot : Bytes
  cursor : Bytes
  limit : Nat
  deriving DecidableEq, Repr

def newListActivationHistoryRequest (namespace_ slot cursor : Bytes) (limit : Nat) :
    Result ListActivationHistoryRequest := do
  require (limit != 0) .invalidArgument
  validateNamespace namespace_
  validateIdentifier slot
  validateOptionalIdentifier cursor
  require (limit ≤ maxPageRequestItems) .resourceExhausted
  .ok ⟨namespace_, slot, cursor, limit⟩

def ListActivationHistoryRequest.valid (r : ListActivationHistoryRequest) : Bool :=
  validNamespace r.namespace_ && validIdentifier r.slot && (validateOptionalIdentifier r.cursor).isOk &&
    r.limit != 0 && r.limit ≤ maxPageRequestItems

def validActivationHistoryPage (request : ListActivationHistoryRequest) (activations : List Activation) : Bool :=
  activations.all (fun a => a.valid && a.namespace_ == request.namespace_ && a.slot == request.slot) &&
    decide (activations.IsChain (·.generation < ·.generation))

def newListActivationHistoryResponse (request : ListActivationHistoryRequest) (activations : List Activation)
    (nextCursor : Bytes) : Result (Page Activation) :=
  newPage request.valid request.limit maxPageResponseItems maxAggregateOutputBytes addActivationCost
    (validActivationHistoryPage request) activations nextCursor

end PolicyEngine
