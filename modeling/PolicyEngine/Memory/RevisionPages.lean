import Mathlib
import PolicyEngine.Lib.AvlBalance
import PolicyEngine.Lib.Paging
import PolicyEngine.Memory.Cursors
import PolicyEngine.Memory.SnapshotReads

/-!
# Pages of revisions

`revisionPage` and `ListRevisions`. The order index of a namespace holds the revisions
of its id map under their publication time and id; a page is cut out of it after the
key its cursor stands for, and its own next cursor stands for its last key.
-/

open Std PolicyEngine.Lib PolicyEngine.Lib.Paging Function List

namespace PolicyEngine.Memory

instance : TransCmp compareRevisionKey :=
  inferInstanceAs (TransCmp (compareLex (compareOn RevisionKey.publishedAt) (compareOn RevisionKey.id)))

instance : LawfulEqCmp compareRevisionKey where
  eq_of_compare {a b} h := by
    cases a; cases b
    simpa [compareRevisionKey, Ordering.then_eq_eq] using h

/-! ## The walk -/

/-- What `revisionPage` has come to: the entries given out, and whether one more was met. -/
structure RevisionWalk (σ : Type) where
  emitted : Nat
  more : Bool
  state : σ

/-- The visit of one node after the continuation key. -/
def emitRevision {σ : Type} (limit : Nat) (visit : σ → RevisionRecord → σ × Bool) (w : RevisionWalk σ)
    (record : RevisionRecord) : RevisionWalk σ × Bool :=
  if w.emitted = limit then ({ w with more := true }, false)
  else
    let (state, go) := visit w.state record
    ({ w with emitted := w.emitted + 1, state := state }, go)

/-- A node at or before the continuation key is passed over with its left subtree. -/
def pageRange (after : RevisionKey) (hasAfter : Bool) (key : RevisionKey) : Ordering :=
  if hasAfter && (compareRevisionKey key after).isLE then .lt else .eq

def revisionPage {σ : Type} (root : RevisionNode) (after : RevisionKey) (hasAfter : Bool) (limit : Nat)
    (visit : σ → RevisionRecord → σ × Bool) (state : σ) : σ × Bool :=
  let w := (Avl.walk (pageRange after hasAfter) (emitRevision limit visit) root ⟨0, false, state⟩).1
  (w.state, w.more)

/-- The visitor of `ListRevisions`. -/
def appendMetadata (metadata : List RevisionMetadata) (record : RevisionRecord) : List RevisionMetadata × Bool :=
  (metadata ++ [record.metadata], true)

section List

variable [Primitives]

/-- The cursor of a page with more to come; such a page is not empty. -/
def nextRevisionCursor (s : Store) (namespace_ : Bytes) (metadata : List RevisionMetadata) (more : Bool) : Result Bytes :=
  match more, metadata.getLast? with
  | true, some last => s.newCursorLocked ⟨.revision, namespace_, [], 0, last.publishedAt, last.id⟩
  | true, none => .error .internal
  | false, _ => .ok []

def listRevisions (s : Store) (ctx : ReadCtx) (request : ListRevisionsRequest) : Result (Page RevisionMetadata) := do
  require (!ctx.entry.signaled) (contextWaitError ctx.entry)
  let _ ← orFail .invalidArgument (newListRevisionsRequest request.namespace_ request.cursor request.limit)
  let cursor ← s.cursorStateLocked request.cursor .revision request.namespace_ []
  require (!(ctx.visit 0).signaled) (contextWaitError (ctx.visit 0))
  let (metadata, more) := revisionPage (s.revisionOrder request.namespace_)
    ⟨cursor.revisionPublishedAt, cursor.revisionID⟩ (request.cursor != []) request.limit
    appendMetadata []
  let next ← nextRevisionCursor s request.namespace_ metadata more
  require (!ctx.last.signaled) (contextWaitError ctx.last)
  newListRevisionsResponse request metadata next

end List

/-! ## The order index -/

/-- The key of a revision in the order index. -/
def metadataKey (m : RevisionMetadata) : RevisionKey := ⟨m.publishedAt, m.id⟩

def compareMetadata (a b : RevisionMetadata) : Ordering := compareRevisionKey (metadataKey a) (metadataKey b)

instance : TransCmp compareMetadata :=
  inferInstanceAs (TransCmp (compareLex (compareOn RevisionMetadata.publishedAt) (compareOn RevisionMetadata.id)))

theorem revisionBefore_iff {a b} : revisionBefore a b = true ↔ compareMetadata a b = .lt := by
  simp only [revisionBefore, compareMetadata, compareRevisionKey, metadataKey, Ordering.then_eq_lt, Bool.or_eq_true,
    Bool.and_eq_true, decide_eq_true_eq, compare_lt_iff_lt, LawfulEqCmp.compare_eq_iff_eq]

/-- The order index of a namespace: a balanced search tree of exactly the revisions of the id map, each a valid
revision of the namespace, under its own id. -/
structure IsRevisionIndex (ns : Bytes) (byID : Bytes → Option RevisionRecord) (order : RevisionNode) : Prop where
  ordered : order.Ordered compareRevisionKey
  balanced : order.Balanced
  mem_iff : ∀ key record, (key, record) ∈ order.toList ↔ byID record.metadata.id = some record ∧
    key = revisionKeyFor record
  named : ∀ id record, byID id = some record → record.metadata.id = id
  valid : ∀ id record, byID id = some record → record.metadata.namespace_ = ns ∧ record.metadata.valid = true

theorem isRevisionIndex_nil (ns : Bytes) : IsRevisionIndex ns (fun _ => none) .nil :=
  ⟨Avl.ordered_nil, Avl.balanced_nil, by simp, by simp, by simp⟩

variable {ns : Bytes} {order : RevisionNode}

variable {byID : Bytes → Option RevisionRecord}

/-- A new revision enters both. -/
theorem IsRevisionIndex.publish (h : IsRevisionIndex ns byID order) {record} (hnew : byID record.metadata.id = none)
    (hns : record.metadata.namespace_ = ns) (hvalid : record.metadata.valid = true) :
    IsRevisionIndex ns (update byID record.metadata.id (some record)) (revisionSet order record) where
  ordered := Avl.ordered_set h.ordered _ record
  balanced := (Avl.balanced_set compareRevisionKey h.balanced _ record).1
  mem_iff key r := by
    rw [revisionSet, Avl.mem_toList_set h.ordered, h.mem_iff, update_apply, Prod.mk.injEq]
    constructor
    · rintro (⟨rfl, rfl⟩ | ⟨⟨hr, rfl⟩, hne⟩)
      · simp
      · have hid : r.metadata.id ≠ record.metadata.id := fun heq => by simp [← heq, hr] at hnew
        rw [if_neg hid]
        exact ⟨hr, rfl⟩
    · rintro ⟨hr, rfl⟩
      split at hr
      next => exact .inl ⟨by rw [Option.some.inj hr], (Option.some.inj hr).symm⟩
      next hid =>
        refine .inr ⟨⟨hr, rfl⟩, fun heq => hid ?_⟩
        exact congrArg RevisionKey.id heq
  named id r hr := by
    rw [update_apply] at hr
    split at hr
    next heq => rw [← Option.some.inj hr, heq]
    next => exact h.named id r hr
  valid id r hr := by
    rw [update_apply] at hr
    split at hr
    next => rw [← Option.some.inj hr]; exact ⟨hns, hvalid⟩
    next => exact h.valid id r hr

/-- The revisions in listing order. -/
def listed (order : RevisionNode) : List RevisionMetadata := order.toList.map (·.2.metadata)

theorem IsRevisionIndex.mem_listed (h : IsRevisionIndex ns byID order) {m} :
    m ∈ listed order ↔ ∃ record, byID m.id = some record ∧ record.metadata = m := by
  simp only [listed, mem_map, Prod.exists, h.mem_iff]
  constructor
  · rintro ⟨key, record, ⟨hr, -⟩, rfl⟩
    exact ⟨record, hr, rfl⟩
  · rintro ⟨record, hr, rfl⟩
    exact ⟨_, record, ⟨hr, rfl⟩, rfl⟩

theorem IsRevisionIndex.strictSorted (h : IsRevisionIndex ns byID order) :
    StrictSorted compareMetadata (listed order) := by
  refine List.Pairwise.map _ (fun _ _ h => h) (List.Pairwise.imp_of_mem (fun {a b} ha hb hab => ?_) h.ordered)
  rw [((h.mem_iff a.1 a.2).1 ha).2, ((h.mem_iff b.1 b.2).1 hb).2] at hab
  exact hab

/-! ## One page -/

/-- Visiting a list gives out its first entries, up to the limit. -/
theorem visitList_emitRevision (limit : Nat) (l : List RevisionRecord) {w} (hw : w.emitted ≤ limit)
    (hmore : w.more = false) :
    (Avl.visitList (emitRevision limit appendMetadata) l w).1.state =
        w.state ++ (l.map (·.metadata)).take (limit - w.emitted) ∧
      (Avl.visitList (emitRevision limit appendMetadata) l w).1.more = decide (limit < w.emitted + l.length) := by
  induction l generalizing w with
  | nil => simp [Avl.visitList, hmore, hw]
  | cons r l ih =>
    rw [Avl.visitList, emitRevision]
    split
    next hfull =>
      split at hfull
      next heq => cases hfull; simp [heq]
      next => cases hfull
    next w' hgo =>
      split at hgo
      next => cases hgo
      next hne =>
        cases hgo
        obtain ⟨hstate, hm⟩ := ih (w := ⟨w.emitted + 1, w.more, w.state ++ [r.metadata]⟩) (by simp only; omega) hmore
        have hsucc : limit - w.emitted = limit - (w.emitted + 1) + 1 := by omega
        refine ⟨hstate.trans ?_, hm.trans ?_⟩
        · rw [map_cons, hsucc, take_succ_cons, append_assoc, singleton_append]
        · rw [length_cons]
          congr 2
          simp only
          omega

/-- The place a continuation key stands for. -/
def placeOf (ns : Bytes) (after : RevisionKey) (hasAfter : Bool) : Option RevisionMetadata :=
  if hasAfter then some ⟨ns, after.id, after.publishedAt⟩ else none

theorem pageRange_eq_eq (ns : Bytes) {after hasAfter m} :
    pageRange after hasAfter (metadataKey m) = .eq ↔ Precedes compareMetadata (placeOf ns after hasAfter) m := by
  cases hasAfter with
  | false => simp [pageRange, placeOf, Precedes]
  | true =>
    have hplace : compareMetadata ⟨ns, after.id, after.publishedAt⟩ m = .lt ↔
        ¬ (compareRevisionKey (metadataKey m) after).isLE := by
      rw [compareMetadata, ← OrientedCmp.gt_iff_lt]
      change compareRevisionKey (metadataKey m) after = .gt ↔ _
      cases compareRevisionKey (metadataKey m) after <;> simp
    simp [pageRange, placeOf, Precedes, hplace]

section Page

variable {ns : Bytes} {byID : Bytes → Option RevisionRecord} {order : RevisionNode}

/-- The records in the range of a page are those after its place. -/
theorem IsRevisionIndex.rest_eq (h : IsRevisionIndex ns byID order) (after : RevisionKey) (hasAfter : Bool) :
    ((order.toList.filter fun p => pageRange after hasAfter p.1 == .eq).map (·.2)).map (·.metadata) =
      rest compareMetadata (placeOf ns after hasAfter) (listed order) := by
  have hrest (l : List RevisionMetadata) : rest compareMetadata (placeOf ns after hasAfter) l =
      l.filter fun m => pageRange after hasAfter (metadataKey m) == .eq := by
    cases hasAfter with
    | false => simp [rest, placeOf, pageRange]
    | true =>
      refine filter_congr fun m _ => ?_
      rw [Bool.eq_iff_iff, decide_eq_true_eq, beq_iff_eq, pageRange_eq_eq ns]
      simp [placeOf, Precedes]
  rw [hrest, listed, filter_map, map_map]
  congr 1
  refine filter_congr fun p hp => ?_
  rw [((h.mem_iff p.1 p.2).1 hp).2]
  rfl

theorem IsRevisionIndex.revisionPage_eq (h : IsRevisionIndex ns byID order) (after : RevisionKey) (hasAfter : Bool)
    (limit : Nat) :
    revisionPage order after hasAfter limit appendMetadata [] =
      (View.page compareMetadata (placeOf ns after hasAfter) ⟨listed order, limit⟩,
        decide (limit < (rest compareMetadata (placeOf ns after hasAfter) (listed order)).length)) := by
  have hlt (a b : RevisionKey) (hab : compareRevisionKey a b = .lt) (hb : pageRange after hasAfter b = .lt) :
      pageRange after hasAfter a = .lt := by
    simp only [pageRange, ite_eq_left_iff, reduceCtorEq, imp_false, not_not, Bool.and_eq_true] at hb ⊢
    exact ⟨hb.1, TransCmp.isLE_trans (by simp [hab]) hb.2⟩
  have hgt (a b : RevisionKey) (_ : compareRevisionKey a b = .lt) (ha : pageRange after hasAfter a = .gt) :
      pageRange after hasAfter b = .gt := by
    unfold pageRange at ha
    split at ha <;> cases ha
  obtain ⟨hstate, hmore⟩ := visitList_emitRevision limit
    ((order.toList.filter fun p => pageRange after hasAfter p.1 == .eq).map (·.2)) (w := ⟨0, false, []⟩)
    (Nat.zero_le _) rfl
  have hlen := congrArg List.length (h.rest_eq after hasAfter)
  rw [length_map] at hlen
  rw [revisionPage, Avl.walk_eq _ _ hlt hgt h.ordered, hstate, hmore, h.rest_eq, hlen, Nat.zero_add]
  rfl

end Page

/-! ## The cursor of a page -/

section Cursor

variable [Primitives] {s : Store} {ns cursor : Bytes} {place : Option RevisionMetadata}

/-- Publication times that a cursor can hold. -/
def RoundTrips (t : Time) : Prop := -2 ^ 63 ≤ t / 1000000000 ∧ t / 1000000000 < 2 ^ 63

/-- A cursor of the namespace stands for a place in its listing. -/
structure Stands (s : Store) (ns cursor : Bytes) (place : Option RevisionMetadata) : Prop where
  identifier : validateOptionalIdentifier cursor = .ok ()
  decoded : ∃ c, s.cursorStateLocked cursor .revision ns [] = .ok c ∧
    placeOf ns ⟨c.revisionPublishedAt, c.revisionID⟩ (cursor != []) = place

theorem stands_nil (s : Store) (ns : Bytes) : Stands s ns [] none :=
  ⟨by decide, _, rfl, rfl⟩

theorem Stands.congr {s' : Store} (h : Stands s ns cursor place) (hk : s'.cursorKey = s.cursorKey) :
    Stands s' ns cursor place := by
  obtain ⟨hid, c, hc, hplace⟩ := h
  refine ⟨hid, c, ?_, hplace⟩
  rw [← hc]
  simp only [Store.cursorStateLocked, Store.cursorScope, hk]
  rfl

/-- The cursor issued for a valid revision stands for it. -/
theorem newCursorLocked_stands (s : Store) {m} (hm : m.valid = true) (ht : RoundTrips m.publishedAt) :
    ∃ cursor, s.newCursorLocked ⟨.revision, m.namespace_, [], 0, m.publishedAt, m.id⟩ = .ok cursor ∧ cursor ≠ [] ∧
      cursor.length ≤ 192 ∧ Stands s m.namespace_ cursor (some m) := by
  simp only [RevisionMetadata.valid, Bool.and_eq_true, bne_iff_ne] at hm
  obtain ⟨⟨⟨-, hid⟩, htime⟩, -⟩ := hm
  have hlen := validRevisionIDString_length hid
  have hne : m.id ≠ [] := ne_nil_of_length_pos (by omega)
  set c : CursorState := ⟨.revision, m.namespace_, [], 0, m.publishedAt, m.id⟩ with hc
  have hnew : s.newCursorLocked c = .ok (Base64.encode (s.cursorPayload c ++ hmac s.cursorKey (s.cursorPayload c))) := by
    unfold Store.newCursorLocked
    rw [if_neg, if_neg, if_neg]
    · simp only [hc, hlen]
      decide
    · simp [hc, Store.cursorFieldsValid, htime, hne]
    · simp [hc, hlen]
  have hsize : (Base64.encode (s.cursorPayload c ++ hmac s.cursorKey (s.cursorPayload c))).length = 182 := by
    rw [Base64.length_encode, length_append, Primitives.hmac_length, Store.cursorPayload_eq]
    simp only [length_append, Store.length_cursorScope, Store.length_cursorFields, hc, hlen]
    rfl
  have hnil : Base64.encode (s.cursorPayload c ++ hmac s.cursorKey (s.cursorPayload c)) ≠ [] :=
    ne_nil_of_length_pos (by omega)
  refine ⟨_, hnew, hnil, by omega, ?_, c, Store.cursorStateLocked_newCursorLocked hnew (by simp [hc]) fun _ => ht, ?_⟩
  · exact validateOptionalIdentifier_eq_ok.2 ⟨by rw [hsize]; decide, safeText_ascii (Base64.encode_printable _)⟩
  · rw [placeOf, if_pos (bne_iff_ne.2 hnil)]

/-! ## What a listing returns -/

omit [Primitives] in
/-- A page of valid revisions in order is never too large. -/
theorem newListRevisionsResponse_eq {request} (hr : request.valid = true) {revisions}
    (hlen : revisions.length ≤ request.limit) (hnext : cursor.length ≤ 192)
    (hid : validateOptionalIdentifier cursor = .ok ()) (hsorted : StrictSorted compareMetadata revisions)
    (hvalid : ∀ m ∈ revisions, m.valid = true ∧ m.namespace_ = request.namespace_)
    (hids : (revisions.map (·.id)).Nodup) :
    newListRevisionsResponse request revisions cursor = .ok ⟨revisions, cursor⟩ := by
  have hlimit : request.limit ≤ 1000 := by
    simp only [ListRevisionsRequest.valid, Bool.and_eq_true, decide_eq_true_eq] at hr
    exact hr.2
  have hcost : (revisions.map revisionMetadataCost).sum ≤ revisions.length * 1200 := by
    refine (sum_le_card_nsmul _ 1200 fun n hn => ?_).trans (by simp)
    obtain ⟨m, hm, rfl⟩ := mem_map.1 hn
    have hv := (hvalid m hm).1
    simp only [RevisionMetadata.valid, Bool.and_eq_true, validNamespace_iff] at hv
    have := textCost_le (validateNamespace_eq_ok.1 hv.1.1.1).2.1
    simp only [revisionMetadataCost, fieldMetadataBytes, timestampBytes]
    omega
  have hcharges : Charges (addPageCost addRevisionMetadataCost · revisions cursor)
      (collectionMetadataBytes + (textCost cursor + (revisions.map revisionMetadataCost).sum)) :=
    (charges_add _).bind ((charges_text _).bind (charges_foldlM charges_revisionMetadata revisions))
  have hpage : validRevisionPage request revisions = true := by
    have hchain : revisions.IsChain (revisionBefore · · = true) := by
      simp only [revisionBefore_iff]
      exact List.Pairwise.isChain hsorted
    simp only [validRevisionPage, Bool.and_eq_true, all_eq_true, beq_iff_eq, decide_eq_true_eq]
    exact ⟨⟨hvalid, hids⟩, hchain⟩
  have htext := @textCost_le cursor (by omega)
  rw [newListRevisionsResponse, newPage, require_eq_ok.2 hr, ok_bind, require_eq_ok.2, ok_bind,
    hcharges.withinBudget_eq_ok.2, ok_bind, hid, ok_bind, require_eq_ok.2 hpage, ok_bind]
  · simp only [collectionMetadataBytes, maxAggregateOutputBytes]
    omega
  · exact Bool.and_eq_true_iff.2 ⟨decide_eq_true hlen, decide_eq_true (hlen.trans hlimit)⟩

omit [Primitives] in
theorem IsRevisionIndex.nodup {byID} (h : IsRevisionIndex ns byID order) :
    ((listed order).map (·.id)).Nodup := by
  refine List.Pairwise.map _ (fun _ _ h => h) (List.Pairwise.imp_of_mem (fun {a b} ha hb hab heq => ?_) h.strictSorted)
  obtain ⟨r, hr, rfl⟩ := h.mem_listed.1 ha
  obtain ⟨r', hr', rfl⟩ := h.mem_listed.1 hb
  rw [heq, hr'] at hr
  rw [Option.some.inj hr] at hab
  simp [ReflCmp.compare_self] at hab

/-- An uncancelled listing returns the page after its place, with a cursor for the rest exactly if there is one. -/
theorem listRevisions_eq {limit ctx} (h : IsRevisionIndex ns (s.revisions ns) (s.revisionOrder ns)) (hctx : ctx.Alive)
    (hns : validateNamespace ns = .ok ()) (hlimit : 0 < limit ∧ limit ≤ maxPageRequestItems)
    (hs : Stands s ns cursor place) (ht : ∀ m ∈ listed (s.revisionOrder ns), RoundTrips m.publishedAt) :
    ∃ next, listRevisions s ctx ⟨ns, cursor, limit⟩ =
        .ok ⟨View.page compareMetadata place ⟨listed (s.revisionOrder ns), limit⟩, next⟩ ∧
      (next ≠ [] ↔ limit < (rest compareMetadata place (listed (s.revisionOrder ns))).length) ∧
      (next ≠ [] → Stands s ns next (View.finish compareMetadata place ⟨listed (s.revisionOrder ns), limit⟩)) := by
  obtain ⟨hid, c, hc, rfl⟩ := hs
  set v : View RevisionMetadata := ⟨listed (s.revisionOrder ns), limit⟩ with hv
  set place := placeOf ns ⟨c.revisionPublishedAt, c.revisionID⟩ (cursor != []) with hplace
  have halive : Ctx.alive.signaled = false := rfl
  have hvalid : ∀ m ∈ v.entries, m.valid = true ∧ m.namespace_ = ns := by
    intro m hm
    obtain ⟨r, hr, rfl⟩ := h.mem_listed.1 hm
    exact (h.valid _ _ hr).symm
  have hsub : (v.page compareMetadata place).Sublist v.entries := View.page_sublist place v
  have hrequest : newListRevisionsRequest ns cursor limit = .ok ⟨ns, cursor, limit⟩ := by
    simp [newListRevisionsRequest, hns, hid, Nat.ne_of_gt hlimit.1, hlimit.2, require]
  have hreqValid : (⟨ns, cursor, limit⟩ : ListRevisionsRequest).valid = true := by
    simp [ListRevisionsRequest.valid, hns, isOk_unit.2 hid, Nat.ne_of_gt hlimit.1, hlimit.2]
  have hresponse (next : Bytes) (hlen : next.length ≤ 192) (hnext : validateOptionalIdentifier next = .ok ()) :
      newListRevisionsResponse ⟨ns, cursor, limit⟩ (v.page compareMetadata place) next =
        .ok ⟨v.page compareMetadata place, next⟩ :=
    newListRevisionsResponse_eq hreqValid (length_take_le _ _) hlen hnext (strictSorted_page h.strictSorted place)
      (fun m hm => hvalid m (hsub.subset hm)) (h.nodup.sublist (hsub.map _))
  have hlist : listRevisions s ctx ⟨ns, cursor, limit⟩ =
      nextRevisionCursor s ns (v.page compareMetadata place)
          (decide (limit < (rest compareMetadata place v.entries).length)) >>=
        newListRevisionsResponse ⟨ns, cursor, limit⟩ (v.page compareMetadata place) := by
    simp only [listRevisions, hctx.entry, hctx.visit, hctx.last, halive, Bool.not_false, require_true, ok_bind, hrequest,
      orFail_ok, hc, h.revisionPage_eq]
    rfl
  by_cases hmore : limit < (rest compareMetadata place v.entries).length
  · -- the limit is not zero, so the page has a last entry
    obtain ⟨last, hlast⟩ : ∃ last, (v.page compareMetadata place).getLast? = some last := by
      rw [← Option.isSome_iff_exists, getLast?_isSome]
      exact ne_nil_of_length_pos (by rw [View.page, length_take]; exact lt_min hlimit.1 (hlimit.1.trans hmore))
    have hmem := hsub.subset (mem_of_getLast? hlast)
    obtain ⟨hm, hmns⟩ := hvalid last hmem
    obtain ⟨next, hnew, hne, hlen, hstands⟩ := newCursorLocked_stands s hm (ht last hmem)
    rw [hmns] at hnew hstands
    refine ⟨next, ?_, ⟨fun _ => hmore, fun _ => hne⟩, fun _ => ?_⟩
    · rw [hlist, decide_eq_true hmore]
      simp only [nextRevisionCursor, hlast, hnew, ok_bind]
      exact hresponse next hlen hstands.identifier
    · rw [View.finish, hlast]
      exact hstands
  · refine ⟨[], ?_, ⟨fun h => absurd rfl h, fun h => absurd h hmore⟩, fun h => absurd rfl h⟩
    rw [hlist, decide_eq_false hmore, nextRevisionCursor]
    exact hresponse [] (Nat.zero_le _) (by decide)

end Cursor

end PolicyEngine.Memory
