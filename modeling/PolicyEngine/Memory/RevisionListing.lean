import PolicyEngine.Memory.EventStream
import PolicyEngine.Memory.NoEffect
import PolicyEngine.Memory.RevisionPages

/-!
# Listing revisions

In every reachable state the order index of a namespace is its id map, in listing
order. Following the next cursors from the first page lists every revision there was
at the start exactly once, in order, whatever is published between the pages.
-/

open Std PolicyEngine.Lib PolicyEngine.Lib.Paging Function List

namespace PolicyEngine.Memory

variable [Primitives]

/-! ## What a step does to the revisions -/

/-- A revision enters the id map and the order index of its namespace. -/
structure Publishes (s s' : Store) (record : RevisionRecord) : Prop where
  new : s.revisions record.metadata.namespace_ record.metadata.id = none
  revisions : s'.revisions = Function.update s.revisions record.metadata.namespace_
    (Function.update (s.revisions record.metadata.namespace_) record.metadata.id (some record))
  order : s'.revisionOrder = Function.update s.revisionOrder record.metadata.namespace_
    (revisionSet (s.revisionOrder record.metadata.namespace_) record)

variable {s s' : Store}

theorem WriteStep.revisions {request pc pc'} (h : WriteStep s request pc s' pc') :
    s'.revisions = s.revisions ∧ s'.revisionOrder = s.revisionOrder := by
  cases h with
  | commit =>
    rw [publishCandidate_eq, Store.effectiveTimeLocked_fst]
    exact ⟨rfl, rfl⟩
  | release => exact ⟨(SameContent.release s _).revisions, (SameContent.release s _).revisionOrder⟩
  | _ => exact ⟨rfl, rfl⟩

theorem ActivateStep.revisions {request pc pc'} (h : ActivateStep s request pc s' pc') :
    s'.revisions = s.revisions ∧ s'.revisionOrder = s.revisionOrder := by
  cases h with
  | commit =>
    rw [publishActivation_eq, Store.effectiveTimeLocked_fst]
    exact ⟨rfl, rfl⟩
  | release => exact ⟨(SameContent.release s _).revisions, (SameContent.release s _).revisionOrder⟩
  | _ => exact ⟨rfl, rfl⟩

variable {write : RevisionWrite}

theorem PutStep.revisions {pc pc' : PutPc} (h : PutStep s write pc s' pc') :
    (s'.revisions = s.revisions ∧ s'.revisionOrder = s.revisionOrder) ∨
      (∃ r t, pc = .committing r t) ∧ Publishes s s' write := by
  cases h with
  | @commit r t event hnew _ =>
    refine .inr ⟨⟨r, t, rfl⟩, hnew, ?_, ?_⟩
    · rw [publishRevision_eq, Store.effectiveTimeLocked_fst]
      rfl
    · rw [publishRevision, Store.appendEventLocked_eq, Store.effectiveTimeLocked_fst]
      rfl
  | release => exact .inl ⟨(SameContent.release s _).revisions, (SameContent.release s _).revisionOrder⟩
  | _ => exact .inl ⟨rfl, rfl⟩

/-- Only the commit of a publication changes revisions. -/
theorem OperationStep.revisions {o o' : Operation} (h : OperationStep s s' o o') :
    (s'.revisions = s.revisions ∧ s'.revisionOrder = s.revisionOrder) ∨
      ∃ write r t, o = .putRevision write (.committing r t) ∧ Publishes s s' write := by
  cases h with
  | writeData h => exact .inl h.revisions
  | activate h => exact .inl h.revisions
  | listEvents h => exact .inl ⟨h.revisions, h.revisionOrder⟩
  | openSnapshot h => exact .inl ⟨h.revisions, h.revisionOrder⟩
  | putRevision h =>
    rcases h.revisions with hsame | ⟨⟨r, t, rfl⟩, hp⟩
    · exact .inl hsame
    · exact .inr ⟨_, r, t, rfl, hp⟩

/-! ## The order index in reachable states -/

/-- A publication past its checks has a valid record. -/
def PutPc.Checked (write : RevisionWrite) (pc : PutPc) : Prop :=
  pc = .entry ∨ pc.result?.isSome ∨ putRevisionPrepare write = .ok ()

theorem PutStep.checked {pc pc' : PutPc} (h : PutStep s write pc s' pc') (hpc : pc.Checked write) :
    pc'.Checked write := by
  cases h with
  | start hp => exact .inr (.inr hp)
  | refuse | contend | answer | reply | abandon | decline | commit | release => exact .inr (.inl rfl)
  | wake | wait | find | build | check | read | recheck =>
    rcases hpc with h | h | h
    · cases h
    · cases h
    · exact .inr (.inr h)

structure RevisionInv (s : System) : Prop where
  index : ∀ ns, IsRevisionIndex ns (s.store.revisions ns) (s.store.revisionOrder ns)
  checked : ∀ {id ctx write pc}, s.calls id = some ⟨ctx, .putRevision write pc⟩ → pc.Checked write

theorem putRevisionPrepare_metadata (h : putRevisionPrepare write = .ok ()) :
    write.metadata.valid = true := by
  simp only [putRevisionPrepare, check_eq_ok, require_eq_ok, RevisionWrite.Valid, Bool.and_eq_true, isOk_unit,
    validateRevisionMetadata_eq_ok, newRevisionMetadata, bne_iff_ne] at h
  obtain ⟨⟨⟨⟨hbudget, hns, ⟨hid, ht⟩, -⟩, -⟩, -⟩, -⟩ := h.1
  simp [RevisionMetadata.valid, hns, hid, ht, isOk_unit.2 hbudget]

omit [Primitives] in
theorem Publishes.index {record} (h : Publishes s s' record) (hvalid : record.metadata.valid = true)
    (hi : ∀ ns, IsRevisionIndex ns (s.revisions ns) (s.revisionOrder ns)) (ns : Bytes) :
    IsRevisionIndex ns (s'.revisions ns) (s'.revisionOrder ns) := by
  rw [h.revisions, h.order]
  by_cases hns : ns = record.metadata.namespace_
  · subst hns
    rw [update_self, update_self]
    exact (hi _).publish h.new rfl hvalid
  · rw [update_of_ne hns, update_of_ne hns]
    exact hi ns

theorem RevisionInv.step {s s' a} (hi : RevisionInv s) (h : s.step a = some s') :
    RevisionInv s' := by
  rcases System.step_cases h with ⟨id, o, hn, hentry, rfl⟩ | ⟨id, reason, o, hc, rfl⟩ |
    ⟨id, input, ctx, o, o', store, hc, hstep, rfl⟩
  · refine ⟨hi.index, fun {i ctx write pc} hcall => ?_⟩
    by_cases hid : i = id
    · subst hid
      obtain ⟨-, rfl⟩ : Ctx.alive = ctx ∧ o = .putRevision write pc := by simpa using hcall
      exact .inl hentry
    · exact hi.checked (by simpa only [update_of_ne hid] using hcall)
  · refine ⟨hi.index, fun {i ctx write pc} hcall => ?_⟩
    by_cases hid : i = id
    · subst hid
      obtain ⟨-, rfl⟩ : reason = ctx ∧ o = .putRevision write pc := by simpa using hcall
      exact hi.checked hc
    · exact hi.checked (by simpa only [update_of_ne hid] using hcall)
  · refine ⟨fun ns => ?_, fun {i ctx' write pc} hcall => ?_⟩
    · rcases (Operation.step_cases hstep).revisions with ⟨hr, ho⟩ | ⟨write, r, t, rfl, hp⟩
      · simp only [hr, ho]
        exact hi.index ns
      · have hprep : putRevisionPrepare write = .ok () := by simpa [PutPc.Checked, PutPc.result?] using hi.checked hc
        exact hp.index (putRevisionPrepare_metadata hprep) hi.index ns
    · by_cases hid : i = id
      · subst hid
        obtain ⟨-, rfl⟩ : ctx = ctx' ∧ o' = .putRevision write pc := by simpa using hcall
        cases Operation.step_cases hstep with
        | putRevision hw => exact hw.checked (hi.checked hc)
      · exact hi.checked (by simpa only [update_of_ne hid] using hcall)

theorem revisionInv_of_reached {s : System} (h : s.Reached) : RevisionInv s := by
  refine h.invariant (I := RevisionInv) ?_ fun _ _ _ hi _ hs => hi.step hs
  rintro _ ⟨key, rfl⟩
  exact ⟨fun ns => isRevisionIndex_nil ns, nofun⟩

/-! ## Pages one after the other -/

variable {ns : Bytes}

/-- A stored revision stays. -/
theorem System.Leads.revisions {s t : System} (h : s.Leads t) {id record} (hr : s.store.revisions ns id = some record) :
    t.store.revisions ns id = some record := by
  refine h.invariant (I := fun t => t.store.revisions ns id = some record) (by rintro _ rfl; exact hr) ?_
  intro t a t' ht _ hs
  rcases System.step_cases hs with ⟨_, o, -, -, rfl⟩ | ⟨_, _, o, -, rfl⟩ | ⟨_, _, ctx, o, o', store, -, hstep, rfl⟩
  · exact ht
  · exact ht
  · rcases (Operation.step_cases hstep).revisions with ⟨hsame, -⟩ | ⟨write, r, _, rfl, hp⟩
    · simpa only [hsame] using ht
    · -- a publication does not replace a revision
      simp only [hp.revisions, update_apply]
      split
      next hns =>
        rw [update_apply]
        split
        next hid =>
          rw [hns, hid, hp.new] at ht
          cases ht
        next => exact hns ▸ ht
      next => exact ht

theorem System.Leads.cursorKey {s t : System} (h : s.Leads t) : t.store.cursorKey = s.store.cursorKey := by
  refine h.invariant (I := fun t => t.store.cursorKey = s.store.cursorKey) (by rintro _ rfl; rfl) ?_
  intro t a t' ht _ hs
  rcases System.step_cases hs with ⟨_, o, -, -, rfl⟩ | ⟨_, _, o, -, rfl⟩ | ⟨_, _, ctx, o, o', store, -, hstep, rfl⟩
  · exact ht
  · exact ht
  · exact (Operation.step_clock hstep).cursorKey.trans ht

/-- One ListRevisions call: the state it reads, the limit it asks with, and the page it returns. -/
structure PageCall where
  system : System
  limit : Nat
  page : Page RevisionMetadata

/-- Calls that follow the next cursors from `cursor` on; anything may happen between them. -/
def Follows (ns : Bytes) : System → Bytes → List PageCall → Prop
  | _, _, [] => True
  | s, cursor, p :: rest =>
    s.Leads p.system ∧ (∃ ctx, listRevisions p.system.store ctx ⟨ns, cursor, p.limit⟩ = .ok p.page) ∧
      (rest ≠ [] → p.page.nextCursor ≠ []) ∧ Follows ns p.system p.page.nextCursor rest

def PageCall.view (ns : Bytes) (p : PageCall) : View RevisionMetadata :=
  ⟨listed (p.system.store.revisionOrder ns), p.limit⟩

/-- Everything the calls list. -/
def listing (calls : List PageCall) : List RevisionMetadata := calls.flatMap (·.page.items)

def ReadCtx.alive : ReadCtx := ⟨.alive, fun _ => .alive, .alive⟩

omit [Primitives] in
theorem ReadCtx.alive_alive : ReadCtx.alive.Alive := ⟨rfl, fun _ => rfl, rfl⟩

/-- A listing that succeeds was asked properly and was not cancelled. -/
theorem listRevisions_ok {ctx cursor limit page} (h : listRevisions s ctx ⟨ns, cursor, limit⟩ = .ok page) :
    validateNamespace ns = .ok () ∧ (0 < limit ∧ limit ≤ maxPageRequestItems) ∧
      listRevisions s .alive ⟨ns, cursor, limit⟩ = .ok page := by
  simp only [listRevisions, check_eq_ok] at h
  obtain ⟨r, hr, h⟩ := bind_eq_ok.1 h.2
  obtain ⟨c, hc, h⟩ := bind_eq_ok.1 h
  obtain ⟨-, h⟩ := check_eq_ok.1 h
  obtain ⟨next, hnext, h⟩ := bind_eq_ok.1 h
  obtain ⟨-, h⟩ := check_eq_ok.1 h
  have hrequest := orFail_eq_ok.1 hr
  simp only [newListRevisionsRequest, check_eq_ok, require_eq_ok, bne_iff_ne, decide_eq_true_eq] at hrequest
  refine ⟨hrequest.2.1, ⟨Nat.pos_of_ne_zero hrequest.1, hrequest.2.2.2.1⟩, ?_⟩
  simp only [listRevisions, ReadCtx.alive, Ctx.signaled, hr, hc, hnext, ok_bind]
  exact h

/-- The publication times of a namespace's revisions round-trip through a cursor. -/
def Store.TimesRoundTrip (s : Store) (ns : Bytes) : Prop :=
  ∀ id record, s.revisions ns id = some record → RoundTrips record.metadata.publishedAt

section Follow

variable {ns cursor : Bytes} {place : Option RevisionMetadata} {s : System}

theorem times_listed (hr : s.Reached) (ht : s.store.TimesRoundTrip ns) :
    ∀ m ∈ listed (s.store.revisionOrder ns), RoundTrips m.publishedAt := by
  intro m hm
  obtain ⟨record, hrecord, rfl⟩ := ((revisionInv_of_reached hr).index ns).mem_listed.1 hm
  exact ht _ _ hrecord

/-- What one call of a listing returned. -/
structure Paged (ns : Bytes) (place : Option RevisionMetadata) (p : PageCall) : Prop where
  items : p.page.items = (p.view ns).page compareMetadata place
  more : p.page.nextCursor ≠ [] ↔ p.limit < (rest compareMetadata place (p.view ns).entries).length
  next : p.page.nextCursor ≠ [] → Stands p.system.store ns p.page.nextCursor ((p.view ns).finish compareMetadata place)
  limit : 0 < p.limit
  namespace_ok : validateNamespace ns = .ok ()

theorem paged {p : PageCall} (hr : p.system.Reached) (hs : Stands p.system.store ns cursor place)
    (hp : ∃ ctx, listRevisions p.system.store ctx ⟨ns, cursor, p.limit⟩ = .ok p.page)
    (ht : p.system.store.TimesRoundTrip ns) : Paged ns place p := by
  obtain ⟨ctx, hp⟩ := hp
  obtain ⟨hns, hlimit, hp⟩ := listRevisions_ok hp
  obtain ⟨next, hpage, hmore, hstands⟩ := listRevisions_eq ((revisionInv_of_reached hr).index ns)
    ReadCtx.alive_alive hns hlimit hs (times_listed hr ht)
  obtain heq : p.page = _ := Except.ok.inj (hp.symm.trans hpage)
  exact ⟨by rw [heq]; rfl, by rw [heq]; exact hmore, by rw [heq]; exact hstands, hlimit.1, hns⟩

/-- Up to its last call, a listing has listed the pages of its views, and that call starts where they end. -/
theorem Follows.reaches {pre p} (hr : s.Reached) (hs : Stands s.store ns cursor place)
    (h : Follows ns s cursor (pre ++ [p])) (ht : ∀ q ∈ pre ++ [p], q.system.store.TimesRoundTrip ns) :
    listing pre = pages compareMetadata place (pre.map (·.view ns)) ∧ pre.length ≤ (listing pre).length ∧
      Paged ns (finish compareMetadata place (pre.map (·.view ns))) p ∧
      ∀ q ∈ pre ++ [p], s.Leads q.system ∧ q.system.Leads p.system := by
  induction pre generalizing s cursor place with
  | nil =>
    obtain ⟨hleads, hp, -, -⟩ := h
    refine ⟨rfl, Nat.le_refl _, paged (hr.trans hleads) (hs.congr hleads.cursorKey) hp (ht p (by simp)), fun q hq => ?_⟩
    obtain rfl : q = p := by simpa using hq
    exact ⟨hleads, .start rfl⟩
  | cons q pre ih =>
    obtain ⟨hleads, hq, hnext, hrest⟩ := h
    have hrq := hr.trans hleads
    have hpaged := paged hrq (hs.congr hleads.cursorKey) hq (ht q (by simp))
    have hne := hnext (by simp)
    obtain ⟨hlist, hlen, hlast, hall⟩ := ih hrq (hpaged.next hne) hrest fun r hr => ht r (by simp at hr ⊢; tauto)
    refine ⟨?_, ?_, hlast, fun r hr' => ?_⟩
    · rw [listing, flatMap_cons, ← listing, hlist, hpaged.items, map_cons, pages]
    · -- a page with a next cursor is full
      have hfull : 0 < q.page.items.length := by
        rw [hpaged.items, View.page, length_take]
        exact lt_min hpaged.limit (hpaged.limit.trans (hpaged.more.1 hne))
      rw [listing, flatMap_cons, ← listing, length_append, length_cons]
      omega
    · rcases mem_cons.1 hr' with rfl | hr'
      · exact ⟨hleads, (hall p (by simp)).1⟩
      · exact ⟨hleads.trans (hall r hr').1, (hall r hr').2⟩

end Follow

/-! ## The contract -/

/-- A listing from the first page in state `s` to the page `p`. -/
structure ListsThrough (ns : Bytes) (s : System) (pre : List PageCall) (p : PageCall) : Prop where
  /-- The keys strictly increase, over all pages. -/
  ordered : (listing (pre ++ [p])).Pairwise (revisionBefore · · = true)
  /-- What is listed is stored. -/
  stored : ∀ m ∈ listing (pre ++ [p]), ∃ record, p.system.store.revisions ns m.id = some record ∧ record.metadata = m
  /-- There is a next cursor exactly when the index has a further entry. -/
  next : p.page.nextCursor ≠ [] ↔ ∃ id record, p.system.store.revisions ns id = some record ∧
    ∀ m ∈ listing (pre ++ [p]), revisionBefore m record.metadata = true
  /-- Without one, every revision there was at the start has been listed, once. -/
  complete : p.page.nextCursor = [] → ∀ id record, s.store.revisions ns id = some record →
    (listing (pre ++ [p])).count record.metadata = 1
  /-- With one, the next page can be listed in any later state. -/
  progress : p.page.nextCursor ≠ [] → ∀ t, p.system.Leads t → t.store.TimesRoundTrip ns → ∀ limit,
    0 < limit ∧ limit ≤ maxPageRequestItems → ∀ ctx : ReadCtx, ctx.Alive →
    ∃ page, listRevisions t.store ctx ⟨ns, p.page.nextCursor, limit⟩ = .ok page
  /-- Every page but the last has an entry, so there are no more pages than revisions. -/
  bounded : pre.length ≤ (listing pre).length

theorem Follows.listsThrough {s : System} (hr : s.Reached) {pre p} (h : Follows ns s [] (pre ++ [p]))
    (ht : ∀ q ∈ pre ++ [p], q.system.store.TimesRoundTrip ns) :
    ListsThrough ns s pre p := by
  obtain ⟨hpre, hlen, hpaged, hall⟩ := h.reaches hr (stands_nil s.store ns) ht
  set views := (pre ++ [p]).map (·.view ns) with hviews
  have hlist : listing (pre ++ [p]) = pages compareMetadata none views := by
    rw [listing, flatMap_append, ← listing, hpre, hviews, map_append, pages_append]
    simp [hpaged.items, pages]
  have hfinish : finish compareMetadata none views =
      (p.view ns).finish compareMetadata (finish compareMetadata none (pre.map (·.view ns))) := by
    rw [hviews, map_append, finish_append]
    rfl
  have hindex (q : PageCall) (hq : q ∈ pre ++ [p]) := (revisionInv_of_reached (hr.trans (hall q hq).1)).index ns
  have hp : p ∈ pre ++ [p] := by simp
  have hsorted : ∀ v ∈ views, StrictSorted compareMetadata v.entries := by
    intro v hv
    obtain ⟨q, hq, rfl⟩ := mem_map.1 hv
    exact (hindex q hq).strictSorted
  have hstrict := (pages_spec hsorted none).1
  have hlast : p.view ns ∈ views := mem_map_of_mem hp
  have hafter : (∃ m ∈ (p.view ns).entries, Precedes compareMetadata (finish compareMetadata none views) m) ↔
      p.page.nextCursor ≠ [] := by
    rw [hpaged.more, hfinish]
    exact View.exists_after_iff (hsorted _ hlast) _
  refine ⟨?_, ?_, ?_, ?_, ?_, hlen⟩
  · rw [hlist]
    exact hstrict.imp revisionBefore_iff.2
  · intro m hm
    rw [hlist] at hm
    obtain ⟨v, hv, hmem⟩ := exists_view_of_mem_pages hm
    obtain ⟨q, hq, rfl⟩ := mem_map.1 hv
    obtain ⟨record, hrecord, rfl⟩ := (hindex q hq).mem_listed.1 hmem
    exact ⟨record, (hall q hq).2.revisions hrecord, rfl⟩
  · simp only [← hafter, precedes_finish_iff hsorted, PageCall.view, (hindex p hp).mem_listed, revisionBefore_iff, hlist]
    constructor
    · rintro ⟨m, ⟨record, hrecord, rfl⟩, hm⟩
      exact ⟨_, record, hrecord, hm⟩
    · rintro ⟨id, record, hrecord, hm⟩
      exact ⟨record.metadata, ⟨record, by rwa [(hindex p hp).named _ _ hrecord], rfl⟩, hm⟩
  · intro hnil id record hrecord
    have hentries : ∀ v ∈ views, record.metadata ∈ v.entries := by
      intro v hv
      obtain ⟨q, hq, rfl⟩ := mem_map.1 hv
      have hq' := (hall q hq).1.revisions hrecord
      exact (hindex q hq).mem_listed.2 ⟨record, by rwa [(hindex q hq).named _ _ hq'], rfl⟩
    have hmem : record.metadata ∈ pages compareMetadata none views :=
      (mem_pages_or_precedes hsorted hentries (by simp [Precedes])).resolve_right fun hpre =>
        hafter.1 ⟨_, hentries _ hlast, hpre⟩ hnil
    rw [hlist]
    refine count_eq_one_of_mem (hstrict.imp fun {a b} hab heq => ?_) hmem
    simp [heq, ReflCmp.compare_self] at hab
  · intro hne t hleads htimes limit hlimit ctx hctx
    have hrt := (hr.trans (hall p hp).1).trans hleads
    obtain ⟨next, hpage, -, -⟩ := listRevisions_eq ((revisionInv_of_reached hrt).index ns) hctx hpaged.namespace_ok hlimit
      ((hpaged.next hne).congr hleads.cursorKey) (times_listed hrt htimes)
    exact ⟨_, hpage⟩

omit [Primitives] in
theorem samplePublish_listed :
    (run (@System.step Primitives.constant) ⟨newStore [], fun _ => none, []⟩ samplePublish).any (fun s =>
      @listRevisions Primitives.constant s.store .alive ⟨ascii "n", [], 1⟩ = .ok ⟨[sampleRevision.metadata], []⟩ &&
        (s.store.revisionOrder (ascii "n")).toList.all fun p => p.2.metadata.publishedAt = 5) = true := by
  decide +kernel

end PolicyEngine.Memory
