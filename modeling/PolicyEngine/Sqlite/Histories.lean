import Mathlib
import PolicyEngine.Sqlite.Listings

/-!
# Activation histories among other calls

ListActivationHistory finds the oldest retained generation in one query and reads its
rows in another. Activations of other callers commit between the two, each with its own
retention, so that the rows right after the cursor may be gone when they are read.
-/

open PolicyEngine.Lib List

namespace PolicyEngine.Sqlite

variable {key : Bytes} {db db' : Database}

section

variable [Primitives]

/-- ListActivationHistory with the database of each statement. -/
def listHistoryBetween (s : Store) (atOldest atRows : Database) (request : ListActivationHistoryRequest) :
    Result (Page Activation) := do
  let cursor ← listHistoryCursor s request
  let oldest := oldestGeneration atOldest request.namespace_ request.slot
  checkHistoryCursor request cursor oldest
  let values ← readHistoryRows atRows request cursor
  historyPage s request oldest values

variable {ns slot : Bytes} {a b : Int}

omit [Primitives] in
theorem oldestGeneration_of_fills (hfill : Fills a b (generationsOf db ns slot)) (hlt : a < b) :
    oldestGeneration db ns slot = (a + 1).toNat := by
  rw [oldestGeneration, hfill.mergeSort_le, interval_eq_cons hlt]
  rfl

omit [Primitives] in
/-- The generations of a slot are those from its oldest on. -/
theorem SlotsOk.filledFrom (h : SlotsOk db) (ns slot : Bytes) :
    ∃ a b, 0 ≤ a ∧ Fills a b (generationsOf db ns slot) ∧ ∀ p : Nat, oldestGeneration db ns slot ≤ p + 1 ↔ a ≤ p := by
  obtain ⟨a, hab, hfill⟩ := h.filledOf ns slot
  generalize ((db.slotHeads.get? (ns, slot)).map (·.generation.toInt)).getD 0 = b at hab hfill
  by_cases hlt : a < b
  · have h0 : 0 ≤ a := by
      obtain ⟨r, hr, -, hgeneration⟩ := mem_generationsOf.1 ((hfill.mem_iff (a + 1)).2 ⟨by omega, by omega⟩)
      have hpositive := (h.history r hr).1.generation
      omega
    have holdest := oldestGeneration_of_fills hfill hlt
    exact ⟨a, b, h0, hfill, fun p => by omega⟩
  · have hnil : generationsOf db ns slot = [] := by
      rw [← length_eq_zero_iff, hfill.length]
      omega
    have holdest : oldestGeneration db ns slot = 0 := by simp [oldestGeneration, hnil]
    refine ⟨0, 0, Int.le_refl 0, ?_, fun p => by omega⟩
    rw [hnil]
    exact fills_of_empty (by simp)

omit [Primitives] in
theorem mem_historyPageRows {position limit r} (h : r ∈ historyPageRows db ns slot position limit) :
    r ∈ db.activationHistory ∧ r.namespace_ = ns ∧ r.slot = slot := by
  have hmem := (mem_filter.1 (mem_mergeSort.1 (mem_of_mem_take h))).1
  simpa [historyOf, Table.mem_def] using hmem

variable {rows : List ActivationRow}

omit [Primitives] in
/-- Rows of an accepted history pass every check of the loop. -/
theorem scanHistory_ok (hrows : ∀ r ∈ rows, ActivationOk db r ∧ r.namespace_ = ns ∧ r.slot = slot) {previous : Int}
    (hsorted : (previous :: rows.map (·.generation.toInt)).Pairwise (· < ·)) :
    scanHistory ns slot previous rows = .ok (rows.map (·.activation)) := by
  induction rows generalizing previous with
  | nil => rfl
  | cons r rows ih =>
    obtain ⟨hr, rfl, rfl⟩ := hrows r mem_cons_self
    rw [map_cons, pairwise_cons] at hsorted
    have hlt := hsorted.1 r.generation.toInt mem_cons_self
    have hpositive := hr.generation
    have hfirst : (decide (r.generation.toInt > 0) && decide (r.generation.toInt > previous)) = true := by
      rw [Bool.and_eq_true, decide_eq_true_eq, decide_eq_true_eq]
      omega
    have hscan := ih (fun x hx => hrows x (mem_cons_of_mem _ hx)) hsorted.2
    simp only [scanHistory, hfirst, require_true, ok_bind, hr.newActivation_eq, orFail_ok, hscan, map_cons]

variable {request : ListActivationHistoryRequest}

omit [Primitives] in
/-- The row query answers the generations after the cursor that are still there. -/
theorem readHistoryRows_ok (h : SlotsOk db) (cursor : CursorState) (h0 : 0 ≤ a)
    (hfill : Fills a b (generationsOf db request.namespace_ request.slot)) :
    ∃ rows : List ActivationRow, (∀ r ∈ rows, ActivationOk db r ∧ r.namespace_ = request.namespace_ ∧ r.slot = request.slot) ∧
      readHistoryRows db request cursor = .ok (rows.map (·.activation)) ∧
      rows.map (·.generation.toInt) =
        (interval (max a (Int64.ofNat cursor.position).toInt) b).take (request.limit + 1) := by
  have hpage := hfill.map_page (Int64.ofNat cursor.position).toInt (request.limit + 1)
  rw [← historyPageRows] at hpage
  have hsorted : (0 :: (historyPageRows db request.namespace_ request.slot cursor.position request.limit).map
      (·.generation.toInt)).Pairwise (· < ·) := by
    rw [hpage, pairwise_cons]
    refine ⟨fun x hx => ?_, (pairwise_interval _ _).take⟩
    have hx := (mem_interval.1 (mem_of_mem_take hx)).1
    omega
  have hrows : ∀ r ∈ historyPageRows db request.namespace_ request.slot cursor.position request.limit,
      ActivationOk db r ∧ r.namespace_ = request.namespace_ ∧ r.slot = request.slot := fun r hr =>
    ⟨(h.history r (mem_historyPageRows hr).1).1, (mem_historyPageRows hr).2⟩
  exact ⟨_, hrows, scanHistory_ok hrows hsorted, hpage⟩

omit [Primitives] in
theorem generations_of_rows {l : List Int} (h : rows.map (·.generation.toInt) = l) :
    (rows.map (·.activation)).map (·.generation) = l.map fun x => x.toNat := by
  rw [← h, map_map, map_map]
  rfl

theorem newCursor_outcome {E} (hinternal : E .internal) (key : Bytes) (value : CursorState) :
    Outcome E (fun cursor => newCursor key value = .ok cursor) (newCursor key value) := by
  unfold newCursor
  repeat' split
  exacts [.error hinternal, .error hinternal, .error hinternal, .error hinternal, .ok rfl]

/-- A page with a next cursor has it made at its last generation. -/
theorem historyPage_outcome {E} (hinvalid : E .invalidArgument) (hexhausted : E .resourceExhausted)
    (hinternal : E .internal) (s : Store) (request : ListActivationHistoryRequest) (oldest : Nat)
    (values : List Activation) :
    Outcome E (fun page => page.items = values.take request.limit ∧
      (page.nextCursor ≠ [] → ∃ last, page.items.getLast? = some last ∧ newCursor s.cursorKey
        ⟨.history, request.namespace_, request.slot, last.generation, oldest - 1, zeroTime, []⟩ = .ok page.nextCursor))
      (historyPage s request oldest values) := by
  have hitems := cutPage_fst request.limit values
  have hlast := @cutPage_snd _ request.limit values
  unfold historyPage
  generalize cutPage request.limit values = cut at hitems hlast
  obtain ⟨items, last⟩ := cut
  obtain rfl := hitems
  have hresponse := newPage_outcome hinvalid hexhausted charges_activation
  cases last with
  | none => exact (hresponse _ _ _ _ _ _ _).mono fun page hpage => by simp [hpage]
  | some last =>
    refine .bind (newCursor_outcome hinternal _ _) fun next hnext => (hresponse _ _ _ _ _ _ _).mono ?_
    rintro page rfl
    exact ⟨rfl, fun _ => ⟨last, hlast rfl, hnext⟩⟩

omit [Primitives] in
theorem scanHistory_generation {previous values} (h : scanHistory ns slot previous rows = .ok values) :
    ∀ v ∈ values, v.generation < 2 ^ 63 := by
  induction rows generalizing previous values with
  | nil =>
    obtain rfl := Except.ok.inj h
    simp
  | cons r rows ih =>
    simp only [scanHistory, check_eq_ok] at h
    obtain ⟨activation, hnew, h⟩ := bind_eq_ok.1 h.2
    obtain ⟨rest, hrest, h⟩ := bind_eq_ok.1 h
    obtain rfl := Except.ok.inj h
    obtain ⟨rfl, -⟩ := newActivation_eq_ok.1 (orFail_eq_ok.1 hnew)
    have hlt := Int64.toInt_lt r.generation
    exact forall_mem_cons.2 ⟨by dsimp only; omega, ih hrest⟩

/-- The page after generation `p` has no gap: its activations are those right after `p`, and a call whose rows are
read when the first of them has gone says so. -/
structure GapFreeHistory (request : ListActivationHistoryRequest) (p : Nat) (atRows : Database)
    (result : Result (Page Activation)) : Prop where
  consecutive : ∀ page, result = .ok page → page.items.map (·.generation) = List.range' (p + 1) page.items.length
  expired : p + 1 < oldestGeneration atRows request.namespace_ request.slot → result = .error .cursorExpired

variable {s : Store}

theorem gapFreeHistory_iff {atOldest atRows cursor} (h : SlotsOk atRows)
    (hcursor : listHistoryCursor s request = .ok cursor) (hne : request.cursor ≠ []) (hp : cursor.position < 2 ^ 63) :
    GapFreeHistory request cursor.position atRows (listHistoryBetween s atOldest atRows request) ↔
      oldestGeneration atRows request.namespace_ request.slot ≤ cursor.position + 1 ∨
        cursor.position < oldestGeneration atOldest request.namespace_ request.slot := by
  rw [listHistoryBetween, hcursor, ok_bind]
  dsimp only
  by_cases hstale : cursor.position < oldestGeneration atOldest request.namespace_ request.slot
  · -- the first query already refuses
    have hpositive : 0 < oldestGeneration atOldest request.namespace_ request.slot := by omega
    simp only [checkHistoryCursor, hne, hstale, hpositive, decide_true, decide_false, Bool.and_self,
      Bool.not_true, Bool.or_self, require, Bool.false_eq_true, if_false, error_bind, or_true, iff_true]
    exact ⟨fun _ hpage => absurd hpage (by simp), fun _ => rfl⟩
  · have hpass : checkHistoryCursor request cursor (oldestGeneration atOldest request.namespace_ request.slot) = .ok () := by
      rw [checkHistoryCursor, require_eq_ok]
      simp [hstale]
    obtain ⟨a, b, h0, hfill, holdest⟩ := h.filledFrom request.namespace_ request.slot
    obtain ⟨rows, -, hvalues, hsorted⟩ := readHistoryRows_ok h cursor h0 hfill
    rw [Int64.toInt_ofNat_of_lt hp] at hsorted
    have hgenerations := generations_of_rows hsorted
    generalize rows.map (·.activation) = values at hvalues hgenerations
    have hpage : Outcome (· ≠ .cursorExpired) (fun page => page.items = values.take request.limit)
        (historyPage s request (oldestGeneration atOldest request.namespace_ request.slot) values) :=
      (historyPage_outcome (by decide) (by decide) (by decide) s request _ values).mono fun _ hpage => hpage.1
    rw [hpass, ok_bind, hvalues, ok_bind, or_iff_left hstale]
    constructor
    · intro hgap
      exact Nat.not_lt.1 fun hlt => hpage.of_error (hgap.expired hlt) rfl
    · intro hle
      refine ⟨fun page hok => ?_, fun hlt => absurd hlt (Nat.not_lt.2 hle)⟩
      rw [max_eq_right ((holdest _).1 hle)] at hgenerations
      rw [hpage.of_ok hok, ← List.map_id (List.range' _ _)]
      exact map_take_consecutive hgenerations

/-- The next cursor of a page names its last generation. -/
theorem decodeCursor_nextCursor {issuedAt issuedRows first page last}
    (hissued : listHistoryBetween s issuedAt issuedRows first = .ok page) (hlast : page.items.getLast? = some last)
    (hnext : page.nextCursor ≠ []) :
    last.generation < 2 ^ 63 ∧ ∃ boundary, decodeCursor s.cursorKey page.nextCursor .history first.namespace_ first.slot =
      .ok ⟨.history, first.namespace_, first.slot, last.generation, boundary, zeroTime, []⟩ := by
  rw [listHistoryBetween] at hissued
  obtain ⟨_, -, hissued⟩ := bind_eq_ok.1 hissued
  rw [check_eq_ok] at hissued
  obtain ⟨values, hvalues, hissued⟩ := bind_eq_ok.1 hissued.2
  have hpage := @historyPage_outcome _ (fun _ => True) trivial trivial trivial s first
    (oldestGeneration issuedAt first.namespace_ first.slot) values
  obtain ⟨hitems, hcursor⟩ := hpage.of_ok hissued
  obtain ⟨last', hlast', hcursor⟩ := hcursor hnext
  obtain rfl := Option.some.inj (hlast'.symm.trans hlast)
  have hmem : last' ∈ values.take first.limit := hitems ▸ mem_of_getLast? hlast'
  have hlt := scanHistory_generation hvalues last' (mem_of_mem_take hmem)
  exact ⟨hlt, _, (decodeCursor_newCursor (by simp) (by dsimp only; omega) hcursor).1⟩

/-- **ListActivationHistory is free of gaps when the oldest generation does not pass the cursor between its two
queries.** The cursor is the next cursor of a page that the run answered before. -/
theorem listActivationHistory_gapFree_iff {s : Store} {issuedAt issuedRows atOldest atRows : Database}
    {first request : ListActivationHistoryRequest} {page : Page Activation} {last : Activation} {limit : Nat}
    (hkey : s.cursorKey.length = 32) (hissued : listHistoryBetween s issuedAt issuedRows first = .ok page)
    (hreached : Later s.cursorKey (.migrated s.cursorKey) issuedRows) (hlast : page.items.getLast? = some last)
    (hnext : page.nextCursor ≠ []) (holdest : Later s.cursorKey issuedRows atOldest)
    (hrows : Later s.cursorKey atOldest atRows)
    (hrequest : newListActivationHistoryRequest first.namespace_ first.slot page.nextCursor limit = .ok request) :
    GapFreeHistory request last.generation atRows (listHistoryBetween s atOldest atRows request) ↔
      oldestGeneration atRows first.namespace_ first.slot ≤ last.generation + 1 ∨
        last.generation < oldestGeneration atOldest first.namespace_ first.slot := by
  have h := (((accepted_migrated hkey).later hreached).accepted.later holdest).accepted.later hrows
  obtain ⟨hlt, boundary, hdecode⟩ := decodeCursor_nextCursor hissued hlast hnext
  obtain rfl : request = ⟨first.namespace_, first.slot, page.nextCursor, limit⟩ := by
    simp only [newListActivationHistoryRequest, check_eq_ok] at hrequest
    exact (Except.ok.inj hrequest.2.2.2.2.2).symm
  have hlist : listHistoryCursor s ⟨first.namespace_, first.slot, page.nextCursor, limit⟩ =
      .ok ⟨.history, first.namespace_, first.slot, last.generation, boundary, zeroTime, []⟩ := by
    rw [listHistoryCursor, hrequest, ok_bind, hdecode]
  exact gapFreeHistory_iff h.accepted.slots hlist hnext hlt

/-! A page is answered once its cursor is accepted. -/

omit [Primitives] in
theorem newListActivationHistoryRequest_valid {cursor limit}
    (h : newListActivationHistoryRequest ns slot cursor limit = .ok request) : request.valid = true := by
  simp only [newListActivationHistoryRequest, check_eq_ok, require_eq_ok] at h
  obtain ⟨hlimit, hns, hslot, hcursor, hmax, h⟩ := h
  obtain rfl := Except.ok.inj h
  simp [ListActivationHistoryRequest.valid, validNamespace_iff, validIdentifier_iff, isOk_unit, hns, hslot, hcursor,
    hlimit, hmax]

omit [Primitives] in
/-- A page of valid activations in order is never too large. -/
theorem newListActivationHistoryResponse_eq (hr : request.valid = true) {items next}
    (hlength : items.length ≤ request.limit) (hnext : validateOptionalIdentifier next = .ok ())
    (hvalid : ∀ a ∈ items, a.valid = true ∧ a.namespace_ = request.namespace_ ∧ a.slot = request.slot)
    (hchain : items.IsChain (·.generation < ·.generation)) :
    newListActivationHistoryResponse request items next = .ok ⟨items, next⟩ := by
  have hlimit : request.limit ≤ 1000 := by
    simp only [ListActivationHistoryRequest.valid, Bool.and_eq_true, decide_eq_true_eq] at hr
    exact hr.2
  have hcost : (items.map activationCost).sum ≤ items.length * 3200 := by
    refine (sum_le_card_nsmul _ 3200 fun n hn => ?_).trans (by simp)
    obtain ⟨a, ha, rfl⟩ := mem_map.1 hn
    have hv := (hvalid a ha).1
    simp only [Activation.valid, Bool.and_eq_true, validNamespace_iff, validIdentifier_iff] at hv
    have hns := textCost_le (validateNamespace_eq_ok.1 hv.1.1.1.1.1).2.1
    have hslot := textCost_le (validateIdentifier_eq_ok.1 hv.1.1.1.1.2).2.1
    have hid : textCost a.revisionID ≤ 1032 := textCost_le (by rw [validRevisionIDString_length hv.1.1.1.2]; omega)
    simp only [activationCost, map_cons, map_nil, sum_cons, sum_nil, fieldMetadataBytes, uint64Bytes,
      timestampBytes]
    omega
  have hcharges : Charges (addPageCost addActivationCost · items next)
      (collectionMetadataBytes + (textCost next + (items.map activationCost).sum)) :=
    (charges_add _).bind ((charges_text _).bind (charges_foldlM charges_activation items))
  have hpage : validActivationHistoryPage request items = true := by
    simp only [validActivationHistoryPage, Bool.and_eq_true, all_eq_true, beq_iff_eq, decide_eq_true_eq, and_assoc]
    exact ⟨hvalid, hchain⟩
  have htext := textCost_le (validateOptionalIdentifier_eq_ok.1 hnext).1
  rw [newListActivationHistoryResponse, newPage, require_eq_ok.2 hr, ok_bind, require_eq_ok.2, ok_bind,
    hcharges.withinBudget_eq_ok.2, ok_bind, hnext, ok_bind, require_eq_ok.2 hpage, ok_bind]
  · simp only [collectionMetadataBytes, maxAggregateOutputBytes]
    omega
  · exact Bool.and_eq_true_iff.2 ⟨decide_eq_true hlength, decide_eq_true (hlength.trans hlimit)⟩

/-- The cursor after a stored row. -/
theorem newCursor_history (s : Store) {oldest : Nat} {r : ActivationRow}
    (hr : ActivationOk db r ∧ r.namespace_ = request.namespace_ ∧ r.slot = request.slot)
    (holdest : (oldest : Int) ≤ r.generation.toInt) :
    ∃ cursor, newCursor s.cursorKey ⟨.history, request.namespace_, request.slot, r.generation.toInt.toNat, oldest - 1,
      zeroTime, []⟩ = .ok cursor ∧ validateIdentifier cursor = .ok () := by
  obtain ⟨hok, hns, hslot⟩ := hr
  have hpositive := hok.generation
  have hlt := Int64.toInt_lt r.generation
  have hissuable : Issuable ⟨.history, request.namespace_, request.slot, r.generation.toInt.toNat, oldest - 1, zeroTime, []⟩ := by
    refine ⟨?_, by dsimp only; omega, by dsimp only; omega, by simp⟩
    simp only [validCursorState, validCursorScope, Bool.and_eq_true, bne_iff_ne, beq_iff_eq, decide_eq_true_eq, and_true]
    exact ⟨⟨hns ▸ (validateNamespace_eq_ok.1 hok.namespace_ok).1, hslot ▸ (validateIdentifier_eq_ok.1 hok.slot).1⟩,
      by omega, by omega⟩
  obtain ⟨cursor, hcursor, hidentifier, -⟩ := @newCursor_issuable _ s.cursorKey _ hissuable
  exact ⟨cursor, hcursor, hidentifier⟩

/-- The page of stored rows is answered, with a next cursor when there are more. -/
theorem historyPage_ok (s : Store) (hr : request.valid = true) {oldest : Nat}
    (hrows : ∀ r ∈ rows, ActivationOk db r ∧ r.namespace_ = request.namespace_ ∧ r.slot = request.slot)
    (hsorted : (rows.map (·.generation.toInt)).Pairwise (· < ·))
    (holdest : ∀ r ∈ rows, (oldest : Int) ≤ r.generation.toInt) :
    ∃ page, historyPage s request oldest (rows.map (·.activation)) = .ok page ∧
      page.items = (rows.take request.limit).map (·.activation) ∧ validateOptionalIdentifier page.nextCursor = .ok () ∧
      (request.limit < rows.length → page.nextCursor ≠ []) := by
  have hchain : ((rows.take request.limit).map (·.activation)).IsChain (·.generation < ·.generation) := by
    refine List.Pairwise.isChain (pairwise_map.2 ?_)
    refine ((pairwise_map.1 hsorted).take).imp_of_mem fun {r r'} hm hm' hlt => ?_
    have hpositive := (hrows r (mem_of_mem_take hm)).1.generation
    simp only [ActivationRow.activation]
    omega
  have hvalid : ∀ a ∈ (rows.take request.limit).map (·.activation),
      a.valid = true ∧ a.namespace_ = request.namespace_ ∧ a.slot = request.slot := by
    intro a ha
    obtain ⟨r, hm, rfl⟩ := mem_map.1 ha
    obtain ⟨hok, hnames⟩ := hrows r (mem_of_mem_take hm)
    exact ⟨newActivation_valid hok.newActivation_eq, hnames⟩
  have hlength : ((rows.take request.limit).map (·.activation)).length ≤ request.limit := by simp
  have hresponse : ∀ {next : Bytes}, validateOptionalIdentifier next = .ok () → newListActivationHistoryResponse request
      ((rows.take request.limit).map (·.activation)) next = .ok ⟨(rows.take request.limit).map (·.activation), next⟩ :=
    fun hnext => newListActivationHistoryResponse_eq hr hlength hnext hvalid hchain
  unfold historyPage cutPage
  rw [length_map, ← map_take]
  by_cases hmore : rows.length > request.limit
  · rw [if_pos hmore]
    have hne : rows.take request.limit ≠ [] := by
      intro hnil
      have hlimit : request.limit ≠ 0 := by
        simp only [ListActivationHistoryRequest.valid, Bool.and_eq_true, bne_iff_ne] at hr
        exact hr.1.2
      have hzero := congrArg List.length hnil
      rw [length_take, length_nil] at hzero
      omega
    obtain ⟨last, hlast⟩ : ∃ r, (rows.take request.limit).getLast? = some r := ⟨_, getLast?_eq_some_getLast hne⟩
    have hm := mem_of_mem_take (mem_of_getLast? hlast)
    obtain ⟨cursor, hcursor, hidentifier⟩ := newCursor_history s (hrows last hm) (holdest last hm)
    dsimp only
    rw [getLast?_map, hlast, Option.map_some]
    dsimp only [ActivationRow.activation] at hresponse ⊢
    rw [hcursor, ok_bind]
    have hnext := validateOptionalIdentifier_of_identifier hidentifier
    exact ⟨_, hresponse hnext, rfl, hnext, fun _ => (validateIdentifier_eq_ok.1 hidentifier).1⟩
  · rw [if_neg hmore]
    have hall : rows.take request.limit = rows := take_of_length_le (Nat.not_lt.1 hmore)
    rw [hall] at hresponse ⊢
    exact ⟨_, hresponse rfl, rfl, rfl, fun hlt => absurd hlt hmore⟩

/-- A call whose cursor passes the first query answers the generations that are there at the second. -/
theorem listHistoryBetween_ok {atOldest atRows cursor} (h : SlotsOk atRows) (hr : request.valid = true)
    (hcursor : listHistoryCursor s request = .ok cursor) (hp : cursor.position < 2 ^ 63)
    (hpass : checkHistoryCursor request cursor (oldestGeneration atOldest request.namespace_ request.slot) = .ok ())
    (h0 : 0 ≤ a) (hfill : Fills a b (generationsOf atRows request.namespace_ request.slot))
    (holdest : oldestGeneration atOldest request.namespace_ request.slot ≤ max a cursor.position + 1) :
    ∃ page, listHistoryBetween s atOldest atRows request = .ok page ∧
      page.items.map (·.generation) = ((interval (max a cursor.position) b).take request.limit).map (fun x => x.toNat) ∧
      validateOptionalIdentifier page.nextCursor = .ok () ∧
      (request.limit < (b - max a cursor.position).toNat → page.nextCursor ≠ []) := by
  obtain ⟨rows, hrows, hvalues, hgenerations⟩ := readHistoryRows_ok h cursor h0 hfill
  rw [Int64.toInt_ofNat_of_lt hp] at hgenerations
  have hmem : ∀ r ∈ rows, (oldestGeneration atOldest request.namespace_ request.slot : Int) ≤ r.generation.toInt := by
    intro r hm
    have hin : r.generation.toInt ∈ (interval (max a cursor.position) b).take (request.limit + 1) :=
      hgenerations ▸ mem_map_of_mem hm
    have hgt := (mem_interval.1 (mem_of_mem_take hin)).1
    omega
  have hsorted : (rows.map (·.generation.toInt)).Pairwise (· < ·) := by
    rw [hgenerations]
    exact (pairwise_interval _ _).take
  obtain ⟨page, hpage, hitems, hnext, hmore⟩ := historyPage_ok s hr hrows hsorted hmem
  refine ⟨page, ?_, ?_, hnext, fun hlt => hmore ?_⟩
  · rw [listHistoryBetween, hcursor, ok_bind]
    dsimp only
    rw [hpass, ok_bind, hvalues, ok_bind, hpage]
  · have hle : min request.limit (request.limit + 1) = request.limit := by omega
    rw [hitems]
    exact generations_of_rows (by rw [map_take, hgenerations, take_take, hle])
  · have hlength := congrArg List.length hgenerations
    rw [length_map, length_take, length_interval] at hlength
    omega

/-! Generations that go between the two queries are skipped. -/

/-- A slot at generation `g` whose history starts after `first`, in a namespace at event sequence `e`. -/
structure SlotAt (key ns slot id : Bytes) (db : Database) (g : Nat) (first e : Int) : Prop where
  accepted : Accepted key db
  revision : HasRevision db ns id
  head : ((db.slotHeads.get? (ns, slot)).map (·.generation.toInt)).getD 0 = g
  filled : Fills first g (generationsOf db ns slot)
  sequence : (headOf db ns).eventSequence.toInt = e

/-- One more activation, under a retention of two. -/
theorem SlotAt.next {id g first e} (h : SlotAt key ns slot id db g first e) (hns : validateNamespace ns = .ok ())
    (hslot : validateIdentifier slot = .ok ()) (hid : validRevisionIDString id = true) (h0 : 0 ≤ first)
    (hfirst : first ≤ g) (hg : g < maxInt64) (he : e < maxInt64) :
    ∃ db', Later key db db' ∧ SlotAt key ns slot id db' (g + 1) (max first (g + 1 - 2)) (e + 1) := by
  have hcurrent := h.accepted.slots.readSlotHead_eq ns slot
  have hgeneration := readSlotHead_generation hcurrent
  rw [h.head] at hgeneration
  obtain ⟨expectation, hvalid, hmatch⟩ := exists_expectation h.accepted.slots ns slot
  generalize (db.slotHeads.get? (ns, slot)).map (·.activation) = current at *
  have hg' : (current.map (·.generation)).getD 0 = g := by omega
  have hbelow : current.all (·.generation < maxInt64) = true := by
    cases current with
    | none => rfl
    | some current =>
      have hsame : current.generation = g := hg'
      simpa [hsame] using hg
  have hclock : canonicalClockNow (some 10) = .ok 10 := by decide +kernel
  have hactivated := @Accepted.activate_ok db _ ⟨key, 2⟩ h.accepted (Nat.le_refl 2) (some 10) 10 hclock ⟨ns, slot, id, expectation⟩
    hns hslot hid hvalid h.revision current hcurrent hmatch hbelow (by dsimp only; rw [h.sequence]; omega) first h0
    (by rwa [hg']) (by rw [hg']; exact h.filled)
  rw [hg'] at hactivated
  obtain ⟨activation, db', hresult, hactivated⟩ := hactivated
  have hrun : commit key db ⟨2, some 10, .activate ⟨ns, slot, id, expectation⟩⟩ = some db' := by
    rw [commit, Operation.run, hresult]
    rfl
  refine ⟨db', Reachable.extend (.start rfl) hrun, hactivated.grows.accepted, hactivated.revisions id h.revision, ?_,
    hactivated.filled, by rw [hactivated.sequence, h.sequence]⟩
  obtain ⟨row, hmem, hkey, hrow⟩ := hactivated.head
  rw [← hkey, Table.get?_key hmem]
  exact hrow

end

/-- The slot of the sample runs: the revision that `oneEvent` publishes, never activated. -/
theorem slotAt_oneEvent : @SlotAt padded gapStore.cursorKey (ascii "n") (ascii "s") (hexEncode (1 :: List.replicate 31 0))
    oneEvent 0 0 1 := by
  let _ : Primitives := padded
  have hnil : generationsOf oneEvent (ascii "n") (ascii "s") = [] := by decide +kernel
  exact {
    accepted := ((accepted_migrated rfl).later (later_after _ _ _)).accepted
    revision := hasRevision_iff.1 (by decide +kernel)
    head := by decide +kernel
    filled := fills_of_empty (by simp [hnil])
    sequence := by decide +kernel }

/-- Four activations under a retention of two: after the second the history is (0, 2], after the fourth (2, 4]. -/
theorem exists_activations : ∃ db₂ db₄,
    @Later padded gapStore.cursorKey (.migrated gapStore.cursorKey) db₂ ∧ @Later padded gapStore.cursorKey db₂ db₄ ∧
      SlotsOk db₂ ∧ Fills 0 2 (generationsOf db₂ (ascii "n") (ascii "s")) ∧
      SlotsOk db₄ ∧ Fills 2 4 (generationsOf db₄ (ascii "n") (ascii "s")) := by
  let _ : Primitives := padded
  have hns : validateNamespace (ascii "n") = .ok () := by decide +kernel
  have hslot : validateIdentifier (ascii "s") = .ok () := by decide +kernel
  have hid : validRevisionIDString (hexEncode (1 :: List.replicate 31 0)) = true := by decide +kernel
  obtain ⟨db₁, hlater₁, h₁⟩ := slotAt_oneEvent.next hns hslot hid (by decide) (by decide) (by decide) (by decide)
  obtain ⟨db₂, hlater₂, h₂⟩ := h₁.next hns hslot hid (by decide) (by decide) (by decide) (by decide)
  obtain ⟨db₃, hlater₃, h₃⟩ := h₂.next hns hslot hid (by decide) (by decide) (by decide) (by decide)
  obtain ⟨db₄, hlater₄, h₄⟩ := h₃.next hns hslot hid (by decide) (by decide) (by decide) (by decide)
  have hstart : @Later padded gapStore.cursorKey (.migrated gapStore.cursorKey) oneEvent := @later_after padded _ _ _
  exact ⟨db₂, db₄, (hstart.trans hlater₁).trans hlater₂, hlater₃.trans hlater₄, h₂.accepted.slots, h₂.filled,
    h₄.accepted.slots, h₄.filled⟩

/-- The first page of one activation, and the request that goes on from it. -/
theorem exists_firstPage (h : SlotsOk db) (hfill : Fills 0 2 (generationsOf db (ascii "n") (ascii "s"))) :
    ∃ page last request, @listHistoryBetween padded gapStore db db ⟨ascii "n", ascii "s", [], 1⟩ = .ok page ∧
      page.items.getLast? = some last ∧ last.generation = 1 ∧ page.nextCursor ≠ [] ∧
      request = ⟨ascii "n", ascii "s", page.nextCursor, 10⟩ ∧
      newListActivationHistoryRequest (ascii "n") (ascii "s") page.nextCursor 10 = .ok request := by
  let _ : Primitives := padded
  have hcursor : listHistoryCursor gapStore ⟨ascii "n", ascii "s", [], 1⟩ =
      .ok ⟨.history, ascii "n", ascii "s", 0, 0, zeroTime, []⟩ := by decide +kernel
  have holdest := oldestGeneration_of_fills hfill (by decide)
  obtain ⟨page, hpage, hitems, hnext, hmore⟩ := listHistoryBetween_ok h (by decide +kernel) hcursor (by decide) rfl
    (Int.le_refl 0) hfill (by rw [holdest]; decide)
  have hone : page.items.map (·.generation) = [1] := hitems
  obtain ⟨last, hlast, hgeneration⟩ := map_eq_singleton_iff.1 hone
  have hns : validateNamespace (ascii "n") = .ok () := by decide +kernel
  have hslot : validateIdentifier (ascii "s") = .ok () := by decide +kernel
  refine ⟨page, last, _, hpage, by rw [hlast]; rfl, hgeneration, hmore (by decide), rfl, ?_⟩
  rw [newListActivationHistoryRequest, hns, hslot, hnext]
  rfl

theorem listActivationHistory_gapFree_iff_sample : ∃ issued page last request,
    @listHistoryBetween padded gapStore issued issued ⟨ascii "n", ascii "s", [], 1⟩ = .ok page ∧
      page.items.getLast? = some last ∧ page.nextCursor ≠ [] ∧
      newListActivationHistoryRequest (ascii "n") (ascii "s") page.nextCursor 10 = .ok request ∧
      GapFreeHistory request last.generation issued (@listHistoryBetween padded gapStore issued issued request) := by
  obtain ⟨db₂, -, hreached, -, hslots, hfill, -⟩ := exists_activations
  obtain ⟨page, last, request, hpage, hlast, hgeneration, hnext, -, hrequest⟩ := exists_firstPage hslots hfill
  refine ⟨db₂, page, last, request, hpage, hlast, hnext, hrequest, ?_⟩
  refine (@listActivationHistory_gapFree_iff padded gapStore db₂ db₂ db₂ db₂ _ request page last 10 rfl hpage hreached hlast
    hnext (.start rfl) (.start rfl) hrequest).2 (.inl ?_)
  rw [oldestGeneration_of_fills hfill (by decide), hgeneration]
  decide

/-- The first query finds the oldest generation 1, and two activations come before the rows are read: the page after
generation 1 is that of the third and the fourth. -/
theorem listActivationHistory_skips_second : ∃ issued atRows page last request,
    @Later padded gapStore.cursorKey (.migrated gapStore.cursorKey) issued ∧ @Later padded gapStore.cursorKey issued atRows ∧
      @listHistoryBetween padded gapStore issued issued ⟨ascii "n", ascii "s", [], 1⟩ = .ok page ∧
      page.items.getLast? = some last ∧ last.generation = 1 ∧ page.nextCursor ≠ [] ∧
      newListActivationHistoryRequest (ascii "n") (ascii "s") page.nextCursor 10 = .ok request ∧
      (∃ skipped, @listHistoryBetween padded gapStore issued atRows request = .ok skipped ∧
        skipped.items.map (·.generation) = [3, 4]) ∧
      ¬ GapFreeHistory request last.generation atRows (@listHistoryBetween padded gapStore issued atRows request) := by
  let _ : Primitives := padded
  obtain ⟨db₂, db₄, hreached, hlater, hslots₂, hfill₂, hslots₄, hfill₄⟩ := exists_activations
  obtain ⟨page, last, request, hpage, hlast, hgeneration, hnext, hrequestEq, hrequest⟩ := exists_firstPage hslots₂ hfill₂
  obtain ⟨-, boundary, hdecode⟩ := decodeCursor_nextCursor hpage hlast hnext
  rw [hgeneration] at hdecode
  have hcursor : listHistoryCursor gapStore request = .ok ⟨.history, ascii "n", ascii "s", 1, boundary, zeroTime, []⟩ := by
    rw [hrequestEq] at hrequest ⊢
    rw [listHistoryCursor, hrequest, ok_bind, hdecode]
  have holdest := oldestGeneration_of_fills hfill₂ (by decide)
  subst hrequestEq
  have hpass : checkHistoryCursor ⟨ascii "n", ascii "s", page.nextCursor, 10⟩
      ⟨.history, ascii "n", ascii "s", 1, boundary, zeroTime, []⟩ (oldestGeneration db₂ (ascii "n") (ascii "s")) = .ok () := by
    rw [checkHistoryCursor, require_eq_ok, holdest, Bool.or_eq_true]
    exact .inr rfl
  obtain ⟨skipped, hskipped, hitems, -⟩ := listHistoryBetween_ok hslots₄ (newListActivationHistoryRequest_valid hrequest)
    hcursor (by dsimp only; omega) hpass (by decide) hfill₄ (by dsimp only; rw [holdest]; decide)
  have hitems : skipped.items.map (·.generation) = [3, 4] := hitems
  refine ⟨db₂, db₄, page, last, _, hreached, hlater, hpage, hlast, hgeneration, hnext, hrequest,
    ⟨skipped, hskipped, hitems⟩, fun hgap => ?_⟩
  have hconsecutive := hgap.consecutive skipped hskipped
  have htwo : skipped.items.length = 2 := by simpa using congrArg List.length hitems
  rw [hitems, htwo, hgeneration] at hconsecutive
  exact absurd hconsecutive (by decide)

end PolicyEngine.Sqlite
