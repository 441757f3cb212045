import PolicyEngine.Sqlite.Histories

/-!
# What an accepted database answers: revisions, slots and listings

Every operation checks again what it reads, and answers INTEGRITY when a row does
not pass. On a database that the integrity check accepts, none of these checks
fails: each call of the control plane and each listing is followed here through
its reads and writes, for any cursor and any clock.
-/

open PolicyEngine.Lib

namespace PolicyEngine.Sqlite

/-- A result with `Q`, or an error other than INTEGRITY. -/
abbrev Intact {α : Type} (Q : α → Prop) (x : Result α) : Prop := Outcome (· ≠ ErrorCategory.integrity) Q x

theorem Intact.ne_integrity {α : Type} {Q : α → Prop} {x : Result α} (h : Intact Q x) : x ≠ .error .integrity :=
  fun hx => Outcome.of_error hx h rfl

variable [Primitives] {db db' : Database} {key ns : Bytes}

/-! ## Clocks and events -/

omit [Primitives] in
theorem validateText_intact (value : Bytes) (maximum : Nat) (allowEmpty : Bool) :
    Intact (fun _ => True) (validateText value maximum allowEmpty) :=
  validateText_outcome (by decide) (by decide) value maximum allowEmpty

omit [Primitives] in
theorem validateNamespace_intact (value : Bytes) : Intact (fun _ => True) (validateNamespace value) := by
  refine .bind (validateText_intact _ _ _) fun _ _ => ?_
  split
  exacts [.error (by decide), .ok trivial]

theorem newCursor_intact (key : Bytes) (value : CursorState) : Intact (fun _ => True) (newCursor key value) :=
  (newCursor_outcome (by decide) key value).mono fun _ _ => trivial

omit [Primitives] in
theorem canonicalClockNow_intact (clock : Clock) : Intact (validTimestamp · = true) (canonicalClockNow clock) := by
  cases hclock : canonicalClockNow clock with
  | ok n => exact .ok (canonicalClockNow_valid hclock)
  | error e => exact .error (by rw [canonicalClockNow_error hclock]; decide)

omit [Primitives] in
theorem headsOk_withHead (hh : ∀ h ∈ db.namespaceHeads, HeadOk h) {head : HeadRow} (hok : HeadOk head)
    (events : Table EventRow.key) : ∀ h ∈ (db.withHead head events).namespaceHeads, HeadOk h := by
  intro h hm
  rcases mem_withHead.1 hm with rfl | ⟨hm, -⟩
  · exact hok
  · exact hh h hm

omit [Primitives] in
/-- A clock reading only moves the head of its namespace. -/
theorem effectiveNow_intact (hh : ∀ h ∈ db.namespaceHeads, HeadOk h) (hns : validateNamespace ns = .ok ()) (clock : Clock) :
    Intact (fun result => ∃ head, HeadOk head ∧ result.2 = db.withHead head db.stateEvents) (effectiveNow db clock ns) := by
  refine .bind (canonicalClockNow_intact clock) fun n hn => ?_
  rw [ensureNamespaceHead_eq hh hns]
  exact .ok ⟨headAt db ns n, headOk_headAt (headOk_headOf hh hns) hn, advanceEffectiveTime_eq db.stateEvents n⟩

omit [Primitives] in
theorem insertRow_intact {ρ κ : Type} {key : ρ → κ} [DecidableEq κ] (t : Table key) (r : ρ) :
    Intact (fun _ => True) (insertRow t r) := by
  unfold insertRow
  split
  exacts [.error (by decide), .ok trivial]

omit [Primitives] in
theorem encodeStateEvent_eq {e : StateEvent} (h : newStateEvent e = .ok e) :
    encodeStateEvent e = .ok (stateEventBytes e) := by
  rw [encodeStateEvent, h]
  exact if_neg (newStateEvent_eq_ok.1 h).2.1

theorem appendStateEvent_intact (s : Store) (hh : ∀ h ∈ db.namespaceHeads, HeadOk h) {input : StateEvent}
    (hns : validateNamespace input.namespace_ = .ok ()) (occurredAt : Int) :
    Intact (fun _ => True) (appendStateEvent s db input occurredAt) := by
  unfold appendStateEvent
  rw [nextEventSequence_eq hh hns]
  split
  · exact .error (by decide)
  · rw [ok_bind]
    refine .bind (newCursor_intact _ _) fun cursor _ => ?_
    cases hnew : newStateEvent { input with cursor := cursor, occurredAt := occurredAt } with
    | error => exact .error (by decide)
    | ok event =>
      -- the event has just been built, so its own codec accepts it
      obtain ⟨rfl, -⟩ := newStateEvent_eq_ok.1 hnew
      dsimp only
      rw [encodeStateEvent_eq hnew, ok_bind]
      split
      · exact .error (by decide)
      · exact .bind (insertRow_intact _ _) fun _ _ => .ok trivial

/-! ## Revisions -/

theorem decodeRevisionRecord_artifact {row record} (h : decodeRevisionRecord row = .ok record) :
    record.artifact = row.artifact := by
  simp only [decodeRevisionRecord, check_eq_ok] at h
  obtain ⟨-, h⟩ := h
  obtain ⟨id, -, h⟩ := bind_eq_ok.1 h
  obtain ⟨metadata, -, h⟩ := bind_eq_ok.1 h
  obtain ⟨provenance, -, h⟩ := bind_eq_ok.1 h
  obtain ⟨write, hwrite, h⟩ := bind_eq_ok.1 h
  obtain ⟨rfl, -⟩ := newRevisionRecordFromWrite_eq_ok.1 (orFail_eq_ok.1 h)
  rw [(rebuildRevisionWrite_eq_ok (orFail_eq_ok.1 hwrite)).1]

/-- A revision lookup answers nothing or the record of a row. -/
theorem Accepted.readRevision_intact (h : Accepted key db) (ns id : Bytes) :
    Intact (fun found => ∀ record, found = some record →
      ∃ row ∈ db.revisions, row.key = (ns, id) ∧ record.artifact = row.artifact) (readRevision db ns id) := by
  unfold readRevision
  split
  · exact .ok (by simp)
  next row hget =>
    obtain ⟨hmem, hkey⟩ := Table.get?_eq_some.1 hget
    obtain ⟨record, hrecord⟩ := (h.revisions row hmem).record
    rw [hrecord, ok_bind]
    refine .ok fun _ heq => ⟨row, hmem, hkey, ?_⟩
    rw [← Option.some.inj heq]
    exact decodeRevisionRecord_artifact hrecord

/-- A write whose content verifies is canonical, and stays the write it is. -/
theorem canonicalRevisionRecord_intact {write} (hwrite : validRecord write = true) :
    Intact (fun result => validateNamespace result.1.metadata.namespace_ = .ok () ∧ result.1.metadata = write.metadata ∧
      result.1.artifact = write.artifact) (canonicalRevisionRecord write) := by
  have hcontent : ∀ p, verifyRevisionContent ⟨write.metadata, write.artifact, p⟩ = .ok () := by
    rw [validRecord, Bool.and_eq_true, isOk_unit] at hwrite
    exact fun _ => hwrite.2
  refine .bind (require_outcome (by decide)) fun _ _ => .bind (orFail_outcome (by decide) _) fun id hid => ?_
  obtain ⟨rfl, -⟩ := parseRevisionID_eq_ok.1 hid
  split
  · exact .error (by decide)
  next publishedAtNS htime =>
    obtain ⟨htime, -⟩ := sqliteTimestamp_eq_some.1 htime
    refine .bind (orFail_outcome (by decide) _) fun metadata hmetadata => ?_
    obtain ⟨rfl, hns, -⟩ := newRevisionMetadata_eq_ok.1 hmetadata
    rw [htime]
    refine .bind (orFail_outcome (by decide) _) fun canonical hcanonical => ?_
    obtain ⟨rfl, -⟩ := rebuildRevisionWrite_eq_ok hcanonical
    have hprovenance := @decodeRevisionProvenance_encode _ _ hns (if write.provenance.Valid then write.provenance else .none)
      (by split <;> simp [*, RevisionProvenance.zero])
    obtain ⟨encoded, hencoded, -⟩ := hprovenance
    rw [newRevisionRecordFromWrite, bind_assoc]
    refine .bind (require_outcome (by decide)) fun _ _ => ?_
    rw [hcontent, ok_bind, ok_bind, hencoded]
    exact .ok ⟨hns, rfl, rfl⟩

theorem newPutRevisionResult_intact (record : RevisionRecord) (created : Bool) :
    Intact (fun _ => True) (newPutRevisionResult record created) := by
  unfold newPutRevisionResult
  split
  exacts [.ok trivial, .error (by decide)]

variable {s : Store}

theorem Accepted.putRevision_intact (h : Accepted s.cursorKey db) (clock : Clock) {write}
    (hwrite : validRecord write = true)
    (hsame : ∀ row ∈ db.revisions, row.key = (write.metadata.namespace_, write.metadata.id) → row.artifact = write.artifact) :
    Intact (fun _ => True) (Sqlite.putRevision s db clock write) := by
  refine .bind (canonicalRevisionRecord_intact hwrite) ?_
  rintro ⟨record, publishedAtNS, provenance⟩ ⟨hns, hmetadata, hartifact⟩
  dsimp only at hns hmetadata hartifact
  refine .bind (orFail_outcome (by decide) _) fun created _ => .bind ?_ fun found (_ : True) => ?_
  · unfold putRevisionTx
    refine .bind (h.readRevision_intact _ _) fun found hfound => ?_
    cases found with
    | some stored =>
      obtain ⟨row, hmem, hkey, heq⟩ := hfound stored rfl
      have hstored : stored.artifact = record.artifact := by
        rw [heq, hartifact]
        exact hsame row hmem (by rw [hkey, hmetadata])
      dsimp only
      rw [if_neg (not_not.2 hstored)]
      exact .ok trivial
    | none =>
      refine .bind (insertRow_intact _ _) fun revisions _ => ?_
      refine .bind (effectiveNow_intact (by exact h.heads) hns clock) ?_
      rintro ⟨occurredAt, db₁⟩ ⟨head, hok, hdb⟩
      obtain rfl : db₁ = _ := hdb
      exact .bind (appendStateEvent_intact s (headsOk_withHead (by exact h.heads) hok _) hns occurredAt) fun _ _ => .ok trivial
  · obtain ⟨existing, db₁⟩ := found
    cases existing with
    | none => exact .ok trivial
    | some existing => exact .bind (newPutRevisionResult_intact _ _) fun _ _ => .ok trivial

theorem Accepted.getRevision_intact (h : Accepted key db) (request : GetRevisionRequest) :
    Intact (fun _ => True) (Sqlite.getRevision db request) := by
  have hrequest : Intact (fun _ => True) (newGetRevisionRequest request.namespace_ request.revisionID) :=
    .bind (validateNamespace_intact _) fun _ _ => .bind (require_outcome (by decide)) fun _ _ => .ok trivial
  refine .bind hrequest fun _ _ => .bind (h.readRevision_intact _ _) fun found _ => ?_
  cases found with
  | none => exact .error (by decide)
  | some record => exact .ok trivial

/-! ## Slots -/

theorem Accepted.resolve_intact (h : Accepted key db) (request : ResolveRequest) :
    Intact (fun _ => True) (Sqlite.resolve db request) := by
  have hrequest : Intact (fun _ => True) (newResolveRequest request.namespace_ request.slot) :=
    .bind (validateNamespace_intact _) fun _ _ => .bind (validateText_intact _ _ _) fun _ _ => .ok trivial
  refine .bind hrequest fun _ _ => ?_
  rw [h.slots.readSlotHead_eq, ok_bind]
  cases (db.slotHeads.get? (request.namespace_, request.slot)).map (·.activation) with
  | none => exact .error (by decide)
  | some activation =>
    dsimp only
    unfold newResolveResponse
    split
    exacts [.ok trivial, .error (by decide)]

omit [Primitives] in
/-- The oldest generation that is kept is one of the slot's, so it is positive. -/
theorem pruneActivationHistory_intact {slot : Bytes} (hpositive : ∀ x ∈ generationsOf db ns slot, 0 < x) (retention : Nat) :
    Intact (fun db' => db'.namespaceHeads = db.namespaceHeads) (pruneActivationHistory db ns slot retention) := by
  unfold pruneActivationHistory
  split
  · exact .error (by decide)
  · split
    · exact .ok rfl
    next tail htail =>
      have hpos := hpositive tail (List.mem_mergeSort.1 (List.mem_of_getElem? htail))
      rw [if_neg (by omega)]
      exact .ok rfl

theorem Accepted.activateTx_intact (h : Accepted s.cursorKey db) (clock : Clock) {request}
    (hns : validateNamespace request.namespace_ = .ok ()) : Intact (fun _ => True) (activateTx s db clock request) := by
  refine .bind (h.readRevision_intact _ _) fun found _ => ?_
  cases found with
  | none => exact .error (by decide)
  | some record =>
    dsimp only
    rw [h.slots.readSlotHead_eq, ok_bind]
    generalize (db.slotHeads.get? (request.namespace_, request.slot)).map (·.activation) = current
    refine .bind (require_outcome (by decide)) fun _ _ => .bind (require_outcome (by decide)) fun _ hbelow => ?_
    refine .bind (effectiveNow_intact h.heads hns clock) ?_
    rintro ⟨occurredAt, db₁⟩ ⟨head, hok, hdb⟩
    obtain rfl : db₁ = _ := hdb
    refine .bind (orFail_outcome (by decide) _) fun activation _ => ?_
    dsimp only
    split
    · exact .error (by decide)
    next occurredAtNS _ =>
      refine .bind (require_outcome (by decide)) fun _ _ => .bind_eq (insertRow_intact _ _) fun history hinsert _ => ?_
      obtain ⟨-, rfl⟩ := insertRow_eq_ok hinsert
      refine .bind (pruneActivationHistory_intact (fun x hx => ?_) _) fun db₂ hheads => ?_
      · obtain ⟨r, hr, -, rfl⟩ := mem_generationsOf.1 hx
        rcases Table.mem_set.1 hr with rfl | ⟨hr, -⟩
        · have hpositive := Int64.toInt_ofNat_of_lt (nextGeneration_lt hbelow)
          dsimp only
          omega
        · exact (h.slots.history r hr).1.generation
      · refine .bind (appendStateEvent_intact s ?_ hns occurredAt) fun _ _ => ?_
        · rw [hheads]
          exact headsOk_withHead h.heads hok db.stateEvents
        · exact .bind (orFail_outcome (by decide) _) fun _ _ => .ok trivial

theorem Accepted.activate_intact (h : Accepted s.cursorKey db) (clock : Clock) (request : ActivateRequest) :
    Intact (fun _ => True) (Sqlite.activate s db clock request) := by
  have hrequest : Intact (fun _ => True)
      (newActivateRequest request.namespace_ request.slot request.targetRevisionID request.expectation) :=
    .bind (validateNamespace_intact _) fun _ _ => .bind (validateText_intact _ _ _) fun _ _ =>
      .bind (require_outcome (by decide)) fun _ _ => .ok trivial
  refine .bind_eq hrequest fun _ hok _ => ?_
  exact h.activateTx_intact clock (newActivateRequest_eq_ok.1 hok).2.1

/-! ## Listings -/

theorem decodeCursor_intact (key value : Bytes) (domain : CursorDomain) (ns slot : Bytes) :
    Intact (fun _ => True) (decodeCursor key value domain ns slot) := by
  unfold decodeCursor
  dsimp only
  repeat' split
  exacts [.ok trivial, .error (by decide), .error (by decide), .error (by decide), .error (by decide), .error (by decide),
    .error (by decide), .ok trivial]

theorem listEventsCursor_intact (s : Store) (request : ListEventsRequest) :
    Intact (fun _ => True) (listEventsCursor s request) := by
  have hrequest : Intact (fun _ => True) (newListEventsRequest request.namespace_ request.afterCursor request.limit) :=
    .bind (require_outcome (by decide)) fun _ _ => .bind (validateNamespace_intact _) fun _ _ =>
      .bind (validateText_intact _ _ _) fun _ _ => .bind (require_outcome (by decide)) fun _ _ => .ok trivial
  exact .bind hrequest fun _ _ => decodeCursor_intact _ _ _ _ _

theorem Accepted.listEvents_intact (h : Accepted s.cursorKey db) (clock : Clock) (request : ListEventsRequest) :
    Intact (fun _ => True) (Sqlite.listEvents s db clock request) := by
  refine .bind (listEventsCursor_intact s request) fun cursor _ => .bind (canonicalClockNow_intact clock) fun n hn => ?_
  have hprune : Intact (fun _ => True) (Sqlite.pruneEventsForRead db n request.namespace_) := by
    unfold Sqlite.pruneEventsForRead
    rw [readNamespaceHead_eq h.heads, ok_bind]
    split
    exacts [.ok trivial, .ok trivial]
  refine .bind_eq hprune fun db₁ hdb₁ _ => ?_
  -- retention leaves an accepted database, whose rows the listing then reads
  have h₁ := (h.pruneEventsForRead hn hdb₁).accepted
  rw [readEventHead_eq h₁]
  refine .bind (require_outcome (by decide)) fun _ _ => ?_
  obtain ⟨events, hevents, -⟩ := readEventRows_ok h₁ request cursor
  rw [hevents, ok_bind]
  exact .bind (eventPage_outcome (by decide) (by decide) request events) fun _ _ => .ok trivial

theorem Accepted.listActivationHistory_intact (h : Accepted key db) (request : ListActivationHistoryRequest) :
    Intact (fun _ => True) (Sqlite.listActivationHistory s db request) := by
  have hrequest : Intact (fun _ => True)
      (newListActivationHistoryRequest request.namespace_ request.slot request.cursor request.limit) :=
    .bind (require_outcome (by decide)) fun _ _ => .bind (validateNamespace_intact _) fun _ _ =>
      .bind (validateText_intact _ _ _) fun _ _ => .bind (validateText_intact _ _ _) fun _ _ =>
        .bind (require_outcome (by decide)) fun _ _ => .ok trivial
  have hcursor : Intact (fun _ => True) (listHistoryCursor s request) :=
    .bind hrequest fun _ _ => decodeCursor_intact _ _ _ _ _
  refine .bind hcursor fun cursor _ => .bind (require_outcome (by decide)) fun _ _ => ?_
  obtain ⟨a, b, h0, hfill, -⟩ := h.slots.filledFrom request.namespace_ request.slot
  obtain ⟨rows, -, hvalues, -⟩ := readHistoryRows_ok h.slots cursor h0 hfill
  rw [hvalues, ok_bind]
  exact (historyPage_outcome (by decide) (by decide) (by decide) s request _ _).mono fun _ _ => trivial

/-- The metadata columns of a stored revision are those of its record. -/
theorem RevisionOk.decodeMetadata_intact {row} (h : RevisionOk db row) :
    Intact (fun _ => True) (decodeRevisionMetadataColumns row.namespace_ row) := by
  obtain ⟨record, hrecord⟩ := h.record
  simp only [decodeRevisionRecord, check_eq_ok] at hrecord
  obtain ⟨id, hid, hrecord⟩ := bind_eq_ok.1 hrecord.2
  obtain ⟨metadata, hmetadata, -⟩ := bind_eq_ok.1 hrecord
  rw [decodeRevisionMetadataColumns, hid, ok_bind, hmetadata]
  exact .ok trivial

theorem Accepted.listRevisions_intact (h : Accepted key db) (request : ListRevisionsRequest) :
    Intact (fun _ => True) (Sqlite.listRevisions s db request) := by
  have hrequest : Intact (fun _ => True) (newListRevisionsRequest request.namespace_ request.cursor request.limit) :=
    .bind (require_outcome (by decide)) fun _ _ => .bind (validateNamespace_intact _) fun _ _ =>
      .bind (validateText_intact _ _ _) fun _ _ => .bind (require_outcome (by decide)) fun _ _ => .ok trivial
  have hstart : ∀ cursor, Intact (fun _ => True) (revisionCursorStart request cursor) := by
    intro cursor
    unfold revisionCursorStart
    repeat' split
    exacts [.ok trivial, .error (by decide), .ok trivial]
  refine .bind hrequest fun _ _ => .bind (decodeCursor_intact _ _ _ _ _) fun cursor _ => .bind (hstart cursor) fun after _ => ?_
  refine .bind (Outcome.mapM _ fun row hrow => ?_) fun metadata (_ : ∀ a ∈ metadata, True) => ?_
  · have hmem := (List.mem_filter.1 (List.mem_mergeSort.1 (List.mem_of_mem_take hrow)))
    have hns : row.namespace_ = request.namespace_ := by
      have hfilter := hmem.2
      simp only [Bool.and_eq_true, decide_eq_true_eq] at hfilter
      exact hfilter.1
    exact hns ▸ (h.revisions row hmem.1).decodeMetadata_intact
  · generalize cutPage request.limit metadata = cut
    obtain ⟨items, last⟩ := cut
    have hresponse : ∀ next, Intact (fun _ => True) (newListRevisionsResponse request items next) := fun next =>
      (newPage_outcome (by decide) (by decide) charges_revisionMetadata _ _ _ _ _ _ _).mono fun _ _ => trivial
    cases last with
    | none => exact hresponse []
    | some last => exact .bind (newCursor_intact _ _) fun next _ => hresponse next

end PolicyEngine.Sqlite
