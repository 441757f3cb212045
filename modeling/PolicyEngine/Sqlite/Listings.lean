import PolicyEngine.Lib.Runs
import PolicyEngine.Sqlite.Operations

/-!
# Listings among other calls

ListEvents and ListActivationHistory check in one statement that their cursor has not
expired and read their rows in another. Operations of other callers commit between the
two, so the statements see two databases of one run.
-/

open PolicyEngine.Lib List

namespace PolicyEngine.Sqlite

variable {key : Bytes} {db db' : Database}

/-! ## Runs -/

section

variable [Primitives]

/-- One operation under a handle with its own retention setting. -/
structure Commit where
  activationHistoryRetention : Nat
  clock : Clock
  op : Operation

def commit (key : Bytes) (db : Database) (c : Commit) : Option Database :=
  some (c.op.run ⟨key, c.activationHistoryRetention⟩ c.clock db)

/-- The databases that a run of operations reaches from `db`. -/
abbrev Later (key : Bytes) (db : Database) : Database → Prop := Reachable (commit key) (· = db)

/-- Where a list of commits leads. -/
def Database.after (db : Database) (key : Bytes) (commits : List Commit) : Database :=
  commits.foldl (fun db c => c.op.run ⟨key, c.activationHistoryRetention⟩ c.clock db) db

theorem later_after (key : Bytes) (db : Database) (commits : List Commit) : Later key db (db.after key commits) := by
  induction commits using List.reverseRecOn with
  | nil => exact .start rfl
  | append_singleton commits c ih =>
    rw [Database.after, foldl_concat]
    exact ih.extend rfl

theorem Accepted.later (h : Accepted key db) (hlater : Later key db db') : Grows key db db' := by
  refine hlater.invariant (by rintro _ rfl; exact h.grows) ?_
  rintro db₁ c _ hgrows - ⟨⟩
  have haccepted : Accepted (Store.mk key c.activationHistoryRetention).cursorKey db₁ := hgrows.accepted
  exact hgrows.trans (haccepted.run c.clock c.op)

/-! ## Events -/

/-- ListEvents after its retention, with the database of each statement. -/
def listEventsBetween (s : Store) (atHead atRows : Database) (request : ListEventsRequest) : Result (Page StateEvent) := do
  let cursor ← listEventsCursor s request
  readEventHead atHead request cursor
  let events ← readEventRows s atRows request cursor
  eventPage request events

/-- The sequence that an event's cursor names. -/
def eventSequence (cursorKey namespace_ : Bytes) (event : StateEvent) : Option Nat :=
  match decodeCursor cursorKey event.cursor .event namespace_ [] with
  | .error _ => none
  | .ok cursor => some cursor.position

omit [Primitives] in
theorem mem_eventPageRows {ns position limit r} (h : r ∈ eventPageRows db ns position limit) :
    r ∈ db.stateEvents ∧ r.namespace_ = ns := by
  have hmem := (mem_filter.1 (mem_mergeSort.1 (mem_of_mem_take h))).1
  exact mem_eventsOf.1 hmem

/-- Rows of an accepted database pass every check of the loop. -/
theorem scanEvents_ok (h : Accepted key db) {ns rows} (hrows : ∀ r ∈ rows, r ∈ db.stateEvents ∧ r.namespace_ = ns)
    {previous : Int} (hprevious : 0 ≤ previous) (hsorted : (previous :: rows.map (·.sequence.toInt)).Pairwise (· < ·)) :
    ∃ events, scanEvents key ns previous rows = .ok events ∧
      events.map (eventSequence key ns) = rows.map fun r => some r.sequence.toInt.toNat := by
  induction rows generalizing previous with
  | nil => exact ⟨[], rfl, rfl⟩
  | cons r rows ih =>
    obtain ⟨hmem, rfl⟩ := hrows r mem_cons_self
    obtain ⟨e, he⟩ := h.events.rows r hmem
    obtain ⟨c, hc, hposition, -⟩ := he.cursor
    rw [map_cons, pairwise_cons] at hsorted
    have hlt := hsorted.1 r.sequence.toInt mem_cons_self
    obtain ⟨events, hscan, hsequences⟩ := ih (fun x hx => hrows x (mem_cons_of_mem _ hx)) (by omega) hsorted.2
    refine ⟨e :: events, ?_, ?_⟩
    · have hfirst : (decide (r.sequence.toInt > 0) && decide (r.sequence.toInt > previous)) = true := by
        rw [Bool.and_eq_true, decide_eq_true_eq, decide_eq_true_eq]
        omega
      simp only [scanEvents, hfirst, he.payload, he.namespace_eq, he.kind, he.time, hc, hposition, hscan, ok_bind,
        require_true, orFail_ok, decide_true, Bool.and_self]
    · rw [map_cons, map_cons, hsequences, eventSequence, hc, ← hposition]

/-- The row query answers the sequences after the cursor that are still there. -/
theorem readEventRows_ok {s : Store} (h : Accepted s.cursorKey db) (request : ListEventsRequest) (cursor : CursorState) :
    ∃ events, readEventRows s db request cursor = .ok events ∧
      events.map (eventSequence s.cursorKey request.namespace_) =
        ((interval (max (headOf db request.namespace_).expiredThrough.toInt (Int64.ofNat cursor.position).toInt)
          (headOf db request.namespace_).eventSequence.toInt).take (request.limit + 1)).map fun x => some x.toNat := by
  have h0 := expiredThrough_nonneg h.heads request.namespace_
  have hpage := (h.events.filledOf request.namespace_).map_page (Int64.ofNat cursor.position).toInt (request.limit + 1)
  rw [← eventPageRows] at hpage
  have hsorted : (0 :: (eventPageRows db request.namespace_ cursor.position request.limit).map
      (·.sequence.toInt)).Pairwise (· < ·) := by
    rw [hpage, pairwise_cons]
    refine ⟨fun x hx => ?_, (pairwise_interval _ _).take⟩
    have hx := (mem_interval.1 (mem_of_mem_take hx)).1
    omega
  obtain ⟨events, hscan, hsequences⟩ := scanEvents_ok h (fun r hr => mem_eventPageRows hr) (Int.le_refl 0) hsorted
  refine ⟨events, hscan, ?_⟩
  rw [hsequences, ← hpage, map_map]
  rfl

omit [Primitives] in
theorem cutPage_fst {α : Type} (limit : Nat) (values : List α) : (cutPage limit values).1 = values.take limit := by
  unfold cutPage
  split
  · rfl
  next hle => exact (take_of_length_le (Nat.not_lt.1 hle)).symm

omit [Primitives] in
theorem cutPage_snd {α : Type} {limit : Nat} {values : List α} {last : α} (h : (cutPage limit values).2 = some last) :
    (values.take limit).getLast? = some last := by
  unfold cutPage at h
  split at h
  · exact h
  · cases h

omit [Primitives] in
theorem eventPage_outcome {E} (hinvalid : E .invalidArgument) (hexhausted : E .resourceExhausted)
    (request : ListEventsRequest) (events : List StateEvent) :
    Outcome E (fun page => page.items = events.take request.limit) (eventPage request events) := by
  refine (newPage_outcome hinvalid hexhausted charges_stateEvent _ _ _ _ _ _ _).mono ?_
  rintro page rfl
  exact cutPage_fst _ _

theorem readEventHead_eq (h : Accepted key db) (request : ListEventsRequest) (cursor : CursorState) :
    readEventHead db request cursor = require (request.afterCursor = [] ||
      !(cursor.position ≤ expiredThroughOf db request.namespace_ ||
        cursor.boundary > expiredThroughOf db request.namespace_)) .cursorExpired := by
  have hexpired : ((db.namespaceHeads.get? request.namespace_).map (·.expiredThrough.toInt.toNat)).getD 0 =
      expiredThroughOf db request.namespace_ := by
    unfold expiredThroughOf headOf
    cases db.namespaceHeads.get? request.namespace_ <;> rfl
  rw [readEventHead, readNamespaceHead_eq h.heads, ok_bind, hexpired]

/-- The page after sequence `p` has no gap: its events are those right after `p`, and a call whose rows are read
when one of them has expired says so. -/
structure GapFreeEvents (s : Store) (request : ListEventsRequest) (p : Nat) (atRows : Database)
    (result : Result (Page StateEvent)) : Prop where
  consecutive : ∀ page, result = .ok page →
    page.items.map (eventSequence s.cursorKey request.namespace_) = (List.range' (p + 1) page.items.length).map some
  expired : p < expiredThroughOf atRows request.namespace_ → result = .error .cursorExpired

omit [Primitives] in
/-- A page of the rows after `p` numbers them from `p + 1` on. -/
theorem map_take_consecutive {α β : Type} {b : Int} {p limit : Nat} {f : α → β} {g : Nat → β} {values : List α}
    (h : values.map f = ((interval p b).take (limit + 1)).map fun x => g x.toNat) :
    (values.take limit).map f = (List.range' (p + 1) (values.take limit).length).map g := by
  have hvalues : (values.take limit).map f = (List.range' (p + 1) (min b (p + limit) - p).toNat).map g := by
    have hle : min limit (limit + 1) = limit := by omega
    rw [map_take, h, ← map_take, take_take, hle, take_interval, ← map_toNat_interval, map_map]
    rfl
  have hlength := congrArg List.length hvalues
  rw [length_map, length_map, length_range'] at hlength
  rw [hvalues, hlength]

/-- What the watermarks at the two statements say of a call after a cursor that was not issued ahead of them. -/
theorem gapFreeEvents_iff {s : Store} {atHead atRows : Database} {request : ListEventsRequest} {cursor : CursorState}
    (h₁ : Accepted s.cursorKey atHead) (h₂ : Accepted s.cursorKey atRows)
    (hcursor : listEventsCursor s request = .ok cursor) (hne : request.afterCursor ≠ [])
    (hp : cursor.position < 2 ^ 63) (hboundary : cursor.boundary ≤ expiredThroughOf atHead request.namespace_) :
    GapFreeEvents s request cursor.position atRows (listEventsBetween s atHead atRows request) ↔
      expiredThroughOf atRows request.namespace_ ≤ cursor.position ∨
        cursor.position ≤ expiredThroughOf atHead request.namespace_ := by
  rw [listEventsBetween, hcursor, ok_bind, readEventHead_eq h₁]
  by_cases hstale : cursor.position ≤ expiredThroughOf atHead request.namespace_
  · -- the head read already refuses
    simp only [hne, hstale, decide_true, decide_false, Bool.true_or, Bool.not_true, Bool.or_self, require, if_false,
      Bool.false_eq_true, error_bind, or_true, iff_true]
    exact ⟨fun _ hpage => absurd hpage (by simp), fun _ => rfl⟩
  · have hpass : (decide (request.afterCursor = []) || !(decide (cursor.position ≤ expiredThroughOf atHead request.namespace_) ||
        decide (cursor.boundary > expiredThroughOf atHead request.namespace_))) = true := by
      simp [hstale, hboundary]
    obtain ⟨events, hevents, hsequences⟩ := readEventRows_ok h₂ request cursor
    have hpage : Outcome (· ≠ .cursorExpired) (fun page => page.items = events.take request.limit)
        (eventPage request events) := eventPage_outcome (by decide) (by decide) request events
    rw [hpass, require_true, ok_bind, hevents, ok_bind, or_iff_left hstale]
    constructor
    · intro hgap
      exact Nat.not_lt.1 fun hlt => hpage.of_error (hgap.expired hlt) rfl
    · intro hle
      refine ⟨fun page hok => ?_, fun hlt => absurd hlt (Nat.not_lt.2 hle)⟩
      have hmax : max (headOf atRows request.namespace_).expiredThrough.toInt (Int64.ofNat cursor.position).toInt =
          cursor.position := by
        rw [Int64.toInt_ofNat_of_lt hp]
        unfold expiredThroughOf at hle
        omega
      rw [hmax] at hsequences
      rw [hpage.of_ok hok]
      exact map_take_consecutive hsequences

/-- **ListEvents is free of gaps when the watermark does not pass the cursor between its two statements.** The
cursor is that of an event stored at some point of the run; the commits up to the head read include the
retention of the call itself. -/
theorem listEvents_gapFree_iff {s : Store} {issuedIn atHead atRows : Database} {row : EventRow} {event : StateEvent}
    {limit : Nat} {request : ListEventsRequest} (hkey : s.cursorKey.length = 32)
    (hissued : Later s.cursorKey (.migrated s.cursorKey) issuedIn) (hrow : row ∈ issuedIn.stateEvents)
    (hevent : decodeStateEvent row.payload = .ok event) (hhead : Later s.cursorKey issuedIn atHead)
    (hrows : Later s.cursorKey atHead atRows)
    (hrequest : newListEventsRequest row.namespace_ event.cursor limit = .ok request) :
    GapFreeEvents s request row.sequence.toInt.toNat atRows (listEventsBetween s atHead atRows request) ↔
      expiredThroughOf atRows row.namespace_ ≤ row.sequence.toInt.toNat ∨
        row.sequence.toInt.toNat ≤ expiredThroughOf atHead row.namespace_ := by
  have h₀ := (accepted_migrated hkey).later hissued
  have h₁ := h₀.accepted.later hhead
  have h₂ := h₁.accepted.later hrows
  obtain ⟨e, he⟩ := h₀.accepted.events.rows row hrow
  obtain rfl := Except.ok.inj (hevent.symm.trans he.payload)
  obtain ⟨cursor, hcursor, hposition, hboundary⟩ := he.cursor
  have hpositive : 0 < row.sequence.toInt := by
    have hfill := (h₀.accepted.events.filledOf row.namespace_).mem_iff row.sequence.toInt
    have hlt := (hfill.1 (mem_sequencesOf.2 ⟨row, hrow, rfl, rfl⟩)).1
    have h0 := (h₀.accepted.heads _ he.head.headOf_mem).expired
    omega
  have hne : event.cursor ≠ [] := by
    intro hnil
    rw [hnil, decodeCursor, if_pos rfl] at hcursor
    obtain rfl := Except.ok.inj hcursor
    dsimp only at hposition
    omega
  obtain rfl : request = ⟨row.namespace_, event.cursor, limit⟩ := by
    simp only [newListEventsRequest, check_eq_ok] at hrequest
    exact (Except.ok.inj hrequest.2.2.2.2).symm
  have hdecode : listEventsCursor s ⟨row.namespace_, event.cursor, limit⟩ = .ok cursor := by
    rw [listEventsCursor, hrequest, ok_bind, hcursor]
  have hlt := Int64.toInt_lt row.sequence
  rw [← hposition]
  exact gapFreeEvents_iff h₁.accepted h₂.accepted hdecode hne (by omega) (hboundary.trans (h₁.expired row.namespace_))

end

/-! Events that expire between the head read and the row query are skipped. -/

/-- Constant codes, and digests that tell short artifacts apart. -/
@[reducible] def padded : Primitives :=
  { Primitives.constant with artifactDigest := fun artifact : Bytes => (artifact ++ List.replicate 32 0).take 32 }

def gapStore : Store := ⟨List.replicate 32 0, 2⟩

/-- The publication of a one-byte artifact. -/
def publication (artifact : UInt8) : Operation :=
  .putRevision ⟨⟨ascii "n", hexEncode (artifact :: List.replicate 31 0), 10⟩, [artifact], .none⟩

/-- One event, at time 10. -/
def oneEvent : Database :=
  @Database.after padded (.migrated gapStore.cursorKey) gapStore.cursorKey [⟨2, some 10, publication 1⟩]

/-- Retention a day later, an event, retention a day later, an event. -/
def afterTwoDays : Database := @Database.after padded oneEvent gapStore.cursorKey
  [⟨2, some (10 + eventRetentionDuration), .pruneOffline⟩, ⟨2, some (10 + eventRetentionDuration), publication 2⟩,
    ⟨2, some (10 + 2 * eventRetentionDuration), .pruneOffline⟩, ⟨2, some (10 + 2 * eventRetentionDuration), publication 3⟩]

def firstRow : EventRow := oneEvent.stateEvents.rows.headD ⟨[], 0, [], [], 0⟩

def firstEvent : StateEvent :=
  match decodeStateEvent firstRow.payload with
  | .ok event => event
  | .error _ => ⟨[], [], .dataWritten, [], [], 0, 0, zeroTime⟩

/-- Page requests after the first event. -/
def afterFirst : ListEventsRequest := ⟨ascii "n", firstEvent.cursor, 10⟩

theorem firstRow_mem : firstRow ∈ oneEvent.stateEvents := by
  rw [Table.mem_def]
  decide +kernel

theorem listEvents_gapFree_iff_sample :
    @GapFreeEvents padded gapStore afterFirst firstRow.sequence.toInt.toNat oneEvent
      (@listEventsBetween padded gapStore oneEvent oneEvent afterFirst) :=
  (@listEvents_gapFree_iff padded gapStore oneEvent oneEvent oneEvent firstRow firstEvent 10 afterFirst rfl
    (@later_after padded _ _ _) firstRow_mem (by decide +kernel) (.start rfl) (.start rfl) (by decide +kernel)).2 (.inl (by decide +kernel))

/-- The head read sees the first event, and the rows are read two days later: the page after the first event is the
third one alone. -/
theorem listEvents_skips_second :
    @Later padded gapStore.cursorKey (.migrated gapStore.cursorKey) oneEvent ∧
      @Later padded gapStore.cursorKey oneEvent afterTwoDays ∧ firstRow ∈ oneEvent.stateEvents ∧
      firstRow.sequence = 1 ∧ decodeStateEvent firstRow.payload = .ok firstEvent ∧
      newListEventsRequest firstRow.namespace_ firstEvent.cursor 10 = .ok afterFirst ∧
      (∃ page, @listEventsBetween padded gapStore oneEvent afterTwoDays afterFirst = .ok page ∧
        page.items.map (@eventSequence padded gapStore.cursorKey (ascii "n")) = [some 3]) ∧
      ¬ @GapFreeEvents padded gapStore afterFirst firstRow.sequence.toInt.toNat afterTwoDays
        (@listEventsBetween padded gapStore oneEvent afterTwoDays afterFirst) := by
  have hpage : (@listEventsBetween padded gapStore oneEvent afterTwoDays afterFirst).toOption.map
      (fun page => page.items.map (@eventSequence padded gapStore.cursorKey (ascii "n"))) = some [some 3] := by
    decide +kernel
  obtain ⟨page, hok, hitems⟩ := Option.map_eq_some_iff.1 hpage
  have hok : @listEventsBetween padded gapStore oneEvent afterTwoDays afterFirst = .ok page := by
    cases h : @listEventsBetween padded gapStore oneEvent afterTwoDays afterFirst with
    | error e => simp [h, Except.toOption] at hok
    | ok page' => simpa [h, Except.toOption] using hok
  refine ⟨@later_after padded _ _ _, @later_after padded _ _ _, firstRow_mem, by decide +kernel, by decide +kernel, by decide +kernel,
    ⟨page, hok, hitems⟩, fun hgap => ?_⟩
  have hconsecutive := @GapFreeEvents.consecutive padded _ _ _ _ _ hgap page hok
  have hone : page.items.length = 1 := by simpa using congrArg List.length hitems
  have hsequence : firstRow.sequence.toInt.toNat = 1 := by decide +kernel
  rw [hone, hsequence] at hconsecutive
  exact absurd (hitems.symm.trans hconsecutive) (by decide)

end PolicyEngine.Sqlite
