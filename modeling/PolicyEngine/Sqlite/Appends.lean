import PolicyEngine.Lib.GoTime
import PolicyEngine.Sqlite.EventSteps
import PolicyEngine.Sqlite.Prune

/-!
# Events that are appended and expire

`appendStateEvent` and `pruneEvents` on a database whose heads and events are right:
the new event follows the last one, retention takes a prefix, and in either case the
events of a namespace are again those after its watermark.
-/

open PolicyEngine.Lib

namespace PolicyEngine.Sqlite

variable [Primitives] {key ns : Bytes} {bound : Bytes → Nat} {db db' db'' : Database}

/-- A helper of a transaction moved heads and events, and they are right again. -/
structure EventStep (key : Bytes) (bound : Bytes → Nat) (db db' : Database) : Prop where
  moved : Moved db db'
  heads : ∀ h ∈ db'.namespaceHeads, HeadOk h
  events : EventsOk key bound db'
  expired : ∀ ns, expiredThroughOf db ns ≤ expiredThroughOf db' ns

theorem EventStep.trans (h : EventStep key bound db db') (h' : EventStep key bound db' db'') :
    EventStep key bound db db'' :=
  ⟨h.moved.trans h'.moved, h'.heads, h'.events, fun ns => (h.expired ns).trans (h'.expired ns)⟩

/-- An operation leads to an accepted database, and no watermark falls. -/
structure Grows (key : Bytes) (db db' : Database) : Prop where
  accepted : Accepted key db'
  expired : ∀ ns, expiredThroughOf db ns ≤ expiredThroughOf db' ns

theorem Accepted.grows (h : Accepted key db) : Grows key db db := ⟨h, fun _ => Nat.le_refl _⟩

theorem Grows.trans (h : Grows key db db') (h' : Grows key db' db'') : Grows key db db'' :=
  ⟨h'.accepted, fun ns => (h.expired ns).trans (h'.expired ns)⟩

theorem EventStep.grows (h : Accepted key db) (hstep : EventStep key (dataGenerationOf db) db db') : Grows key db db' :=
  ⟨h.moved hstep.moved hstep.heads hstep.events, hstep.expired⟩

/-- One head and the events of its namespace are written. -/
theorem EventStep.withHead (hh : ∀ h ∈ db.namespaceHeads, HeadOk h) (hev : EventsOk key bound db) {head events}
    (hok : HeadOk head) (hgen : head.dataGeneration = (headOf db head.namespace_).dataGeneration)
    (hexp : (headOf db head.namespace_).expiredThrough.toInt ≤ head.expiredThrough.toInt)
    (hfill : ∀ x, x ∈ sequencesOf (db.withHead head events) head.namespace_ ↔
      head.expiredThrough.toInt < x ∧ x ≤ head.eventSequence.toInt)
    (hother : ∀ r, r.namespace_ ≠ head.namespace_ → (r ∈ events ↔ r ∈ db.stateEvents))
    (hrows : ∀ r ∈ events, r.namespace_ = head.namespace_ → r ∈ db.stateEvents ∨
      ∃ e, EventOk key (db.withHead head events) head.expiredThrough.toInt.toNat (bound head.namespace_) r e) :
    EventStep key bound db (db.withHead head events) := by
  refine ⟨.withHead events hgen, fun h hm => ?_, hev.withHead hexp hfill hother hrows, fun ns => ?_⟩
  · obtain rfl | ⟨hm, -⟩ := mem_withHead.1 hm
    · exact hok
    · exact hh h hm
  · rw [expiredThroughOf, expiredThroughOf, headOf_withHead]
    split
    next heq =>
      rw [heq] at hexp
      omega
    next => exact Nat.le_refl _

/-- A head is written that tells the same of its events. -/
theorem EventStep.sameEvents (hh : ∀ h ∈ db.namespaceHeads, HeadOk h) (hev : EventsOk key bound db) {head : HeadRow}
    (hok : HeadOk head) (hgen : head.dataGeneration = (headOf db head.namespace_).dataGeneration)
    (hseq : head.eventSequence = (headOf db head.namespace_).eventSequence)
    (hexp : head.expiredThrough = (headOf db head.namespace_).expiredThrough) :
    EventStep key bound db (db.withHead head db.stateEvents) := by
  refine .withHead hh hev hok hgen (by rw [hexp]) (fun x => ?_) (fun _ _ => Iff.rfl) fun r hr _ => .inl hr
  rw [hexp, hseq]
  exact (hev.filledOf head.namespace_).mem_iff x

variable {n : Int64}

theorem EventStep.headAt (hh : ∀ h ∈ db.namespaceHeads, HeadOk h) (hev : EventsOk key bound db)
    (hns : validateNamespace ns = .ok ()) (hn : validTimestamp n = true) :
    EventStep key bound db (db.withHead (headAt db ns n) db.stateEvents) := by
  have hname : (Sqlite.headAt db ns n).namespace_ = ns := headOf_namespace db ns
  exact .sameEvents hh hev (headOk_headAt (headOk_headOf hh hns) hn) (by rw [hname]; rfl) (by rw [hname]; rfl)
    (by rw [hname]; rfl)

theorem EventStep.ensureHead (hh : ∀ h ∈ db.namespaceHeads, HeadOk h) (hev : EventsOk key bound db)
    (hns : validateNamespace ns = .ok ()) : EventStep key bound db (db.withHead (headOf db ns) db.stateEvents) := by
  have hname := headOf_namespace db ns
  exact .sameEvents hh hev (headOk_headOf hh hns) (by rw [hname]) (by rw [hname]) (by rw [hname])

theorem EventStep.effectiveNow (hh : ∀ h ∈ db.namespaceHeads, HeadOk h) (hev : EventsOk key bound db)
    (hns : validateNamespace ns = .ok ()) {clock occurredAt} (h : effectiveNow db clock ns = .ok (occurredAt, db')) :
    EventStep key bound db db' ∧ HasHead db' ns ∧ ∃ n, validTimestamp n = true ∧ occurredAt = unixTime n := by
  obtain ⟨n, hclock, -⟩ := bind_eq_ok.1 (by rwa [Sqlite.effectiveNow] at h)
  have hn := canonicalClockNow_valid hclock
  rw [effectiveNow_eq hh hns hclock] at h
  obtain ⟨rfl, rfl⟩ := Prod.mk.injEq .. ▸ Except.ok.inj h
  exact ⟨.headAt hh hev hns hn, hasHead_withHead.2 (.inl (headOf_namespace db ns).symm), _,
    effectiveTime_valid (headOk_headOf hh hns).effective hn, rfl⟩

/-! ## Retention -/

omit [Primitives] in
theorem expireThrough_withHead (h : HasHead db ns) (cutoff : Int) :
    expireThrough db ns cutoff = db.withHead ((headOf db ns).expire cutoff)
      (db.stateEvents.deleteWhere fun r => r.namespace_ = ns ∧ r.sequence.toInt ≤ cutoff) := by
  rw [expireThrough_eq]
  exact updateHead_eq (by exact h)

theorem EventStep.pruneEvents (hh : ∀ h ∈ db.namespaceHeads, HeadOk h) (hev : EventsOk key bound db)
    (h : HasHead db ns) (n : Int64) : EventStep key bound db (pruneEvents db ns n) := by
  unfold Sqlite.pruneEvents
  dsimp only
  split
  · exact ⟨.refl db, hh, hev, fun _ => Nat.le_refl _⟩
  next hpos =>
    have hcutoff : max (timeCutoff db ns n) (countCutoff db ns) = cutoffOf (eventsOf db ns) n := rfl
    rw [hcutoff] at hpos ⊢
    obtain ⟨r, hr, hseq⟩ := exists_sequence_cutoffOf (Int.not_le.1 hpos)
    obtain ⟨hmem, rfl⟩ := mem_eventsOf.1 hr
    have hok := hh _ h.headOf_mem
    have hfill := hev.filledOf r.namespace_
    have hin := (hfill.mem_iff r.sequence.toInt).1 (mem_sequencesOf.2 ⟨r, hmem, rfl, rfl⟩)
    -- the watermark is now the sequence of the last event that went
    have hexpired : (headOf db r.namespace_).expire (cutoffOf (eventsOf db r.namespace_) n) =
        { headOf db r.namespace_ with expiredThrough := r.sequence } := by
      rw [HeadRow.expire, ← hseq, if_pos hin.1, Int64.ofInt_toInt]
    rw [← hseq, expireThrough_withHead h, hseq, hexpired]
    have hname : { headOf db r.namespace_ with expiredThrough := r.sequence }.namespace_ = r.namespace_ := headOf_namespace _ _
    have h0 := hok.expired
    refine .withHead hh hev { hok with expired := by dsimp only; omega, expired_le := hin.2 } (by rw [hname])
      (by rw [hname]; exact Int.le_of_lt hin.1) (fun x => ?_) (fun x hx => ?_) fun x hx _ => .inl (Table.mem_deleteWhere.1 hx).1
    · have hx := hfill.mem_iff x
      rw [mem_sequencesOf] at hx ⊢
      simp only [Database.withHead, Table.mem_deleteWhere, decide_eq_false_iff_not, not_and, Int.not_le]
      rw [hname]
      constructor
      · rintro ⟨e, ⟨he, hgt⟩, hns, rfl⟩
        exact ⟨hseq ▸ hgt hns, (hx.1 ⟨e, he, hns, rfl⟩).2⟩
      · rintro ⟨hgt, hle⟩
        obtain ⟨e, he, hns, rfl⟩ := hx.2 ⟨by omega, hle⟩
        exact ⟨e, ⟨he, fun _ => hseq ▸ hgt⟩, hns, rfl⟩
    · rw [hname] at hx
      simp [hx]

/-- Retention before a page of events is read. -/
theorem Accepted.pruneEventsForRead (h : Accepted key db) (hn : validTimestamp n = true)
    (hprune : Sqlite.pruneEventsForRead db n ns = .ok db') : Grows key db db' := by
  rw [Sqlite.pruneEventsForRead, readNamespaceHead_eq h.heads, ok_bind] at hprune
  split at hprune
  next => exact Except.ok.inj hprune ▸ h.grows
  next head hget =>
    obtain ⟨hmem, rfl⟩ := Table.get?_eq_some.1 hget
    have hhead : HasHead db head.namespace_ := ⟨head, hmem, rfl⟩
    have hadvance := @advanceEffectiveTime_eq db head.namespace_ db.stateEvents n
    rw [withHead_headOf hhead, headOf_mem hmem] at hadvance
    obtain rfl := Except.ok.inj hprune
    rw [hadvance]
    have hstep := EventStep.headAt h.heads h.events (h.heads head hmem).namespace_ok hn
    have hprune := EventStep.pruneEvents hstep.heads hstep.events
      (hasHead_withHead.2 (.inl (headOf_namespace db head.namespace_).symm)) (effectiveTime head n)
    exact (hstep.trans hprune).grows h

/-! ## Appending -/

omit [Primitives] in
theorem nextEventSequence_eq (hh : ∀ h ∈ db.namespaceHeads, HeadOk h) (hns : validateNamespace ns = .ok ()) :
    nextEventSequence db ns =
      if (headOf db ns).eventSequence.toInt = maxInt64 then .error .resourceExhausted
      else .ok (((headOf db ns).eventSequence + 1, (headOf db ns).expiredThrough),
        db.withHead { headOf db ns with eventSequence := (headOf db ns).eventSequence + 1 } db.stateEvents) := by
  rw [nextEventSequence, ensureNamespaceHead_eq hh hns, ok_bind]
  dsimp only
  split
  · rfl
  · have hname := headOf_namespace db ns
    have hupdate : updateHead (db.withHead (headOf db ns) db.stateEvents) (headOf db ns).namespace_
        (fun head => { head with eventSequence := (headOf db ns).eventSequence + 1 }) =
        db.withHead { headOf db ns with eventSequence := (headOf db ns).eventSequence + 1 } db.stateEvents :=
      updateHead_withHead db.stateEvents rfl
    dsimp only at hupdate
    rw [hname] at hupdate ⊢
    rw [hupdate]

omit [Primitives] in
/-- The sequence after one that is not the last. -/
theorem toInt_succ {x : Int64} (hmax : x.toInt ≠ maxInt64) : (x + 1).toInt = x.toInt + 1 := by
  have hlo := Int64.le_toInt x
  have hhi := Int64.toInt_lt x
  simp only [maxInt64] at hmax
  have hone : (1 : Int64).toInt = 1 := by decide
  rw [toInt_add_of_fits, hone]
  simp only [Fits, hone]
  omega

omit [Primitives] in
/-- The head after the next sequence was taken. -/
theorem nextEventSequence_eq_ok (hh : ∀ h ∈ db.namespaceHeads, HeadOk h) (hns : validateNamespace ns = .ok ())
    {sequence boundary : Int64} (h : nextEventSequence db ns = .ok ((sequence, boundary), db')) :
    sequence.toInt = (headOf db ns).eventSequence.toInt + 1 ∧ boundary = (headOf db ns).expiredThrough ∧
      db' = db.withHead { headOf db ns with eventSequence := sequence } db.stateEvents := by
  rw [nextEventSequence_eq hh hns] at h
  split at h
  · cases h
  next hmax =>
    obtain ⟨⟨rfl, rfl⟩, rfl⟩ := Prod.mk.injEq .. ▸ Except.ok.inj h
    exact ⟨toInt_succ hmax, rfl, rfl⟩

/-- A numbered cursor decodes to the state it was made for. -/
theorem decodeCursor_newCursor {cursor value} (hdomain : value.domain ≠ .revision)
    (hposition : value.position < 256 ^ 8) (h : newCursor key value = .ok cursor) :
    decodeCursor key cursor value.domain value.namespace_ value.slot = .ok value ∧ 0 < value.position := by
  have hvalid : validCursorState value = true := by
    unfold newCursor at h
    split at h
    · cases h
    next hvalid => simpa using hvalid
  obtain ⟨hpositive, hlt⟩ : 0 < value.position ∧ value.boundary < value.position := by
    simp only [validCursorState, Bool.and_eq_true] at hvalid
    have hfields := hvalid.2
    split at hfields
    · contradiction
    all_goals
      simp only [Bool.and_eq_true, decide_eq_true_eq] at hfields
      exact hfields.1.1
  obtain ⟨cursor', hnew, -, hdecode⟩ := @newCursor_issuable _ key _
    (⟨hvalid, hposition, Nat.lt_trans hlt hposition, fun h => absurd h hdomain⟩ : Issuable value)
  obtain rfl := Except.ok.inj (hnew.symm.trans h)
  exact ⟨hdecode, hpositive⟩

/-- The row that an event is stored in. -/
theorem eventOk_new {r e expired} (hhead : HasHead db r.namespace_) (hns : e.namespace_ = r.namespace_)
    (hnew : newStateEvent e = .ok e) (hslot : e.slotGeneration < 256 ^ 8) (hdata : e.dataGeneration < 256 ^ 8)
    (hpayload : encodeStateEvent e = .ok r.payload) (hkind : r.kind = stateEventKindName e.kind)
    (htime : sqliteTimestamp e.occurredAt = some r.createdAtNS)
    (hcursor : ∃ c, decodeCursor key e.cursor .event r.namespace_ [] = .ok c ∧ c.position = r.sequence.toInt.toNat ∧
      c.boundary ≤ expired) (href : References db r.namespace_ (bound r.namespace_) e) :
    EventOk key db expired (bound r.namespace_) r e := by
  obtain ⟨hunix, hmin⟩ := sqliteTimestamp_eq_some.1 htime
  obtain ⟨hencode, hdecode⟩ := decodeStateEvent_encode hnew (encodableTime_of_sqliteTimestamp htime) hslot hdata
  obtain hbytes := Except.ok.inj (hencode.symm.trans hpayload)
  refine ⟨?_, hhead, validTimestamp_iff.2 (hunix ▸ hmin), hbytes ▸ hdecode, hns, hkind.symm, hunix.symm, hcursor, href⟩
  have hlen := length_stateEventBytes hnew
  have hnamespace := (StateEvent.lengths hnew).1
  have hkindLength : (stateEventKindName e.kind).length ≤ 32 := by cases e.kind <;> decide
  rw [eventBounded, hkind, ← hns, ← hbytes]
  simp only [Bool.and_eq_true, decide_eq_true_eq]
  refine ⟨⟨hnamespace, hkindLength⟩, ?_⟩
  simp only [maxStateEventPayloadBytes]
  omega

/-- A database with one more event. -/
def Database.withEvent (db : Database) (row : EventRow) : Database :=
  db.withHead { headOf db row.namespace_ with eventSequence := row.sequence } (db.stateEvents.set row)

omit [Primitives] in
theorem hasHead_withEvent (db : Database) (row : EventRow) : HasHead (db.withEvent row) row.namespace_ :=
  hasHead_withHead.2 (.inl (headOf_namespace db row.namespace_).symm)

/-- The event after the last one is written. -/
theorem EventStep.withEvent (hh : ∀ h ∈ db.namespaceHeads, HeadOk h) (hev : EventsOk key bound db) {row : EventRow}
    (hns : validateNamespace row.namespace_ = .ok ())
    (hseq : row.sequence.toInt = (headOf db row.namespace_).eventSequence.toInt + 1)
    (hrow : ∃ e, EventOk key (db.withEvent row) (expiredThroughOf db row.namespace_) (bound row.namespace_) row e) :
    EventStep key bound db (db.withEvent row) := by
  have hok := headOk_headOf hh hns
  have h0 := hok.expired
  have hle := hok.expired_le
  have hname := headOf_namespace db row.namespace_
  refine .withHead hh hev { hok with expired_le := by dsimp only; omega } (by dsimp only; rw [hname])
    (by dsimp only; rw [hname]) (fun x => ?_) (fun r hr => ?_) fun r hr _ => ?_
  · have hx := (hev.filledOf row.namespace_).mem_iff x
    dsimp only
    rw [hname]
    rw [mem_sequencesOf] at hx ⊢
    simp only [Database.withHead, Table.mem_set]
    constructor
    · rintro ⟨r, rfl | ⟨hr, -⟩, hrns, rfl⟩
      · omega
      · have := hx.1 ⟨r, hr, hrns, rfl⟩
        omega
    · rintro ⟨hgt, hxle⟩
      by_cases hlast : x = row.sequence.toInt
      · exact ⟨_, .inl rfl, rfl, hlast.symm⟩
      · obtain ⟨r, hr, hrns, rfl⟩ := hx.2 ⟨hgt, by omega⟩
        refine ⟨r, .inr ⟨hr, fun hkey => hlast ?_⟩, hrns, rfl⟩
        exact congrArg (fun k : Bytes × Int64 => k.2.toInt) hkey
  · dsimp only at hr
    rw [hname] at hr
    rw [Table.mem_set]
    constructor
    · rintro (rfl | ⟨hr', -⟩)
      · exact absurd rfl hr
      · exact hr'
    · intro hr'
      exact .inr ⟨hr', fun hkey => hr (congrArg Prod.fst hkey)⟩
  · obtain rfl | ⟨hr, -⟩ := Table.mem_set.1 hr
    · right
      dsimp only
      rw [hname]
      rw [Database.withEvent] at hrow
      dsimp only at hrow
      rw [hname] at hrow
      exact hrow
    · exact .inl hr

omit [Primitives] in
theorem insertRow_eq_ok {ρ κ : Type} {key : ρ → κ} [DecidableEq κ] {t t' : Table key} {r : ρ}
    (h : insertRow t r = .ok t') : (∀ x ∈ t, key x ≠ key r) ∧ t' = t.set r := by
  unfold insertRow at h
  split at h
  · cases h
  next hsome =>
    obtain rfl := Except.ok.inj h
    exact Table.insert?_eq_some.1 hsome

theorem EventStep.appendStateEvent {s : Store} (hh : ∀ h ∈ db.namespaceHeads, HeadOk h)
    (hev : EventsOk s.cursorKey bound db) {input : StateEvent} {occurredAt : Int}
    (hns : validateNamespace input.namespace_ = .ok ()) (hslot : input.slotGeneration < 256 ^ 8)
    (hdata : input.dataGeneration < 256 ^ 8)
    (href : References db input.namespace_ (bound input.namespace_) input)
    (h : appendStateEvent s db input occurredAt = .ok db') :
    EventStep s.cursorKey bound db db' ∧ HasHead db' input.namespace_ := by
  rw [Sqlite.appendStateEvent, bind_eq_ok] at h
  obtain ⟨⟨⟨sequence, boundary⟩, db₁⟩, hnext, h⟩ := h
  obtain ⟨hsequence, rfl, rfl⟩ := nextEventSequence_eq_ok hh hns hnext
  obtain ⟨cursor, hcursor, h⟩ := bind_eq_ok.1 h
  split at h
  · cases h
  next e hnew =>
    obtain ⟨rfl, -⟩ := newStateEvent_eq_ok.1 hnew
    obtain ⟨payload, hpayload, h⟩ := bind_eq_ok.1 h
    split at h
    · cases h
    next occurredAtNS htime =>
      obtain ⟨events, hinsert, h⟩ := bind_eq_ok.1 h
      obtain rfl := Except.ok.inj h
      obtain ⟨-, rfl⟩ := insertRow_eq_ok hinsert
      have hstep : EventStep s.cursorKey bound db (db.withEvent
          ⟨input.namespace_, sequence, stateEventKindName input.kind, payload, occurredAtNS⟩) := by
        refine .withEvent hh hev hns hsequence ⟨{ input with cursor := cursor, occurredAt := occurredAt }, ?_⟩
        refine eventOk_new (hasHead_withEvent db _) rfl hnew hslot hdata hpayload rfl htime ?_ ?_
        · have hhi := Int64.toInt_lt sequence
          exact ⟨_, (decodeCursor_newCursor (by simp) (by dsimp only; omega) hcursor).1, rfl, Nat.le_refl _⟩
        · exact (Extends.withHead db _ _).references (Nat.le_refl _) href
      have hhead := hasHead_withEvent db ⟨input.namespace_, sequence, stateEventKindName input.kind, payload, occurredAtNS⟩
      have hprune := EventStep.pruneEvents hstep.heads hstep.events hhead occurredAtNS
      exact ⟨hstep.trans hprune, hprune.moved.heads _ hhead⟩

omit [Primitives] in
theorem eventSequence_pruneEvents (h : HasHead db ns) (n : Int64) :
    (headOf (pruneEvents db ns n) ns).eventSequence = (headOf db ns).eventSequence := by
  unfold Sqlite.pruneEvents
  dsimp only
  split
  · rfl
  · rw [expireThrough_withHead h, headOf_withHead, expire_namespace, headOf_namespace, if_pos rfl, HeadRow.expire]
    split <;> rfl

/-- An event is appended unless the namespace has run out of sequences. -/
theorem appendStateEvent_ok (s : Store) (hh : ∀ h ∈ db.namespaceHeads, HeadOk h) (hev : EventsOk key bound db)
    {input : StateEvent} (hns : validateNamespace input.namespace_ = .ok ()) (hkind : input.fieldsMatchKind = true)
    (hslot : input.slotGeneration < 256 ^ 8) (hdata : input.dataGeneration < 256 ^ 8) (hn : validTimestamp n = true)
    (hmax : (headOf db input.namespace_).eventSequence.toInt ≠ maxInt64) :
    ∃ db', appendStateEvent s db input (unixTime n) = .ok db' ∧ (headOf db' input.namespace_).eventSequence.toInt =
      (headOf db input.namespace_).eventSequence.toInt + 1 := by
  have hok := headOk_headOf hh hns
  have hnext := toInt_succ hmax
  have h0 := hok.expired
  have hle := hok.expired_le
  have hhi := Int64.toInt_lt ((headOf db input.namespace_).eventSequence + 1)
  have hissuable : Issuable ⟨.event, input.namespace_, [], ((headOf db input.namespace_).eventSequence + 1).toInt.toNat,
      (headOf db input.namespace_).expiredThrough.toInt.toNat, zeroTime, []⟩ := by
    refine ⟨?_, by dsimp only; omega, by dsimp only; omega, by simp⟩
    simp only [validCursorState, validCursorScope, Bool.and_eq_true, bne_iff_ne, beq_iff_eq, decide_eq_true_eq, and_true]
    exact ⟨(validateNamespace_eq_ok.1 hns).1, by omega, by omega⟩
  obtain ⟨cursor, hcursor, hidentifier, -⟩ := @newCursor_issuable _ s.cursorKey _ hissuable
  have hnew : newStateEvent { input with cursor := cursor, occurredAt := unixTime n } =
      .ok { input with cursor := cursor, occurredAt := unixTime n } :=
    newStateEvent_eq_ok.2 ⟨rfl, unixTime_ne_zeroTime n, hns, hidentifier, hkind⟩
  have htime : sqliteTimestamp (unixTime n) = some n := sqliteTimestamp_eq_some.2 ⟨rfl, validTimestamp_iff.1 hn⟩
  have hencode := (decodeStateEvent_encode hnew (encodableTime_of_sqliteTimestamp htime) hslot hdata).1
  have hfresh : ∀ r ∈ db.stateEvents, r.key ≠ (input.namespace_, (headOf db input.namespace_).eventSequence + 1) := by
    intro r hr hkey
    obtain ⟨hrns, hseq⟩ := Prod.mk.injEq .. ▸ hkey
    have hin := ((hev.filledOf input.namespace_).mem_iff r.sequence.toInt).1 (mem_sequencesOf.2 ⟨r, hr, hrns, rfl⟩)
    rw [hseq] at hin
    omega
  have happend : appendStateEvent s db input (unixTime n) = .ok (pruneEvents (db.withEvent ⟨input.namespace_,
      (headOf db input.namespace_).eventSequence + 1, stateEventKindName input.kind, stateEventBytes
        { input with cursor := cursor, occurredAt := unixTime n }, n⟩) input.namespace_ n) := by
    simp only [appendStateEvent, nextEventSequence_eq hh hns, if_neg hmax, ok_bind, hcursor, hnew, hencode, htime]
    rw [insertRow_eq (by exact hfresh), ok_bind]
    rfl
  refine ⟨_, happend, ?_⟩
  rw [eventSequence_pruneEvents (by exact hasHead_withEvent db _), Database.withEvent, headOf_withHead,
    if_pos (headOf_namespace db input.namespace_)]
  exact hnext

end PolicyEngine.Sqlite
