import PolicyEngine.Sqlite.Frame

/-!
# Heads and events inside a transaction

What the helpers of `events.go` leave behind in a database whose heads and events
are accepted: the effective time moves, an event is appended after the last one, a
prefix of the events expires. Each is the write of one head with its events.
-/

open PolicyEngine.Lib

namespace PolicyEngine.Sqlite

variable {db : Database} {ns : Bytes}

/-! ## Heads -/

theorem withHead_withHead {h h' : HeadRow} (events events' : Table EventRow.key) (hns : h.namespace_ = h'.namespace_) :
    (db.withHead h events).withHead h' events' = db.withHead h' events' := by
  simp only [Database.withHead, Table.set_set hns]

theorem withHead_headOf (h : HasHead db ns) : db.withHead (headOf db ns) db.stateEvents = db := by
  simp only [Database.withHead, Table.set_of_mem h.headOf_mem]

theorem readNamespaceHead_eq (hh : ∀ h ∈ db.namespaceHeads, HeadOk h) (ns : Bytes) :
    readNamespaceHead db ns = .ok (db.namespaceHeads.get? ns) := by
  unfold readNamespaceHead
  split
  next hget => rw [hget]
  next head hget =>
    have hok := hh head (Table.get?_eq_some.1 hget).1
    have := hok.generation
    have := hok.expired
    have := hok.expired_le
    rw [if_neg (by omega), hget]

theorem ensureNamespaceHead_eq (hh : ∀ h ∈ db.namespaceHeads, HeadOk h) (hns : validateNamespace ns = .ok ()) :
    ensureNamespaceHead db ns = .ok (headOf db ns, db.withHead (headOf db ns) db.stateEvents) := by
  have hh' : ∀ h ∈ (db.withHead (headOf db ns) db.stateEvents).namespaceHeads, HeadOk h := by
    intro h hm
    rcases mem_withHead.1 hm with rfl | ⟨hm, -⟩
    · exact headOk_headOf hh hns
    · exact hh h hm
  have hget : (db.withHead (headOf db ns) db.stateEvents).namespaceHeads.get? ns = some (headOf db ns) :=
    Table.get?_eq_some.2 ⟨mem_withHead.2 (.inl rfl), headOf_namespace db ns⟩
  have hread := readNamespaceHead_eq hh' ns
  rw [hget] at hread
  unfold ensureNamespaceHead
  -- whether or not the row was there, the head is `headOf db ns` afterwards
  by_cases h : HasHead db ns
  · obtain ⟨head, -, -, hsome⟩ := h.get?
    rw [withHead_headOf h] at hread
    simp only [hsome, withHead_headOf h, hread, ok_bind]
  · have hnone : db.namespaceHeads.get? ns = none := Table.get?_eq_none.2 fun r hr hr' => h ⟨r, hr, hr'⟩
    have hinit : db.withHead (headOf db ns) db.stateEvents =
        { db with namespaceHeads := db.namespaceHeads.set (.initial ns) } := by
      rw [headOf_of_not_hasHead h]
      rfl
    rw [hinit] at hread
    simp only [hnone, hinit, hread, ok_bind]

theorem updateHead_eq (h : HasHead db ns) {f} : updateHead db ns f =
    db.withHead (f (headOf db ns)) db.stateEvents := by
  obtain ⟨head, hm, rfl, hget⟩ := h.get?
  rw [updateHead, Table.update_of_get? f hget, headOf_mem hm]
  rfl

theorem updateHead_withHead {head : HeadRow} (events : Table EventRow.key) {f}
    (hf : (f head).namespace_ = head.namespace_) :
    updateHead (db.withHead head events) head.namespace_ f = db.withHead (f head) events := by
  rw [updateHead_eq (hasHead_withHead.2 (.inl rfl)), headOf_withHead, if_pos rfl]
  exact withHead_withHead events events hf.symm

/-! ## Clocks -/

variable {clock : Clock} {n : Int64}

theorem canonicalClockNow_valid (h : canonicalClockNow clock = .ok n) :
    validTimestamp n = true := by
  unfold canonicalClockNow at h
  split at h
  next => cases h
  next now =>
    split at h
    next => cases h
    next nanos hts =>
      obtain rfl := Except.ok.inj h
      obtain ⟨hv, hmin⟩ := sqliteTimestamp_eq_some.1 hts
      exact validTimestamp_iff.2 (hv ▸ hmin)

theorem canonicalClockNow_error {e} (h : canonicalClockNow clock = .error e) :
    e = .internal := by
  unfold canonicalClockNow at h
  split at h
  next => exact (Except.error.inj h).symm
  next =>
    split at h
    next => exact (Except.error.inj h).symm
    next => cases h

theorem effectiveTime_valid {head : HeadRow} (h : head.effectiveTimeNS.all validTimestamp = true)
    (hn : validTimestamp n = true) : validTimestamp (effectiveTime head n) = true := by
  unfold effectiveTime
  split
  next => exact hn
  next stored heq =>
    split
    next => simpa [heq] using h
    next => exact hn

/-- The head of a namespace at a clock reading. -/
def headAt (db : Database) (ns : Bytes) (n : Int64) : HeadRow :=
  { headOf db ns with effectiveTimeNS := some (effectiveTime (headOf db ns) n) }

theorem headOk_headAt (hok : HeadOk (headOf db ns)) (hn : validTimestamp n = true) : HeadOk (headAt db ns n) :=
  { hok with effective := by simpa [headAt] using effectiveTime_valid hok.effective hn }

theorem advanceEffectiveTime_eq (events : Table EventRow.key) (n : Int64) :
    advanceEffectiveTime (db.withHead (headOf db ns) events) (headOf db ns) (effectiveTime (headOf db ns) n) =
      db.withHead (headAt db ns n) events := by
  unfold advanceEffectiveTime
  split
  next heq =>
    -- the effective time did not move
    have : headAt db ns n = headOf db ns := by
      rw [headAt, ← heq]
    rw [this]
  next => exact updateHead_withHead events rfl

theorem effectiveNow_eq (hh : ∀ h ∈ db.namespaceHeads, HeadOk h) (hns : validateNamespace ns = .ok ())
    (hc : canonicalClockNow clock = .ok n) :
    effectiveNow db clock ns =
      .ok (unixTime (effectiveTime (headOf db ns) n), db.withHead (headAt db ns n) db.stateEvents) := by
  simp only [effectiveNow, hc, ok_bind, ensureNamespaceHead_eq hh hns, advanceEffectiveTime_eq]

end PolicyEngine.Sqlite
