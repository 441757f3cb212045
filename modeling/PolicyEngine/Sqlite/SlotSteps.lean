import PolicyEngine.Sqlite.Appends

/-!
# Activate keeps a database accepted

The history of a slot is a suffix of its generations that ends at the head. An
activation adds the next generation, and retention takes a prefix again.
-/

open PolicyEngine.Lib

namespace PolicyEngine.Sqlite

variable {db db' : Database} {ns slot : Bytes}

/-! ## History -/

/-- Retention leaves the generations of one slot in `(first, b]`, and everything of the others. -/
structure HistoryPruned (db db' : Database) (ns slot : Bytes) (first b : Int) : Prop where
  eq : db' = { db with activationHistory := db'.activationHistory }
  subset : ∀ r ∈ db'.activationHistory, r ∈ db.activationHistory
  kept : ∀ r ∈ db.activationHistory, r.slotKey ≠ (ns, slot) ∨ r.generation.toInt = b → r ∈ db'.activationHistory
  first_lt : first < b
  filled : Fills first b (generationsOf db' ns slot)

variable {a : Int} {retention : Nat}

theorem historyPruned_of_eq_ok {b : Int} (hfill : Fills a b (generationsOf db ns slot)) (hab : a < b)
    (h : pruneActivationHistory db ns slot retention = .ok db') :
    HistoryPruned db db' ns slot (max a (b - retention)) b := by
  unfold pruneActivationHistory at h
  split at h
  · cases h
  next hretention =>
    rw [retainedTail, hfill.mergeSort_ge_getElem?] at h
    split at h
    next htail =>
      obtain rfl := Except.ok.inj h
      have hfew : ¬retention - 1 < (b - a).toNat := by
        intro hlt
        rw [if_pos hlt] at htail
        cases htail
      have hfirst : max a (b - retention) = a := by omega
      rw [hfirst]
      exact ⟨rfl, fun _ hr => hr, fun _ hr _ => hr, hab, hfill⟩
    next tail htail =>
      split at htail
      next hlt =>
        obtain rfl := Option.some.inj htail
        split at h
        · cases h
        obtain rfl := Except.ok.inj h
        have hfirst : max a (b - retention) = b - (retention - 1 : Nat) - 1 := by omega
        rw [hfirst]
        refine ⟨rfl, fun r hr => (Table.mem_deleteWhere.1 hr).1, fun r hr hkept => ?_, by omega,
          generationsOf_nodup _ _ _, fun x => ?_⟩
        · refine Table.mem_deleteWhere.2 ⟨hr, decide_eq_false ?_⟩
          rintro ⟨rfl, rfl, hold⟩
          obtain hother | hlast := hkept
          · exact hother rfl
          · omega
        · rw [mem_generationsOf]
          simp only [Table.mem_deleteWhere, decide_eq_false_iff_not]
          have hx := hfill.mem_iff x
          rw [mem_generationsOf] at hx
          constructor
          · rintro ⟨r, ⟨hr, hnew⟩, hkey, rfl⟩
            have hkey' : r.namespace_ = ns ∧ r.slot = slot := by simpa [ActivationRow.slotKey] using hkey
            have := hx.1 ⟨r, hr, hkey, rfl⟩
            have : ¬r.generation.toInt < b - (retention - 1 : Nat) := fun hold => hnew ⟨hkey'.1, hkey'.2, hold⟩
            omega
          · rintro ⟨hgt, hle⟩
            obtain ⟨r, hr, hkey, rfl⟩ := hx.2 ⟨by omega, hle⟩
            exact ⟨r, ⟨hr, fun hold => by omega⟩, hkey, rfl⟩
      next => cases htail

/-- Retention never fails on the history of a slot. -/
theorem pruneActivationHistory_ok {b : Int} (hfill : Fills a b (generationsOf db ns slot)) (h0 : 0 ≤ a)
    (hretention : 2 ≤ retention) : ∃ db', pruneActivationHistory db ns slot retention = .ok db' := by
  unfold pruneActivationHistory
  rw [if_neg (by omega), retainedTail, hfill.mergeSort_ge_getElem?]
  split
  · exact ⟨_, rfl⟩
  next tail htail =>
    split at htail
    · obtain rfl := Option.some.inj htail
      rw [if_neg (by omega)]
      exact ⟨_, rfl⟩
    · cases htail

/-! ## The slot of an activation -/

/-- The generations of a slot, up to that of its head. -/
theorem SlotsOk.filledOf (h : SlotsOk db) (ns slot : Bytes) :
    ∃ a ≤ ((db.slotHeads.get? (ns, slot)).map (·.generation.toInt)).getD 0,
      Fills a (((db.slotHeads.get? (ns, slot)).map (·.generation.toInt)).getD 0) (generationsOf db ns slot) := by
  cases hget : db.slotHeads.get? (ns, slot) with
  | some head =>
    obtain ⟨hmem, hkey⟩ := Table.get?_eq_some.1 hget
    obtain ⟨a, hlt, hfill⟩ := h.filled head hmem
    have hkey' : head.namespace_ = ns ∧ head.slot = slot := by simpa [ActivationRow.slotKey] using hkey
    rw [hkey'.1, hkey'.2] at hfill
    exact ⟨a, Int.le_of_lt hlt, hfill⟩
  | none =>
    refine ⟨0, Int.le_refl _, fills_of_empty fun x hx => ?_⟩
    obtain ⟨r, hr, hkey, -⟩ := mem_generationsOf.1 hx
    obtain ⟨head, hmem, hhead, -⟩ := (h.history r hr).2
    exact Table.get?_eq_none.1 hget head hmem (hhead.trans hkey)

variable {row : ActivationRow}

/-- The head of one slot is written with its history. -/
theorem SlotsOk.write (h : SlotsOk db) (hext : Extends db db') (hslots : db'.slotHeads = db.slotHeads.set row)
    (hrow : row ∈ db'.activationHistory) (hok : ActivationOk db' row)
    (hother : ∀ r, r.slotKey ≠ row.slotKey → (r ∈ db'.activationHistory ↔ r ∈ db.activationHistory))
    (hown : ∀ r ∈ db'.activationHistory, r = row ∨ r ∈ db.activationHistory)
    (hfill : ∃ a < row.generation.toInt, Fills a row.generation.toInt (generationsOf db' row.namespace_ row.slot)) :
    SlotsOk db' := by
  refine ⟨fun r hr => ?_, fun head hm => ?_, fun head hm => ?_⟩
  · obtain rfl | hr := hown r hr
    · exact ⟨hok, r, by rw [hslots]; exact Table.mem_set.2 (.inl rfl), rfl, Int.le_refl _⟩
    · obtain ⟨hrok, head, hm, hkey, hle⟩ := h.history r hr
      refine ⟨hext.activationOk hrok, ?_⟩
      obtain ⟨head', hm', hkey', hle'⟩ := hext.slots head hm
      exact ⟨head', hm', hkey'.trans hkey, Int.le_trans hle hle'⟩
  · rw [hslots] at hm
    obtain rfl | ⟨hm, hne⟩ := Table.mem_set.1 hm
    · exact ⟨hok, hrow⟩
    · exact ⟨hext.activationOk (h.heads head hm).1, (hother head hne).2 (h.heads head hm).2⟩
  · rw [hslots] at hm
    obtain rfl | ⟨hm, hne⟩ := Table.mem_set.1 hm
    · exact hfill
    · obtain ⟨a, hlt, hold⟩ := h.filled head hm
      refine ⟨a, hlt, generationsOf_nodup _ _ _, fun x => Iff.trans ?_ (hold.mem_iff x)⟩
      rw [mem_generationsOf, mem_generationsOf]
      refine exists_congr fun r => and_congr_left fun hr => hother r ?_
      rw [hr.1]
      exact hne

/-- The activation that a row holds. -/
def ActivationRow.activation (r : ActivationRow) : Activation :=
  ⟨r.namespace_, r.slot, r.revisionID, r.generation.toInt.toNat, unixTime r.activatedAtNS⟩

theorem ActivationOk.newActivation_eq {r} (h : ActivationOk db r) :
    newActivation r.namespace_ r.slot r.revisionID r.generation.toInt.toNat (unixTime r.activatedAtNS) =
      .ok r.activation := by
  have hpositive := h.generation
  exact newActivation_eq_ok.2 ⟨rfl, h.namespace_ok, h.slot, h.revisionID, by omega, unixTime_ne_zeroTime _⟩

theorem SlotsOk.readSlotHead_eq (h : SlotsOk db) (ns slot : Bytes) :
    readSlotHead db ns slot = .ok ((db.slotHeads.get? (ns, slot)).map (·.activation)) := by
  unfold readSlotHead
  cases hget : db.slotHeads.get? (ns, slot) with
  | none => rfl
  | some row =>
    obtain ⟨hmem, hkey⟩ := Table.get?_eq_some.1 hget
    obtain ⟨rfl, rfl⟩ := Prod.mk.injEq .. ▸ hkey
    have hrow := (h.heads row hmem).1
    dsimp only
    rw [hrow.newActivation_eq, decide_eq_true hrow.generation]
    rfl

/-- The generation that an activation follows. -/
theorem readSlotHead_generation {current} (h : readSlotHead db ns slot = .ok current) :
    (((current.map (·.generation)).getD 0 : Nat) : Int) = ((db.slotHeads.get? (ns, slot)).map (·.generation.toInt)).getD 0 := by
  unfold readSlotHead at h
  split at h
  next hget =>
    obtain rfl := Except.ok.inj h
    rw [hget]
    rfl
  next row hget =>
    rw [check_eq_ok, require_eq_ok, decide_eq_true_eq] at h
    obtain ⟨activation, hnew, hsome⟩ := bind_eq_ok.1 h.2
    obtain rfl := Except.ok.inj hsome
    obtain ⟨rfl, -⟩ := newActivation_eq_ok.1 (orFail_eq_ok.1 hnew)
    rw [hget]
    exact Int.toNat_of_nonneg (Int.le_of_lt h.1)

/-- The head of a slot moves to the next generation. -/
theorem extends_setSlot (history : Table ActivationRow.historyKey)
    (h : ((db.slotHeads.get? row.slotKey).map (·.generation.toInt)).getD 0 ≤ row.generation.toInt) :
    Extends db { db with slotHeads := db.slotHeads.set row, activationHistory := history } where
  heads _ hns := hns
  revisions _ _ hr := hr
  slots head hm := by
    by_cases hkey : head.slotKey = row.slotKey
    · rw [← hkey, Table.get?_key hm] at h
      exact ⟨row, Table.mem_set.2 (.inl rfl), hkey.symm, h⟩
    · exact ⟨head, Table.mem_set.2 (.inr ⟨hm, hkey⟩), rfl, Int.le_refl _⟩

/-- The history with the next generation. -/
theorem fills_setHistory (hfill : Fills a (row.generation.toInt - 1) (generationsOf db row.namespace_ row.slot))
    (ha : a < row.generation.toInt) (hhistory : db'.activationHistory = db.activationHistory.set row) :
    Fills a row.generation.toInt (generationsOf db' row.namespace_ row.slot) := by
  refine ⟨generationsOf_nodup _ _ _, fun x => ?_⟩
  have hx := hfill.mem_iff x
  rw [mem_generationsOf] at hx ⊢
  rw [hhistory]
  constructor
  · rintro ⟨r, hr, hkey, rfl⟩
    obtain rfl | ⟨hr, -⟩ := Table.mem_set.1 hr
    · omega
    · have := hx.1 ⟨r, hr, hkey, rfl⟩
      omega
  · rintro ⟨hgt, hle⟩
    by_cases hlast : x = row.generation.toInt
    · exact ⟨row, Table.mem_set.2 (.inl rfl), rfl, hlast.symm⟩
    · obtain ⟨r, hr, hkey, rfl⟩ := hx.2 ⟨hgt, by omega⟩
      refine ⟨r, Table.mem_set.2 (.inr ⟨hr, fun hsame => hlast ?_⟩), hkey, rfl⟩
      exact congrArg (fun k : Bytes × Bytes × Int64 => k.2.2.toInt) hsame

/-- An activation with its history: the next generation is written and retention takes a prefix. -/
theorem SlotsOk.activate (h : SlotsOk db)
    (hgen : row.generation.toInt = ((db.slotHeads.get? row.slotKey).map (·.generation.toInt)).getD 0 + 1)
    (hrow : ActivationOk db row) (hprune : pruneActivationHistory
      { db with slotHeads := db.slotHeads.set row, activationHistory := db.activationHistory.set row }
      row.namespace_ row.slot retention = .ok db') :
    SlotsOk db' ∧ Extends db db' ∧ db' = { db with slotHeads := db.slotHeads.set row, activationHistory := db'.activationHistory } := by
  obtain ⟨a, hle, hfill⟩ := h.filledOf row.namespace_ row.slot
  have hprev : ((db.slotHeads.get? (row.namespace_, row.slot)).map (·.generation.toInt)).getD 0 = row.generation.toInt - 1 := by
    rw [hgen]
    exact (Int.add_sub_cancel _ _).symm
  rw [hprev] at hle hfill
  have hnext : Fills a row.generation.toInt (generationsOf
      { db with slotHeads := db.slotHeads.set row, activationHistory := db.activationHistory.set row }
      row.namespace_ row.slot) := fills_setHistory hfill (by omega) rfl
  have hpruned := historyPruned_of_eq_ok hnext (by omega) hprune
  have heq := hpruned.eq
  have hext : Extends db db' := by
    rw [heq]
    exact extends_setSlot _ (by omega)
  refine ⟨h.write hext (by rw [heq]) (hpruned.kept row (Table.mem_set.2 (.inl rfl)) (.inr rfl)) (hext.activationOk hrow)
    (fun r hr => ⟨fun hmem => ?_, fun hmem => ?_⟩) (fun r hr => ?_) ⟨_, hpruned.first_lt, hpruned.filled⟩, hext, heq⟩
  · obtain rfl | ⟨hmem, -⟩ := Table.mem_set.1 (hpruned.subset r hmem)
    · exact absurd rfl hr
    · exact hmem
  · refine hpruned.kept r (Table.mem_set.2 (.inr ⟨hmem, fun hsame => hr ?_⟩)) (.inl hr)
    exact congrArg (fun k : Bytes × Bytes × Int64 => (k.1, k.2.1)) hsame
  · exact (Table.mem_set.1 (hpruned.subset r hr)).imp_right And.left

/-- The row that an activation is stored in. -/
theorem activationOk_new (hns : validateNamespace row.namespace_ = .ok ())
    (hslot : validateIdentifier row.slot = .ok ()) (hid : validRevisionIDString row.revisionID = true)
    (hgen : 0 < row.generation.toInt) (hhead : HasHead db row.namespace_)
    (hrevision : HasRevision db row.namespace_ row.revisionID) : ActivationOk db row := by
  refine ⟨?_, hhead, hrevision, hgen, hns, hslot, hid⟩
  have hidLength := validRevisionIDString_length hid
  simp only [activationBounded, Bool.and_eq_true, decide_eq_true_eq]
  exact ⟨⟨(validateNamespace_eq_ok.1 hns).2.1, (validateIdentifier_eq_ok.1 hslot).2.1⟩, hidLength.le.trans (by decide)⟩

section

variable [Primitives]

/-- The slot tables of an accepted database take an activation. -/
theorem Accepted.setSlot {key : Bytes} (h : Accepted key db)
    (hgen : row.generation.toInt = ((db.slotHeads.get? row.slotKey).map (·.generation.toInt)).getD 0 + 1)
    (hrow : ActivationOk db row) (hprune : pruneActivationHistory
      { db with slotHeads := db.slotHeads.set row, activationHistory := db.activationHistory.set row }
      row.namespace_ row.slot retention = .ok db') :
    Grows key db db' ∧ row ∈ db'.slotHeads ∧ Extends db db' := by
  obtain ⟨hslots, hext, heq⟩ := h.slots.activate hgen hrow hprune
  have hgens : ∀ ns, (headOf db' ns).dataGeneration = (headOf db ns).dataGeneration := fun ns => by rw [heq]; rfl
  have hbound : dataGenerationOf db' = dataGenerationOf db := funext fun ns => by
    rw [dataGenerationOf, dataGenerationOf, hgens]
  have hsame := expiredThroughOf_congr (show db'.namespaceHeads = db.namespaceHeads by rw [heq])
  refine ⟨⟨h.rebuild hext (by rw [heq]) (by rw [heq]; exact h.heads) (fun r hr => .inl (by rw [heq] at hr; exact hr)) hslots
    (fun r hr => .inl (by rw [heq] at hr; exact hr)) (h.attributes.extends hext (by rw [heq]) (by rw [heq]))
    (by rw [heq]; exact h.attributes_bounded) (by rw [heq]; exact h.ancestors_bounded)
    (hbound ▸ h.events.extends hext (by rw [heq]) (by rw [heq])) (h.idempotency.extends hext (by rw [heq]) hgens),
      fun ns => (hsame ns).ge⟩, ?_, hext⟩
  rw [heq]
  exact Table.mem_set.2 (.inl rfl)

omit [Primitives] in
/-- The generation after one below the limit is a positive column value. -/
theorem nextGeneration_lt {current : Option Activation} (h : current.all (·.generation < maxInt64) = true) :
    (current.map (·.generation)).getD 0 + 1 < 2 ^ 63 := by
  cases current with
  | none => decide
  | some current =>
    have hcurrent : current.generation < maxInt64 := by simpa using h
    simp only [maxInt64] at hcurrent
    simp only [Option.map_some, Option.getD_some]
    omega

theorem Accepted.activate {s : Store} (h : Accepted s.cursorKey db) {clock : Clock} {request : ActivateRequest}
    {activation : Activation} (hact : activate s db clock request = .ok (activation, db')) : Grows s.cursorKey db db' := by
  rw [Sqlite.activate] at hact
  obtain ⟨_, hrequest, hact⟩ := bind_eq_ok.1 hact
  obtain ⟨-, hns, hslot, hid, -⟩ := newActivateRequest_eq_ok.1 hrequest
  rw [activateTx] at hact
  obtain ⟨found, -, hact⟩ := bind_eq_ok.1 hact
  cases found with
  | none => cases hact
  | some record =>
    obtain ⟨current, hcurrent, hact⟩ := bind_eq_ok.1 hact
    simp only [check_eq_ok, require_eq_ok] at hact
    obtain ⟨-, hbelow, hact⟩ := hact
    obtain ⟨⟨occurredAt, db₁⟩, hnow, hact⟩ := bind_eq_ok.1 hact
    obtain ⟨activation', hnew, hact⟩ := bind_eq_ok.1 hact
    obtain ⟨rfl, -⟩ := newActivation_eq_ok.1 (orFail_eq_ok.1 hnew)
    dsimp only at hact
    split at hact
    · cases hact
    next occurredAtNS htime =>
      simp only [check_eq_ok, require_eq_ok] at hact
      obtain ⟨hrevision, hact⟩ := hact
      obtain ⟨history, hinsert, hact⟩ := bind_eq_ok.1 hact
      obtain ⟨-, rfl⟩ := insertRow_eq_ok hinsert
      obtain ⟨db₂, hprune, hact⟩ := bind_eq_ok.1 hact
      obtain ⟨db₃, happend, hact⟩ := bind_eq_ok.1 hact
      obtain ⟨response, -, hact⟩ := bind_eq_ok.1 hact
      obtain ⟨-, rfl⟩ := Prod.mk.injEq .. ▸ Except.ok.inj hact
      -- the clock, the slot and the event are written one after the other
      obtain ⟨hclock, hhead, -⟩ := EventStep.effectiveNow h.heads h.events hns hnow
      have h₁ := hclock.grows h
      have hprevious := readSlotHead_generation hcurrent
      have hslots₁ : db₁.slotHeads = db.slotHeads := by rw [hclock.moved.eq]
      generalize hg : (current.map (·.generation)).getD 0 = previous at *
      have hlt : previous + 1 < 2 ^ 63 := hg ▸ nextGeneration_lt hbelow
      have htoInt : (Int64.ofNat (previous + 1)).toInt = previous + 1 := Int64.toInt_ofNat_of_lt hlt
      have hrow : ActivationOk db₁
          ⟨request.namespace_, request.slot, request.targetRevisionID, Int64.ofNat (previous + 1), occurredAtNS⟩ :=
        activationOk_new hns hslot hid (by dsimp only; omega) hhead (hasRevision_iff.1 hrevision)
      obtain ⟨h₂, hmem, hext⟩ := h₁.accepted.setSlot (by
        dsimp only [ActivationRow.slotKey]
        rw [htoInt, hslots₁, ← hprevious]) hrow hprune
      obtain ⟨hevent, -⟩ := EventStep.appendStateEvent h₂.accepted.heads h₂.accepted.events hns (by dsimp only; omega) (by simp)
        (by exact ⟨⟨_, hmem, rfl, by dsimp only; omega⟩, hext.revisions _ _ (hasRevision_iff.1 hrevision)⟩) happend
      exact (h₁.trans h₂).trans (hevent.grows h₂.accepted)

theorem Accepted.readRevision_ok {key id : Bytes} (h : Accepted key db) (hrevision : HasRevision db ns id) :
    ∃ record, readRevision db ns id = .ok (some record) := by
  obtain ⟨row, hmem, hkey⟩ := hrevision
  obtain ⟨record, hrecord⟩ := (h.revisions row hmem).record
  rw [readRevision, ← hkey, Table.get?_key hmem]
  exact ⟨record, by simp only [hrecord, ok_bind]⟩

/-- The head of a slot after an activation, and the history that its retention leaves. -/
structure Activated (s : Store) (db db' : Database) (ns slot : Bytes) (generation : Nat) (first : Int) : Prop where
  grows : Grows s.cursorKey db db'
  revisions : ∀ id, HasRevision db ns id → HasRevision db' ns id
  head : ∃ row ∈ db'.slotHeads, row.slotKey = (ns, slot) ∧ row.generation.toInt = generation
  filled : Fills first generation (generationsOf db' ns slot)
  sequence : (headOf db' ns).eventSequence.toInt = (headOf db ns).eventSequence.toInt + 1

/-- An activation of a stored revision whose expectation is met succeeds while there are generations and sequences. -/
theorem Accepted.activate_ok {s : Store} (h : Accepted s.cursorKey db) (hretention : 2 ≤ s.activationHistoryRetention)
    {clock : Clock} {n : Int64} (hclock : canonicalClockNow clock = .ok n) {request : ActivateRequest}
    (hns : validateNamespace request.namespace_ = .ok ()) (hslot : validateIdentifier request.slot = .ok ())
    (hid : validRevisionIDString request.targetRevisionID = true) (hexpectation : request.expectation.valid = true)
    (hrevision : HasRevision db request.namespace_ request.targetRevisionID) {current : Option Activation}
    (hcurrent : readSlotHead db request.namespace_ request.slot = .ok current)
    (hmatch : activationExpectationMatches request.expectation current = true)
    (hbelow : current.all (·.generation < maxInt64) = true)
    (hmax : (headOf db request.namespace_).eventSequence.toInt ≠ maxInt64) {first : Int} (h0 : 0 ≤ first)
    (hfirst : first ≤ ((current.map (·.generation)).getD 0 : Nat))
    (hfill : Fills first ((current.map (·.generation)).getD 0 : Nat) (generationsOf db request.namespace_ request.slot)) :
    ∃ activation db', Sqlite.activate s db clock request = .ok (activation, db') ∧
      Activated s db db' request.namespace_ request.slot ((current.map (·.generation)).getD 0 + 1)
        (max first ((current.map (·.generation)).getD 0 + 1 - s.activationHistoryRetention)) := by
  have hprevious := readSlotHead_generation hcurrent
  obtain ⟨record, hrecord⟩ := h.readRevision_ok hrevision
  have hlt := nextGeneration_lt hbelow
  generalize hg : (current.map (·.generation)).getD 0 = previous at *
  have htoInt : (Int64.ofNat (previous + 1)).toInt = previous + 1 := Int64.toInt_ofNat_of_lt hlt
  -- the clock
  have hnow := effectiveNow_eq h.heads hns hclock
  obtain ⟨hstep, hhead, -⟩ := EventStep.effectiveNow h.heads h.events hns hnow
  have hvalid := effectiveTime_valid (headOk_headOf h.heads hns).effective (canonicalClockNow_valid hclock)
  have h₁ := hstep.grows h
  have hmoved := hstep.moved
  generalize effectiveTime (headOf db request.namespace_) n = at_ at *
  generalize hdb₁ : db.withHead (headAt db request.namespace_ n) db.stateEvents = db₁ at *
  have hsequence₁ : (headOf db₁ request.namespace_).eventSequence = (headOf db request.namespace_).eventSequence := by
    rw [← hdb₁, headOf_withHead]
    simp only [headAt, headOf_namespace, if_true]
  have htime : sqliteTimestamp (unixTime at_) = some at_ := sqliteTimestamp_eq_some.2 ⟨rfl, validTimestamp_iff.1 hvalid⟩
  have hnew : newActivation request.namespace_ request.slot request.targetRevisionID (previous + 1) (unixTime at_) =
      .ok ⟨request.namespace_, request.slot, request.targetRevisionID, previous + 1, unixTime at_⟩ :=
    newActivation_eq_ok.2 ⟨rfl, hns, hslot, hid, by omega, unixTime_ne_zeroTime at_⟩
  -- the slot
  have hrevision₁ := hmoved.extends.revisions _ _ hrevision
  obtain ⟨row, hrowEq⟩ : ∃ row : ActivationRow,
      row = ⟨request.namespace_, request.slot, request.targetRevisionID, Int64.ofNat (previous + 1), at_⟩ := ⟨_, rfl⟩
  have hgeneration : row.generation.toInt = previous + 1 := by rw [hrowEq, htoInt]
  have hrow : ActivationOk db₁ row := by
    rw [hrowEq]
    exact activationOk_new hns hslot hid (by dsimp only; omega) hhead hrevision₁
  have hfill₁ : Fills first (row.generation.toInt - 1) (generationsOf db₁ row.namespace_ row.slot) := by
    rw [hgeneration, Int.add_sub_cancel, hrowEq, hmoved.eq]
    exact hfill
  have hfresh : ∀ r ∈ db₁.activationHistory, r.historyKey ≠ row.historyKey := by
    intro r hr hkey
    simp only [ActivationRow.historyKey, Prod.mk.injEq] at hkey
    have hle := ((hfill₁.mem_iff r.generation.toInt).1 (mem_generationsOf.2 ⟨r, hr, by
      rw [ActivationRow.slotKey, hkey.1, hkey.2.1], rfl⟩)).2
    rw [hkey.2.2] at hle
    omega
  have hnext : Fills first row.generation.toInt (generationsOf
      { db₁ with slotHeads := db₁.slotHeads.set row, activationHistory := db₁.activationHistory.set row }
      row.namespace_ row.slot) := fills_setHistory hfill₁ (by omega) rfl
  obtain ⟨db₂, hprune⟩ := pruneActivationHistory_ok hnext h0 hretention
  have hpruned := historyPruned_of_eq_ok hnext (by omega) hprune
  obtain ⟨h₂, hmem, hext⟩ := h₁.accepted.setSlot (by
    rw [hgeneration, hrowEq, hmoved.eq, hprevious]
    rfl) hrow hprune
  -- the event
  have hsequence₂ : (headOf db₂ request.namespace_).eventSequence = (headOf db request.namespace_).eventSequence := by
    rw [← hsequence₁, hpruned.eq]
    rfl
  have happended : ∃ db', appendStateEvent s db₂ ⟨request.namespace_, [], .slotActivated, request.targetRevisionID,
      request.slot, previous + 1, 0, zeroTime⟩ (unixTime at_) = .ok db' ∧
      (headOf db' request.namespace_).eventSequence.toInt = (headOf db₂ request.namespace_).eventSequence.toInt + 1 :=
    appendStateEvent_ok s h₂.accepted.heads h₂.accepted.events hns (by simp [StateEvent.fieldsMatchKind, hid, hslot])
      (by dsimp only; omega) (by simp) hvalid (by rwa [hsequence₂])
  obtain ⟨db₃, happend, hsequence⟩ := happended
  have hresult : Sqlite.activate s db clock request =
      .ok (⟨request.namespace_, request.slot, request.targetRevisionID, previous + 1, unixTime at_⟩, db₃) := by
    have hstored : (db₁.revisions.get? (request.namespace_, request.targetRevisionID)).isSome = true :=
      hasRevision_iff.2 hrevision₁
    rw [Sqlite.activate, newActivateRequest_eq_ok.2 ⟨rfl, hns, hslot, hid, hexpectation⟩, ok_bind, activateTx, hrecord,
      ok_bind]
    dsimp only
    rw [hcurrent, ok_bind, hmatch, require_true, ok_bind, hbelow, require_true, ok_bind, hnow, ok_bind]
    dsimp only
    rw [hg, hnew, orFail_ok, ok_bind]
    dsimp only
    rw [htime]
    dsimp only
    rw [hstored, require_true, ok_bind, ← hrowEq, insertRow_eq hfresh, ok_bind]
    rw [hrowEq] at hprune ⊢
    rw [hprune, ok_bind, happend, ok_bind, newActivateResponse, if_pos (newActivation_valid hnew), orFail_ok, ok_bind]
  obtain ⟨hevent, -⟩ := EventStep.appendStateEvent h₂.accepted.heads h₂.accepted.events hns (by dsimp only; omega)
    (by simp) (by
      refine ⟨⟨row, hmem, by rw [hrowEq]; rfl, ?_⟩, hext.revisions _ _ hrevision₁⟩
      dsimp only
      omega) happend
  refine ⟨_, db₃, hresult, h.activate hresult, fun id hstored => ?_, ⟨row, ?_, by rw [hrowEq]; rfl, hgeneration⟩, ?_, ?_⟩
  · exact hevent.moved.extends.revisions _ _ (hext.revisions _ _ (hmoved.extends.revisions _ _ hstored))
  · rw [hevent.moved.eq]
    exact hmem
  · have hfilled := hpruned.filled
    rw [hgeneration, hrowEq] at hfilled
    rw [hevent.moved.eq]
    exact hfilled
  · rw [hsequence, hsequence₂]

omit [Primitives] in
/-- What a caller expects who has just resolved the slot. -/
theorem exists_expectation (h : SlotsOk db) (ns slot : Bytes) : ∃ expectation : SlotExpectation, expectation.valid = true ∧
    activationExpectationMatches expectation ((db.slotHeads.get? (ns, slot)).map (·.activation)) = true := by
  cases hget : db.slotHeads.get? (ns, slot) with
  | none => exact ⟨newUnsetSlotExpectation, rfl, rfl⟩
  | some row =>
    have hrow := (h.heads row (Table.get?_eq_some.1 hget).1).1
    have hpositive := hrow.generation
    have hne : row.revisionID ≠ [] := by
      intro hnil
      have hlength := validRevisionIDString_length hrow.revisionID
      simp [hnil] at hlength
    have hactive : SlotExpectation.active? ⟨.active, row.revisionID, row.generation.toInt.toNat⟩ =
        some (row.revisionID, row.generation.toInt.toNat) := if_pos ⟨rfl, hne, by dsimp only; omega⟩
    refine ⟨⟨.active, row.revisionID, row.generation.toInt.toNat⟩, ?_, ?_⟩
    · rw [SlotExpectation.valid, hactive, Bool.or_eq_true]
      exact .inr hrow.revisionID
    · simp only [activationExpectationMatches, hactive, Option.map_some, ActivationRow.activation, BEq.rfl, Bool.and_self]
      rfl

end

end PolicyEngine.Sqlite
