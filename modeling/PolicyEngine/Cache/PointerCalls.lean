import PolicyEngine.Cache.Pointers

/-!
# What the calls of the slot-pointer cache do

Residents and reservations are apart and together within the bound, and the order of
use holds each resident once: every call keeps that. For each call the caches it may
leave are listed once, and what follows is read off the list.
-/

open PolicyEngine.Lib

namespace PolicyEngine.Cache

namespace PointerCache

/-! ## What every call keeps -/

structure Wf (c : PointerCache) : Prop where
  disjoint : ∀ k, (c.entries.get? k).isSome = true → c.fills.get? k = none
  bounded : c.reserved ≤ c.maxEntries
  recent : Recent c.entries c.recency
  fresh : ∀ k fill, c.fills.get? k = some fill → fill.state < c.nextState

variable {c : PointerCache}

theorem wf_new (maxEntries : Nat) : (NewPointerCache maxEntries).Wf :=
  ⟨fun _ _ => rfl, Nat.zero_le _, .empty, fun _ _ h => by cases h⟩

theorem Wf.touch (h : c.Wf) (key : SlotKey) : { c with recency := touch key c.recency }.Wf :=
  ⟨h.disjoint, h.bounded, h.recent.touch key, h.fresh⟩

/-- Another pointer for a resident. -/
theorem Wf.refresh (h : c.Wf) {entry} (hentry : (c.entries.get? entry.key).isSome = true) :
    { c with entries := c.entries.set entry }.Wf where
  disjoint k hk := by
    rw [Table.get?_set] at hk
    split at hk
    next heq => exact h.disjoint k (heq ▸ hentry)
    next => exact h.disjoint k hk
  bounded := by
    have hlength := congrArg List.length (Table.keys_set hentry)
    rw [List.length_map, List.length_map] at hlength
    have := h.bounded
    simp only [reserved, hlength] at this ⊢
    exact this
  recent := h.recent.set hentry
  fresh := h.fresh

variable {fill : PointerFillState}

/-- Another state of an active fill. -/
theorem Wf.note (h : c.Wf) {fill'} (hfill : c.fills.get? fill.key = some fill) (hkey : fill'.key = fill.key)
    (hstate : fill'.state = fill.state) : { c with fills := c.fills.set fill' }.Wf where
  disjoint k hk := by
    have hnone := h.disjoint k hk
    rw [Table.get?_set, if_neg, hnone]
    rintro rfl
    rw [hkey, hfill] at hnone
    cases hnone
  bounded := by
    have hlength := congrArg List.length (Table.keys_set (t := c.fills) (r := fill') (by rw [hkey, hfill]; rfl))
    rw [List.length_map, List.length_map] at hlength
    have := h.bounded
    simp only [reserved, hlength] at this ⊢
    exact this
  recent := h.recent
  fresh k f hf := by
    rw [Table.get?_set] at hf
    split at hf
    next => rw [← Option.some.inj hf, hstate]; exact h.fresh _ _ hfill
    next => exact h.fresh k f hf

/-- A fill closed leaves room. -/
theorem Wf.release (h : c.Wf) {key : SlotKey} (hfill : (c.fills.get? key).isSome = true) :
    { c with fills := c.fills.delete key }.Wf ∧ { c with fills := c.fills.delete key }.reserved < c.maxEntries := by
  have hlength := Table.length_delete hfill
  have hbounded := h.bounded
  have hroom : { c with fills := c.fills.delete key }.reserved < c.maxEntries := by
    simp only [reserved] at hbounded ⊢
    omega
  refine ⟨⟨fun k hk => ?_, Nat.le_of_lt hroom, h.recent, fun k f hf => ?_⟩, hroom⟩
  · rw [Table.get?_delete, h.disjoint k hk, ite_self]
  · rw [Table.get?_delete] at hf
    split at hf
    · cases hf
    · exact h.fresh k f hf

theorem Wf.evict (h : c.Wf) (hresident : c.entries.rows.length ≠ 0) :
    c.evictOldestLocked.Wf ∧ c.evictOldestLocked.reserved < c.maxEntries := by
  unfold evictOldestLocked
  split
  next hnone =>
    rw [List.getLast?_eq_none_iff] at hnone
    rw [h.recent.length_eq, hnone] at hresident
    exact absurd rfl hresident
  next key hlast =>
    have hkey : (c.entries.get? key).isSome = true := h.recent.mem_iff.1 (List.mem_of_getLast? hlast)
    have hlength := Table.length_delete hkey
    have hbounded := h.bounded
    have hroom : { c with entries := c.entries.delete key, recency := c.recency.dropLast }.reserved < c.maxEntries := by
      simp only [reserved] at hbounded ⊢
      omega
    refine ⟨⟨fun k hk => h.disjoint k ?_, Nat.le_of_lt hroom, h.recent.delete_back hlast, h.fresh⟩, hroom⟩
    rw [Table.get?_delete] at hk
    split at hk
    · cases hk
    · exact hk

/-- A reservation in free room. -/
theorem Wf.reserve (h : c.Wf) (hroom : c.reserved < c.maxEntries) {key : SlotKey} (hentry : c.entries.get? key = none)
    (hfill : c.fills.get? key = none) :
    { c with fills := c.fills.set ⟨key, c.nextState, none, false⟩, nextState := c.nextState + 1 }.Wf where
  disjoint k hk := by
    rw [Table.get?_set, h.disjoint k hk, if_neg]
    rintro rfl
    rw [hentry] at hk
    cases hk
  bounded := by
    have hlength := Table.length_set (t := c.fills) (r := ⟨key, c.nextState, none, false⟩) hfill
    simp only [reserved, hlength] at hroom ⊢
    omega
  recent := h.recent
  fresh k f hf := by
    rw [Table.get?_set] at hf
    split at hf
    next => rw [← Option.some.inj hf]; exact Nat.lt_succ_self _
    next => exact Nat.lt_succ_of_lt (h.fresh k f hf)

variable {key : SlotKey}

/-- An entry in free room. -/
theorem Wf.admit_ (h : c.Wf) (hroom : c.reserved < c.maxEntries) (pointer : SlotPointer)
    (hentry : c.entries.get? key = none) (hfill : c.fills.get? key = none) :
    { c with entries := c.entries.set ⟨key, pointer⟩, recency := key :: c.recency }.Wf where
  disjoint k hk := by
    rw [Table.get?_set] at hk
    split at hk
    next heq => exact heq ▸ hfill
    next => exact h.disjoint k hk
  bounded := by
    have hlength := Table.length_set (t := c.entries) (r := ⟨key, pointer⟩) hentry
    simp only [reserved, hlength] at hroom ⊢
    omega
  recent := h.recent.push (r := ⟨key, pointer⟩) hentry
  fresh := h.fresh

/-! ## What a call does -/

/-- A pending pointer is replaced by newer ones only, and a conflict is for good. -/
structure Noted (fill : PointerFillState) (pointer : SlotPointer) (fill' : PointerFillState) : Prop where
  key : fill'.key = fill.key
  state : fill'.state = fill.state
  conflicted : fill.conflicted = true → fill'.conflicted = true
  pending : ∀ q, fill.pending = some q → ∃ q', fill'.pending = some q' ∧ q.generation ≤ q'.generation
  covers : fill'.conflicted = true ∨ ∃ q, fill'.pending = some q ∧ pointer.generation ≤ q.generation
  source : ∀ q, fill'.pending = some q → q = pointer ∨ fill.pending = some q

theorem noted_updatePendingFill (fill : PointerFillState) (pointer : SlotPointer) :
    Noted fill pointer (updatePendingFill fill pointer).2 := by
  unfold updatePendingFill
  split
  next hconflicted => exact ⟨rfl, rfl, id, fun q hq => ⟨q, hq, Nat.le_refl _⟩, .inl hconflicted, fun q hq => .inr hq⟩
  split
  next hnone =>
    exact ⟨rfl, rfl, id, fun q hq => (by rw [hnone] at hq; cases hq), .inr ⟨pointer, rfl, Nat.le_refl _⟩,
      fun q hq => .inl (Option.some.inj hq).symm⟩
  next pending hpending =>
    have hself : ∀ q, fill.pending = some q → ∃ q', fill.pending = some q' ∧ q.generation ≤ q'.generation :=
      fun q hq => ⟨q, hq, Nat.le_refl _⟩
    split
    next hnewer =>
      refine ⟨rfl, rfl, id, fun q hq => ⟨pointer, rfl, ?_⟩, .inr ⟨pointer, rfl, Nat.le_refl _⟩,
        fun q hq => .inl (Option.some.inj hq).symm⟩
      obtain rfl := Option.some.inj (hpending.symm.trans hq)
      exact Nat.le_of_lt hnewer
    next hnewer =>
      have hcovers : ∃ q, fill.pending = some q ∧ pointer.generation ≤ q.generation :=
        ⟨pending, hpending, Nat.le_of_not_lt hnewer⟩
      split
      next => exact ⟨rfl, rfl, id, hself, .inr hcovers, fun q hq => .inr hq⟩
      split
      next => exact ⟨rfl, rfl, fun _ => rfl, hself, .inl rfl, fun q hq => .inr hq⟩
      next => exact ⟨rfl, rfl, id, hself, .inr hcovers, fun q hq => .inr hq⟩

/-- The caches an update may leave. -/
inductive Updated (c : PointerCache) (key : SlotKey) (pointer : SlotPointer) : PointerCache → Prop
  | refused (h : key.valid = false ∨ pointer.valid = false) : Updated c key pointer c
  | absent (hentry : c.entries.get? key = none) (hfill : c.fills.get? key = none) : Updated c key pointer c
  | behind {existing : PointerEntry} (hentry : c.entries.get? key = some existing)
      (hle : pointer.generation ≤ existing.pointer.generation) : Updated c key pointer c
  | same {existing : PointerEntry} (hentry : c.entries.get? key = some existing)
      (hle : pointer.generation ≤ existing.pointer.generation) :
      Updated c key pointer { c with recency := Lib.touch key c.recency }
  | newer {existing : PointerEntry} (hentry : c.entries.get? key = some existing)
      (hlt : existing.pointer.generation < pointer.generation) :
      Updated c key pointer
        { c with entries := c.entries.set ⟨key, pointer⟩, recency := Lib.touch key c.recency }
  | noted {fill fill' : PointerFillState} (hentry : c.entries.get? key = none) (hfill : c.fills.get? key = some fill)
      (h : Noted fill pointer fill') : Updated c key pointer { c with fills := c.fills.set fill' }

theorem updated (c : PointerCache) (key : SlotKey) (pointer : SlotPointer) :
    Updated c key pointer (c.UpdateCommitted key pointer).2 := by
  unfold UpdateCommitted
  split
  next h => exact .refused (.inl (by simpa using h))
  split
  next h => exact .refused (.inr (by simpa using h))
  split
  next existing hentry =>
    obtain ⟨-, rfl⟩ := Table.get?_eq_some.1 hentry
    unfold updateResidentLocked
    split
    next hlt => exact .behind hentry (Nat.le_of_lt hlt)
    next hlt =>
      split
      next heq => exact .behind hentry (Nat.le_of_eq heq.1)
      split
      next heq => exact .same hentry (Nat.le_of_eq heq)
      next hne => exact .newer hentry (by omega)
  next hentry =>
    split
    next fill hfill => exact .noted hentry hfill (noted_updatePendingFill fill pointer)
    next hfill => exact .absent hentry hfill

theorem Updated.wf {c' pointer} (hu : Updated c key pointer c') (h : c.Wf) : c'.Wf := by
  cases hu with
  | refused | absent | behind => exact h
  | same => exact h.touch key
  | newer hentry => exact (@Wf.refresh _ h ⟨key, pointer⟩ (by rw [hentry]; rfl)).touch key
  | noted hentry hfill hn =>
    obtain ⟨-, rfl⟩ := Table.get?_eq_some.1 hfill
    exact h.note hfill hn.key hn.state

theorem evictOldestLocked_frame (c : PointerCache) : c.evictOldestLocked.fills = c.fills ∧
    c.evictOldestLocked.nextState = c.nextState ∧ c.evictOldestLocked.maxEntries = c.maxEntries ∧
      ∀ k e, c.evictOldestLocked.entries.get? k = some e → c.entries.get? k = some e := by
  unfold evictOldestLocked
  split
  next => exact ⟨rfl, rfl, rfl, fun _ _ h => h⟩
  next key _ =>
    refine ⟨rfl, rfl, rfl, fun k e he => ?_⟩
    rw [Table.get?_delete] at he
    split at he
    · cases he
    · exact he

/-- The caches a begin may leave: the same, or one with a fresh fill and perhaps one resident less. -/
inductive Begun (c : PointerCache) (key : SlotKey) : Except CacheError AuthoritativeFill × PointerCache → Prop
  | refused (e : CacheError) : Begun c key (.error e, c)
  | reserved {c₁ : PointerCache} (hwf : c₁.Wf) (hroom : c₁.reserved < c₁.maxEntries)
      (hentry : c₁.entries.get? key = none) (hfill : c.fills.get? key = none) (hfills : c₁.fills = c.fills)
      (hnext : c₁.nextState = c.nextState) (hmax : c₁.maxEntries = c.maxEntries)
      (hentries : ∀ k e, c₁.entries.get? k = some e → c.entries.get? k = some e) :
      Begun c key (.ok ⟨key, some c.nextState⟩,
        { c₁ with fills := c₁.fills.set ⟨key, c.nextState, none, false⟩, nextState := c.nextState + 1 })

theorem begun (h : c.Wf) (key : SlotKey) : Begun c key (c.BeginAuthoritativeFill key) := by
  unfold BeginAuthoritativeFill
  split
  next => exact .refused _
  split
  next => exact .refused _
  next hentry =>
    rw [Bool.not_eq_true, Option.isSome_eq_false_iff, Option.isNone_iff_eq_none] at hentry
    split
    next => exact .refused _
    split
    next => exact .refused _
    next hfill =>
      rw [Bool.not_eq_true, Option.isSome_eq_false_iff, Option.isNone_iff_eq_none] at hfill
      split
      next => exact .refused _
      next hlimit =>
        dsimp only
        split
        next hfull =>
          have hresident : c.entries.rows.length ≠ 0 := fun hzero => hlimit ⟨hfull, hzero⟩
          obtain ⟨hwf, hroom⟩ := h.evict hresident
          obtain ⟨hfills, hnext, hmax, hentries⟩ := evictOldestLocked_frame c
          rw [hnext]
          rw [← hmax] at hroom
          refine .reserved hwf hroom ?_ hfill hfills hnext hmax hentries
          cases hget : c.evictOldestLocked.entries.get? key with
          | none => rfl
          | some e => rw [hentries key e hget] at hentry; cases hentry
        next hroom =>
          exact .reserved h (Nat.lt_of_le_of_ne h.bounded hroom) hentry hfill rfl rfl rfl fun _ _ he => he

/-- The caches a completion may leave. -/
inductive Completed (c : PointerCache) (f : AuthoritativeFill) (pointer : SlotPointer) : PointerCache → Prop
  | closed : Completed c f pointer c
  | released {fill : PointerFillState} (hfill : c.held f = some fill) :
      Completed c f pointer { c with fills := c.fills.delete f.key }
  | admitted {fill : PointerFillState} {selected : SlotPointer} (hfill : c.held f = some fill)
      (hpointer : pointer.valid = true) (hconflicted : fill.conflicted = false)
      (hselected : selectNewestPointer pointer fill = .ok selected) :
      Completed c f pointer { c with
        fills := c.fills.delete f.key, entries := c.entries.set ⟨f.key, selected⟩, recency := f.key :: c.recency }

theorem held_eq_some {f} :
    c.held f = some fill ↔ c.fills.get? f.key = some fill ∧ f = ⟨fill.key, some fill.state⟩ := by
  obtain ⟨key, state⟩ := f
  simp only [held, Option.filter_eq_some_iff, decide_eq_true_eq, AuthoritativeFill.mk.injEq]
  refine and_congr_right fun hget => ?_
  obtain ⟨-, rfl⟩ := Table.get?_eq_some.1 hget
  simp

theorem completed (h : c.Wf) (f : AuthoritativeFill) (pointer : SlotPointer) :
    Completed c f pointer (c.Complete f pointer).2 := by
  unfold Complete
  split
  next => exact .closed
  split
  next => exact .closed
  next fill hfill =>
    dsimp only
    split
    next => exact .released hfill
    next hpointer =>
      split
      next => exact .released hfill
      next hconflicted =>
        split
        next => exact .released hfill
        next selected hselected =>
          obtain ⟨-, hroom⟩ := @Wf.release _ h f.key (by rw [(held_eq_some.1 hfill).1]; rfl)
          -- the fill's own room is free, so nothing is evicted
          simp only [admitPointerLocked]
          rw [if_neg (by omega), if_neg (Nat.ne_of_lt hroom)]
          exact .admitted hfill (by simpa using hpointer) (by simpa using hconflicted) hselected

/-- The newer of the two pointers is selected. -/
theorem selectNewestPointer_eq_ok {authoritative selected} (h : selectNewestPointer authoritative fill = .ok selected) :
    (selected = authoritative ∨ fill.pending = some selected) ∧ authoritative.generation ≤ selected.generation ∧
      ∀ q, fill.pending = some q → q.generation ≤ selected.generation := by
  unfold selectNewestPointer at h
  split at h
  next hnone =>
    obtain rfl := Except.ok.inj h
    exact ⟨.inl rfl, Nat.le_refl _, fun q hq => by rw [hnone] at hq; cases hq⟩
  next pending hpending =>
    have hself (q : SlotPointer) (hq : fill.pending = some q) : q = pending :=
      (Option.some.inj (hpending.symm.trans hq)).symm
    split at h
    next hlt =>
      obtain rfl := Except.ok.inj h
      exact ⟨.inl rfl, Nat.le_refl _, fun q hq => hself q hq ▸ Nat.le_of_lt hlt⟩
    next hnewer =>
      split at h
      next hlt =>
        obtain rfl := Except.ok.inj h
        exact ⟨.inr hpending, Nat.le_of_lt hlt, fun q hq => hself q hq ▸ Nat.le_refl _⟩
      split at h
      next => cases h
      next =>
        obtain rfl := Except.ok.inj h
        exact ⟨.inl rfl, Nat.le_refl _, fun q hq => by rw [hself q hq]; omega⟩

theorem Completed.wf {c' f pointer} (hc : Completed c f pointer c') (h : c.Wf) : c'.Wf := by
  cases hc with
  | closed => exact h
  | released hfill => exact (h.release (by rw [(held_eq_some.1 hfill).1]; rfl)).1
  | @admitted fill selected hfill =>
    have hget := (held_eq_some.1 hfill).1
    obtain ⟨hwf, hroom⟩ := @Wf.release _ h f.key (by rw [hget]; rfl)
    refine hwf.admit_ hroom selected ?_ ?_
    · cases hentry : c.entries.get? f.key with
      | none => rfl
      | some e =>
        have hnone := h.disjoint f.key (by rw [hentry]; rfl)
        rw [hget] at hnone
        cases hnone
    · rw [Table.get?_delete, if_pos rfl]

theorem Wf.cancel (h : c.Wf) (f : AuthoritativeFill) : (c.Cancel f).Wf := by
  unfold Cancel
  split
  next => exact h
  next fill hfill => exact (h.release (by rw [(held_eq_some.1 hfill).1]; rfl)).1

theorem Wf.pin (h : c.Wf) (key : SlotKey) : (c.Pin key).2.Wf := by
  unfold Pin
  split
  next => exact h
  split
  next => exact h
  next => exact h.touch key

theorem Begun.wf {r} (hb : Begun c key r) (h : c.Wf) : r.2.Wf := by
  cases hb with
  | refused => exact h
  | reserved hwf hroom hentry hfill hfills hnext => exact hnext ▸ hwf.reserve hroom hentry (by rw [hfills, hfill])

end PointerCache

end PolicyEngine.Cache
