import Mathlib
import PolicyEngine.Cache.Revisions

/-!
# The residents of the revision cache

The byte count is the sum of the resident weights, both limits hold, and the order of
use holds each resident once. An eviction takes an active entry only if there is no
inactive one, and the eviction loop ends, since an empty cache has room for every value
within the limits.
-/

open PolicyEngine.Lib List

namespace PolicyEngine.Cache

variable [Artifacts]

namespace RevisionCache

def weight (c : RevisionCache) : Int := (c.entries.rows.map fun e => (e.value.approximateBytes : Int)).sum

/-- What an eviction keeps as well. -/
structure Accounted (c : RevisionCache) : Prop where
  recent : Recent c.entries c.recency
  bytes_eq : c.bytes = c.weight

structure Wf (c : RevisionCache) : Prop extends Accounted c where
  entries_le : c.entries.rows.length ≤ c.limits.maxEntries
  bytes_le : c.bytes ≤ c.limits.maxBytes

variable {c : RevisionCache}

theorem wf_new (limits : RevisionLimits) : (NewRevisionCache limits).Wf :=
  ⟨⟨.empty, rfl⟩, Nat.zero_le _, Int.natCast_nonneg _⟩

variable {e : RevisionEntry}

theorem weight_delete (h : e ∈ c.entries) {recency bytes} :
    { c with entries := c.entries.delete e.key, recency := recency, bytes := bytes }.weight =
      c.weight - e.value.approximateBytes := by
  have hperm := ((Table.perm_delete h).map fun e => (e.value.approximateBytes : Int)).sum_eq
  rw [map_cons, sum_cons] at hperm
  simp only [weight, hperm]
  omega

theorem weight_set (h : c.entries.get? e.key = none) {recency bytes} :
    { c with entries := c.entries.set e, recency := recency, bytes := bytes }.weight =
      c.weight + e.value.approximateBytes := by
  simp only [weight, Table.rows_set (Table.get?_eq_none.1 h), map_append, sum_append, map_cons,
    map_nil, sum_cons, sum_nil, Int.add_zero]

/-- A resident with another flag weighs the same. -/
theorem weight_set_active (h : e ∈ c.entries) (active : Bool) :
    { c with entries := c.entries.set { e with active := active } }.weight = c.weight := by
  have hset := ((Table.perm_set c.entries { e with active := active }).map
    fun e => (e.value.approximateBytes : Int)).sum_eq
  have hdelete := ((Table.perm_delete h).map fun e => (e.value.approximateBytes : Int)).sum_eq
  simp only [weight, hset, hdelete, map_cons]

/-! ## Eviction -/

theorem candidate_spec (h : Recent c.entries c.recency) (hne : c.entries.rows ≠ []) :
    ∃ e ∈ c.entries, c.candidate.bind c.entries.get? = some e ∧
      (e.active = true → ∀ e' ∈ c.entries, e'.active = true) := by
  unfold candidate
  split
  next key hfind =>
    have hany := find?_some hfind
    obtain ⟨e, he, hinactive⟩ := (Option.any_eq_true _ _).1 hany
    refine ⟨e, (Table.get?_eq_some.1 he).1, he, fun hactive => ?_⟩
    rw [hactive] at hinactive
    cases hinactive
  next hnone =>
    obtain ⟨key, hlast⟩ : ∃ key, c.recency.getLast? = some key := by
      cases hlast : c.recency.getLast? with
      | some key => exact ⟨key, rfl⟩
      | none =>
        rw [getLast?_eq_none_iff] at hlast
        have hlength := h.length_eq
        rw [hlast] at hlength
        exact absurd (length_eq_zero_iff.1 hlength) hne
    obtain ⟨e, he⟩ := Option.isSome_iff_exists.1 (h.mem_iff.1 (mem_of_getLast? hlast))
    refine ⟨e, (Table.get?_eq_some.1 he).1, by rw [hlast]; exact he, fun _ e' he' => ?_⟩
    have hmem : e'.key ∈ c.recency := h.mem_iff.2 (by rw [Table.get?_key he']; rfl)
    have hactive := find?_eq_none.1 hnone e'.key (mem_reverse.2 hmem)
    rw [Table.get?_key he'] at hactive
    simpa using hactive

/-- One eviction: an entry goes, and it is an active one only if all are. -/
theorem evictOneLocked_spec (h : Recent c.entries c.recency) (hne : c.entries.rows ≠ []) :
    ∃ e ∈ c.entries, (e.active = true → ∀ e' ∈ c.entries, e'.active = true) ∧
      c.evictOneLocked = { c with
        entries := c.entries.delete e.key
        recency := c.recency.erase e.key
        bytes := c.bytes - e.value.approximateBytes } := by
  obtain ⟨e, he, hcandidate, hactive⟩ := candidate_spec h hne
  refine ⟨e, he, hactive, ?_⟩
  rw [evictOneLocked, hcandidate]

theorem Accounted.evictOne (h : c.Accounted) : c.evictOneLocked.Accounted := by
  by_cases hne : c.entries.rows = []
  · have hrecency : c.recency = [] := by
      have hlength := h.recent.length_eq
      rw [hne] at hlength
      exact length_eq_zero_iff.1 hlength.symm
    have hnone : c.candidate = none := by simp [candidate, hrecency]
    rw [evictOneLocked, hnone]
    exact h
  · obtain ⟨e, he, -, hevict⟩ := evictOneLocked_spec h.recent hne
    rw [hevict]
    exact ⟨h.recent.delete e.key, by rw [weight_delete he, h.bytes_eq]⟩

theorem Accounted.evictions (h : c.Accounted) (n : Nat) : (evictOneLocked^[n] c).Accounted := by
  induction n with
  | zero => exact h
  | succ n ih =>
    rw [Function.iterate_succ_apply']
    exact ih.evictOne

theorem Accounted.active_of_evicted (h : c.Accounted) (he : e ∈ c.entries) (hout : e ∉ c.evictOneLocked.entries)
    (hactive : e.active = true) : ∀ e' ∈ c.entries, e'.active = true := by
  obtain ⟨x, hx, hall, hevict⟩ := evictOneLocked_spec h.recent (ne_nil_of_mem he)
  rw [hevict] at hout
  have hkey : e.key = x.key := by
    by_contra hne
    exact hout (Table.mem_delete.2 ⟨he, hne⟩)
  obtain rfl := Table.eq_of_key he hx hkey
  exact hall hactive

/-- What the eviction loop comes to. -/
structure Roomy (c : RevisionCache) (value : HydratedRevision) (c' : RevisionCache) : Prop where
  accounted : c'.Accounted
  room : c'.crowded value = false
  limits : c'.limits = c.limits
  inflight : c'.inflight = c.inflight
  resident : ∀ e ∈ c'.entries, e ∈ c.entries
  /-- An active entry goes only after all inactive ones. -/
  active : (∃ e ∈ c.entries, e ∉ c'.entries ∧ e.active = true) → ∀ e ∈ c'.entries, e.active = true

/-- The loop ends after at most one pass for each resident. -/
theorem makeRoom_spec {value} (h : c.Accounted) (hentries : c.limits.maxEntries ≠ 0)
    (hvalue : value.approximateBytes ≤ c.limits.maxBytes) :
    ∃ c', Roomy c value c' ∧ ∀ fuel, c.entries.rows.length < fuel → makeRoom fuel c value = some c' := by
  induction hn : c.entries.rows.length generalizing c with
  | zero =>
    have hrows : c.entries.rows = [] := length_eq_zero_iff.1 hn
    have hroom : c.crowded value = false := by
      have hbytes : c.bytes = 0 := by rw [h.bytes_eq, weight, hrows]; rfl
      simp only [crowded, hn, hbytes, Bool.or_eq_false_iff, decide_eq_false_iff_not]
      omega
    refine ⟨c, ⟨h, hroom, rfl, rfl, fun _ he => he, fun ⟨e, he, hout, _⟩ => absurd he hout⟩, fun fuel hfuel => ?_⟩
    obtain ⟨fuel, rfl⟩ := Nat.exists_eq_succ_of_ne_zero (Nat.ne_of_gt hfuel)
    rw [makeRoom, hroom]
    rfl
  | succ n ih =>
    cases hcrowded : c.crowded value with
    | false =>
      refine ⟨c, ⟨h, hcrowded, rfl, rfl, fun _ he => he, fun ⟨e, he, hout, _⟩ => absurd he hout⟩, fun fuel hfuel => ?_⟩
      obtain ⟨fuel, rfl⟩ := Nat.exists_eq_succ_of_ne_zero (Nat.ne_of_gt (Nat.lt_of_le_of_lt (Nat.zero_le _) hfuel))
      rw [makeRoom, hcrowded]
      rfl
    | true =>
      have hne : c.entries.rows ≠ [] := by
        intro hnil
        rw [hnil] at hn
        cases hn
      obtain ⟨e, he, hactive, hevict⟩ := evictOneLocked_spec h.recent hne
      have hlength := Table.length_delete (t := c.entries) (k := e.key) (by rw [Table.get?_key he]; rfl)
      obtain ⟨c', hroomy, hrun⟩ := ih h.evictOne (by rw [hevict]; exact hentries) (by rw [hevict]; exact hvalue)
        (by rw [hevict]; dsimp only; omega)
      have hfewer : ∀ x, x ∈ c.evictOneLocked.entries ↔ x ∈ c.entries ∧ x.key ≠ e.key := by
        intro x
        rw [hevict]
        exact Table.mem_delete
      refine ⟨c', ⟨hroomy.accounted, hroomy.room, ?_, ?_, ?_, ?_⟩, fun fuel hfuel => ?_⟩
      · rw [hroomy.limits, hevict]
      · rw [hroomy.inflight, hevict]
      · exact fun x hx => ((hfewer x).1 (hroomy.resident x hx)).1
      · rintro ⟨x, hx, hout, hxactive⟩ y hy
        -- the active entry went now or later
        by_cases hkey : x.key = e.key
        · obtain rfl := Table.eq_of_key hx he hkey
          exact hactive hxactive y ((hfewer y).1 (hroomy.resident y hy)).1
        · exact hroomy.active ⟨x, (hfewer x).2 ⟨hx, hkey⟩, hout, hxactive⟩ y hy
      · obtain ⟨fuel, rfl⟩ := Nat.exists_eq_succ_of_ne_zero (Nat.ne_of_gt (Nat.lt_of_le_of_lt (Nat.zero_le _) hfuel))
        rw [makeRoom, hcrowded, if_pos rfl]
        exact hrun fuel (by omega)

/-! ## Admission and activity -/

/-- What an admission comes to. -/
structure Admitted (c : RevisionCache) (key : RevisionKey) (value v : HydratedRevision) (c' : RevisionCache) : Prop where
  wf : c'.Wf
  limits : c'.limits = c.limits
  inflight : c'.inflight = c.inflight
  answer : v = value ∨ ∃ e ∈ c.entries, e.key = key ∧ v = e.value
  resident : ∀ e ∈ c'.entries, e ∈ c.entries ∨ e.key = key ∧ e.value = value
  active : (∃ e ∈ c.entries, e ∉ c'.entries ∧ e.active = true) → ∀ e ∈ c.entries, e ∈ c'.entries → e.active = true

theorem Wf.admit_ (h : c.Wf) (key : RevisionKey) (value : HydratedRevision) :
    ∃ v c', c.admitLocked key value = some (v, c') ∧ Admitted c key value v c' := by
  unfold admitLocked
  split
  next existing hget =>
    obtain ⟨hmem, hkey⟩ := Table.get?_eq_some.1 hget
    refine ⟨_, _, rfl, ⟨⟨⟨h.recent.touch key, h.bytes_eq⟩, h.entries_le, h.bytes_le⟩, rfl, rfl,
      .inr ⟨existing, hmem, hkey, rfl⟩, fun _ he => .inl he, fun ⟨_, he, hout, _⟩ => absurd he hout⟩⟩
  next hget =>
    split
    · exact ⟨_, _, rfl, ⟨h, rfl, rfl, .inl rfl, fun _ he => .inl he, fun ⟨_, he, hout, _⟩ => absurd he hout⟩⟩
    next hadmissible =>
      rw [not_or, not_or, Nat.not_lt] at hadmissible
      obtain ⟨c', hroomy, hrun⟩ := makeRoom_spec h.toAccounted hadmissible.1 hadmissible.2.2
      rw [hrun _ (Nat.lt_succ_self _)]
      have hfree : c'.entries.get? key = none := by
        rw [Table.get?_eq_none] at hget ⊢
        exact fun e he => hget e (hroomy.resident e he)
      have hmem : ∀ e ∈ c'.entries.set ⟨key, value, false⟩, e = ⟨key, value, false⟩ ∨ e ∈ c'.entries :=
        fun e he => (Table.mem_set.1 he).imp_right And.left
      refine ⟨_, _, rfl, ⟨⟨⟨hroomy.accounted.recent.push hfree, ?_⟩, ?_, ?_⟩, hroomy.limits, hroomy.inflight, .inl rfl, ?_, ?_⟩⟩
      · rw [weight_set hfree, hroomy.accounted.bytes_eq]
      · have hroom := hroomy.room
        simp only [crowded, Bool.or_eq_false_iff, decide_eq_false_iff_not] at hroom
        dsimp only
        rw [Table.length_set hfree]
        omega
      · have hroom := hroomy.room
        simp only [crowded, Bool.or_eq_false_iff, decide_eq_false_iff_not] at hroom
        dsimp only
        omega
      · intro e he
        obtain rfl | he := hmem e he
        · exact .inr ⟨rfl, rfl⟩
        · exact .inl (hroomy.resident e he)
      · rintro ⟨x, hx, hout, hxactive⟩ e he he'
        have hother : ∀ y ∈ c.entries, y.key ≠ key := Table.get?_eq_none.1 hget
        have hx' : x ∉ c'.entries := fun hin => hout (Table.mem_set.2 (.inr ⟨hin, hother x hx⟩))
        obtain rfl | hin := hmem e he'
        · exact absurd rfl (hother _ he)
        · exact hroomy.active ⟨x, hx, hx', hxactive⟩ e hin

theorem Wf.setActive (h : c.Wf) (key : RevisionKey) (active : Bool) : (c.SetActive key active).Wf := by
  unfold SetActive
  split
  · exact h
  split
  · exact h
  next entry hget =>
    have hmem := (Table.get?_eq_some.1 hget).1
    have hpresent : (c.entries.get? entry.key).isSome := by rw [Table.get?_key hmem]; rfl
    refine ⟨⟨h.recent.set hpresent, ?_⟩, ?_, h.bytes_le⟩
    · rw [weight_set_active hmem]
      exact h.bytes_eq
    · have hkeys := congrArg List.length (Table.keys_set (r := { entry with active := active }) hpresent)
      rw [length_map, length_map] at hkeys
      exact Nat.le_trans (Nat.le_of_eq hkeys) h.entries_le

theorem limits_setActive (key : RevisionKey) (active : Bool) : (c.SetActive key active).limits = c.limits := by
  unfold SetActive
  split
  · rfl
  split <;> rfl

theorem inflight_setActive (key : RevisionKey) (active : Bool) : (c.SetActive key active).inflight = c.inflight := by
  unfold SetActive
  split
  · rfl
  split <;> rfl

theorem exists_mem_setActive (key : RevisionKey) (active : Bool) (h : e ∈ c.entries) :
    ∃ e' ∈ (c.SetActive key active).entries, e'.key = e.key := by
  unfold SetActive
  split
  · exact ⟨e, h, rfl⟩
  split
  · exact ⟨e, h, rfl⟩
  next entry hget =>
    by_cases hkey : e.key = entry.key
    · exact ⟨{ entry with active := active }, Table.mem_set.2 (.inl rfl), hkey.symm⟩
    · exact ⟨e, Table.mem_set.2 (.inr ⟨h, hkey⟩), rfl⟩

/-- Activity does not touch values. -/
theorem mem_setActive {key active} (h : e ∈ (c.SetActive key active).entries) :
    ∃ e' ∈ c.entries, e'.key = e.key ∧ e'.value = e.value := by
  unfold SetActive at h
  split at h
  · exact ⟨e, h, rfl, rfl⟩
  split at h
  · exact ⟨e, h, rfl, rfl⟩
  next entry hget =>
    obtain rfl | ⟨he, -⟩ := Table.mem_set.1 h
    · exact ⟨entry, (Table.get?_eq_some.1 hget).1, rfl, rfl⟩
    · exact ⟨e, he, rfl, rfl⟩

end RevisionCache

end PolicyEngine.Cache
