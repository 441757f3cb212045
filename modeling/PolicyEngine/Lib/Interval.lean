import Mathlib

/-!
# Intervals of consecutive integers

`interval a b` lists the integers of `(a, b]` in order. A list without duplicates
that has exactly these members is a permutation of it (`Fills`), so sorting such a
list, in either direction, or cutting it at a value, gives an interval again, and a
scan that checks `next = previous + 1` passes exactly on intervals.
-/

open List

namespace PolicyEngine.Lib

/-- The integers of `(a, b]`, in order. -/
def interval (a b : Int) : List Int := (List.range (b - a).toNat).map fun i : Nat => a + 1 + (i : Int)

@[simp] theorem length_interval (a b : Int) : (interval a b).length = (b - a).toNat := by simp [interval]

variable {a b : Int}

@[simp] theorem mem_interval {x : Int} : x ∈ interval a b ↔ a < x ∧ x ≤ b := by
  simp only [interval, mem_map, mem_range]
  constructor
  · rintro ⟨i, hi, rfl⟩
    omega
  · intro h
    exact ⟨(x - a - 1).toNat, by omega, by omega⟩

theorem getElem?_interval {i : Nat} (h : i < (b - a).toNat) : (interval a b)[i]? = some (a + 1 + i) := by
  simp [interval, h]

theorem pairwise_interval (a b : Int) : (interval a b).Pairwise (· < ·) := by
  refine pairwise_map.2 (pairwise_lt_range.imp ?_)
  intro i j hij
  omega

theorem take_interval (a b : Int) (n : Nat) : (interval a b).take n = interval a (min b (a + n)) := by
  have hlength : (min b (a + n) - a).toNat = min n (b - a).toNat := by omega
  rw [interval, interval, hlength, ← map_take, take_range]

theorem map_toNat_interval (p : Nat) (b : Int) : (interval p b).map Int.toNat = List.range' (p + 1) (b - p).toNat := by
  refine ext_getElem? fun i => ?_
  by_cases hi : i < (b - p).toNat
  · rw [getElem?_map, getElem?_interval hi, getElem?_range' hi, Option.map_some]
    congr 1
    omega
  · rw [getElem?_eq_none (by simpa using hi), getElem?_eq_none (by simpa using hi)]

theorem interval_eq_cons (h : a < b) : interval a b = (a + 1) :: interval (a + 1) b := by
  have hlen : (b - a).toNat = (b - (a + 1)).toNat + 1 := by omega
  simp only [interval, hlen, range_succ_eq_map, map_cons, map_map]
  refine congrArg₂ _ (by simp) (map_congr_left fun i _ => ?_)
  simp only [Function.comp_apply]
  omega

/-- The scan that checks `next = previous + 1` passes exactly on the interval of its length. -/
theorem isChain_succ_iff {l : List Int} :
    List.IsChain (fun x y => y = x + 1) (a :: l) ↔ l = interval a (a + l.length) := by
  induction l generalizing a with
  | nil => simp [interval]
  | cons x l ih =>
    have hend : a + ((x :: l).length : Nat) = a + 1 + (l.length : Int) := by
      rw [length_cons]
      omega
    have hlt : a < a + 1 + (l.length : Int) := by omega
    rw [isChain_cons_cons, ih, hend, interval_eq_cons hlt, List.cons.injEq]
    exact and_congr_right fun hx => by rw [hx]

/-- The last value of the scan is the end of the interval. -/
theorem getLast?_interval (h : a ≤ b) : (interval a b).getLast?.getD a = b := by
  rw [getLast?_eq_getElem?, length_interval]
  rcases h.eq_or_lt with rfl | hlt
  · simp [interval]
  · rw [getElem?_interval (by omega), Option.getD_some]
    omega

/-! ## Lists that fill an interval -/

/-- `l` holds every integer of `(a, b]` once. -/
structure Fills (a b : Int) (l : List Int) : Prop where
  nodup : l.Nodup
  mem_iff : ∀ x, x ∈ l ↔ a < x ∧ x ≤ b

variable {a b : Int} {l : List Int}

theorem fills_interval (a b : Int) : Fills a b (interval a b) := ⟨(pairwise_interval a b).nodup, fun _ => mem_interval⟩

namespace Fills

theorem perm (h : Fills a b l) : l.Perm (interval a b) :=
  (perm_ext_iff_of_nodup h.nodup (pairwise_interval a b).nodup).2 fun x => (h.mem_iff x).trans mem_interval.symm

theorem of_perm {l' : List Int} (h : Fills a b l) (hp : l'.Perm l) : Fills a b l' :=
  ⟨hp.nodup_iff.2 h.nodup, fun x => hp.mem_iff.trans (h.mem_iff x)⟩

theorem length (h : Fills a b l) : l.length = (b - a).toNat := by rw [h.perm.length_eq, length_interval]

/-- Distinct values of an interval, as many as it has, fill it. -/
theorem of_length (hn : l.Nodup) (hm : ∀ x ∈ l, a < x ∧ x ≤ b) (hl : (b - a).toNat ≤ l.length) : Fills a b l := by
  have hsub : l.Subperm (interval a b) := subperm_of_subset hn fun x hx => mem_interval.2 (hm x hx)
  exact (fills_interval a b).of_perm (hsub.perm_of_length_le (by rwa [length_interval]))

/-- In order, a list that fills an interval is the interval. -/
theorem eq_interval (h : Fills a b l) (hs : l.Pairwise (· ≤ ·)) : l = interval a b :=
  h.perm.eq_of_pairwise' hs ((pairwise_interval a b).imp Int.le_of_lt)

theorem eq_reverse_interval (h : Fills a b l) (hs : l.Pairwise (· ≥ ·)) : l = (interval a b).reverse := by
  refine (h.perm.trans (reverse_perm _).symm).eq_of_pairwise' hs (pairwise_reverse.2 ?_)
  exact (pairwise_interval a b).imp Int.le_of_lt

theorem concat (h : Fills a b l) (hab : a ≤ b) : Fills a (b + 1) (l ++ [b + 1]) := by
  refine ⟨nodup_append.2 ⟨h.nodup, nodup_singleton _, fun x hx y hy => ?_⟩, fun x => ?_⟩
  · have := (h.mem_iff x).1 hx
    have := mem_singleton.1 hy
    omega
  · rw [mem_append, mem_singleton, h.mem_iff]
    omega

theorem filter_gt (h : Fills a b l) (p : Int) : Fills (max a p) b (l.filter (· > p)) := by
  refine ⟨h.nodup.filter _, fun x => ?_⟩
  rw [mem_filter, h.mem_iff, decide_eq_true_iff]
  omega

theorem mergeSort_le (h : Fills a b l) : l.mergeSort (· ≤ ·) = interval a b :=
  (h.of_perm (mergeSort_perm _ _)).eq_interval (pairwise_mergeSort' _ l)

theorem mergeSort_ge (h : Fills a b l) : l.mergeSort (· ≥ ·) = (interval a b).reverse :=
  (h.of_perm (mergeSort_perm _ _)).eq_reverse_interval (pairwise_mergeSort' _ l)

/-- A list in order fills an interval exactly when the scan from its start passes and stops at its end. -/
theorem iff_scan (hs : l.Pairwise (· ≤ ·)) (hab : a ≤ b) :
    Fills a b l ↔ List.IsChain (fun x y => y = x + 1) (a :: l) ∧ l.getLast?.getD a = b := by
  rw [isChain_succ_iff]
  constructor
  · intro h
    have hend : a + (l.length : Int) = b := by
      rw [h.length]
      omega
    rw [hend, h.eq_interval hs]
    exact ⟨rfl, getLast?_interval hab⟩
  · rintro ⟨h, hlast⟩
    rw [h, getLast?_interval (by omega)] at hlast
    rw [h, hlast]
    exact fills_interval a b

/-- The value at an index from the top. -/
theorem mergeSort_ge_getElem? (h : Fills a b l) (i : Nat) :
    (l.mergeSort (· ≥ ·))[i]? = if i < (b - a).toNat then some (b - i) else none := by
  rw [h.mergeSort_ge]
  split
  next hi =>
    rw [getElem?_reverse (by rwa [length_interval]), length_interval, getElem?_interval (by omega)]
    congr 1
    omega
  next hi => simpa using hi

/-- Sorting rows by a column that fills an interval puts the interval in that column. -/
theorem map_mergeSort {ρ : Type} {col : ρ → Int} {rows : List ρ} (h : Fills a b (rows.map col)) :
    (rows.mergeSort fun r r' => col r ≤ col r').map col = interval a b := by
  refine (h.of_perm ((mergeSort_perm _ _).map _)).eq_interval (pairwise_map.2 ?_)
  refine (@List.pairwise_mergeSort ρ (fun r r' => decide (col r ≤ col r')) ?_ ?_ rows).imp (by simp)
  · intro r r' r''
    simp only [decide_eq_true_iff]
    omega
  · intro r r'
    simp only [Bool.or_eq_true, decide_eq_true_iff]
    omega

/-- A page of the rows after a position. -/
theorem map_page {ρ : Type} {col : ρ → Int} {rows : List ρ} (h : Fills a b (rows.map col)) (p : Int) (limit : Nat) :
    (((rows.filter fun r => col r > p).mergeSort fun r r' => col r ≤ col r').take limit).map col =
      (interval (max a p) b).take limit := by
  have hfilter : Fills (max a p) b ((rows.filter fun r => col r > p).map col) := by
    rw [← Function.comp_def (fun x => decide (x > p)) col, ← filter_map]
    exact h.filter_gt p
  rw [map_take, hfilter.map_mergeSort]

end Fills

end PolicyEngine.Lib
