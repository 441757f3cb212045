import Mathlib

/-!
# Sorting and compacting

Sorting by a comparator, then one pass that compares each value with the last one
kept. A list that is already strictly sorted, and whose neighbours the pass keeps
apart, comes out unchanged, so canonical forms are fixed points.
-/

open Std List

namespace PolicyEngine.Lib

variable {α β ε : Type}

/-! ## Sorting by a comparator -/

section Sorting

variable (cmp : α → α → Ordering)

def sortBy (l : List α) : List α := l.mergeSort fun a b => (cmp a b).isLE

/-- Strictly increasing. -/
def StrictSorted (l : List α) : Prop := l.Pairwise fun a b => cmp a b = .lt

variable {cmp}

variable {l : List α}

theorem mem_sortBy {a : α} : a ∈ sortBy cmp l ↔ a ∈ l := mem_mergeSort

theorem sortBy_of_strictSorted (h : StrictSorted cmp l) : sortBy cmp l = l :=
  mergeSort_of_pairwise (h.imp fun hab => by simp [hab])

theorem pairwise_sortBy [TransCmp cmp] (l : List α) : (sortBy cmp l).Pairwise fun a b => (cmp a b).isLE := by
  refine pairwise_mergeSort ?_ ?_ l
  · intro a b c hab hbc
    exact TransCmp.isLE_trans hab hbc
  · intro a b
    have h : cmp a b = (cmp b a).swap := OrientedCmp.eq_swap
    rw [h]
    cases cmp b a <;> simp

/-- Neither above the other means equal. -/
theorem eq_of_compare_ne_gt [TransCmp cmp] [LawfulEqCmp cmp] {a b : α} (hab : cmp a b ≠ .gt) (hba : cmp b a ≠ .gt) :
    a = b := by
  have hswap : cmp a b = (cmp b a).swap := OrientedCmp.eq_swap
  have heq : cmp a b = .eq := by
    rw [hswap] at hab ⊢
    revert hab hba
    cases cmp b a <;> simp
  exact LawfulEqCmp.eq_of_compare heq

/-- Sorting by a lawful order forgets the order of the input. -/
theorem sortBy_eq_of_perm [TransCmp cmp] [LawfulEqCmp cmp] {m : List α} (h : l.Perm m) :
    sortBy cmp l = sortBy cmp m := by
  have hperm : (sortBy cmp l).Perm (sortBy cmp m) :=
    (mergeSort_perm l _).trans (h.trans (mergeSort_perm m _).symm)
  refine hperm.eq_of_pairwise (fun a b _ _ hab hba => ?_) (pairwise_sortBy l) (pairwise_sortBy m)
  exact eq_of_compare_ne_gt (Ordering.isLE_iff_ne_gt.1 hab) (Ordering.isLE_iff_ne_gt.1 hba)

/-- A sorted list is strictly sorted when no two neighbours are equal. -/
theorem strictSorted_of_chain [TransCmp cmp] {R} (hR : ∀ a b, R a b → (cmp a b).isLE → cmp a b = .lt)
    (hc : l.IsChain R) (hs : l.Pairwise fun a b => (cmp a b).isLE) : StrictSorted cmp l := by
  induction l with
  | nil => exact List.Pairwise.nil
  | cons a l ih =>
    obtain ⟨ha, hl⟩ := pairwise_cons.1 hs
    refine pairwise_cons.2 ⟨?_, ih hc.tail hl⟩
    cases l with
    | nil => simp
    | cons c l =>
      have hac : cmp a c = .lt := hR a c (isChain_cons_cons.1 hc).1 (ha c mem_cons_self)
      intro b hb
      rcases mem_cons.1 hb with rfl | hb
      · exact hac
      · exact TransCmp.lt_of_lt_of_isLE hac ((pairwise_cons.1 hl).1 b hb)

/-- Sorting and dropping the neighbours that compare equal, which never fails. -/
def sortDedup (cmp : α → α → Ordering) (l : List α) : List α :=
  (sortBy cmp l).destutter fun a b => cmp a b ≠ .eq

theorem sortDedup_subperm (l : List α) : (sortDedup cmp l).Subperm l :=
  (destutter_sublist _ _).subperm.trans (mergeSort_perm _ _).subperm

theorem sortDedup_ne_nil (h : l ≠ []) : sortDedup cmp l ≠ [] := by
  rw [sortDedup, ne_eq, destutter_eq_nil]
  exact fun hnil => h (eq_nil_of_length_eq_zero (by rw [← (mergeSort_perm l _).length_eq, ← sortBy, hnil]; rfl))

theorem strictSorted_sortDedup [TransCmp cmp] (l : List α) : StrictSorted cmp (sortDedup cmp l) := by
  refine strictSorted_of_chain (fun a b hne hle => ?_) (isChain_destutter _ _)
    ((pairwise_sortBy l).sublist (destutter_sublist _ _))
  revert hne hle
  cases cmp a b <;> simp

theorem sortDedup_of_strictSorted (h : StrictSorted cmp l) : sortDedup cmp l = l := by
  rw [sortDedup, sortBy_of_strictSorted h]
  exact destutter_of_isChain _ _ (h.isChain.imp fun a b hab => by simp [hab])

end Sorting

variable {l : List α}

/-- A sum over part of a list is at most the sum over all of it. -/
theorem sum_map_le_of_subperm {f : α → Nat} {m : List α} (h : l.Subperm m) : (l.map f).sum ≤ (m.map f).sum := by
  obtain ⟨l', hperm, hsub⟩ := h
  rw [← (hperm.map f).sum_nat]
  clear hperm
  induction hsub with
  | slnil => exact Nat.le_refl _
  | cons a _ ih => simp only [map_cons, sum_cons]; omega
  | cons_cons a _ ih => simp only [map_cons, sum_cons]; omega

/-! ## Compaction -/

/-- `keep last value` decides whether `value` is kept after `last`, or fails. -/
def compactFrom (keep : α → α → Except ε Bool) : α → List α → Except ε (List α)
  | _, [] => .ok []
  | last, value :: rest => do
    if ← keep last value then
      let rest ← compactFrom keep value rest
      .ok (value :: rest)
    else compactFrom keep last rest

def compact (keep : α → α → Except ε Bool) : List α → Except ε (List α)
  | [] => .ok []
  | value :: rest => do
    let rest ← compactFrom keep value rest
    .ok (value :: rest)

variable {keep : α → α → Except ε Bool} {out : List α}

theorem compactFrom_sublist {last : α} (h : compactFrom keep last l = .ok out) : out.Sublist l := by
  induction l generalizing last out with
  | nil => cases h; exact List.Sublist.slnil
  | cons v l ih =>
    rw [compactFrom] at h
    cases hk : keep last v with
    | error e => rw [hk] at h; cases h
    | ok b =>
      rw [hk] at h
      cases b with
      | false => exact (ih h).cons v
      | true =>
        cases hr : compactFrom keep v l with
        | error e => simp [bind, Except.bind, hr] at h
        | ok rest =>
          simp only [bind, Except.bind, hr, if_true, Except.ok.injEq] at h
          exact h ▸ (ih hr).cons_cons v

theorem compact_sublist (h : compact keep l = .ok out) :
    out.Sublist l := by
  cases l with
  | nil => cases h; exact List.Sublist.slnil
  | cons v l =>
    rw [compact] at h
    cases hr : compactFrom keep v l with
    | error e => simp [bind, Except.bind, hr] at h
    | ok rest =>
      simp only [bind, Except.bind, hr, Except.ok.injEq] at h
      exact h ▸ (compactFrom_sublist hr).cons_cons v

theorem compact_ne_nil (h : compact keep l = .ok out) (hl : l ≠ []) : out ≠ [] := by
  cases l with
  | nil => exact absurd rfl hl
  | cons v l =>
    rw [compact] at h
    cases hr : compactFrom keep v l with
    | error e => simp [bind, Except.bind, hr] at h
    | ok rest =>
      simp only [bind, Except.bind, hr, Except.ok.injEq] at h
      exact h ▸ cons_ne_nil v rest

/-- Neighbours that the pass keeps. -/
theorem compactFrom_chain {last : α} (h : compactFrom keep last l = .ok out) :
    (last :: out).IsChain fun a b => keep a b = .ok true := by
  induction l generalizing last out with
  | nil => cases h; exact .singleton _
  | cons v l ih =>
    rw [compactFrom] at h
    cases hk : keep last v with
    | error e => rw [hk] at h; cases h
    | ok b =>
      rw [hk] at h
      cases b with
      | false => exact ih h
      | true =>
        cases hr : compactFrom keep v l with
        | error e => simp [bind, Except.bind, hr] at h
        | ok rest =>
          simp only [bind, Except.bind, hr, if_true, Except.ok.injEq] at h
          exact h ▸ .cons_cons hk (ih hr)

theorem compact_chain (h : compact keep l = .ok out) :
    out.IsChain fun a b => keep a b = .ok true := by
  cases l with
  | nil => cases h; exact .nil
  | cons v l =>
    rw [compact] at h
    cases hr : compactFrom keep v l with
    | error e => simp [bind, Except.bind, hr] at h
    | ok rest =>
      simp only [bind, Except.bind, hr, Except.ok.injEq] at h
      exact h ▸ compactFrom_chain hr

variable {cmp : α → α → Ordering}

/-- The output of sorting and compacting is strictly sorted when the pass keeps only distinct neighbours. -/
theorem strictSorted_compact [TransCmp cmp] (hkeep : ∀ a b, keep a b = .ok true → (cmp a b).isLE → cmp a b = .lt)
    (h : compact keep (sortBy cmp l) = .ok out) : StrictSorted cmp out :=
  strictSorted_of_chain hkeep (compact_chain h) ((pairwise_sortBy l).sublist (compact_sublist h))

theorem compactFrom_of_chain {last : α} (h : (last :: l).IsChain fun a b => keep a b = .ok true) :
    compactFrom keep last l = .ok l := by
  induction l generalizing last with
  | nil => rfl
  | cons v l ih =>
    obtain ⟨hk, hl⟩ := isChain_cons_cons.1 h
    simp [compactFrom, hk, ih hl, bind, Except.bind]

theorem compact_of_chain (h : l.IsChain fun a b => keep a b = .ok true) : compact keep l = .ok l := by
  cases l with
  | nil => rfl
  | cons v l => simp [compact, compactFrom_of_chain h, bind, Except.bind]

/-- What holds of neighbours holds of all pairs, when it cannot fail further apart without failing next door. -/
theorem pairwise_of_isChain {R S} (hbetween : ∀ a b c, S a b → S b c → R a b → R a c) (hs : l.Pairwise S)
    (hc : l.IsChain R) : l.Pairwise R := by
  induction l with
  | nil => exact .nil
  | cons a l ih =>
    obtain ⟨ha, hl⟩ := pairwise_cons.1 hs
    refine pairwise_cons.2 ⟨?_, ih hl hc.tail⟩
    cases l with
    | nil => simp
    | cons b l =>
      obtain ⟨hab, -⟩ := isChain_cons_cons.1 hc
      rintro c (_ | ⟨_, hc⟩)
      · exact hab
      · exact hbetween a b c (ha b mem_cons_self) ((pairwise_cons.1 hl).1 c hc) hab

/-- Sorting and compacting twice is doing it once. -/
theorem compact_sortBy_idem [TransCmp cmp] (hkeep : ∀ a b, keep a b = .ok true → (cmp a b).isLE → cmp a b = .lt)
    (h : compact keep (sortBy cmp l) = .ok out) : compact keep (sortBy cmp out) = .ok out := by
  rw [sortBy_of_strictSorted (strictSorted_compact hkeep h)]
  exact compact_of_chain (compact_chain h)

/-- Dropping only repeats keeps the set of elements. -/
theorem mem_compactFrom (hdrop : ∀ a b, keep a b = .ok false → a = b) {last : α}
    (h : compactFrom keep last l = .ok out) (x : α) : x ∈ last :: out ↔ x ∈ last :: l := by
  induction l generalizing last out with
  | nil => cases h; rfl
  | cons v l ih =>
    rw [compactFrom] at h
    cases hk : keep last v with
    | error e => rw [hk] at h; cases h
    | ok b =>
      rw [hk] at h
      cases b with
      | false =>
        obtain rfl := hdrop last v hk
        rw [ih h]
        simp
      | true =>
        cases hr : compactFrom keep v l with
        | error e => simp [bind, Except.bind, hr] at h
        | ok rest =>
          simp only [bind, Except.bind, hr, if_true, Except.ok.injEq] at h
          rw [← h, mem_cons, ih hr, mem_cons (l := v :: l)]

theorem mem_compact (hdrop : ∀ a b, keep a b = .ok false → a = b) (h : compact keep l = .ok out) (x : α) :
    x ∈ out ↔ x ∈ l := by
  cases l with
  | nil => cases h; rfl
  | cons v l =>
    rw [compact] at h
    cases hr : compactFrom keep v l with
    | error e => simp [bind, Except.bind, hr] at h
    | ok rest =>
      simp only [bind, Except.bind, hr, Except.ok.injEq] at h
      rw [← h, mem_compactFrom hdrop hr]

/-! ## Sorted lists as sets -/

/-- The elements of `l`, strictly sorted. -/
structure SortedSet (cmp : α → α → Ordering) (l out : List α) : Prop where
  sorted : StrictSorted cmp out
  mem_iff : ∀ x, x ∈ out ↔ x ∈ l

theorem SortedSet.congr {m : List α} (h : SortedSet cmp l out) (hmem : ∀ x, x ∈ l ↔ x ∈ m) : SortedSet cmp m out :=
  ⟨h.sorted, fun x => (h.mem_iff x).trans (hmem x)⟩

/-- A set has one strictly sorted list. -/
theorem SortedSet.eq_iff [TransCmp cmp] {m outl outm : List α} (hl : SortedSet cmp l outl) (hm : SortedSet cmp m outm) :
    outl = outm ↔ ∀ x, x ∈ l ↔ x ∈ m := by
  constructor
  · rintro rfl x
    rw [← hl.mem_iff, hm.mem_iff]
  · intro h
    have : Std.Antisymm fun a b => cmp a b = .lt :=
      ⟨fun a b hab hba => by
        have hswap : cmp a b = (cmp b a).swap := OrientedCmp.eq_swap
        rw [hab, hba] at hswap
        cases hswap⟩
    have : Std.Irrefl fun a b => cmp a b = .lt :=
      ⟨fun a haa => by
        have hself : cmp a a = .eq := ReflCmp.compare_self
        rw [haa] at hself
        cases hself⟩
    refine List.Pairwise.eq_of_mem_iff hl.sorted hm.sorted fun x => ?_
    rw [hl.mem_iff, hm.mem_iff, h]

theorem sortedSet_compact [TransCmp cmp] (hkeep : ∀ a b, keep a b = .ok true → cmp a b ≠ .eq)
    (hdrop : ∀ a b, keep a b = .ok false → a = b) (h : compact keep (sortBy cmp l) = .ok out) :
    SortedSet cmp l out where
  sorted := by
    refine strictSorted_compact (fun a b hk hle => ?_) h
    have hne := hkeep a b hk
    revert hle hne
    cases cmp a b <;> simp
  mem_iff x := by rw [mem_compact hdrop h, mem_sortBy]

/-- Destuttering drops only repeats. -/
theorem mem_destutter_cons {R} [DecidableRel R] (hR : ∀ a b, ¬ R a b → a = b) (l : List α) (a x : α) :
    x ∈ (a :: l).destutter R ↔ x ∈ a :: l := by
  rw [destutter_cons']
  induction l generalizing a with
  | nil => simp
  | cons b l ih =>
    by_cases hab : R a b
    · rw [List.destutter'_cons_pos l hab, mem_cons, ih, mem_cons (l := b :: l)]
    · obtain rfl := hR a b hab
      rw [List.destutter'_cons_neg l hab, ih]
      simp

theorem sortedSet_sortDedup [TransCmp cmp] [LawfulEqCmp cmp] (l : List α) :
    SortedSet cmp l (sortDedup cmp l) where
  sorted := strictSorted_sortDedup l
  mem_iff x := by
    have hsort : x ∈ sortBy cmp l ↔ x ∈ l := mem_sortBy
    rw [sortDedup, ← hsort]
    cases sortBy cmp l with
    | nil => simp
    | cons a rest => exact mem_destutter_cons (fun a b hne => LawfulEqCmp.eq_of_compare (not_not.1 hne)) rest a x

/-! ## Walking two sorted lists -/

theorem StrictSorted.pairwise_isLE (h : StrictSorted cmp l) :
    l.Pairwise fun a b => (cmp a b).isLE :=
  h.imp fun hlt => by rw [hlt]; rfl

theorem StrictSorted.nodup [ReflCmp cmp] (h : StrictSorted cmp l) : l.Nodup := by
  refine h.imp fun {a b} hlt heq => ?_
  have hself : cmp b b = .eq := ReflCmp.compare_self
  rw [heq, hself] at hlt
  cases hlt

theorem lt_of_not_lt [TransCmp cmp] [LawfulEqCmp cmp] {a b : α} (hlt : ¬ cmp a b = .lt) (hne : a ≠ b) :
    cmp b a = .lt := by
  have hswap : cmp b a = (cmp a b).swap := OrientedCmp.eq_swap
  cases hcmp : cmp a b with
  | lt => exact absurd hcmp hlt
  | eq => exact absurd (LawfulEqCmp.eq_of_compare hcmp) hne
  | gt => rw [hswap, hcmp]; rfl

/-- An element between the two parts of a strictly sorted list. -/
theorem StrictSorted.insert [TransCmp cmp] {low high a b} (h : StrictSorted cmp (low ++ b :: high))
    (hlow : ∀ x ∈ low, cmp x a = .lt) (hab : cmp a b = .lt) :
    StrictSorted cmp (low ++ a :: b :: high) := by
  obtain ⟨hl, hh, hcross⟩ := pairwise_append.1 h
  refine pairwise_append.2 ⟨hl, pairwise_cons.2 ⟨fun y hy => ?_, hh⟩, fun x hx y hy => ?_⟩
  · rcases mem_cons.1 hy with rfl | hy
    · exact hab
    · exact TransCmp.lt_trans hab (rel_of_pairwise_cons hh hy)
  · rcases mem_cons.1 hy with rfl | hy
    · exact hlow x hx
    · exact hcross x hx y hy

/-- What is below the head of a sorted list is not in the list. -/
theorem not_mem_of_lt_head [TransCmp cmp] {a b : α} (hsorted : (b :: l).Pairwise fun x y => (cmp x y).isLE)
    (h : cmp a b = .lt) : a ∉ b :: l := by
  intro hmem
  rcases mem_cons.1 hmem with rfl | hmem
  · have hself : cmp a a = .eq := ReflCmp.compare_self
    rw [hself] at h
    cases h
  · have hle := rel_of_pairwise_cons hsorted hmem
    have hswap : cmp b a = (cmp a b).swap := OrientedCmp.eq_swap
    rw [hswap, h] at hle
    cases hle

/-- One element against a list, handing over to `next` when the element is below the list's head. -/
def scanAgainst (order : α → β → Ordering) (hit : α → β → Bool) (a : α) (next : List β → Bool) : List β → Bool
  | [] => false
  | b :: bs =>
    if hit a b then true
    else
      match order a b with
      | .lt => next (b :: bs)
      | _ => scanAgainst order hit a next bs

/-- The merge walk of two sorted lists that stops at the first `hit`. -/
def mergeHits (order : α → β → Ordering) (hit : α → β → Bool) : List α → List β → Bool
  | [], _ => false
  | a :: as, bs => scanAgainst order hit a (mergeHits order hit as) bs

end PolicyEngine.Lib
