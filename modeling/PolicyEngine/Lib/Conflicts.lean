import PolicyEngine.Lib.Compact
import PolicyEngine.Lib.Outcome

/-!
# Conflicts in sorted lists

Comparing neighbours, or the heads of two lists, is enough to find a conflict anywhere
when the order brings every conflict next door. Then compaction fails exactly if two of
the values conflict, and a merge walk stops exactly if a value of one list hits a value
of the other. Neither depends on how the values are represented.
-/

open Std List

namespace PolicyEngine.Lib

variable {α β ε : Type}

/-! ## Two lists -/

section Merge

variable {order : α → β → Ordering} {hit : α → β → Bool} {S : α → α → Prop} {T : β → β → Prop}

/-- One element and those after it, against a list. -/
theorem scanAgainst_eq_true (hlt : ∀ a b b', order a b = .lt → T b b' → hit a b' = true → hit a b = true)
    (hge : ∀ a a' b, order a b ≠ .lt → S a a' → hit a' b = true → hit a b = true) {a as} (ha : ∀ a' ∈ as, S a a')
    {next} (hnext : ∀ bs : List β, bs.Pairwise T → (next bs = true ↔ ∃ a' ∈ as, ∃ b ∈ bs, hit a' b = true))
    {bs : List β} (hbs : bs.Pairwise T) :
    scanAgainst order hit a next bs = true ↔ ∃ a' ∈ a :: as, ∃ b ∈ bs, hit a' b = true := by
  induction bs with
  | nil => simp [scanAgainst]
  | cons b bs ih =>
    obtain ⟨hb, htail⟩ := pairwise_cons.1 hbs
    rw [scanAgainst]
    split
    next hhit => exact iff_of_true rfl ⟨a, mem_cons_self, b, mem_cons_self, hhit⟩
    next hmiss =>
      split
      next horder =>
        -- below the head, so below everything: the element hits nothing
        rw [hnext _ hbs]
        refine ⟨fun ⟨a', ha', h⟩ => ⟨a', mem_cons_of_mem _ ha', h⟩, ?_⟩
        rintro ⟨a', ha', b', hb', hh⟩
        rcases mem_cons.1 ha' with rfl | ha'
        · rcases mem_cons.1 hb' with rfl | hb'
          · exact absurd hh hmiss
          · exact absurd (hlt _ b b' horder (hb b' hb') hh) hmiss
        · exact ⟨a', ha', b', hb', hh⟩
      next horder =>
        -- not below the head, so nothing from here on hits the head
        rw [ih htail]
        refine ⟨fun ⟨a', ha', b', hb', hh⟩ => ⟨a', ha', b', mem_cons_of_mem _ hb', hh⟩, ?_⟩
        rintro ⟨a', ha', b', hb', hh⟩
        rcases mem_cons.1 hb' with rfl | hb'
        · rcases mem_cons.1 ha' with rfl | ha'
          · exact absurd hh hmiss
          · exact absurd (hge a a' _ horder (ha a' ha') hh) hmiss
        · exact ⟨a', ha', b', hb', hh⟩

/-- The walk of two lists finds a hit exactly if there is one. -/
theorem mergeHits_eq_true (hlt : ∀ a b b', order a b = .lt → T b b' → hit a b' = true → hit a b = true)
    (hge : ∀ a a' b, order a b ≠ .lt → S a a' → hit a' b = true → hit a b = true) {as bs} (has : as.Pairwise S)
    (hbs : bs.Pairwise T) :
    mergeHits order hit as bs = true ↔ ∃ a ∈ as, ∃ b ∈ bs, hit a b = true := by
  induction as generalizing bs with
  | nil => simp [mergeHits]
  | cons a as ih =>
    obtain ⟨ha, htail⟩ := pairwise_cons.1 has
    rw [mergeHits, scanAgainst_eq_true hlt hge ha (fun bs hbs => ih htail hbs) hbs]

end Merge

/-! ## One list -/

section Compact

variable {keep : α → α → Except ε Bool} {R : α → α → Prop}

/-- Values that are equal or apart are never refused. -/
theorem exists_compactFrom (htrue : ∀ a b, R a b → keep a b = .ok true) (hfalse : ∀ a, keep a a = .ok false) {last l}
    (h : ∀ a ∈ last :: l, ∀ b ∈ last :: l, a = b ∨ R a b) : ∃ out, compactFrom keep last l = .ok out := by
  induction l generalizing last with
  | nil => exact ⟨[], rfl⟩
  | cons v l ih =>
    have hl : ∀ a ∈ v :: l, ∀ b ∈ v :: l, a = b ∨ R a b := fun a ha b hb =>
      h a (mem_cons_of_mem _ ha) b (mem_cons_of_mem _ hb)
    rcases h last mem_cons_self v (by simp) with rfl | hR
    · obtain ⟨out, hout⟩ := ih hl
      exact ⟨out, by simp [compactFrom, hfalse, bind, Except.bind, hout]⟩
    · obtain ⟨out, hout⟩ := ih hl
      exact ⟨v :: out, by simp [compactFrom, htrue _ _ hR, bind, Except.bind, hout]⟩

/-- Sorting and compacting succeeds exactly if the values are apart wherever they differ. -/
theorem exists_compact_sortBy_iff {cmp} [TransCmp cmp] [LawfulEqCmp cmp] [Std.Symm R]
    (htrue : ∀ a b, keep a b = .ok true ↔ R a b) (hfalse : ∀ a b, keep a b = .ok false ↔ a = b)
    (hbetween : ∀ a b c, cmp a b = .lt → cmp b c = .lt → R a b → R a c) {l : List α} :
    (∃ out, compact keep (sortBy cmp l) = .ok out) ↔ ∀ a ∈ l, ∀ b ∈ l, a = b ∨ R a b := by
  constructor
  · rintro ⟨out, hout⟩
    have hset : SortedSet cmp l out := by
      refine sortedSet_compact (fun a b hk heq => ?_) (fun a b => (hfalse a b).1) hout
      obtain rfl := LawfulEqCmp.eq_of_compare heq
      rw [(hfalse a a).2 rfl] at hk
      cases hk
    have hchain := compact_chain hout
    simp only [htrue] at hchain
    have hall := pairwise_of_isChain hbetween hset.sorted hchain
    intro a ha b hb
    by_cases hab : a = b
    · exact .inl hab
    · exact .inr (hall.forall (hset.mem_iff a |>.2 ha) (hset.mem_iff b |>.2 hb) hab)
  · intro h
    have hsorted : ∀ a ∈ sortBy cmp l, ∀ b ∈ sortBy cmp l, a = b ∨ R a b := fun a ha b hb =>
      h a (mem_sortBy.1 ha) b (mem_sortBy.1 hb)
    cases hl : sortBy cmp l with
    | nil => exact ⟨[], rfl⟩
    | cons v rest =>
      rw [hl] at hsorted
      obtain ⟨out, hout⟩ := exists_compactFrom (fun a b => (htrue a b).2) (fun a => (hfalse a a).2 rfl) hsorted
      exact ⟨v :: out, by simp [compact, hout, bind, Except.bind]⟩

/-- Compaction fails only as a comparison does. -/
theorem compact_outcome {E : ε → Prop} (h : ∀ a b, Outcome E (fun _ => True) (keep a b)) (l : List α) :
    Outcome E (fun _ => True) (compact keep l) := by
  have hfrom (last : α) (l : List α) : Outcome E (fun _ => True) (compactFrom keep last l) := by
    induction l generalizing last with
    | nil => exact .ok trivial
    | cons v l ih =>
      refine .bind (h last v) fun b _ => ?_
      cases b with
      | false => exact ih last
      | true => exact .bind (ih v) fun _ _ => .ok trivial
  cases l with
  | nil => exact .ok trivial
  | cons v l => exact .bind (hfrom v l) fun _ _ => .ok trivial

end Compact

/-! ## Representations -/

/-- Compaction that looks at values through `f` commutes with `f`. -/
theorem map_compact (f : β → α) (keep : α → α → Except ε Bool) (l : List β) :
    (compact (fun a b => keep (f a) (f b)) l).map (List.map f) = compact keep (l.map f) := by
  have hfrom (last : β) (l : List β) :
      (compactFrom (fun a b => keep (f a) (f b)) last l).map (List.map f) = compactFrom keep (f last) (l.map f) := by
    induction l generalizing last with
    | nil => rfl
    | cons v l ih =>
      simp only [compactFrom, map_cons]
      cases keep (f last) (f v) with
      | error e => rfl
      | ok b =>
        cases b with
        | false => exact ih last
        | true =>
          simp only [bind, Except.bind, if_true, ← ih v]
          cases compactFrom (fun a b => keep (f a) (f b)) v l <;> rfl
  cases l with
  | nil => rfl
  | cons v l =>
    simp only [compact, map_cons, ← hfrom, bind, Except.bind]
    cases compactFrom (fun a b => keep (f a) (f b)) v l <;> rfl

/-- Whatever sorts by what `f` shows, shows the one sorted list. -/
theorem map_eq_sortBy (cmp : α → α → Ordering) [TransCmp cmp] [LawfulEqCmp cmp] (f : β → α) {l sorted : List β}
    (hperm : sorted.Perm l) (hsorted : sorted.Pairwise fun a b => (cmp (f a) (f b)).isLE) :
    sorted.map f = sortBy cmp (l.map f) := by
  have hp : (sorted.map f).Perm (sortBy cmp (l.map f)) := (hperm.map f).trans (mergeSort_perm _ _).symm
  refine hp.eq_of_pairwise (fun a b _ _ hab hba => ?_) (hsorted.map f fun _ _ h => h) (pairwise_sortBy _)
  exact eq_of_compare_ne_gt (Ordering.isLE_iff_ne_gt.1 hab) (Ordering.isLE_iff_ne_gt.1 hba)

end PolicyEngine.Lib
