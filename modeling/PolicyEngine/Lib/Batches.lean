import PolicyEngine.Lib.Compact

/-!
# Steps on one component, and keyset batches

A step that reads and writes one component of a state can be run over any list of
distinct components: each ends as the step alone would leave it. A loop that fetches
the components in batches, each batch starting after the last key of the one before,
runs the step once on every component, in order, although the step updates the very
rows that are being paged.
-/

open Std List

namespace PolicyEngine.Lib

variable {σ ι ν ε : Type}

/-! ## Steps on one component -/

/-- `step` at `i` is `act` on the component that `view` shows at `i`, and leaves the others alone. -/
structure LocalStep (step : σ → ι → Except ε σ) (view : σ → ι → ν) (act : ν → Except ε ν) : Prop where
  run : ∀ s i, (step s i).map (view · i) = act (view s i)
  frame : ∀ {s s' i}, step s i = .ok s' → ∀ j, j ≠ i → view s' j = view s j

namespace LocalStep

variable {step : σ → ι → Except ε σ} {view : σ → ι → ν} {act : ν → Except ε ν} (h : LocalStep step view act)
include h

theorem act_of_ok {s s' : σ} {i : ι} (hs : step s i = .ok s') : act (view s i) = .ok (view s' i) := by
  rw [← h.run s i, hs]
  rfl

theorem ok_of_act {s i v} (hv : act (view s i) = .ok v) : ∃ s', step s i = .ok s' := by
  rw [← h.run s i] at hv
  cases hs : step s i with
  | error e => simp [hs, Except.map] at hv
  | ok s' => exact ⟨s', rfl⟩

/-- After a run over distinct components, each one of them went through `act` once. -/
theorem foldlM_view {l : List ι} (hl : l.Nodup) {s s' : σ} (hr : l.foldlM step s = .ok s') (i : ι) :
    (i ∈ l → act (view s i) = .ok (view s' i)) ∧ (i ∉ l → view s' i = view s i) := by
  induction l generalizing s with
  | nil =>
    obtain rfl := Except.ok.inj hr
    exact ⟨fun hi => absurd hi not_mem_nil, fun _ => rfl⟩
  | cons x l ih =>
    obtain ⟨hx, hl⟩ := nodup_cons.1 hl
    rw [foldlM_cons] at hr
    cases hs : step s x with
    | error e => simp [hs, bind, Except.bind] at hr
    | ok s₁ =>
      rw [hs] at hr
      obtain ⟨hin, hout⟩ := ih hl (s := s₁) hr
      by_cases hix : i = x
      · subst hix
        rw [hout hx]
        exact ⟨fun _ => h.act_of_ok hs, fun hi => absurd mem_cons_self hi⟩
      · rw [h.frame hs i hix] at hin hout
        exact ⟨fun hi => hin ((mem_cons.1 hi).resolve_left hix), fun hi => hout fun hi' => hi (mem_cons_of_mem _ hi')⟩

/-- A run over distinct components succeeds when `act` does on each of them. -/
theorem foldlM_ok {l : List ι} (hl : l.Nodup) {s : σ} (hok : ∀ i ∈ l, ∃ v, act (view s i) = .ok v) :
    ∃ s', l.foldlM step s = .ok s' := by
  induction l generalizing s with
  | nil => exact ⟨s, rfl⟩
  | cons x l ih =>
    obtain ⟨hx, hl⟩ := nodup_cons.1 hl
    obtain ⟨v, hv⟩ := hok x mem_cons_self
    obtain ⟨s₁, hs⟩ := h.ok_of_act hv
    obtain ⟨s', hs'⟩ := ih hl (s := s₁) fun i hi => by
      rw [h.frame hs i (ne_of_mem_of_not_mem hi hx)]
      exact hok i (mem_cons_of_mem _ hi)
    refine ⟨s', ?_⟩
    rw [foldlM_cons, hs]
    exact hs'

end LocalStep

/-! ## Keyset batches -/

variable {cmp : ι → ι → Ordering}

/-- The first `size` keys after `last`, in order. -/
def batch (cmp : ι → ι → Ordering) (size : Nat) (keys : List ι) (last : ι) : List ι :=
  (sortBy cmp (keys.filter fun k => cmp last k = .lt)).take size

/-- Fetches batches until one is empty; `none` when the fuel runs out. -/
def runBatches (cmp : ι → ι → Ordering) (size : Nat) (keys : σ → List ι) (step : σ → ι → Except ε σ) :
    Nat → σ → ι → Option (Except ε σ)
  | 0, _, _ => none
  | fuel + 1, s, last =>
    let found := batch cmp size (keys s) last
    match found.getLast? with
    | none => some (.ok s)
    | some next =>
      match found.foldlM step s with
      | .error e => some (.error e)
      | .ok s' => runBatches cmp size keys step fuel s' next

variable {l : List ι}

theorem strictSorted_sortBy [TransCmp cmp] [LawfulEqCmp cmp] (hl : l.Nodup) : StrictSorted cmp (sortBy cmp l) := by
  have hn : (sortBy cmp l).Nodup := (mergeSort_perm l _).nodup_iff.2 hl
  refine ((pairwise_sortBy l).and hn).imp fun {a b} ⟨hle, hne⟩ => ?_
  cases hc : cmp a b with
  | lt => rfl
  | eq => exact absurd (LawfulEqCmp.eq_of_compare hc) hne
  | gt => simp [hc] at hle

/-- The keys after a place, in order, are the rest of the sorted keys. -/
theorem batch_eq [TransCmp cmp] [LawfulEqCmp cmp] {size keys before rest last} (hn : keys.Nodup)
    (hsplit : sortBy cmp keys = before ++ rest) (hbefore : ∀ k ∈ before, cmp last k ≠ .lt)
    (hrest : ∀ k ∈ rest, cmp last k = .lt) : batch cmp size keys last = rest.take size := by
  have hsorted : StrictSorted cmp (before ++ rest) := hsplit ▸ strictSorted_sortBy hn
  have hperm : (keys.filter fun k => cmp last k = .lt).Perm rest := by
    have hp := (mergeSort_perm keys fun a b => (cmp a b).isLE).symm.filter fun k => decide (cmp last k = .lt)
    have hb : before.filter (fun k => decide (cmp last k = .lt)) = [] := by simpa using hbefore
    have hr : rest.filter (fun k => decide (cmp last k = .lt)) = rest := by simpa using hrest
    rw [show keys.mergeSort (fun a b => (cmp a b).isLE) = before ++ rest from hsplit, filter_append, hb, hr,
      nil_append] at hp
    exact hp
  rw [batch, sortBy_eq_of_perm hperm, sortBy_of_strictSorted (pairwise_append.1 hsorted).2.1]

variable {step : σ → ι → Except ε σ}

/-- What every step keeps, the loop keeps. -/
theorem foldlM_invariant {P : σ → Prop} (hstep : ∀ {s s' i}, P s → step s i = .ok s' → P s') {s s' : σ} (hs : P s)
    (h : l.foldlM step s = .ok s') : P s' := by
  induction l generalizing s with
  | nil => exact Except.ok.inj h ▸ hs
  | cons i l ih =>
    rw [foldlM_cons] at h
    cases hi : step s i with
    | error e => rw [hi] at h; cases h
    | ok s₁ =>
      rw [hi] at h
      exact ih (hstep hs hi) h

theorem foldlM_kept {τ : Type} {f : σ → τ} (hkeep : ∀ {s s' i}, step s i = .ok s' → f s' = f s) {s s' : σ}
    (h : l.foldlM step s = .ok s') :
    f s' = f s :=
  foldlM_invariant (P := fun t => f t = f s) (fun hs hi => (hkeep hi).trans hs) rfl h

/-- Nothing in a sorted list comes after its last element. -/
theorem not_lt_of_getLast? [TransCmp cmp] {last : ι} (hs : StrictSorted cmp l) (hlast : l.getLast? = some last) :
    ∀ k ∈ l, cmp last k ≠ .lt := by
  obtain ⟨init, rfl⟩ := getLast?_eq_some_iff.1 hlast
  intro k hk hlt
  rcases mem_append.1 hk with hk | hk
  · have hkl := (pairwise_append.1 hs).2.2 k hk last (mem_singleton_self _)
    rw [OrientedCmp.gt_of_lt hkl] at hlt
    cases hlt
  · obtain rfl := mem_singleton.1 hk
    have hself : cmp k k = .eq := ReflCmp.compare_self
    rw [hself] at hlt
    cases hlt

/-- The loop runs the step once on every key, in order: enough fuel is one more than the number of keys. -/
theorem runBatches_eq [TransCmp cmp] [LawfulEqCmp cmp] {size keys} (hsize : 0 < size)
    (hkeys : ∀ {s s' i}, step s i = .ok s' → keys s' = keys s) {s : σ} (hn : (keys s).Nodup) {fuel before rest last}
    (hsplit : sortBy cmp (keys s) = before ++ rest) (hbefore : ∀ k ∈ before, cmp last k ≠ .lt)
    (hrest : ∀ k ∈ rest, cmp last k = .lt) (hfuel : rest.length < fuel) :
    runBatches cmp size keys step fuel s last = some (rest.foldlM step s) := by
  induction fuel generalizing s before rest last with
  | zero => omega
  | succ fuel ih =>
    rw [runBatches, batch_eq hn hsplit hbefore hrest]
    cases hlast : (rest.take size).getLast? with
    | none =>
      have hnil : rest = [] := by
        rw [getLast?_eq_none_iff, take_eq_nil_iff] at hlast
        exact hlast.resolve_left (by omega)
      subst hnil
      rfl
    | some next =>
      have hfold : rest.foldlM step s = (rest.take size).foldlM step s >>= fun s => (rest.drop size).foldlM step s := by
        rw [← foldlM_append, take_append_drop]
      rw [hfold]
      cases hrun : (rest.take size).foldlM step s with
      | error e => rfl
      | ok s' =>
        -- the batch leaves the keys alone, so what is left of them is what is left to fetch
        have hsame : keys s' = keys s := foldlM_kept hkeys hrun
        have hsorted : StrictSorted cmp (before ++ rest) := hsplit ▸ strictSorted_sortBy hn
        rw [← take_append_drop size rest, ← append_assoc] at hsorted
        obtain ⟨hdone, -, hcross⟩ := pairwise_append.1 hsorted
        have hnext : next ∈ rest.take size := mem_of_getLast? hlast
        have hend : (before ++ rest.take size).getLast? = some next := by
          rw [getLast?_append, hlast, Option.some_or]
        have hpos : 0 < rest.length := length_pos_of_mem (mem_of_mem_take hnext)
        have hsplit' : sortBy cmp (keys s') = (before ++ rest.take size) ++ rest.drop size := by
          rw [hsame, hsplit, append_assoc, take_append_drop]
        refine ih (hsame ▸ hn) hsplit' (not_lt_of_getLast? hdone hend) ?_ ?_
        · exact fun k hk => hcross next (mem_append_right _ hnext) k hk
        · rw [length_drop]
          omega

end PolicyEngine.Lib
