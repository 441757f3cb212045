import Mathlib

/-!
# Runs of a step function

A concurrent component is a partial step function over actions: an action is one
atomic step of one party, and any order of them is a run. Invariants are proved
once per step and hold in every reachable state. `ReachableBy` restricts a run to
steps that meet a condition on the state before them.
-/

namespace PolicyEngine.Lib

variable {σ α : Type}

/-- The states reached by steps that all meet `allowed`. -/
inductive ReachableBy (step : σ → α → Option σ) (allowed : σ → α → Prop) (init : σ → Prop) : σ → Prop
  | start {s : σ} : init s → ReachableBy step allowed init s
  | next {s s' : σ} {a : α} : ReachableBy step allowed init s → allowed s a → step s a = some s' →
      ReachableBy step allowed init s'

/-- The states reached by any run. -/
abbrev Reachable (step : σ → α → Option σ) (init : σ → Prop) : σ → Prop :=
  ReachableBy step (fun _ _ => True) init

variable {step : σ → α → Option σ} {allowed : σ → α → Prop} {init : σ → Prop}

variable {s : σ}

/-- What holds initially and is kept by every allowed step holds in every reached state. -/
theorem ReachableBy.invariant {I : σ → Prop} (h0 : ∀ s, init s → I s)
    (hstep : ∀ s a s', I s → allowed s a → step s a = some s' → I s') (h : ReachableBy step allowed init s) : I s := by
  induction h with
  | start hi => exact h0 _ hi
  | next _ ha hs ih => exact hstep _ _ _ ih ha hs

theorem Reachable.extend {s' : σ} {a : α} (h : Reachable step init s) (hs : step s a = some s') :
    Reachable step init s' :=
  .next h trivial hs

/-- A run from a reached state goes on from the run that reached it. -/
theorem Reachable.trans {t : σ} (h : Reachable step init s) (ht : Reachable step (· = s) t) :
    Reachable step init t :=
  ht.invariant (by rintro _ rfl; exact h) fun _ _ _ hu _ hs => hu.extend hs

/-- Runs a list of actions. -/
def run (step : σ → α → Option σ) : σ → List α → Option σ
  | s, [] => some s
  | s, a :: rest =>
    match step s a with
    | none => none
    | some s' => run step s' rest

variable {as : List α}

theorem run_append {t bs} :
    run step s (as ++ bs) = some t ↔ ∃ u, run step s as = some u ∧ run step u bs = some t := by
  induction as generalizing s with
  | nil => simp [run]
  | cons a as ih =>
    simp only [List.cons_append, run]
    split
    · simp
    · exact ih

theorem run_singleton {a : α} : run step s [a] = step s a := by
  simp only [run]
  cases step s a <;> rfl

theorem run_concat {t : σ} {a : α} :
    run step s (as ++ [a]) = some t ↔ ∃ u, run step s as = some u ∧ step u a = some t := by
  simp only [run_append, run_singleton]

/-- What holds of no actions and is kept by one more holds of every list of actions and where it leads. -/
theorem run_invariant {I : List α → σ → Prop} (h0 : I [] s)
    (hstep : ∀ as a t u, I as t → step t a = some u → I (as ++ [a]) u) {t : σ} (h : run step s as = some t) :
    I as t := by
  induction as using List.reverseRecOn generalizing t with
  | nil => cases h; exact h0
  | append_singleton as a ih =>
    obtain ⟨u, hu, ha⟩ := run_concat.1 h
    exact hstep as a u t (ih hu) ha

theorem Reachable.run {s' : σ} (h : Reachable step init s) (hr : PolicyEngine.Lib.run step s as = some s') :
    Reachable step init s' := by
  induction as generalizing s with
  | nil => cases hr; exact h
  | cons a as ih =>
    rw [PolicyEngine.Lib.run] at hr
    split at hr
    next => cases hr
    next s₁ hs => exact ih (.next h trivial hs) hr

variable {τ : Type} {i : Nat}

/-- An index of a log with one more entry is an old one or that of the new entry. -/
theorem getElem?_append_singleton_eq_some {l : List τ} {e x : τ} (h : (l ++ [e])[i]? = some x) :
    i < l.length ∧ l[i]? = some x ∨ i = l.length ∧ x = e := by
  rcases Nat.lt_or_ge i l.length with hlt | hge
  · rw [List.getElem?_append_left hlt] at h
    exact .inl ⟨hlt, h⟩
  · rw [List.getElem?_append_right hge, List.getElem?_singleton] at h
    split at h
    next h0 => exact .inr ⟨by omega, (Option.some.inj h).symm⟩
    · cases h

/-- A position of a list with one entry replaced is that one or another. -/
theorem getElem?_set_eq_some {l : List τ} {j : Nat} {x y : τ} (h : (l.set i x)[j]? = some y) :
    (j = i ∧ y = x) ∨ (j ≠ i ∧ l[j]? = some y) := by
  rw [List.getElem?_set] at h
  split at h
  next hij =>
    split at h
    · exact .inl ⟨hij.symm, (Option.some.inj h).symm⟩
    · cases h
  next hij => exact .inr ⟨fun hji => hij hji.symm, h⟩

/-- How many parties are at a point, after one of them has moved. -/
theorem countP_set {p : τ → Bool} {l : List τ} {x y : τ} (h : l[i]? = some x) :
    ((l.set i y).countP p : Int) = l.countP p - (if p x then 1 else 0) + (if p y then 1 else 0) := by
  obtain ⟨hi, rfl⟩ := List.getElem?_eq_some_iff.1 h
  rw [List.countP_set hi]
  cases hx : p l[i] with
  | true =>
    have hpos : 0 < l.countP p := List.countP_pos_iff.2 ⟨l[i], List.getElem_mem hi, hx⟩
    simp only [if_true]
    split <;> omega
  | false =>
    simp only [Bool.false_eq_true, if_false]
    split <;> omega

/-- A loop simulates the loop of the operation its body simulates. -/
theorem foldl_simulates {I : σ → Prop} {f : σ → τ} {o : σ → α → σ} {p : τ → α → τ}
    (h : ∀ s a, I s → I (o s a) ∧ f (o s a) = p (f s) a) (l : List α) (hs : I s) :
    I (l.foldl o s) ∧ f (l.foldl o s) = l.foldl p (f s) := by
  induction l generalizing s with
  | nil => exact ⟨hs, rfl⟩
  | cons a l ih =>
    obtain ⟨hs', he⟩ := h s a hs
    simpa only [List.foldl_cons, ← he] using ih hs'

end PolicyEngine.Lib
