import Mathlib

/-!
# Simulation of fallible stateful computations

A computation threads a state and may fail. `Sim le R x y` says that whenever `x`
succeeds, `y`, started in a state that is at least as generous, succeeds as well, with
an answer related by `R`, and leaves a state that is again at least as generous. The
rules follow the shape of the computations, so two programs are related one call at a
time.
-/

namespace PolicyEngine.Lib

variable {σ ε α β γ δ ι : Type} {le : σ → σ → Prop}

def Sim (le : σ → σ → Prop) (R : α → β → Prop) (x : StateT σ (Except ε) α) (y : StateT σ (Except ε) β) : Prop :=
  ∀ ⦃s t : σ⦄, le s t → ∀ ⦃a : α⦄ ⦃s' : σ⦄, x s = .ok (a, s') → ∃ b t', y t = .ok (b, t') ∧ R a b ∧ le s' t'

/-- Replaces the state by what `f` makes of it, or fails as `f` does. -/
def charge (f : σ → Except ε σ) : StateT σ (Except ε) Unit := fun s => (f s).map fun s' => ((), s')

theorem bind_run (x : StateT σ (Except ε) α) (f : α → StateT σ (Except ε) β) (s : σ) :
    (x >>= f) s = x s >>= fun p => f p.1 p.2 := rfl

/-- Peels a sequence apart. -/
theorem bind_run_eq_ok {x : StateT σ (Except ε) α} {f : α → StateT σ (Except ε) β} {s s'' : σ} {b : β} :
    (x >>= f) s = .ok (b, s'') ↔ ∃ a s', x s = .ok (a, s') ∧ f a s' = .ok (b, s'') := by
  change (x s >>= fun p => f p.1 p.2) = .ok (b, s'') ↔ _
  cases x s with
  | error e => simp [Bind.bind, Except.bind]
  | ok p =>
    obtain ⟨a, s'⟩ := p
    constructor
    · exact fun h => ⟨a, s', rfl, h⟩
    · rintro ⟨_, _, hp, h⟩
      cases hp
      exact h

theorem lift_run_eq_ok {p : Except ε α} {s s' : σ} {a : α} :
    (liftM p : StateT σ (Except ε) α) s = .ok (a, s') ↔ p = .ok a ∧ s' = s := by
  cases p with
  | error e => exact iff_of_false (fun h => by cases h) (fun h => by cases h.1)
  | ok a' =>
    change (Except.ok (a', s) : Except ε (α × σ)) = .ok (a, s') ↔ _
    simp [eq_comm]

namespace Sim

variable {R : α → β → Prop} {x : StateT σ (Except ε) α} {y : StateT σ (Except ε) β}

theorem pure {a : α} {b : β} (h : R a b) : Sim le R (pure a : StateT σ (Except ε) α) (pure b) := by
  rintro s t hst a' s' hx
  cases hx
  exact ⟨b, t, rfl, h, hst⟩

theorem bind {S : γ → δ → Prop} {f : α → StateT σ (Except ε) γ} {g : β → StateT σ (Except ε) δ} (hx : Sim le R x y)
    (hf : ∀ a b, R a b → Sim le S (f a) (g b)) : Sim le S (x >>= f) (y >>= g) := by
  intro s t hst c s' h
  change (x s >>= fun p => f p.1 p.2) = .ok (c, s') at h
  cases hxs : x s with
  | error e => rw [hxs] at h; cases h
  | ok p =>
    rw [hxs] at h
    obtain ⟨b, t', hy, hab, hle⟩ := hx hst hxs
    obtain ⟨d, t'', hg, hS, hle'⟩ := hf p.1 b hab hle h
    refine ⟨d, t'', ?_, hS, hle'⟩
    change (y t >>= fun q => g q.1 q.2) = .ok (d, t'')
    rw [hy]
    exact hg

/-- A call that does not touch the state. -/
theorem lift {p : Except ε α} {q : Except ε β} (h : ∀ a, p = .ok a → ∃ b, q = .ok b ∧ R a b) :
    Sim le R (liftM p : StateT σ (Except ε) α) (liftM q) := by
  intro s t hst a s' hx
  cases p with
  | error e => cases hx
  | ok a' =>
    cases hx
    obtain ⟨b, rfl, hab⟩ := h a rfl
    exact ⟨b, t, rfl, hab, hst⟩

theorem lift_self (p : Except ε α) : Sim le Eq (liftM p : StateT σ (Except ε) α) (liftM p) :=
  lift fun a ha => ⟨a, ha, rfl⟩

/-- A computation that fails is simulated by anything. -/
theorem throw {e : ε} : Sim le R (throw e : StateT σ (Except ε) α) y := by
  intro s t _ a s' hx
  cases hx

theorem charge {f g : σ → Except ε σ} (h : ∀ s t, le s t → ∀ s', f s = .ok s' → ∃ t', g t = .ok t' ∧ le s' t') :
    Sim le Eq (Lib.charge f) (Lib.charge g) := by
  intro s t hst a s' hx
  rw [Lib.charge] at hx
  cases hf : f s with
  | error e => rw [hf] at hx; cases hx
  | ok s'' =>
    rw [hf] at hx
    cases hx
    obtain ⟨t', ht', hle⟩ := h s t hst s' hf
    exact ⟨(), t', by rw [Lib.charge, ht']; rfl, rfl, hle⟩

/-- A step that leaves the state no more generous is simulated by doing nothing. -/
theorem charge_pure {f} (h : ∀ s t, le s t → ∀ s', f s = .ok s' → le s' t) :
    Sim le (fun _ _ => True) (Lib.charge f) (Pure.pure () : StateT σ (Except ε) Unit) := by
  intro s t hst a s' hx
  rw [Lib.charge] at hx
  cases hf : f s with
  | error e => rw [hf] at hx; cases hx
  | ok s'' =>
    rw [hf] at hx
    cases hx
    exact ⟨(), t, rfl, trivial, h s t hst s' hf⟩

end Sim

/-- A loop that collects answers ran its body once per element, in states that satisfy what the body keeps. -/
theorem collect_eq_ok {I : σ → Prop} {f : ι → StateT σ (Except ε) α}
    (hkeep : ∀ i s a s', I s → f i s = .ok (a, s') → I s') {l : List ι} {acc out : List α} {s s' : σ} (hs : I s)
    (h : l.foldlM (fun acc i => f i >>= fun a => pure (acc ++ [a])) acc s = .ok (out, s')) :
    ∃ answers, out = acc ++ answers ∧ List.Forall₂ (fun i a => ∃ t t', I t ∧ f i t = .ok (a, t')) l answers := by
  induction l generalizing acc s with
  | nil =>
    cases h
    exact ⟨[], (List.append_nil _).symm, .nil⟩
  | cons i l ih =>
    rw [List.foldlM_cons] at h
    obtain ⟨acc', t, hbody, hrest⟩ := bind_run_eq_ok.1 h
    obtain ⟨a, t', hi, hacc⟩ := bind_run_eq_ok.1 hbody
    cases hacc
    obtain ⟨answers, rfl, hall⟩ := ih (hkeep i s a t hs hi) hrest
    exact ⟨a :: answers, by simp, .cons ⟨s, t, hs, hi⟩ hall⟩

end PolicyEngine.Lib
