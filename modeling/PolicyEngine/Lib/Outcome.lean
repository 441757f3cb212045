import Mathlib

/-!
# Outcomes of fallible computations

`Outcome E Q x` says that `x` returns something that satisfies `Q`, or fails with
an error that satisfies `E`. It composes along `bind` and along loops, so a
computation is specified one call at a time and no call is opened twice.
-/

namespace PolicyEngine.Lib

variable {ε α β : Type} {E : ε → Prop} {Q : α → Prop}

/-- A result with `Q`, or an error with `E`. -/
def Outcome (E : ε → Prop) (Q : α → Prop) : Except ε α → Prop
  | .ok a => Q a
  | .error e => E e

namespace Outcome

theorem ok {a : α} (h : Q a) : Outcome E Q (.ok a) := h

theorem error {e : ε} (h : E e) : Outcome E Q (.error e) := h

variable {x : Except ε α}

theorem of_ok {a : α} (hx : x = .ok a) (h : Outcome E Q x) : Q a := by
  subst hx
  exact h

theorem of_error {e : ε} (hx : x = .error e) (h : Outcome E Q x) : E e := by
  subst hx
  exact h

theorem mono {Q' : α → Prop} (h : Outcome E Q x) (hq : ∀ a, Q a → Q' a) : Outcome E Q' x := by
  cases x with
  | ok a => exact hq a h
  | error e => exact h

theorem bind {f : α → Except ε β} {R : β → Prop} (hx : Outcome E Q x) (hf : ∀ a, Q a → Outcome E R (f a)) :
    Outcome E R (x >>= f) := by
  cases x with
  | ok a => exact hf a hx
  | error e => exact hx

/-- The rest may use that the first part returned its result. -/
theorem bind_eq {f : α → Except ε β} {R : β → Prop} (hx : Outcome E Q x)
    (hf : ∀ a, x = .ok a → Q a → Outcome E R (f a)) : Outcome E R (x >>= f) := by
  cases x with
  | ok a => exact hf a rfl hx
  | error e => exact hx

/-- A loop keeps what its body keeps. -/
theorem foldlM {f : α → β → Except ε α} (l : List β) (h : ∀ a, ∀ b ∈ l, Q a → Outcome E Q (f a b)) {a : α} (ha : Q a) :
    Outcome E Q (l.foldlM f a) := by
  induction l generalizing a with
  | nil => exact ha
  | cons b l ih =>
    rw [List.foldlM_cons]
    exact bind (h a b List.mem_cons_self ha) fun a' ha' =>
      ih (fun a b hb => h a b (List.mem_cons_of_mem _ hb)) ha'

/-- A loop of checks fails as one of them does. -/
theorem forM {f : β → Except ε Unit} (l : List β) (h : ∀ b ∈ l, Outcome E (fun _ => True) (f b)) :
    Outcome E (fun _ => True) (l.forM f) := by
  induction l with
  | nil => exact ok trivial
  | cons b l ih => exact bind (h b List.mem_cons_self) fun _ _ => ih fun b hb => h b (List.mem_cons_of_mem _ hb)

/-- A loop that collects results collects what its body returns. -/
theorem mapM {f : β → Except ε α} (l : List β) (h : ∀ b ∈ l, Outcome E Q (f b)) :
    Outcome E (fun r => ∀ a ∈ r, Q a) (l.mapM f) := by
  induction l with
  | nil => exact ok (by simp)
  | cons b l ih =>
    rw [List.mapM_cons]
    refine bind (h b List.mem_cons_self) fun a ha => bind (ih fun b hb => h b (List.mem_cons_of_mem _ hb)) fun r hr => ?_
    exact ok (List.forall_mem_cons.2 ⟨ha, hr⟩)

end Outcome

end PolicyEngine.Lib
