import Mathlib

/-!
# Lexers

A lexer is a function that takes the next lexeme off a nonempty text. `lexemes` runs
it to the end; the run is defined with fuel and needs no more steps than the text has
symbols, since every lexeme takes one.
-/

namespace PolicyEngine.Lib.Lexer

variable {α τ : Type}

/-- At most `fuel` lexemes; `none` when the text is longer. -/
def run (next : α → List α → τ × List α) : Nat → List α → Option (List τ)
  | _, [] => some []
  | 0, _ :: _ => none
  | fuel + 1, a :: rest => (run next fuel (next a rest).2).map ((next a rest).1 :: ·)

/-- The lexer gives nothing back. -/
def Consumes (next : α → List α → τ × List α) : Prop := ∀ a rest, (next a rest).2.length ≤ rest.length

def lexemes (next : α → List α → τ × List α) (text : List α) : List τ := (run next text.length text).getD []

variable {next : α → List α → τ × List α}

/-- Induction along the lexemes of a text. -/
theorem Consumes.induct (h : Consumes next) {P : List α → Prop} (nil : P [])
    (cons : ∀ a rest, P (next a rest).2 → P (a :: rest)) (text : List α) : P text := by
  have hall : ∀ n (text : List α), text.length ≤ n → P text := by
    intro n
    induction n with
    | zero =>
      intro text ht
      rw [List.length_eq_zero_iff.1 (Nat.le_zero.1 ht)]
      exact nil
    | succ n ih =>
      intro text ht
      cases text with
      | nil => exact nil
      | cons a rest => exact cons a rest (ih _ (Nat.le_trans (h a rest) (Nat.le_of_succ_le_succ ht)))
  exact hall text.length text (Nat.le_refl _)

/-- With the length for fuel the run ends, and more fuel changes nothing. -/
theorem Consumes.run_eq (h : Consumes next) {fuel : Nat} {text : List α} (hf : text.length ≤ fuel) :
    run next fuel text = some (lexemes next text) := by
  have hrun : ∃ ts, ∀ fuel, text.length ≤ fuel → run next fuel text = some ts := by
    induction text using h.induct generalizing fuel with
    | nil => exact ⟨[], fun fuel _ => by cases fuel <;> rfl⟩
    | cons a rest ih =>
      obtain ⟨ts, hts⟩ := ih (Nat.le_refl _)
      refine ⟨(next a rest).1 :: ts, fun fuel hfuel => ?_⟩
      cases fuel with
      | zero => cases hfuel
      | succ fuel =>
        rw [run, hts fuel (Nat.le_trans (h a rest) (Nat.le_of_succ_le_succ hfuel))]
        rfl
  obtain ⟨ts, hts⟩ := hrun
  rw [hts fuel hf, lexemes, hts text.length (Nat.le_refl _)]
  rfl

@[simp] theorem lexemes_nil : lexemes next [] = [] := rfl

theorem Consumes.lexemes_cons (h : Consumes next) (a : α) (rest : List α) :
    lexemes next (a :: rest) = (next a rest).1 :: lexemes next (next a rest).2 := by
  rw [lexemes, List.length_cons, run, h.run_eq (h a rest)]
  rfl

end PolicyEngine.Lib.Lexer
