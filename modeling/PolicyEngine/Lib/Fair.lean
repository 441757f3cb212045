import PolicyEngine.Lib.Runs

/-!
# Executions and fairness

An execution is an endless run that may also stand still. It is fair to a set of
actions if, again and again, one of them is taken or none of them can be. A goal is
reached when in every state short of it some action helps: it can be taken, taking
it lowers a rank, and until then no other step raises the rank or changes what helps.
-/

namespace PolicyEngine.Lib

variable {σ α : Type}

/-- An endless run; at a moment without an action nothing happens. -/
structure Execution (step : σ → α → Option σ) where
  state : Nat → σ
  action : Nat → Option α
  idle : ∀ n, action n = none → state (n + 1) = state n
  moves : ∀ n a, action n = some a → step (state n) a = some (state (n + 1))

namespace Execution

variable {step : σ → α → Option σ} (x : Execution step)

/-- Weak fairness. -/
def Fair (p : α → Prop) : Prop :=
  ∀ n, ∃ m, n ≤ m ∧ ((∃ a, x.action m = some a ∧ p a) ∨ ∀ a, p a → step (x.state m) a = none)

variable {n : Nat}

/-- Later states are reached from earlier ones. -/
theorem leads {m : Nat} (h : n ≤ m) : Reachable step (· = x.state n) (x.state m) := by
  induction h with
  | refl => exact .start rfl
  | @step m _ ih =>
    cases ha : x.action m with
    | none => rw [x.idle m ha]; exact ih
    | some a => exact ih.extend (x.moves m a ha)

theorem reached {init : σ → Prop} (h : Reachable step init (x.state 0)) (n : Nat) : Reachable step init (x.state n) :=
  h.trans (x.leads n.zero_le)

/-- What holds at the start and is kept by every action of the execution holds throughout. -/
theorem invariant {I : σ → Prop} (h0 : I (x.state 0))
    (hstep : ∀ n a, I (x.state n) → x.action n = some a → I (x.state (n + 1))) (n : Nat) : I (x.state n) := by
  induction n with
  | zero => exact h0
  | succ n ih =>
    cases ha : x.action n with
    | none => rw [x.idle n ha]; exact ih
    | some a => exact hstep n a ih ha

/-- What one of a set of actions brings about, if one of them stays possible until one is taken, is brought about. -/
theorem Fair.leadsTo {x : Execution step} {p : α → Prop} {P Q : σ → Prop} (hfair : x.Fair p)
    (henabled : ∀ n, P (x.state n) → ∃ a, p a ∧ step (x.state n) a ≠ none)
    (hstep : ∀ n b, P (x.state n) → x.action n = some b → ¬ p b ∧ P (x.state (n + 1)) ∨ Q (x.state (n + 1)))
    (h : P (x.state n)) : ∃ m, n ≤ m ∧ Q (x.state m) := by
  by_contra hnever
  have hnot (m : Nat) (hm : n ≤ m) : ¬ Q (x.state m) := fun hq => hnever ⟨m, hm, hq⟩
  have hstays (m : Nat) (hm : n ≤ m) : P (x.state m) := by
    induction hm with
    | refl => exact h
    | @step m hm ih =>
      cases hb : x.action m with
      | none => rw [x.idle m hb]; exact ih
      | some b => exact ((hstep m b ih hb).resolve_right (hnot _ (Nat.le_succ_of_le hm))).2
  obtain ⟨m, hm, ⟨b, hb, hp⟩ | hnone⟩ := hfair n
  · rcases hstep m b (hstays m hm) hb with ⟨hno, -⟩ | hq
    · exact hno hp
    · exact hnot _ (Nat.le_succ_of_le hm) hq
  · obtain ⟨a, ha, hen⟩ := henabled m (hstays m hm)
    exact hen (hnone a ha)

section Ranking

variable {goal : σ → Prop} {rank : σ → Nat} {helps : σ → α → Prop}

/-- Short of the goal, an action gets there, lowers the rank, or is not one that helps and changes nothing that
matters. -/
def Ranked (goal : σ → Prop) (rank : σ → Nat) (helps : σ → α → Prop) : Prop :=
  ∀ n a, ¬ goal (x.state n) → x.action n = some a →
    goal (x.state (n + 1)) ∨ rank (x.state (n + 1)) < rank (x.state n) ∨
      (¬ helps (x.state n) a ∧ helps (x.state (n + 1)) = helps (x.state n) ∧
        rank (x.state (n + 1)) = rank (x.state n))

/-- Until the goal is reached or the rank drops, what helps stays the same. -/
theorem Ranked.stays {x : Execution step} (h : x.Ranked goal rank helps) (n d : Nat) :
    (∃ m, n ≤ m ∧ goal (x.state m)) ∨ (∃ m, n ≤ m ∧ rank (x.state m) < rank (x.state n)) ∨
      (helps (x.state (n + d)) = helps (x.state n) ∧ rank (x.state (n + d)) = rank (x.state n)) := by
  induction d with
  | zero => exact .inr (.inr ⟨rfl, rfl⟩)
  | succ d ih =>
    rcases ih with hgoal | hlow | ⟨hhelps, hrank⟩
    · exact .inl hgoal
    · exact .inr (.inl hlow)
    cases ha : x.action (n + d) with
    | none => rw [← Nat.add_assoc, x.idle _ ha]; exact .inr (.inr ⟨hhelps, hrank⟩)
    | some a =>
      by_cases hg : goal (x.state (n + d))
      · exact .inl ⟨_, Nat.le_add_right n d, hg⟩
      rcases h _ a hg ha with hg' | hlt | ⟨-, hhelps', hrank'⟩
      · exact .inl ⟨_, Nat.le_add_right n (d + 1), hg'⟩
      · exact .inr (.inl ⟨_, Nat.le_add_right n (d + 1), by rw [← hrank]; exact hlt⟩)
      · exact .inr (.inr ⟨hhelps'.trans hhelps, hrank'.trans hrank⟩)

/-- The ranking rule. -/
theorem Ranked.eventually {x : Execution step} (h : x.Ranked goal rank helps)
    (hfair : ∀ n, x.Fair (helps (x.state n)))
    (henabled : ∀ n, ¬ goal (x.state n) → ∃ a, helps (x.state n) a ∧ step (x.state n) a ≠ none) (n : Nat) :
    ∃ m, n ≤ m ∧ goal (x.state m) := by
  induction hk : rank (x.state n) using Nat.strongRecOn generalizing n with
  | ind k ih =>
    subst hk
    have later {m : Nat} (hm : n ≤ m) (hlt : rank (x.state m) < rank (x.state n)) : ∃ m, n ≤ m ∧ goal (x.state m) := by
      obtain ⟨j, hj, hg⟩ := ih _ hlt m rfl
      exact ⟨j, Nat.le_trans hm hj, hg⟩
    obtain ⟨m, hm, hturn⟩ := hfair n n
    obtain ⟨d, rfl⟩ := Nat.exists_eq_add_of_le hm
    rcases h.stays n d with hgoal | ⟨m, hm', hlt⟩ | ⟨hhelps, hrank⟩
    · exact hgoal
    · exact later hm' hlt
    -- what helps now helps at the fair moment too, and is taken there
    by_cases hg : goal (x.state (n + d))
    · exact ⟨_, hm, hg⟩
    rcases hturn with ⟨a, ha, hp⟩ | hnone
    · rcases h _ a hg ha with hg' | hlt | ⟨hno, -, -⟩
      · exact ⟨_, Nat.le_succ_of_le hm, hg'⟩
      · exact later (Nat.le_succ_of_le hm) (hrank ▸ hlt)
      · exact absurd (hhelps ▸ hp) hno
    · obtain ⟨a, hp, hen⟩ := henabled _ hg
      exact absurd (hnone a (hhelps ▸ hp)) hen

end Ranking

/-- A finite run, and then nothing. -/
def ofRun {s t : σ} {as : List α} (h : run step s as = some t) : Execution step where
  state n := (run step s (as.take n)).getD t
  action n := as[n]?
  idle n hn := by
    have hle : as.length ≤ n := List.getElem?_eq_none_iff.1 hn
    rw [List.take_of_length_le hle, List.take_of_length_le (Nat.le_succ_of_le hle)]
  moves n a ha := by
    induction as generalizing s n with
    | nil => cases ha
    | cons b as ih =>
      rw [run] at h
      split at h
      · cases h
      next u hu =>
        cases n with
        | zero =>
          obtain rfl : b = a := by simpa using ha
          simp [run, hu]
        | succ n => simpa [run, hu] using ih h n (by simpa using ha)

variable {s t : σ} {as : List α} (h : run step s as = some t)

theorem ofRun_end (hn : as.length ≤ n) : (ofRun h).state n = t := by
  show (run step s (as.take n)).getD t = t
  rw [List.take_of_length_le hn, h]
  rfl

/-- It is fair to whatever is not possible at its end. -/
theorem ofRun_fair {p : α → Prop} (hp : ∀ a, p a → step t a = none) : (ofRun h).Fair p := by
  refine fun n => ⟨n + as.length, Nat.le_add_right _ _, .inr fun a ha => ?_⟩
  rw [ofRun_end h (Nat.le_add_left _ _)]
  exact hp a ha

end Execution

end PolicyEngine.Lib
