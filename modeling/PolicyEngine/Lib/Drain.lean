import Mathlib
import PolicyEngine.Lib.Fair

/-!
# Draining a shared resource

Readers share one resource until it is closed: closing stops admission, the resource
is released once the last admitted reader has ended, the release is announced, and a
close call returns after the announcement. A history of these events is allowed if
the drain can take it step by step, and every allowed history is safe. An
implementation is verified by showing that the events of each of its steps are
allowed next.
-/

namespace PolicyEngine.Lib

/-- What a party does to the resource. -/
inductive DrainEvent (ι : Type)
  | admitted (r : ι)
  | used (r : ι)
  | ended (r : ι)
  | closing (c : ι)
  | released
  | announced
  | returned (c : ι)
  deriving DecidableEq

inductive DrainStage
  | pinned
  | released
  | announced
  deriving DecidableEq

structure Drain (ι : Type) where
  closing : Bool
  /-- The readers ever admitted, -/
  admitted : Finset ι
  /-- and those of them that have not ended. -/
  reading : Finset ι
  stage : DrainStage

namespace Drain

variable {ι : Type} [DecidableEq ι]

def start : Drain ι where
  closing := false
  admitted := ∅
  reading := ∅
  stage := .pinned

/-- The events allowed next. -/
def next (d : Drain ι) : DrainEvent ι → Option (Drain ι)
  | .admitted r =>
    if d.closing = false ∧ r ∉ d.admitted then
      some { d with admitted := insert r d.admitted, reading := insert r d.reading }
    else none
  | .used r => if r ∈ d.reading then some d else none
  | .ended r => if r ∈ d.reading then some { d with reading := d.reading.erase r } else none
  | .closing _ => some { d with closing := true }
  | .released =>
    if d.closing = true ∧ d.reading = ∅ ∧ d.stage = .pinned then some { d with stage := .released } else none
  | .announced => if d.stage = .released then some { d with stage := .announced } else none
  | .returned _ => if d.stage = .announced then some d else none

/-- A history the drain allows, and where it leads. -/
abbrev Allows (history : List (DrainEvent ι)) (d : Drain ι) : Prop :=
  run next start history = some d

/-- What is wanted of a history of the resource. -/
structure Safe (history : List (DrainEvent ι)) : Prop where
  /-- It is released at most once, -/
  released_once : history.count .released ≤ 1
  /-- and this is announced at most once. -/
  announced_once : history.count .announced ≤ 1
  /-- Nothing is admitted once a close has begun. -/
  admitted : ∀ before r after, history = before ++ .admitted r :: after → ∀ c, .closing c ∉ before
  /-- A reader uses what it was admitted to, before the release and before it has ended. -/
  used : ∀ before r after, history = before ++ .used r :: after → .admitted r ∈ before ∧ .released ∉ before
  /-- The release waits for every admitted reader. -/
  released : ∀ before after, history = before ++ .released :: after → ∀ r, .admitted r ∈ before → .ended r ∈ before
  /-- A close returns after the one release and its announcement. -/
  returned : ∀ before c after, history = before ++ .returned c :: after →
    before.count .released = 1 ∧ before.count .announced = 1

/-- What a history says about the state it leads to. -/
structure Recorded (history : List (DrainEvent ι)) (d : Drain ι) : Prop where
  closing : ∀ c, .closing c ∈ history → d.closing = true
  admitted : ∀ r, r ∈ d.admitted ↔ .admitted r ∈ history
  ended : ∀ r, .ended r ∈ history → r ∈ d.admitted
  reading : ∀ r, r ∈ d.reading ↔ .admitted r ∈ history ∧ .ended r ∉ history
  drained : d.stage ≠ .pinned → d.closing = true ∧ d.reading = ∅
  releases : history.count .released = if d.stage = .pinned then 0 else 1
  announcements : history.count .announced = if d.stage = .announced then 1 else 0

private theorem count_concat (history : List (DrainEvent ι)) (e f : DrainEvent ι) :
    (history ++ [e]).count f = history.count f + if e = f then 1 else 0 := by
  rw [List.count_append, List.count_singleton]
  simp only [beq_iff_eq]

variable {history : List (DrainEvent ι)} {d : Drain ι}

theorem Recorded.next {d' e} (h : Recorded history d) (he : d.next e = some d') :
    Recorded (history ++ [e]) d' := by
  obtain ⟨hc, hadm, hend, hr, hd, hrel, hann⟩ := h
  cases e <;> simp only [Drain.next, Option.ite_none_right_eq_some, Option.some.injEq] at he
  case admitted r =>
    obtain ⟨⟨hopen, hnew⟩, rfl⟩ := he
    have hpin : d.stage = .pinned := by
      by_contra hne
      rw [(hd hne).1] at hopen
      cases hopen
    constructor <;> grind [count_concat]
  case ended r =>
    obtain ⟨hin, rfl⟩ := he
    have hpin : d.stage = .pinned := by
      by_contra hne
      rw [(hd hne).2] at hin
      cases hin
    constructor <;> grind [count_concat]
  -- the reading set is as it was
  case closing c =>
    subst he
    constructor <;> grind [count_concat]
  all_goals
    obtain ⟨hguard, rfl⟩ := he
    constructor <;> grind [count_concat]

theorem Allows.recorded (h : Allows history d) : Recorded history d :=
  run_invariant (I := Recorded) (by constructor <;> simp [start]) (fun _ _ _ _ hi he => hi.next he) h

/-- An event of an allowed history was allowed after those before it. -/
theorem Allows.before {before after e} (h : Allows history d) (he : history = before ++ e :: after) :
    ∃ d₁ d₂, Recorded before d₁ ∧ d₁.next e = some d₂ := by
  subst he
  obtain ⟨d₁, h₁, h₂⟩ := run_append.1 h
  rw [run] at h₂
  split at h₂
  · cases h₂
  next d₂ hn => exact ⟨d₁, d₂, Allows.recorded h₁, hn⟩

theorem Allows.safe (h : Allows history d) : Safe history where
  released_once := by
    rw [h.recorded.releases]
    split <;> decide
  announced_once := by
    rw [h.recorded.announcements]
    split <;> decide
  admitted before r after he c hc := by
    obtain ⟨d₁, d₂, hb, hn⟩ := h.before he
    simp only [next, hb.closing c hc] at hn
    cases hn
  used before r after he := by
    obtain ⟨d₁, d₂, hb, hn⟩ := h.before he
    simp only [next, Option.ite_none_right_eq_some] at hn
    refine ⟨((hb.reading r).1 hn.1).1, fun hrel => ?_⟩
    have hstage : d₁.stage ≠ .pinned := fun hp => by
      have := hb.releases
      rw [if_pos hp] at this
      exact List.count_eq_zero.1 this hrel
    rw [(hb.drained hstage).2] at hn
    cases hn.1
  released before after he r hr := by
    obtain ⟨d₁, d₂, hb, hn⟩ := h.before he
    simp only [next, Option.ite_none_right_eq_some] at hn
    by_contra hend
    have hin : r ∈ d₁.reading := (hb.reading r).2 ⟨hr, hend⟩
    rw [hn.1.2.1] at hin
    cases hin
  returned before c after he := by
    obtain ⟨d₁, d₂, hb, hn⟩ := h.before he
    simp only [next, Option.ite_none_right_eq_some] at hn
    rw [hb.releases, hb.announcements, hn.1]
    exact ⟨rfl, rfl⟩

end Drain

/-- What is wanted of a system whose calls share one resource: `history` is what they have done to it, and `turn i`
tells the steps call `i` takes on its own. -/
structure Drains {σ α : Type} (step : σ → α → Option σ) (init : σ → Prop) (history : σ → List (DrainEvent Nat))
    (turn : Nat → α → Prop) : Prop where
  safe : ∀ s, Reachable step init s → Drain.Safe (history s)
  /-- If every admitted read ends, every close returns, as long as no call stands still for ever. -/
  returns : ∀ x : Execution step, init (x.state 0) →
    (∀ n r, .admitted r ∈ history (x.state n) → ∃ m, .ended r ∈ history (x.state m)) →
    (∀ i, x.Fair (turn i)) →
    ∀ n c, .closing c ∈ history (x.state n) → ∃ m, .returned c ∈ history (x.state m)

section Liveness

variable {σ α : Type} {step : σ → α → Option σ} {x : Execution step} {history : σ → List (DrainEvent Nat)}

/-- If every admitted read ends, a closing drain comes to have no reader. -/
theorem exists_drained (hgrows : ∀ s a s', step s a = some s' → history s <+: history s')
    (hallows : ∀ n, ∃ d, Drain.Allows (history (x.state n)) d)
    (hend : ∀ n r, .admitted r ∈ history (x.state n) → ∃ m, .ended r ∈ history (x.state m)) {n c : Nat}
    (hc : .closing c ∈ history (x.state n)) :
    ∃ k, .closing c ∈ history (x.state k) ∧
      ∀ d, Drain.Allows (history (x.state k)) d → d.closing = true ∧ d.reading = ∅ := by
  have hpre {m k : Nat} (h : m ≤ k) : history (x.state m) <+: history (x.state k) :=
    (x.leads h).invariant (I := fun s => history (x.state m) <+: history s) (by rintro _ rfl; exact List.prefix_rfl)
      fun s a s' hp _ hs => hp.trans (hgrows s a s' hs)
  obtain ⟨d₀, h₀⟩ := hallows n
  have hends (r : Nat) (hr : r ∈ d₀.admitted) : ∃ m, .ended r ∈ history (x.state m) :=
    hend n r ((h₀.recorded.admitted r).1 hr)
  choose! ends hends using hends
  have hck : .closing c ∈ history (x.state (max n (d₀.admitted.sup ends))) := (hpre (le_max_left _ _)).subset hc
  refine ⟨max n (d₀.admitted.sup ends), hck, fun d hd => ?_⟩
  obtain ⟨later, hlater⟩ := hpre (le_max_left n (d₀.admitted.sup ends))
  refine ⟨hd.recorded.closing c hck, Finset.eq_empty_of_forall_notMem fun r hr => ?_⟩
  obtain ⟨hadmitted, hlive⟩ := (hd.recorded.reading r).1 hr
  -- no reader was admitted after the close began
  have hearly : .admitted r ∈ history (x.state n) := by
    rw [← hlater, List.mem_append] at hadmitted
    rcases hadmitted with h | h
    · exact h
    · obtain ⟨before, after, rfl⟩ := List.append_of_mem h
      rw [← List.append_assoc] at hlater
      exact absurd (List.mem_append_left _ hc) (hd.safe.admitted _ r after hlater.symm c)
  have hr₀ : r ∈ d₀.admitted := (h₀.recorded.admitted r).2 hearly
  exact hlive ((hpre ((Finset.le_sup hr₀).trans (le_max_right _ _))).subset (hends r hr₀))

end Liveness

end PolicyEngine.Lib
