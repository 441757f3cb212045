import Mathlib
import PolicyEngine.Lib.Outcome

/-!
# Errors, limits and byte budgets

The module root's `errors.go`, `limits.go` and the counter behind `cost.go`. Go
strings and byte slices are lists of bytes, a `time.Time` is its instant in
nanoseconds since the Unix epoch, and a call that returns `(value, error)` is an
`Except` over the error's category, which is all an `EngineError` carries.
-/

open PolicyEngine.Lib

namespace PolicyEngine

/-- The stable non-OK failure categories. -/
inductive ErrorCategory where
  | invalidArgument
  | permissionDenied
  | notFound
  | conflict
  | failedPrecondition
  | resourceExhausted
  | canceled
  | deadlineExceeded
  | unavailable
  | unsupportedArtifact
  | cursorExpired
  | integrity
  | internal
  deriving DecidableEq, Repr

abbrev Result (α : Type) := Except ErrorCategory α

abbrev Bytes := List UInt8

/-- The bytes of an ASCII literal of the source. -/
def ascii (text : String) : Bytes := text.toList.map fun c => UInt8.ofNat c.toNat

/-- Nanoseconds since the Unix epoch. -/
abbrev Time := Int

/-- Go's zero `time.Time`: January 1, year 1 UTC. -/
def zeroTime : Time := -62135596800 * 1000000000

def maxUint64 : Nat := 2 ^ 64 - 1

def maxInt64 : Nat := 2 ^ 63 - 1

/-! ## Hard maxima -/

def maxIdentifierBytes : Nat := 1024
def maxStringValueBytes : Nat := 65536
def maxNamespaceBytes : Nat := maxIdentifierBytes
def maxSourceNameBytes : Nat := maxIdentifierBytes
def maxPolicySourceBytes : Nat := 1048576
def maxMutationItems : Nat := 4096
def maxPageRequestItems : Nat := 1000
def maxPageResponseItems : Nat := 1000
def maxEventPageItems : Nat := 1000
def maxAggregateInputBytes : Nat := 4194304
def maxAggregateOutputBytes : Nat := 4194304
def maxEventPageBytes : Nat := 4194304
def maxAggregateWorkItems : Nat := 100000

/-! ## Results -/

variable {α β : Type}

variable {x : Result α} {f : α → Result β}

theorem bind_eq_ok {b : β} :
    x >>= f = .ok b ↔ ∃ a, x = .ok a ∧ f a = .ok b := by
  cases x with
  | error e => simp [bind, Except.bind]
  | ok a => simp [bind, Except.bind]

/-- The same for a check, which returns nothing. -/
theorem check_eq_ok {x : Result Unit} {f : Unit → Result β} {b : β} :
    x >>= f = .ok b ↔ x = .ok () ∧ f () = .ok b := by
  rw [bind_eq_ok]
  exact ⟨fun ⟨_, h⟩ => h, fun h => ⟨(), h⟩⟩

/-- The same for a result that is only checked to exist. -/
theorem ignore_eq_ok : (x >>= fun _ => (pure () : Result Unit)) = .ok () ↔ ∃ a, x = .ok a := by
  rw [bind_eq_ok]
  exact exists_congr fun a => and_iff_left rfl

@[simp] theorem ok_bind (a : α) (f : α → Result β) : (Except.ok a : Result α) >>= f = f a := rfl

@[simp] theorem error_bind (e : ErrorCategory) (f : α → Result β) :
    (Except.error e : Result α) >>= f = .error e := rfl

@[simp] theorem pure_eq_ok (a : α) : (pure a : Result α) = .ok a := rfl

/-- A check that passes or fails with one category. -/
def require (condition : Bool) (category : ErrorCategory) : Result Unit :=
  if condition then .ok () else .error category

variable {e : ErrorCategory}

@[simp] theorem require_eq_ok {c : Bool} : require c e = .ok () ↔ c = true := by
  cases c <;> simp [require]

@[simp] theorem require_true (e : ErrorCategory) : require true e = .ok () := rfl

/-- Reports any failure under one category. -/
def orFail {α : Type} (category : ErrorCategory) : Result α → Result α
  | .ok a => .ok a
  | .error _ => .error category

@[simp] theorem orFail_eq_ok {a : α} : orFail e x = .ok a ↔ x = .ok a := by
  cases x <;> simp [orFail]

@[simp] theorem orFail_ok (e : ErrorCategory) (a : α) : orFail e (.ok a) = .ok a := rfl

variable {E : ErrorCategory → Prop}

/-- A check passes, or fails with its category. -/
theorem require_outcome {c : Bool} (he : E e) :
    Outcome E (fun _ => c = true) (require c e) := by
  cases c
  · exact .error he
  · exact .ok rfl

theorem orFail_outcome (he : E e) (x : Result α) :
    Outcome E (fun a => x = .ok a) (orFail e x) := by
  cases x with
  | error => exact .error he
  | ok => exact .ok rfl

theorem isOk_iff : x.isOk = true ↔ ∃ a, x = .ok a := by
  cases x <;> simp [Except.isOk, Except.toBool]

theorem isOk_unit {x : Result Unit} : x.isOk = true ↔ x = .ok () := by
  cases x <;> simp [Except.isOk, Except.toBool]

variable {l : List α}

/-- A loop of checks passes when every check does. -/
theorem forM_eq_ok {f : α → Result Unit} :
    forM l f = .ok () ↔ ∀ a ∈ l, f a = .ok () := by
  induction l with
  | nil => simp
  | cons a l ih => rw [List.forall_mem_cons, ← ih, List.forM_cons, check_eq_ok]

/-- A loop that collects results returns them in order. -/
theorem mapM_eq_ok {r : List β} :
    l.mapM f = .ok r ↔ l.map f = r.map .ok := by
  induction l generalizing r with
  | nil => cases r <;> simp
  | cons a l ih =>
    rw [List.map_cons, eq_comm (a := f a :: l.map f), List.map_eq_cons_iff]
    simp only [List.mapM_cons, bind_eq_ok, ih, pure_eq_ok, Except.ok.injEq]
    constructor
    · rintro ⟨b, hb, bs, hbs, rfl⟩
      exact ⟨b, bs, rfl, hb.symm, hbs.symm⟩
    · rintro ⟨b, bs, rfl, hb, hbs⟩
      exact ⟨b, hb.symm, bs, hbs.symm, rfl⟩

theorem mem_of_mapM {r : List β} (h : l.mapM f = .ok r) {b : β} :
    b ∈ r ↔ ∃ a ∈ l, f a = .ok b := by
  have hmem : (.ok b : Result β) ∈ r.map .ok ↔ b ∈ r := by simp
  rw [← hmem, ← mapM_eq_ok.1 h, List.mem_map]

/-- It succeeds when every pass does. -/
theorem exists_mapM :
    (∃ r, l.mapM f = .ok r) ↔ ∀ a ∈ l, ∃ b, f a = .ok b := by
  constructor
  · rintro ⟨r, h⟩ a ha
    have hmem : f a ∈ r.map .ok := mapM_eq_ok.1 h ▸ List.mem_map_of_mem ha
    obtain ⟨b, -, hb⟩ := List.mem_map.1 hmem
    exact ⟨b, hb.symm⟩
  · intro h
    induction l with
    | nil => exact ⟨[], rfl⟩
    | cons a l ih =>
      obtain ⟨b, hb⟩ := h a List.mem_cons_self
      obtain ⟨r, hr⟩ := ih fun a ha => h a (List.mem_cons_of_mem _ ha)
      exact ⟨b :: r, by simp [hb, hr]⟩

/-! ## Budgets -/

structure BudgetCounter where
  used : Nat
  max : Nat
  deriving DecidableEq, Repr

def BudgetCounter.add (b : BudgetCounter) (size : Nat) : Result BudgetCounter :=
  if size > b.max ∨ b.used > b.max - size then .error .resourceExhausted
  else .ok { b with used := b.used + size }

def BudgetCounter.addMany (b : BudgetCounter) (count size : Nat) : Result BudgetCounter :=
  if count ≠ 0 ∧ size > b.max / count then .error .resourceExhausted
  else b.add (count * size)

/-- `f` charges `n` bytes: it fails exactly when they do not fit. -/
def Charges (f : BudgetCounter → Result BudgetCounter) (n : Nat) : Prop :=
  ∀ b, b.used ≤ b.max →
    f b = if b.used + n ≤ b.max then .ok { b with used := b.used + n } else .error .resourceExhausted

theorem charges_add (n : Nat) : Charges (·.add n) n := by
  intro b _
  simp only [BudgetCounter.add]
  by_cases h : b.used + n ≤ b.max
  · rw [if_neg (by omega), if_pos h]
  · rw [if_pos (by omega), if_neg h]

theorem charges_addMany (count n : Nat) : Charges (·.addMany count n) (count * n) := by
  intro b hb
  simp only [BudgetCounter.addMany]
  split
  next h =>
    -- the product does not fit, by the division the source checks
    have hlt : b.max < count * n := by
      have := (Nat.div_lt_iff_lt_mul (Nat.pos_of_ne_zero h.1)).1 h.2
      rwa [Nat.mul_comm] at this
    rw [if_neg (by omega)]
  next => exact charges_add _ b hb

theorem charges_ok : Charges .ok 0 := by
  intro b hb
  rw [Nat.add_zero, if_pos hb]

variable {n : Nat}

theorem Charges.bind {f g m} (hf : Charges f m) (hg : Charges g n) :
    Charges (fun b => f b >>= g) (m + n) := by
  intro b hb
  simp only [hf b hb]
  by_cases hm : b.used + m ≤ b.max
  · rw [if_pos hm, ok_bind, hg _ hm, Nat.add_assoc]
  · rw [if_neg hm, error_bind, if_neg (by omega)]

/-- A loop charges the sum of what its passes charge. -/
theorem charges_foldlM {f cost} (hf : ∀ a, Charges (f · a) (cost a)) (l : List α) :
    Charges (fun b => l.foldlM f b) (l.map cost).sum := by
  induction l with
  | nil => simpa using charges_ok
  | cons a l ih => simpa using (hf a).bind ih

/-- Checks a charge against a fresh budget of `max` bytes. -/
def withinBudget (max : Nat) (f : BudgetCounter → Result BudgetCounter) : Result Unit :=
  f ⟨0, max⟩ >>= fun _ => .ok ()

theorem Charges.withinBudget {f} (hf : Charges f n) (max : Nat) :
    withinBudget max f = if n ≤ max then .ok () else .error .resourceExhausted := by
  simp only [PolicyEngine.withinBudget, hf ⟨0, max⟩ (Nat.zero_le _), Nat.zero_add]
  split <;> rfl

theorem Charges.withinBudget_eq_ok {f} (hf : Charges f n) {max : Nat} :
    PolicyEngine.withinBudget max f = .ok () ↔ n ≤ max := by
  rw [hf.withinBudget]
  split <;> simp_all

/-- A budget is kept or exhausted. -/
theorem Charges.outcome {f} (hf : Charges f n) (he : E .resourceExhausted) (max : Nat) :
    Outcome E (fun _ => n ≤ max) (PolicyEngine.withinBudget max f) := by
  rw [hf.withinBudget]
  split
  next h => exact .ok h
  next => exact .error he

end PolicyEngine
