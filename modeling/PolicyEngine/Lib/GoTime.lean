import Mathlib

/-!
# Go's `time.Time` over 64-bit seconds

A time is a signed 64-bit count of seconds since the year 1 and a nanosecond within
the second. Code over 64-bit integers is written once, over an interpretation of the
arithmetic: wrapping, as Go computes, or checked, which fails where the wrapped
result is not the exact one.
-/

namespace PolicyEngine.Lib

/-! ## Arithmetic of `int64` -/

/-- Addition, subtraction and multiplication; `m` says what becomes of an overflow. -/
structure Int64Ops (m : Type → Type) where
  add : Int64 → Int64 → m Int64
  sub : Int64 → Int64 → m Int64
  mul : Int64 → Int64 → m Int64

def wrapping : Int64Ops Id := ⟨fun a b => a + b, fun a b => a - b, fun a b => a * b⟩

/-- The wrapped result, if it is the exact one. -/
def exactly (wrapped : Int64) (exact : Int) : Option Int64 := if wrapped.toInt = exact then some wrapped else none

def checked : Int64Ops Option :=
  ⟨fun a b => exactly (a + b) (a.toInt + b.toInt), fun a b => exactly (a - b) (a.toInt - b.toInt),
    fun a b => exactly (a * b) (a.toInt * b.toInt)⟩

/-- The range of `int64`. -/
def Fits (x : Int) : Prop := -9223372036854775808 ≤ x ∧ x ≤ 9223372036854775807

theorem fits_toInt (a : Int64) : Fits a.toInt := by
  have hlo := Int64.le_toInt a
  have hhi := Int64.toInt_lt a
  simp only [Fits]
  omega

theorem bmod_of_fits {x : Int} (h : Fits x) : x.bmod (2 ^ 64) = x := by
  simp only [Fits] at h
  refine Int.bmod_eq_of_le ?_ ?_ <;> omega

variable {a b : Int64}

theorem toInt_add_of_fits (h : Fits (a.toInt + b.toInt)) : (a + b).toInt = a.toInt + b.toInt := by
  rw [Int64.toInt_add, bmod_of_fits h]

theorem toInt_sub_of_fits (h : Fits (a.toInt - b.toInt)) : (a - b).toInt = a.toInt - b.toInt := by
  rw [Int64.toInt_sub, bmod_of_fits h]

theorem toInt_mul_of_fits (h : Fits (a.toInt * b.toInt)) : (a * b).toInt = a.toInt * b.toInt := by
  rw [Int64.toInt_mul, bmod_of_fits h]

theorem checked_add (h : Fits (a.toInt + b.toInt)) : checked.add a b = some (a + b) :=
  if_pos (toInt_add_of_fits h)

theorem checked_sub (h : Fits (a.toInt - b.toInt)) : checked.sub a b = some (a - b) :=
  if_pos (toInt_sub_of_fits h)

theorem checked_mul (h : Fits (a.toInt * b.toInt)) : checked.mul a b = some (a * b) :=
  if_pos (toInt_mul_of_fits h)

/-! ## Times -/

structure GoTime where
  sec : Int64
  nsec : Int64
  deriving DecidableEq

namespace GoTime

/-- The invariant of every `time.Time`. -/
def WellFormed (t : GoTime) : Prop := 0 ≤ t.nsec.toInt ∧ t.nsec.toInt < 1000000000

def unixToInternal : Int64 := 62135596800

def isZero (t : GoTime) : Bool := t.sec = 0 && t.nsec = 0

/-- `Time.Unix`: wraps for the earliest times of the range. -/
def unixSeconds (t : GoTime) : Int64 := t.sec - unixToInternal

/-- `Time.After`. -/
def after (t u : GoTime) : Bool := t.sec > u.sec || t.sec = u.sec && t.nsec > u.nsec

/-- `time.Unix`. -/
def unix {m : Type → Type} [Monad m] (ops : Int64Ops m) (sec nsec : Int64) : m GoTime :=
  if nsec < 0 ∨ nsec ≥ 1000000000 then do
    let n := nsec / 1000000000
    let sec ← ops.add sec n
    let whole ← ops.mul n 1000000000
    let nsec ← ops.sub nsec whole
    if nsec < 0 then do
      let nsec ← ops.add nsec 1000000000
      let sec ← ops.sub sec 1
      let sec ← ops.add sec unixToInternal
      pure ⟨sec, nsec⟩
    else do
      let sec ← ops.add sec unixToInternal
      pure ⟨sec, nsec⟩
  else do
    let sec ← ops.add sec unixToInternal
    pure ⟨sec, nsec⟩

/-- `time.Unix(0, n)`. -/
def unixNano (n : Int64) : GoTime := unix wrapping 0 n

/-- The instant in nanoseconds since the epoch. -/
def instant (t : GoTime) : Int := (t.sec.toInt - 62135596800) * 1000000000 + t.nsec.toInt

theorem ext_instant {t u : GoTime} (ht : t.WellFormed) (hu : u.WellFormed) (h : t.instant = u.instant) : t = u := by
  obtain ⟨ts, tn⟩ := t
  obtain ⟨us, un⟩ := u
  simp only [WellFormed, instant] at *
  have hsec : ts = us := Int64.toInt_inj.1 (by omega)
  have hnsec : tn = un := Int64.toInt_inj.1 (by omega)
  rw [hsec, hnsec]

/-- Later in Go is later in time. -/
theorem after_iff {t u : GoTime} (ht : t.WellFormed) (hu : u.WellFormed) : t.after u = true ↔ u.instant < t.instant := by
  simp only [after, Bool.or_eq_true, Bool.and_eq_true, decide_eq_true_eq, gt_iff_lt, Int64.lt_iff_toInt_lt,
    ← Int64.toInt_inj, instant]
  simp only [WellFormed] at *
  omega

theorem isZero_iff {t : GoTime} (ht : t.WellFormed) : t.isZero = true ↔ t.instant = -62135596800000000000 := by
  simp only [isZero, Bool.and_eq_true, decide_eq_true_eq, ← Int64.toInt_inj, instant, Int64.toInt_zero]
  simp only [WellFormed] at ht
  omega

theorem toInt_billion : (1000000000 : Int64).toInt = 1000000000 := by decide

theorem toInt_unixToInternal : unixToInternal.toInt = 62135596800 := by decide

/-- The truncated quotient of the source: small, with a remainder of less than a second on either side. -/
theorem toInt_div_billion (n : Int64) :
    -9223372036 ≤ (n / 1000000000).toInt ∧ (n / 1000000000).toInt ≤ 9223372036 ∧
      -1000000000 < n.toInt - (n / 1000000000).toInt * 1000000000 ∧
      n.toInt - (n / 1000000000).toInt * 1000000000 < 1000000000 := by
  obtain ⟨hlo, hhi⟩ := fits_toInt n
  rw [Int64.toInt_div_of_ne_right _ _ (by decide), toInt_billion]
  by_cases h : 0 ≤ n.toInt
  · rw [Int.tdiv_eq_ediv_of_nonneg h]
    omega
  · have hneg : n.toInt.tdiv 1000000000 = -((-n.toInt) / 1000000000) := by
      rw [← Int.tdiv_eq_ediv_of_nonneg (by omega), Int.neg_tdiv, Int.neg_neg]
    rw [hneg]
    omega

/-- The instant of a time assembled from seconds since the epoch, within the range that `time.Unix` produces here. -/
theorem instant_internal {sec nsec : Int64} (hlo : -9223372037 ≤ sec.toInt) (hhi : sec.toInt ≤ 9223372036) :
    checked.add sec unixToInternal = some (sec + unixToInternal) ∧
      instant ⟨sec + unixToInternal, nsec⟩ = sec.toInt * 1000000000 + nsec.toInt := by
  have hfits : Fits (sec.toInt + unixToInternal.toInt) := by
    simp only [Fits, toInt_unixToInternal]
    omega
  refine ⟨checked_add hfits, ?_⟩
  simp only [instant, toInt_add_of_fits hfits, toInt_unixToInternal]
  omega

theorem some_bind {α β : Type} (a : α) (f : α → Option β) : (some a >>= f) = f a := rfl

theorem unixNano_eq (n : Int64) :
    unixNano n =
      if n < 0 ∨ n ≥ 1000000000 then
        if n - n / 1000000000 * 1000000000 < 0 then
          ⟨0 + n / 1000000000 - 1 + unixToInternal, n - n / 1000000000 * 1000000000 + 1000000000⟩
        else ⟨0 + n / 1000000000 + unixToInternal, n - n / 1000000000 * 1000000000⟩
      else ⟨0 + unixToInternal, n⟩ := rfl

/-- No step of `time.Unix(0, n)` overflows, and its result is the instant `n`. -/
theorem unix_zero (n : Int64) :
    unix checked 0 n = some (unixNano n) ∧ (unixNano n).WellFormed ∧ (unixNano n).instant = n.toInt := by
  obtain ⟨hqlo, hqhi, hrlo, hrhi⟩ := toInt_div_billion n
  have hz : (0 : Int64).toInt = 0 := Int64.toInt_zero
  have hone : (1 : Int64).toInt = 1 := by decide
  rw [unixNano_eq, unix]
  by_cases hr : n < 0 ∨ n ≥ 1000000000
  · rw [if_pos hr, if_pos hr]
    generalize n / 1000000000 = q at *
    have hqfits : Fits (q.toInt * (1000000000 : Int64).toInt) := by
      simp only [Fits, toInt_billion]
      omega
    have hwhole := toInt_mul_of_fits hqfits
    have hrfits : Fits (n.toInt - (q * 1000000000).toInt) := by
      simp only [Fits, hwhole, toInt_billion]
      omega
    have hsfits : Fits ((0 : Int64).toInt + q.toInt) := by
      simp only [Fits, hz]
      omega
    have hsec := toInt_add_of_fits hsfits
    have hrest := toInt_sub_of_fits hrfits
    rw [hz] at hsec
    rw [hwhole, toInt_billion] at hrest
    dsimp only
    rw [checked_add hsfits, some_bind, checked_mul hqfits, some_bind, checked_sub hrfits, some_bind]
    -- name each machine value before the arithmetic: only its integer matters from here on
    clear hqfits hrfits hsfits hwhole hr
    generalize n - q * 1000000000 = rest at *
    generalize 0 + q = sec at *
    by_cases hs : rest < 0
    · -- the remainder is negative: one second is borrowed
      rw [if_pos hs, if_pos hs]
      rw [Int64.lt_iff_toInt_lt, hz] at hs
      have hnfits : Fits (rest.toInt + (1000000000 : Int64).toInt) := by
        simp only [Fits, toInt_billion]
        omega
      have hbfits : Fits (sec.toInt - (1 : Int64).toInt) := by
        simp only [Fits, hone]
        omega
      have hnsec := toInt_add_of_fits hnfits
      have hborrow := toInt_sub_of_fits hbfits
      rw [toInt_billion] at hnsec
      rw [hone] at hborrow
      rw [checked_add hnfits, some_bind, checked_sub hbfits, some_bind]
      clear hnfits hbfits
      generalize rest + 1000000000 = nsec at *
      generalize sec - 1 = borrowed at *
      obtain ⟨hadd, hinstant⟩ := @instant_internal borrowed nsec (by omega) (by omega)
      rw [hadd, some_bind, hinstant]
      exact ⟨rfl, ⟨by dsimp only; omega, by dsimp only; omega⟩, by omega⟩
    · rw [if_neg hs, if_neg hs]
      rw [Int64.lt_iff_toInt_lt, hz] at hs
      obtain ⟨hadd, hinstant⟩ := @instant_internal sec rest (by omega) (by omega)
      rw [hadd, some_bind, hinstant]
      exact ⟨rfl, ⟨by dsimp only; omega, by dsimp only; omega⟩, by omega⟩
  · rw [if_neg hr, if_neg hr]
    simp only [ge_iff_le, Int64.lt_iff_toInt_lt, Int64.le_iff_toInt_le, hz, toInt_billion, not_or] at hr
    obtain ⟨hadd, hinstant⟩ := @instant_internal 0 n (by rw [hz]; decide) (by rw [hz]; decide)
    rw [hadd, some_bind, hinstant, hz]
    exact ⟨rfl, ⟨by dsimp only; omega, by dsimp only; omega⟩, by omega⟩

end GoTime

end PolicyEngine.Lib
