import Mathlib
import PolicyEngine.Lib.Delimited

/-!
# RFC 3339 instants

An instant is a number of nanoseconds since 1970. Its text is the civil date and time
in UTC, a fraction without trailing zeros, and `Z`. Different instants have different
texts: every field but the year has a fixed width, and the year ends at a dash.
-/

open List

namespace PolicyEngine.Lib.Rfc3339

/-! ## Decimal numbers -/

/-- The last `width` decimal digits. -/
def decimal : Nat → Nat → List UInt8
  | 0, _ => []
  | width + 1, n => decimal width (n / 10) ++ [UInt8.ofNat (0x30 + n % 10)]

def decimalValue (digits : List UInt8) : Nat := digits.foldl (fun n d => n * 10 + (d.toNat - 0x30)) 0

theorem length_decimal (width n : Nat) : (decimal width n).length = width := by
  induction width generalizing n with
  | zero => rfl
  | succ width ih => simp [decimal, ih]

theorem toNat_digit (n : Nat) : (UInt8.ofNat (0x30 + n % 10)).toNat = 0x30 + n % 10 := by
  rw [UInt8.toNat_ofNat']
  omega

variable {width n : Nat}

theorem mem_decimal {b : UInt8} (h : b ∈ decimal width n) : 0x30 ≤ b.toNat ∧ b.toNat < 0x3A := by
  induction width generalizing n with
  | zero => simp [decimal] at h
  | succ width ih =>
    rcases mem_append.1 h with h | h
    · exact ih h
    · rw [mem_singleton.1 h, toNat_digit]
      omega

theorem decimalValue_decimal (h : n < 10 ^ width) : decimalValue (decimal width n) = n := by
  induction width generalizing n with
  | zero =>
    obtain rfl : n = 0 := by simpa using h
    rfl
  | succ width ih =>
    have hq : n / 10 < 10 ^ width := by
      rw [Nat.div_lt_iff_lt_mul (by decide)]
      exact h
    have hlast : decimalValue (decimal (width + 1) n) = decimalValue (decimal width (n / 10)) * 10 + n % 10 := by
      simp [decimalValue, decimal]
      omega
    rw [hlast, ih hq]
    omega

theorem decimal_inj {m : Nat} (hm : m < 10 ^ width) (hn : n < 10 ^ width) (h : decimal width m = decimal width n) :
    m = n := by
  rw [← decimalValue_decimal hm, h, decimalValue_decimal hn]

theorem delimited_decimal (width : Nat) : Delimited (· < 10 ^ width) (decimal width) :=
  Delimited.of_length (fun n _ => length_decimal width n) fun _ _ hm hn h => decimal_inj hm hn h

/-- A number with at least `width` digits. -/
def padded (width n : Nat) : List UInt8 := decimal (max width (Nat.log 10 n + 1)) n

theorem decimalValue_padded (width n : Nat) : decimalValue (padded width n) = n := by
  refine decimalValue_decimal (Nat.lt_of_lt_of_le (Nat.lt_pow_succ_log_self (b := 10) (by decide) n) ?_)
  exact Nat.pow_le_pow_right (by decide) (Nat.le_max_right _ _)

/-- The byte `-`. -/
def dash : UInt8 := 0x2D

theorem dash_notMem_padded (width n : Nat) : dash ∉ padded width n := fun h =>
  absurd (mem_decimal h).1 (by decide)

/-- A signed number. -/
def appendInt (x : Int) (width : Nat) : List UInt8 := (if x < 0 then [dash] else []) ++ padded width x.natAbs

theorem padded_ne_nil (width n : Nat) : padded width n ≠ [] := by
  rw [← length_pos_iff, padded, length_decimal]
  omega

/-- A signed number up to a dash. -/
theorem appendInt_dash_inj {x y u v} (h : appendInt x width ++ dash :: u = appendInt y width ++ dash :: v) :
    x = y ∧ u = v := by
  have hmag {m n : Nat} (hmn : padded width m ++ dash :: u = padded width n ++ dash :: v) : m = n ∧ u = v := by
    obtain ⟨hdigits, huv⟩ := delimited_terminated dash (dash_notMem_padded width m) (dash_notMem_padded width n)
      (by simpa using hmn)
    exact ⟨by rw [← decimalValue_padded width m, hdigits, decimalValue_padded], huv⟩
  -- no digit is a dash, so both numbers have a sign or neither has
  have hsign {n : Nat} {w z : List UInt8} (heq : dash :: w = padded width n ++ z) : False := by
    obtain ⟨b, l, hb⟩ := exists_cons_of_ne_nil (padded_ne_nil width n)
    rw [hb, cons_append] at heq
    exact dash_notMem_padded width n (hb ▸ (List.cons.inj heq).1 ▸ mem_cons_self)
  simp only [appendInt, append_assoc] at h
  by_cases hx : x < 0 <;> by_cases hy : y < 0 <;> simp only [hx, hy, if_true, if_false] at h
  · obtain ⟨hxy, huv⟩ := hmag (append_cancel_left h)
    exact ⟨by omega, huv⟩
  · exact (hsign h).elim
  · exact (hsign h.symm).elim
  · obtain ⟨hxy, huv⟩ := hmag h
    exact ⟨by omega, huv⟩

theorem appendInt_head (x : Int) (width : Nat) : ∃ b rest, appendInt x width = b :: rest ∧ b < 0x3A := by
  obtain ⟨b, l, hb⟩ := exists_cons_of_ne_nil (padded_ne_nil width x.natAbs)
  by_cases hx : x < 0
  · exact ⟨dash, padded width x.natAbs, by simp [appendInt, hx], by decide⟩
  · have hmem : b ∈ padded width x.natAbs := hb ▸ mem_cons_self
    exact ⟨b, l, by simp [appendInt, hx, hb], UInt8.lt_iff_toNat_lt.2 (mem_decimal hmem).2⟩

/-! ## Civil dates -/

/-- A day in cycles of 400, 100, 4 and 1 years. Years start in March, so that a leap day
is the last day of its year. -/
structure Cycles where
  era : Int
  century : Nat
  quad : Nat
  year : Nat
  day : Nat

/-- The cycles of a day counted from 1970-01-01. -/
def cycles (days : Int) : Cycles :=
  let z := days + 719468
  let d := (z % 146097).toNat
  let century := d / 36524 - d / 36524 / 4
  let d := d - 36524 * century
  let quad := d / 1461
  let d := d - 1461 * quad
  let year := d / 365 - d / 365 / 4
  ⟨z / 146097, century, quad, year, d - 365 * year⟩

structure Cycles.Bounded (c : Cycles) : Prop where
  century : c.century ≤ 3
  quad : c.quad ≤ 24
  year : c.year ≤ 3
  day : c.day ≤ 365

def Cycles.days (c : Cycles) : Int :=
  146097 * c.era + (36524 * c.century + 1461 * c.quad + 365 * c.year + c.day : Nat) - 719468

theorem cycles_spec (days : Int) : (cycles days).Bounded ∧ (cycles days).days = days := by
  have hd : ((days + 719468) % 146097).toNat < 146097 := by omega
  have hz : 146097 * ((days + 719468) / 146097) + (((days + 719468) % 146097).toNat : Int) = days + 719468 := by omega
  simp only [cycles, Cycles.days]
  generalize ((days + 719468) % 146097).toNat = d at hd hz ⊢
  have cut400 : d / 36524 - d / 36524 / 4 ≤ 3 ∧ 36524 * (d / 36524 - d / 36524 / 4) ≤ d ∧
      d - 36524 * (d / 36524 - d / 36524 / 4) ≤ 36524 := by omega
  generalize d / 36524 - d / 36524 / 4 = century at cut400 ⊢
  have cut100 {d : Nat} (h : d ≤ 36524) : d / 1461 ≤ 24 ∧ 1461 * (d / 1461) ≤ d ∧ d - 1461 * (d / 1461) ≤ 1460 := by
    omega
  have h100 := cut100 cut400.2.2
  generalize (d - 36524 * century) / 1461 = quad at h100 ⊢
  have cut4 {d : Nat} (h : d ≤ 1460) : d / 365 - d / 365 / 4 ≤ 3 ∧ 365 * (d / 365 - d / 365 / 4) ≤ d ∧
      d - 365 * (d / 365 - d / 365 / 4) ≤ 365 := by omega
  have h4 := cut4 h100.2.2
  generalize (d - 36524 * century - 1461 * quad) / 365 - (d - 36524 * century - 1461 * quad) / 365 / 4 = year at h4 ⊢
  exact ⟨⟨cut400.1, h100.1, h4.1, h4.2.2⟩, by omega⟩

structure Civil where
  year : Int
  month : Nat
  day : Nat
  deriving DecidableEq, Repr

/-- The date of a day counted from 1970-01-01. -/
def civil (days : Int) : Civil :=
  let c := cycles days
  let month := (5 * c.day + 2) / 153
  { year := 400 * c.era + (100 * c.century + 4 * c.quad + c.year + if month < 10 then 0 else 1 : Nat)
    month := if month < 10 then month + 3 else month - 9
    day := c.day - (153 * month + 2) / 5 + 1 }

theorem month_spec {day month : Nat} (h : day ≤ 365) (hm : month = (5 * day + 2) / 153) :
    month ≤ 11 ∧ (153 * month + 2) / 5 ≤ day ∧ day - (153 * month + 2) / 5 ≤ 30 := by
  omega

theorem civil_bounds (days : Int) : (civil days).month < 10 ^ 2 ∧ (civil days).day < 10 ^ 2 := by
  obtain ⟨hmonth, -, hday⟩ := month_spec (cycles_spec days).1.day rfl
  simp only [civil]
  constructor
  · split <;> omega
  · omega

theorem civil_inj {days days' : Int} (h : civil days = civil days') : days = days' := by
  obtain ⟨hc, hdays⟩ := cycles_spec days
  obtain ⟨hc', hdays'⟩ := cycles_spec days'
  obtain ⟨hm, hlo, -⟩ := month_spec hc.day rfl
  obtain ⟨hm', hlo', -⟩ := month_spec hc'.day rfl
  obtain ⟨hcentury, hquad, hyear, -⟩ := hc
  obtain ⟨hcentury', hquad', hyear', -⟩ := hc'
  rw [← hdays, ← hdays']
  simp only [civil, Civil.mk.injEq] at h
  generalize cycles days = c at *
  generalize cycles days' = c' at *
  generalize (5 * c.day + 2) / 153 = month at *
  generalize (5 * c'.day + 2) / 153 = month' at *
  obtain ⟨hy, hmonth, hday⟩ := h
  obtain rfl : month = month' := by split at hmonth <;> split at hmonth <;> omega
  -- the parts of a year number are the digits of one numeral
  have hparts : c.era = c'.era ∧ c.century = c'.century ∧ c.quad = c'.quad ∧ c.year = c'.year := by omega
  obtain ⟨h1, h2, h3, h4⟩ := hparts
  have h5 : c.day = c'.day := by omega
  simp only [Cycles.days, h1, h2, h3, h4, h5]

/-! ## Instants -/

/-- The fraction of a second, without trailing zeros; nothing for a full second. -/
def appendNano (nanos : Nat) : List UInt8 :=
  if nanos = 0 then [] else 0x2E :: (decimal 9 nanos).rdropWhile (· == 0x30)

/-- `YYYY-MM-DDTHH:MM:SS.nnnnnnnnnZ`. -/
def format (t : Int) : List UInt8 :=
  let seconds := t / 1000000000
  let date := civil (seconds / 86400)
  let clock := (seconds % 86400).toNat
  appendInt date.year 4 ++ dash :: (decimal 2 date.month ++ dash :: (decimal 2 date.day ++ 0x54 ::
    (decimal 2 (clock / 3600) ++ 0x3A :: (decimal 2 (clock / 60 % 60) ++ 0x3A :: (decimal 2 (clock % 60) ++
      (appendNano (t % 1000000000).toNat ++ [0x5A]))))))

/-- Dropping the trailing `a`s of lists of one length loses nothing. -/
theorem rdropWhile_inj {α : Type} [DecidableEq α] {a : α} {l m : List α} (hlen : l.length = m.length)
    (h : l.rdropWhile (· == a) = m.rdropWhile (· == a)) : l = m := by
  have hsplit (l : List α) : l = l.rdropWhile (· == a) ++
      List.replicate (l.length - (l.rdropWhile (· == a)).length) a := by
    have hall : l.rtakeWhile (· == a) = List.replicate (l.rtakeWhile (· == a)).length a :=
      eq_replicate_iff.2 ⟨rfl, fun b hb => by simpa using mem_rtakeWhile_imp hb⟩
    have hl := rdropWhile_append_rtakeWhile (p := (· == a)) (l := l)
    have hlen := congrArg List.length hl
    rw [length_append] at hlen
    conv_lhs => rw [← hl, hall]
    congr 2
    omega
  rw [hsplit l, hsplit m, h, hlen]

theorem appendNano_inj {m : Nat} (hm : m < 10 ^ 9) (hn : n < 10 ^ 9) (h : appendNano m = appendNano n) : m = n := by
  unfold appendNano at h
  split at h <;> split at h
  · omega
  · cases h
  · cases h
  · refine decimal_inj hm hn (rdropWhile_inj ?_ (List.cons.inj h).2)
    rw [length_decimal, length_decimal]

theorem format_injective : Function.Injective format := by
  intro s t h
  have hbounds (x : Int) : ((x / 1000000000 % 86400).toNat : Int) = x / 1000000000 % 86400 ∧
      (x / 1000000000 % 86400).toNat < 86400 := by omega
  have hnano (x : Int) : ((x % 1000000000).toNat : Int) = x % 1000000000 ∧ (x % 1000000000).toNat < 10 ^ 9 := by omega
  obtain ⟨hsc, hsl⟩ := hbounds s
  obtain ⟨htc, htl⟩ := hbounds t
  simp only [format] at h
  generalize (s / 1000000000 % 86400).toNat = sclock at *
  generalize (t / 1000000000 % 86400).toNat = tclock at *
  obtain ⟨hyear, h⟩ := appendInt_dash_inj h
  obtain ⟨hmonth, h⟩ := delimited_decimal 2 (civil_bounds _).1 (civil_bounds _).1 h
  obtain ⟨hday, h⟩ := delimited_decimal 2 (civil_bounds _).2 (civil_bounds _).2 (List.cons.inj h).2
  obtain ⟨hhour, h⟩ := delimited_decimal 2 (by omega) (by omega) (List.cons.inj h).2
  obtain ⟨hminute, h⟩ := delimited_decimal 2 (by omega) (by omega) (List.cons.inj h).2
  obtain ⟨hsecond, h⟩ := delimited_decimal 2 (by omega) (by omega) (List.cons.inj h).2
  have hfraction := appendNano_inj (hnano s).2 (hnano t).2 (append_cancel_right h)
  have hdate : civil (s / 1000000000 / 86400) = civil (t / 1000000000 / 86400) := by
    rw [Civil.mk.injEq]
    exact ⟨hyear, hmonth, hday⟩
  have hdays := civil_inj hdate
  have hs := (hnano s).1
  have ht := (hnano t).1
  omega

/-- The text starts with a digit or a dash. -/
theorem format_head (t : Int) : ∃ b rest, format t = b :: rest ∧ b < 0x3A := by
  obtain ⟨b, rest, hb, hlt⟩ := appendInt_head (civil (t / 1000000000 / 86400)).year 4
  simp only [format, hb, cons_append]
  exact ⟨b, _, rfl, hlt⟩

theorem year_bound (days : Int) : (civil days).year.natAbs ≤ days.natAbs + 1000000 := by
  obtain ⟨⟨hcentury, hquad, hyear, hday⟩, hdays⟩ := cycles_spec days
  simp only [Cycles.days] at hdays
  have hera : (cycles days).era.natAbs * 146097 ≤ days.natAbs + 1000000 := by omega
  simp only [civil]
  split <;> omega

theorem length_padded_le {k : Nat} (hw : width ≤ k) (h : n < 10 ^ k) (hk : 0 < k) :
    (padded width n).length ≤ k := by
  rw [padded, length_decimal]
  have hlog : Nat.log 10 n < k := Nat.log_lt_of_lt_pow' (by omega) h
  omega

theorem length_appendNano_le (nanos : Nat) : (appendNano nanos).length ≤ 10 := by
  unfold appendNano
  split
  · simp
  · have h := (List.rdropWhile_prefix (· == 0x30) (l := decimal 9 nanos)).length_le
    rw [length_decimal] at h
    exact Nat.succ_le_succ h

/-- The instants of any clock have short texts. -/
theorem length_format_le {t : Int} (h : t.natAbs < 10 ^ 30) : (format t).length ≤ 64 := by
  have hyear : (civil (t / 1000000000 / 86400)).year.natAbs < 10 ^ 31 := by
    have hb := year_bound (t / 1000000000 / 86400)
    omega
  have hpadded := length_padded_le (k := 31) (show 4 ≤ 31 by decide) hyear (by decide)
  have hint : (appendInt (civil (t / 1000000000 / 86400)).year 4).length ≤ 32 := by
    rw [appendInt, length_append]
    split <;> simp <;> omega
  have hnano := length_appendNano_le (t % 1000000000).toNat
  simp only [format, length_append, length_cons, length_decimal, length_nil]
  omega

example : format 951782400500000000 = "2000-02-29T00:00:00.5Z".toUTF8.toList := by decide +kernel

end PolicyEngine.Lib.Rfc3339
