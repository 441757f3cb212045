import PolicyEngine.Lib.GoTime
import PolicyEngine.Sqlite.DataCodec

/-!
# Timestamps on machine integers

`sqliteTimestamp` of `events.go` as it computes: 64-bit arithmetic over Go's own
representation of a time. No step overflows, for any time, and the function refines
the one over exact instants that the rest of the adapter is modelled with.
-/

open PolicyEngine.Lib

namespace PolicyEngine.Sqlite.Machine

def nanosPerSecond : Int64 := 1000000000

def sqliteTimestamp {m : Type → Type} [Monad m] (ops : Int64Ops m) (value : GoTime) : m (Option (GoTime × Int64)) :=
  if value.isZero then pure none
  else
    let seconds := value.unixSeconds
    if seconds > Int64.maxValue / nanosPerSecond ∨ seconds < Int64.minValue / nanosPerSecond then pure none
    else do
      let base ← ops.mul seconds nanosPerSecond
      let limit ← ops.sub Int64.maxValue value.nsec
      if base > limit then pure none
      else do
        let nanos ← ops.add base value.nsec
        let canonical ← GoTime.unix ops 0 nanos
        if canonical ≠ value then pure none else pure (some (canonical, nanos))

/-- The seconds bounds of the source keep out the times whose Unix seconds wrap. -/
theorem unixSeconds_bounds (t : GoTime) :
    (t.unixSeconds > Int64.maxValue / nanosPerSecond ∨ t.unixSeconds < Int64.minValue / nanosPerSecond) ∧
        (t.sec.toInt - 62135596800 > 9223372036 ∨ t.sec.toInt - 62135596800 < -9223372036) ∨
      ¬ (t.unixSeconds > Int64.maxValue / nanosPerSecond ∨ t.unixSeconds < Int64.minValue / nanosPerSecond) ∧
        t.unixSeconds.toInt = t.sec.toInt - 62135596800 ∧
        -9223372036 ≤ t.sec.toInt - 62135596800 ∧ t.sec.toInt - 62135596800 ≤ 9223372036 := by
  have hmax : (Int64.maxValue / nanosPerSecond).toInt = 9223372036 := by decide
  have hmin : (Int64.minValue / nanosPerSecond).toInt = -9223372036 := by decide
  have hfits := fits_toInt t.sec
  simp only [gt_iff_lt, Int64.lt_iff_toInt_lt, hmax, hmin]
  simp only [Fits] at hfits
  by_cases hwrap : t.sec.toInt - 62135596800 < -9223372036854775808
  · have hbmod : t.unixSeconds.toInt = t.sec.toInt - 62135596800 + 18446744073709551616 := by
      rw [GoTime.unixSeconds, Int64.toInt_sub, GoTime.toInt_unixToInternal, Int.bmod_def]
      omega
    omega
  · have hexact : t.unixSeconds.toInt = t.sec.toInt - 62135596800 := by
      rw [GoTime.unixSeconds, toInt_sub_of_fits, GoTime.toInt_unixToInternal]
      simp only [Fits, GoTime.toInt_unixToInternal]
      omega
    omega

/-- The timestamp as Go computes it. -/
def timestamp (t : GoTime) : Option (GoTime × Int64) := sqliteTimestamp wrapping t

theorem timestamp_eq (t : GoTime) :
    timestamp t =
      if t.isZero then none
      else if t.unixSeconds > Int64.maxValue / nanosPerSecond ∨ t.unixSeconds < Int64.minValue / nanosPerSecond then none
      else if t.unixSeconds * nanosPerSecond > Int64.maxValue - t.nsec then none
      else if GoTime.unixNano (t.unixSeconds * nanosPerSecond + t.nsec) ≠ t then none
      else some (GoTime.unixNano (t.unixSeconds * nanosPerSecond + t.nsec),
        t.unixSeconds * nanosPerSecond + t.nsec) := rfl

variable {t : GoTime}

/-- Within the seconds bounds every operation of the source is exact. -/
theorem nanos_exact (ht : t.WellFormed) (hsec : t.unixSeconds.toInt = t.sec.toInt - 62135596800)
    (hlo : -9223372036 ≤ t.sec.toInt - 62135596800) (hhi : t.sec.toInt - 62135596800 ≤ 9223372036) :
    Fits (t.unixSeconds.toInt * nanosPerSecond.toInt) ∧ Fits (Int64.maxValue.toInt - t.nsec.toInt) ∧
      (¬ t.unixSeconds * nanosPerSecond > Int64.maxValue - t.nsec ↔ t.instant ≤ 9223372036854775807) ∧
      (t.instant ≤ 9223372036854775807 → Fits ((t.unixSeconds * nanosPerSecond).toInt + t.nsec.toInt) ∧
        (t.unixSeconds * nanosPerSecond + t.nsec).toInt = t.instant) := by
  obtain ⟨hn0, hn1⟩ := ht
  have hbase : Fits (t.unixSeconds.toInt * nanosPerSecond.toInt) := by
    rw [hsec, show nanosPerSecond.toInt = 1000000000 by decide]
    simp only [Fits]
    omega
  have hlimit : Fits (Int64.maxValue.toInt - t.nsec.toInt) := by
    rw [show Int64.maxValue.toInt = 9223372036854775807 by decide]
    simp only [Fits]
    omega
  have hinstant : (t.unixSeconds * nanosPerSecond).toInt + t.nsec.toInt = t.instant := by
    rw [toInt_mul_of_fits hbase, hsec, show nanosPerSecond.toInt = 1000000000 by decide, GoTime.instant]
  refine ⟨hbase, hlimit, ?_, fun hle => ?_⟩
  · rw [gt_iff_lt, Int64.lt_iff_toInt_lt, toInt_sub_of_fits hlimit, show Int64.maxValue.toInt = 9223372036854775807 by decide,
      ← hinstant]
    omega
  · have hfits : Fits ((t.unixSeconds * nanosPerSecond).toInt + t.nsec.toInt) := by
      rw [hinstant]
      simp only [Fits, GoTime.instant] at hle ⊢
      omega
    exact ⟨hfits, (toInt_add_of_fits hfits).trans hinstant⟩

/-- On every time the checked run succeeds, and the timestamp is the one of the time's exact instant. -/
theorem timestamp_refines (ht : t.WellFormed) :
    sqliteTimestamp checked t = some (timestamp t) ∧
      timestamp t = (Sqlite.sqliteTimestamp t.instant).map fun nanos => (t, nanos) := by
  have hsplit : t.instant / Sqlite.nanosPerSecond = t.sec.toInt - 62135596800 ∧
      t.instant % Sqlite.nanosPerSecond = t.nsec.toInt := by
    obtain ⟨h0, h1⟩ := ht
    simp only [GoTime.instant, Sqlite.nanosPerSecond]
    omega
  rw [timestamp_eq, sqliteTimestamp, Sqlite.sqliteTimestamp, hsplit.1, hsplit.2]
  by_cases hzero : t.isZero = true
  · have hinstant : t.instant = zeroTime := (GoTime.isZero_iff ht).1 hzero
    rw [if_pos hzero, if_pos hzero, if_pos hinstant]
    exact ⟨rfl, rfl⟩
  have hinstant : ¬ t.instant = zeroTime := fun h => hzero ((GoTime.isZero_iff ht).2 h)
  rw [if_neg hzero, if_neg hzero, if_neg hinstant]
  dsimp only
  obtain ⟨hout, hout'⟩ | ⟨hin, hsec, hlo, hhi⟩ := unixSeconds_bounds t
  · rw [if_pos hout, if_pos hout, if_pos hout']
    exact ⟨rfl, rfl⟩
  have hin' : ¬ (t.sec.toInt - 62135596800 > 9223372036 ∨ t.sec.toInt - 62135596800 < -9223372036) := by omega
  rw [if_neg hin, if_neg hin, if_neg hin']
  obtain ⟨hbase, hlimit, hguard, hsum⟩ := nanos_exact ht hsec hlo hhi
  rw [checked_mul hbase, GoTime.some_bind, checked_sub hlimit, GoTime.some_bind]
  have hmodel : (t.sec.toInt - 62135596800) * Sqlite.nanosPerSecond > maxInt64 - t.nsec.toInt ↔
      ¬ t.instant ≤ 9223372036854775807 := by
    simp only [GoTime.instant, Sqlite.nanosPerSecond, maxInt64]
    omega
  by_cases hle : t.instant ≤ 9223372036854775807
  · obtain ⟨hfits, hexact⟩ := hsum hle
    obtain ⟨hchecked, hwf, hback⟩ := GoTime.unix_zero (t.unixSeconds * nanosPerSecond + t.nsec)
    have hcanonical : GoTime.unixNano (t.unixSeconds * nanosPerSecond + t.nsec) = t :=
      GoTime.ext_instant hwf ht (hback.trans hexact)
    have hvalue : Int64.ofInt ((t.sec.toInt - 62135596800) * Sqlite.nanosPerSecond + t.nsec.toInt) =
        t.unixSeconds * nanosPerSecond + t.nsec := by
      rw [← Int64.ofInt_toInt (t.unixSeconds * nanosPerSecond + t.nsec), hexact, GoTime.instant, Sqlite.nanosPerSecond]
    rw [if_neg (hguard.2 hle), if_neg (hguard.2 hle), checked_add hfits, GoTime.some_bind, hchecked, GoTime.some_bind,
      hcanonical, if_neg (not_not.2 rfl), if_neg (not_not.2 rfl), if_neg (fun h => hmodel.1 h hle), hvalue]
    exact ⟨rfl, rfl⟩
  · have hover : t.unixSeconds * nanosPerSecond > Int64.maxValue - t.nsec := by
      by_contra h
      exact hle (hguard.1 h)
    rw [if_pos hover, if_pos hover, if_pos (hmodel.2 hle)]
    exact ⟨rfl, rfl⟩

theorem timestamp_eq_some {c n} (ht : t.WellFormed) :
    timestamp t = some (c, n) ↔ c = t ∧ n.toInt = t.instant ∧ minTimestamp ≤ t.instant := by
  rw [(timestamp_refines ht).2, Option.map_eq_some_iff]
  simp only [sqliteTimestamp_eq_some, unixTime, Prod.mk.injEq]
  constructor
  · rintro ⟨n', h, rfl, rfl⟩
    exact ⟨rfl, h⟩
  · rintro ⟨rfl, h⟩
    exact ⟨n, h, rfl, rfl⟩

/-- **Timestamps are exact.** For every time no operation of `sqliteTimestamp` overflows, and a time whose Unix
seconds wrap is refused. An accepted time is returned unchanged with the nanoseconds of its instant, which are their
own timestamp, and the nanoseconds of two accepted times compare as the times do. -/
theorem timestamp_exact :
    (∀ t : GoTime, t.WellFormed → sqliteTimestamp checked t = some (timestamp t) ∧
      (t.unixSeconds.toInt ≠ t.sec.toInt - GoTime.unixToInternal.toInt → timestamp t = none)) ∧
    (∀ (t c : GoTime) (n : Int64), t.WellFormed → timestamp t = some (c, n) →
      c = t ∧ n.toInt = t.instant ∧ timestamp (GoTime.unixNano n) = some (c, n)) ∧
    ∀ (t u c d : GoTime) (m n : Int64), t.WellFormed → u.WellFormed → timestamp t = some (c, m) →
      timestamp u = some (d, n) → (m > n ↔ t.after u = true) := by
  refine ⟨fun t ht => ⟨(timestamp_refines ht).1, fun hwrap => ?_⟩, fun t c n ht h => ?_, fun t u c d m n ht hu hm hn => ?_⟩
  · rw [GoTime.toInt_unixToInternal] at hwrap
    obtain ⟨hout, -⟩ | ⟨-, hsec, -⟩ := unixSeconds_bounds t
    · rw [timestamp_eq, if_pos hout]
      split <;> rfl
    · exact absurd hsec hwrap
  · obtain ⟨rfl, hinstant, hmin⟩ := (timestamp_eq_some ht).1 h
    obtain ⟨-, hwf, hback⟩ := GoTime.unix_zero n
    have hsame : GoTime.unixNano n = c := GoTime.ext_instant hwf ht (hback.trans hinstant)
    exact ⟨rfl, hinstant, by rw [hsame]; exact h⟩
  · rw [gt_iff_lt, Int64.lt_iff_toInt_lt, ((timestamp_eq_some ht).1 hm).2.1, ((timestamp_eq_some hu).1 hn).2.1,
      GoTime.after_iff ht hu]

end PolicyEngine.Sqlite.Machine
