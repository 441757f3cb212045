import PolicyEngine.Lib.Lexer
import PolicyEngine.Lib.Utf8

/-!
# Upper case of UTF-8 strings

`toUpper` maps every code point of a string; a byte that starts no code point counts
as U+FFFD. The case mapping is a table of which little is said: it agrees with ASCII,
and of the other letters only the dotless i and the long s have an ASCII upper case.
-/

namespace PolicyEngine.Lib.Utf8

/-! ## Decoding and encoding -/

def replacement : Nat := 0xFFFD

def lossyRune (b : UInt8) (rest : List UInt8) : Nat × List UInt8 := (decodeRune (b :: rest)).getD (replacement, rest)

def lossyRunes (bytes : List UInt8) : List Nat := Lexer.lexemes lossyRune bytes

def encodeRune (r : Nat) : List UInt8 :=
  if r < 0x80 then [.ofNat r]
  else if r < 0x800 then [.ofNat (0xC0 + r / 64), .ofNat (0x80 + r % 64)]
  else if r < 0x10000 then [.ofNat (0xE0 + r / 4096), .ofNat (0x80 + r / 64 % 64), .ofNat (0x80 + r % 64)]
  else [.ofNat (0xF0 + r / 262144), .ofNat (0x80 + r / 4096 % 64), .ofNat (0x80 + r / 64 % 64), .ofNat (0x80 + r % 64)]

theorem width_cases (b : UInt8) :
    width b = 1 ∨ width b = 2 ∧ 0xC2 ≤ b.toNat ∧ b.toNat < 0xE0 ∨ width b = 3 ∧ 0xE0 ≤ b.toNat ∧ b.toNat < 0xF0 ∨
      width b = 4 ∧ 0xF0 ≤ b.toNat ∧ b.toNat < 0xF5 ∨ width b = 0 := by
  unfold width
  split
  · exact .inl rfl
  · split
    · rename_i h
      simp only [Bool.and_eq_true, decide_eq_true_eq, UInt8.le_iff_toNat_le] at h
      exact .inr (.inl ⟨rfl, h.1, Nat.lt_succ_of_le h.2⟩)
    · split
      · rename_i h
        simp only [Bool.and_eq_true, decide_eq_true_eq, UInt8.le_iff_toNat_le] at h
        exact .inr (.inr (.inl ⟨rfl, h.1, Nat.lt_succ_of_le h.2⟩))
      · split
        · rename_i h
          simp only [Bool.and_eq_true, decide_eq_true_eq, UInt8.le_iff_toNat_le] at h
          exact .inr (.inr (.inr (.inl ⟨rfl, h.1, Nat.lt_succ_of_le h.2⟩)))
        · exact .inr (.inr (.inr (.inr rfl)))

/-- The second byte keeps a three-byte form from being overlong. -/
theorem second3_low {b0 b1 : UInt8} (h0 : 0xE0 ≤ b0.toNat) (h0' : b0.toNat < 0xF0) (h : second3 b0 b1 = true) :
    2 ≤ b0.toNat % 16 * 64 + low b1 := by
  unfold second3 at h
  split at h
  · simp only [Bool.and_eq_true, decide_eq_true_eq, UInt8.le_iff_toNat_le] at h
    have hlo : 0xA0 ≤ b1.toNat := h.1
    have hhi : b1.toNat ≤ 0xBF := h.2
    unfold low
    omega
  · rename_i hne
    have : b0.toNat ≠ 0xE0 := fun heq => hne (UInt8.toNat_inj.1 heq)
    omega

theorem second4_low {b0 b1 : UInt8} (h0 : 0xF0 ≤ b0.toNat) (h0' : b0.toNat < 0xF5) (h : second4 b0 b1 = true) :
    1 ≤ b0.toNat % 8 * 64 + low b1 := by
  unfold second4 at h
  split at h
  · simp only [Bool.and_eq_true, decide_eq_true_eq, UInt8.le_iff_toNat_le] at h
    have hlo : 0x90 ≤ b1.toNat := h.1
    have hhi : b1.toNat ≤ 0xBF := h.2
    unfold low
    omega
  · rename_i hne
    have : b0.toNat ≠ 0xF0 := fun heq => hne (UInt8.toNat_inj.1 heq)
    omega

variable {b : UInt8}

/-- A code point takes at least its first byte, and a small one takes only that. -/
theorem decodeRune_spec {rest rest' r} (h : decodeRune (b :: rest) = some (r, rest')) :
    rest'.length ≤ rest.length ∧ (r < 0x80 → r = b.toNat ∧ rest' = rest) := by
  have hwidth := width_cases b
  simp only [decodeRune] at h
  split at h
  · cases h
    exact ⟨Nat.le_refl _, fun _ => ⟨rfl, rfl⟩⟩
  · obtain ⟨-, h⟩ := Option.ite_none_right_eq_some.1 h
    cases h
    refine ⟨Nat.le_succ _, fun hr => ?_⟩
    omega
  · obtain ⟨hc, h⟩ := Option.ite_none_right_eq_some.1 h
    cases h
    rw [Bool.and_eq_true] at hc
    have := second3_low (by omega) (by omega) hc.1
    exact ⟨by simp only [List.length_cons]; omega, fun hr => by omega⟩
  · obtain ⟨hc, h⟩ := Option.ite_none_right_eq_some.1 h
    cases h
    simp only [Bool.and_eq_true] at hc
    have := second4_low (by omega) (by omega) hc.1.1
    exact ⟨by simp only [List.length_cons]; omega, fun hr => by omega⟩
  · cases h

theorem consumes_lossyRune : Lexer.Consumes lossyRune := by
  intro b rest
  unfold lossyRune
  cases h : decodeRune (b :: rest) with
  | none => exact Nat.le_refl _
  | some p => exact (decodeRune_spec h).1

/-- A small code point is a byte of its own. -/
theorem lossyRune_of_lt {rest : List UInt8} (h : (lossyRune b rest).1 < 0x80) :
    (lossyRune b rest).1 = b.toNat ∧ (lossyRune b rest).2 = rest := by
  unfold lossyRune at h ⊢
  cases hd : decodeRune (b :: rest) with
  | none =>
    rw [hd] at h
    exact absurd (show replacement < 0x80 from h) (by decide)
  | some p =>
    rw [hd] at h
    exact (decodeRune_spec hd).2 h

theorem lossyRune_ascii (hb : b < 0x80) (rest : List UInt8) : lossyRune b rest = (b.toNat, rest) := by
  have hw : width b = 1 := by simp [width, hb]
  simp [lossyRune, decodeRune, hw]

/-! ## Upper case -/

/-- The upper case of the ASCII letters. -/
def upperAscii (b : UInt8) : UInt8 := if 0x61 ≤ b && b ≤ 0x7A then b - 0x20 else b

/-- The simple upper-case mapping of the Unicode character database. -/
class CaseTable where
  upper : Nat → Nat
  upper_ascii : ∀ b : UInt8, b < 0x80 → upper b.toNat = (upperAscii b).toNat
  upper_dotlessI : upper 0x131 = 0x49
  upper_longS : upper 0x17F = 0x53
  upper_other : ∀ r, 0x80 ≤ r → r ≠ 0x131 → r ≠ 0x17F → 0x80 ≤ upper r

section

variable [CaseTable]

def toUpper (bytes : List UInt8) : List UInt8 := (lossyRunes bytes).flatMap fun r => encodeRune (CaseTable.upper r)

theorem toUpper_cons (b : UInt8) (rest : List UInt8) :
    toUpper (b :: rest) = encodeRune (CaseTable.upper (lossyRune b rest).1) ++ toUpper (lossyRune b rest).2 := by
  rw [toUpper, lossyRunes, consumes_lossyRune.lexemes_cons, List.flatMap_cons]
  rfl

omit [CaseTable] in
theorem upperAscii_lt (hb : b < 0x80) : upperAscii b < 0x80 := by
  unfold upperAscii
  split
  · rename_i h
    simp only [Bool.and_eq_true, decide_eq_true_eq] at h
    grind
  · exact hb

omit [CaseTable] in
theorem encodeRune_toNat (hb : b < 0x80) : encodeRune b.toNat = [b] := by
  have h : b.toNat < 0x80 := UInt8.lt_iff_toNat_lt.1 hb
  rw [encodeRune, if_pos h, UInt8.ofNat_toNat]

/-- ASCII is mapped byte by byte. -/
theorem toUpper_ascii {bytes : List UInt8} (h : ∀ b ∈ bytes, b < 0x80) : toUpper bytes = bytes.map upperAscii := by
  induction bytes with
  | nil => rfl
  | cons b rest ih =>
    obtain ⟨hb, hrest⟩ := List.forall_mem_cons.1 h
    rw [toUpper_cons, lossyRune_ascii hb, CaseTable.upper_ascii b hb, encodeRune_toNat (upperAscii_lt hb), ih hrest]
    rfl

omit [CaseTable] in
/-- The first byte of a code point beyond ASCII is beyond ASCII. -/
theorem exists_mem_encodeRune {r : Nat} (h : 0x80 ≤ r) : ∃ b ∈ encodeRune r, 0x80 ≤ b := by
  have hlast : (0x80 : UInt8) ≤ .ofNat (0x80 + r % 64) := by
    rw [UInt8.le_iff_toNat_le, UInt8.toNat_ofNat']
    have : (0x80 : UInt8).toNat = 128 := rfl
    omega
  refine ⟨.ofNat (0x80 + r % 64), ?_, hlast⟩
  unfold encodeRune
  rw [if_neg (Nat.not_lt.2 h)]
  split
  · simp
  · split <;> simp

/-- A string without the two letters has an ASCII upper case only if it is ASCII. -/
theorem ascii_of_toUpper {bytes : List UInt8} (hletters : ∀ r ∈ lossyRunes bytes, r ≠ 0x131 ∧ r ≠ 0x17F)
    (h : ∀ b ∈ toUpper bytes, b < 0x80) : ∀ b ∈ bytes, b < 0x80 := by
  induction bytes using consumes_lossyRune.induct with
  | nil => simp
  | cons b rest ih =>
    rw [lossyRunes, consumes_lossyRune.lexemes_cons, List.forall_mem_cons] at hletters
    rw [toUpper_cons, List.forall_mem_append] at h
    have hr : (lossyRune b rest).1 < 0x80 := by
      by_contra hr
      obtain ⟨c, hc, hle⟩ := exists_mem_encodeRune
        (CaseTable.upper_other _ (Nat.not_lt.1 hr) hletters.1.1 hletters.1.2)
      exact absurd (h.1 c hc) (UInt8.not_lt.2 hle)
    obtain ⟨hb, hrest⟩ := lossyRune_of_lt hr
    rw [hb] at hr
    have htail := ih hletters.2 h.2
    rw [hrest] at htail
    exact List.forall_mem_cons.2 ⟨UInt8.lt_iff_toNat_lt.2 hr, htail⟩

end

end PolicyEngine.Lib.Utf8
