import PolicyEngine.Core.Basic
import PolicyEngine.Lib.Utf8

/-!
# Text and identifier validation

`validation.go`: which strings the engine accepts as identifiers, namespaces,
attribute paths, entity and subject references. The zero value of a reference is
built from empty strings, as in Go.
-/

open PolicyEngine.Lib

namespace PolicyEngine

/-! ## Code points -/

/-- `unicode.IsControl`: general category Cc. -/
def isControl (r : Nat) : Bool := r ≤ 0x1F || (0x7F ≤ r && r ≤ 0x9F)

/-- General category Cf, as the ranges of `unicode.Cf`. -/
def formatRanges : List (Nat × Nat) :=
  [(0x00AD, 0x00AD), (0x0600, 0x0605), (0x061C, 0x061C), (0x06DD, 0x06DD), (0x070F, 0x070F),
   (0x0890, 0x0891), (0x08E2, 0x08E2), (0x180E, 0x180E), (0x200B, 0x200F), (0x202A, 0x202E),
   (0x2060, 0x2064), (0x2066, 0x206F), (0xFEFF, 0xFEFF), (0xFFF9, 0xFFFB), (0x110BD, 0x110BD),
   (0x110CD, 0x110CD), (0x13430, 0x1343F), (0x1BCA0, 0x1BCA3), (0x1D173, 0x1D17A),
   (0xE0001, 0xE0001), (0xE0020, 0xE007F)]

def isFormat (r : Nat) : Bool := formatRanges.any fun range => range.1 ≤ r && r ≤ range.2

/-- A code point `validateText` refuses. -/
def unsafeRune (r : Nat) : Bool := r == 0 || isControl r || isFormat r

/-! ## Text -/

def validateText (value : Bytes) (maximum : Nat) (allowEmpty : Bool) : Result Unit :=
  if value = [] ∧ !allowEmpty then .error .invalidArgument
  else if value.length > maximum then .error .resourceExhausted
  else
    match Utf8.runes value with
    | none => .error .invalidArgument
    | some runes => if runes.any unsafeRune then .error .invalidArgument else .ok ()

def validateIdentifier (value : Bytes) : Result Unit := validateText value maxIdentifierBytes false

def validateOptionalIdentifier (value : Bytes) : Result Unit := validateText value maxIdentifierBytes true

/-- The byte `*`. -/
def asterisk : UInt8 := 0x2A

def validateNamespace (value : Bytes) : Result Unit := do
  validateText value maxNamespaceBytes false
  if value.contains asterisk then .error .invalidArgument else .ok ()

def validIdentifier (value : Bytes) : Bool := (validateIdentifier value).isOk

def validNamespace (value : Bytes) : Bool := (validateNamespace value).isOk

/-- Text without unsafe code points. -/
def SafeText (value : Bytes) : Prop := ∃ runes, Utf8.runes value = some runes ∧ ∀ r ∈ runes, unsafeRune r = false

variable {value : Bytes}

theorem validateText_eq_ok {maximum allowEmpty} :
    validateText value maximum allowEmpty = .ok () ↔
      (value = [] → allowEmpty = true) ∧ value.length ≤ maximum ∧ SafeText value := by
  unfold validateText SafeText
  split
  next h => simp_all
  next h =>
    have hempty : value = [] → allowEmpty = true := by simpa using h
    split
    next hl => simp; omega
    next hl =>
      have hl' : value.length ≤ maximum := by omega
      cases hr : Utf8.runes value with
      | none => simp
      | some runes =>
        have hall : (∀ r ∈ runes, unsafeRune r = false) ↔ runes.any unsafeRune = false := by simp
        cases ha : runes.any unsafeRune
        · exact ⟨fun _ => ⟨hempty, hl', runes, rfl, hall.2 ha⟩, fun _ => by simp [ha]⟩
        · refine ⟨fun h => by simp [ha] at h, ?_⟩
          rintro ⟨-, -, _, hrunes, hsafe⟩
          obtain rfl := Option.some.inj hrunes
          simp [hall.1 hsafe] at ha

/-- A text is refused as invalid or as too long. -/
theorem validateText_outcome {E} (hinvalid : E .invalidArgument) (hexhausted : E .resourceExhausted) (value : Bytes)
    (maximum : Nat) (allowEmpty : Bool) :
    Outcome E (fun _ => True) (validateText value maximum allowEmpty) := by
  unfold validateText
  repeat' split
  exacts [.error hinvalid, .error hexhausted, .error hinvalid, .error hinvalid, .ok trivial]

theorem validateIdentifier_eq_ok :
    validateIdentifier value = .ok () ↔ value ≠ [] ∧ value.length ≤ maxIdentifierBytes ∧ SafeText value := by
  rw [validateIdentifier, validateText_eq_ok]
  simp

theorem validateOptionalIdentifier_eq_ok :
    validateOptionalIdentifier value = .ok () ↔ value.length ≤ maxIdentifierBytes ∧ SafeText value := by
  rw [validateOptionalIdentifier, validateText_eq_ok]
  simp

theorem validateNamespace_eq_ok :
    validateNamespace value = .ok () ↔
      value ≠ [] ∧ value.length ≤ maxNamespaceBytes ∧ SafeText value ∧ asterisk ∉ value := by
  rw [validateNamespace, bind_eq_ok]
  constructor
  · rintro ⟨_, ht, hstar⟩
    obtain ⟨hne, hlen, hsafe⟩ := validateText_eq_ok.1 ht
    refine ⟨by simpa using hne, hlen, hsafe, fun hmem => ?_⟩
    simp [hmem] at hstar
  · rintro ⟨hne, hlen, hsafe, hstar⟩
    exact ⟨(), validateText_eq_ok.2 ⟨fun h => absurd h hne, hlen, hsafe⟩, by simp [hstar]⟩

theorem validateOptionalIdentifier_of_identifier (h : validateIdentifier value = .ok ()) :
    validateOptionalIdentifier value = .ok () := by
  rw [validateIdentifier_eq_ok] at h
  exact validateOptionalIdentifier_eq_ok.2 h.2

theorem validateIdentifier_of_namespace (h : validateNamespace value = .ok ()) :
    validateIdentifier value = .ok () := by
  rw [validateNamespace_eq_ok] at h
  exact validateIdentifier_eq_ok.2 ⟨h.1, h.2.1, h.2.2.1⟩

@[simp] theorem validIdentifier_iff : validIdentifier value = true ↔ validateIdentifier value = .ok () :=
  isOk_unit

@[simp] theorem validNamespace_iff : validNamespace value = true ↔ validateNamespace value = .ok () :=
  isOk_unit

/-- Printable ASCII is safe text. -/
theorem safeText_ascii (h : ∀ b ∈ value, 0x20 ≤ b ∧ b < 0x7F) : SafeText value := by
  refine ⟨_, Utf8.runes_ascii fun b hb => ?_, ?_⟩
  · have hhi : b.toNat < 127 := UInt8.lt_iff_toNat_lt.1 (h b hb).2
    exact UInt8.lt_iff_toNat_lt.2 (show b.toNat < 128 by omega)
  intro r hr
  obtain ⟨b, hb, rfl⟩ := List.mem_map.1 hr
  have hlo : 32 ≤ b.toNat := UInt8.le_iff_toNat_le.1 (h b hb).1
  have hhi : b.toNat < 127 := UInt8.lt_iff_toNat_lt.1 (h b hb).2
  have hfmt : isFormat b.toNat = false := by
    rw [isFormat, List.any_eq_false]
    intro range hrange
    have hrange' : 127 ≤ range.1 := by
      revert range
      decide
    simp only [Bool.and_eq_true, decide_eq_true_eq]
    omega
  simp only [unsafeRune, isControl, hfmt, Bool.or_false, Bool.or_eq_false_iff, beq_eq_false_iff_ne,
    decide_eq_false_iff_not, Bool.and_eq_false_iff]
  omega

/-! ## DSL identifiers and paths -/

def isDSLIdentifierStart (b : UInt8) : Bool :=
  b == 0x5F || (0x41 ≤ b && b ≤ 0x5A) || (0x61 ≤ b && b ≤ 0x7A)

def isDigit (b : UInt8) : Bool := 0x30 ≤ b && b ≤ 0x39

def validDSLIdentifier : Bytes → Bool
  | [] => false
  | b :: rest => isDSLIdentifierStart b && rest.all fun c => isDSLIdentifierStart c || isDigit c

/-- Sixty-four lowercase hexadecimal digits. -/
def validRevisionIDString (value : Bytes) : Bool :=
  value.length == 64 && value.all fun b => isDigit b || (0x61 ≤ b && b ≤ 0x66)

end PolicyEngine
