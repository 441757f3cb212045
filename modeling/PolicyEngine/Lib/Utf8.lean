import Mathlib

/-!
# UTF-8

The decoder of well-formed UTF-8: `runes bytes` is the list of code points, or
`none` when some byte sequence is truncated, overlong, a surrogate or above
U+10FFFF (the ranges of the Unicode standard's table of well-formed sequences).
-/

namespace PolicyEngine.Lib.Utf8

def cont (b : UInt8) : Bool := 0x80 ≤ b && b ≤ 0xBF

/-- The low six bits of a continuation byte. -/
def low (b : UInt8) : Nat := b.toNat % 64

/-- The second byte's range depends on the first: no overlong form, surrogate or
value above U+10FFFF. -/
def second3 (b0 b1 : UInt8) : Bool :=
  if b0 = 0xE0 then 0xA0 ≤ b1 && b1 ≤ 0xBF
  else if b0 = 0xED then 0x80 ≤ b1 && b1 ≤ 0x9F
  else cont b1

def second4 (b0 b1 : UInt8) : Bool :=
  if b0 = 0xF0 then 0x90 ≤ b1 && b1 ≤ 0xBF
  else if b0 = 0xF4 then 0x80 ≤ b1 && b1 ≤ 0x8F
  else cont b1

/-- How many bytes the first byte announces; `0` for a byte that starts nothing. -/
def width (b0 : UInt8) : Nat :=
  if b0 < 0x80 then 1
  else if 0xC2 ≤ b0 && b0 ≤ 0xDF then 2
  else if 0xE0 ≤ b0 && b0 ≤ 0xEF then 3
  else if 0xF0 ≤ b0 && b0 ≤ 0xF4 then 4
  else 0

/-- The first code point and the bytes after it. -/
def decodeRune : List UInt8 → Option (Nat × List UInt8)
  | [] => none
  | b0 :: rest =>
    match width b0, rest with
    | 1, rest => some (b0.toNat, rest)
    | 2, b1 :: rest => if cont b1 then some (b0.toNat % 32 * 64 + low b1, rest) else none
    | 3, b1 :: b2 :: rest =>
      if second3 b0 b1 && cont b2 then some ((b0.toNat % 16 * 64 + low b1) * 64 + low b2, rest) else none
    | 4, b1 :: b2 :: b3 :: rest =>
      if second4 b0 b1 && cont b2 && cont b3 then
        some (((b0.toNat % 8 * 64 + low b1) * 64 + low b2) * 64 + low b3, rest)
      else none
    | _, _ => none

/-- Decodes at most `fuel` code points; every one takes a byte, so the length is enough. -/
def runesFrom : Nat → List UInt8 → Option (List Nat)
  | _, [] => some []
  | 0, _ :: _ => none
  | fuel + 1, bytes =>
    match decodeRune bytes with
    | none => none
    | some (r, rest) => (runesFrom fuel rest).map (r :: ·)

def runes (bytes : List UInt8) : Option (List Nat) := runesFrom bytes.length bytes

/-- ASCII decodes byte by byte. -/
theorem runes_ascii {bytes : List UInt8} (h : ∀ b ∈ bytes, b < 0x80) :
    runes bytes = some (bytes.map UInt8.toNat) := by
  unfold runes
  induction bytes with
  | nil => rfl
  | cons b bytes ih =>
    have hb : width b = 1 := by simp [width, h b List.mem_cons_self]
    have hr := ih fun c hc => h c (List.mem_cons_of_mem b hc)
    simp [runesFrom, decodeRune, hb, hr]

end PolicyEngine.Lib.Utf8
