import Mathlib

/-!
# Unpadded URL-safe base64

`encode` and `decode` of the unpadded URL alphabet, as Go's `base64.RawURLEncoding`
computes them: decoding skips carriage returns and line feeds and does not insist
on zero trailing bits. A decoded text without line breaks is an encoding exactly
when its trailing bits are zero.
-/

open List

namespace PolicyEngine.Lib.Base64

/-- The character of a six-bit digit. -/
def digit (n : Nat) : UInt8 :=
  if n < 26 then UInt8.ofNat (n + 65)
  else if n < 52 then UInt8.ofNat (n + 71)
  else if n < 62 then UInt8.ofNat (n - 4)
  else if n = 62 then 45
  else 95

def value (c : UInt8) : Option Nat :=
  if 65 ≤ c ∧ c ≤ 90 then some (c.toNat - 65)
  else if 97 ≤ c ∧ c ≤ 122 then some (c.toNat - 71)
  else if 48 ≤ c ∧ c ≤ 57 then some (c.toNat + 4)
  else if c = 45 then some 62
  else if c = 95 then some 63
  else none

theorem value_digit : ∀ n < 64, value (digit n) = some n := by decide

theorem digit_printable : ∀ n < 64, 0x20 ≤ digit n ∧ digit n < 0x7F := by decide

def encode : List UInt8 → List UInt8
  | [] => []
  | [a] => [digit (a.toNat / 4), digit (a.toNat % 4 * 16)]
  | [a, b] =>
    [digit (a.toNat / 4), digit (a.toNat % 4 * 16 + b.toNat / 16), digit (b.toNat % 16 * 4)]
  | a :: b :: c :: rest =>
    digit (a.toNat / 4) :: digit (a.toNat % 4 * 16 + b.toNat / 16) :: digit (b.toNat % 16 * 4 + c.toNat / 64) ::
      digit (c.toNat % 64) :: encode rest

/-- The bytes of a sequence of six-bit digits; one digit alone is no byte. -/
def decodeDigits : List Nat → Option (List UInt8)
  | [] => some []
  | [_] => none
  | [p, q] => some [UInt8.ofNat (p * 4 + q / 16)]
  | [p, q, r] => some [UInt8.ofNat (p * 4 + q / 16), UInt8.ofNat (q * 16 + r / 4)]
  | p :: q :: r :: s :: rest =>
    match decodeDigits rest with
    | none => none
    | some bytes =>
      some (UInt8.ofNat (p * 4 + q / 16) :: UInt8.ofNat (q * 16 + r / 4) :: UInt8.ofNat (r * 64 + s) :: bytes)

def decode (text : List UInt8) : Option (List UInt8) :=
  match (text.filter fun c => c ≠ 10 ∧ c ≠ 13).mapM value with
  | none => none
  | some digits => decodeDigits digits

def encodedLength (n : Nat) : Nat := n / 3 * 4 + (n % 3 * 8 + 5) / 6

theorem length_encode (bytes : List UInt8) : (encode bytes).length = encodedLength bytes.length := by
  fun_induction encode bytes with
  | case1 => rfl
  | case2 a => simp [encodedLength]
  | case3 a b => simp [encodedLength]
  | case4 a b c rest ih =>
    simp only [length_cons, ih, encodedLength]
    omega

/-- The digits behind `encode`. -/
def digits : List UInt8 → List Nat
  | [] => []
  | [a] => [a.toNat / 4, a.toNat % 4 * 16]
  | [a, b] => [a.toNat / 4, a.toNat % 4 * 16 + b.toNat / 16, b.toNat % 16 * 4]
  | a :: b :: c :: rest =>
    a.toNat / 4 :: (a.toNat % 4 * 16 + b.toNat / 16) :: (b.toNat % 16 * 4 + c.toNat / 64) :: c.toNat % 64 :: digits rest

theorem encode_eq_map (bytes : List UInt8) : encode bytes = (digits bytes).map digit := by
  fun_induction encode bytes <;> simp_all [digits]

theorem digits_lt (bytes : List UInt8) : ∀ n ∈ digits bytes, n < 64 := by
  fun_induction digits bytes with
  | case1 => simp
  | case2 a =>
    have := a.toNat_lt
    simp only [mem_cons, not_mem_nil, or_false]
    omega
  | case3 a b =>
    have := a.toNat_lt
    have := b.toNat_lt
    simp only [mem_cons, not_mem_nil, or_false]
    omega
  | case4 a b c rest ih =>
    have := a.toNat_lt
    have := b.toNat_lt
    have := c.toNat_lt
    simp only [mem_cons]
    rintro n (rfl | rfl | rfl | rfl | hn)
    all_goals first | exact ih n hn | omega

theorem ofNat_eq_self {n a} (h : n % 256 = a.toNat) : UInt8.ofNat n = a := by
  apply UInt8.toNat_inj.1
  rw [UInt8.toNat_ofNat']
  exact h

theorem decodeDigits_digits (bytes : List UInt8) : decodeDigits (digits bytes) = some bytes := by
  fun_induction digits bytes with
  | case1 => rfl
  | case2 a =>
    have := a.toNat_lt
    simp only [decodeDigits, Option.some.injEq, List.cons.injEq, and_true]
    exact ofNat_eq_self (by omega)
  | case3 a b =>
    have := a.toNat_lt
    have := b.toNat_lt
    simp only [decodeDigits, Option.some.injEq, List.cons.injEq, and_true]
    exact ⟨ofNat_eq_self (by omega), ofNat_eq_self (by omega)⟩
  | case4 a b c rest ih =>
    have := a.toNat_lt
    have := b.toNat_lt
    have := c.toNat_lt
    simp only [decodeDigits, ih, Option.some.injEq, List.cons.injEq, and_true]
    exact ⟨ofNat_eq_self (by omega), ofNat_eq_self (by omega), ofNat_eq_self (by omega)⟩

/-- Every character of an encoding is printable ASCII. -/
theorem encode_printable (bytes : List UInt8) : ∀ c ∈ encode bytes, 0x20 ≤ c ∧ c < 0x7F := by
  rw [encode_eq_map]
  simp only [mem_map]
  rintro _ ⟨n, hn, rfl⟩
  exact digit_printable n (digits_lt bytes n hn)

variable {ns : List Nat}

theorem mapM_value_digit (h : ∀ n ∈ ns, n < 64) : (ns.map digit).mapM value = some ns := by
  induction ns with
  | nil => rfl
  | cons n ns ih =>
    rw [map_cons, mapM_cons, value_digit n (h n mem_cons_self),
      ih fun m hm => h m (mem_cons_of_mem _ hm)]
    rfl

theorem decode_encode (bytes : List UInt8) : decode (encode bytes) = some bytes := by
  have hfilter : (encode bytes).filter (fun c => c ≠ 10 ∧ c ≠ 13) = encode bytes := by
    rw [filter_eq_self]
    intro c hc
    have hp := (encode_printable bytes c hc).1
    simp only [ne_eq, decide_eq_true_eq]
    constructor <;> (rintro rfl; exact absurd hp (by decide))
  rw [decode, hfilter, encode_eq_map, mapM_value_digit (digits_lt bytes)]
  exact decodeDigits_digits bytes

/-! ## Trailing bits -/

/-- Whether the bits of the last digit that belong to no byte are zero. -/
def zeroPadded : List Nat → Bool
  | [] | [_] => true
  | [_, q] => q % 16 = 0
  | [_, _, r] => r % 4 = 0
  | _ :: _ :: _ :: _ :: rest => zeroPadded rest

def zeroTrailingBits (text : List UInt8) : Bool := zeroPadded (text.filterMap value)

theorem digit_value {c n} (h : value c = some n) : digit n = c ∧ n < 64 := by
  have hall : ∀ m < 256, ∀ n ∈ value (UInt8.ofNat m), digit n = UInt8.ofNat m ∧ n < 64 := by decide +kernel
  have hc := hall c.toNat c.toNat_lt
  rw [UInt8.ofNat_toNat] at hc
  exact hc n h

theorem digits_decodeDigits {bytes : List UInt8} (hlt : ∀ n ∈ ns, n < 64) (h : decodeDigits ns = some bytes) :
    digits bytes = ns ↔ zeroPadded ns = true := by
  induction ns using decodeDigits.induct generalizing bytes with
  | case1 =>
    obtain rfl := Option.some.inj h
    simp [digits, zeroPadded]
  | case2 p => cases h
  | case3 p q =>
    obtain rfl := Option.some.inj h
    simp only [mem_cons, not_mem_nil, or_false, forall_eq_or_imp, forall_eq] at hlt
    simp only [digits, zeroPadded, UInt8.toNat_ofNat', List.cons.injEq, and_true, decide_eq_true_eq]
    omega
  | case4 p q r =>
    obtain rfl := Option.some.inj h
    simp only [mem_cons, not_mem_nil, or_false, forall_eq_or_imp, forall_eq] at hlt
    simp only [digits, zeroPadded, UInt8.toNat_ofNat', List.cons.injEq, and_true, decide_eq_true_eq]
    omega
  | case5 p q r s rest hnone =>
    simp only [decodeDigits, hnone] at h
    cases h
  | case6 p q r s rest tail hsome ih =>
    simp only [decodeDigits, hsome, Option.some.injEq] at h
    subst h
    simp only [mem_cons, forall_eq_or_imp] at hlt
    obtain ⟨hp, hq, hr, hs, hrest⟩ := hlt
    rw [digits, zeroPadded, ← ih hrest hsome]
    simp only [UInt8.toNat_ofNat', List.cons.injEq]
    constructor
    · rintro ⟨-, -, -, -, h⟩
      exact h
    · intro h
      exact ⟨by omega, by omega, by omega, by omega, h⟩

theorem mapM_value_eq_some {text : List UInt8} (h : text.mapM value = some ns) :
    text = ns.map digit ∧ text.filterMap value = ns ∧ ∀ n ∈ ns, n < 64 := by
  induction text generalizing ns with
  | nil =>
    obtain rfl := Option.some.inj h
    simp
  | cons c text ih =>
    simp only [mapM_cons, Option.bind_eq_bind, Option.bind_eq_some_iff, Option.pure_def, Option.some.injEq] at h
    obtain ⟨n, hn, tail, htail, rfl⟩ := h
    obtain ⟨hdigit, hlt⟩ := digit_value hn
    obtain ⟨htext, hvalues, hall⟩ := ih htail
    refine ⟨?_, ?_, ?_⟩
    · rw [map_cons, hdigit, ← htext]
    · rw [filterMap_cons_some hn, hvalues]
    · simpa [hlt] using hall

/-- Without line breaks, the text that was decoded is the encoding of its bytes exactly when no trailing bit is
set. -/
theorem encode_decode_iff {text bytes : List UInt8} (hbreaks : ∀ c ∈ text, c ≠ 10 ∧ c ≠ 13)
    (h : decode text = some bytes) : encode bytes = text ↔ zeroTrailingBits text = true := by
  have hfilter : text.filter (fun c => c ≠ 10 ∧ c ≠ 13) = text := by
    rw [filter_eq_self]
    simpa using hbreaks
  rw [decode, hfilter] at h
  split at h
  · cases h
  next ns hns =>
    obtain ⟨rfl, hvalues, hlt⟩ := mapM_value_eq_some hns
    rw [zeroTrailingBits, hvalues, ← digits_decodeDigits hlt h, encode_eq_map]
    constructor
    · intro heq
      have hmap := mapM_value_digit (digits_lt bytes)
      rw [heq, mapM_value_digit hlt] at hmap
      exact (Option.some.inj hmap).symm
    · rintro rfl
      rfl

end PolicyEngine.Lib.Base64
