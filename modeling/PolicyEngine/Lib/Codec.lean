import Mathlib

/-!
# Big-endian integers and byte readers

Fixed-width big-endian numbers, and readers that consume a prefix of a byte
string. Each reader has two facts: it reads back what its writer appends in front
of anything, and what it accepts is exactly what its writer produces. From these two,
a record codec is exact: inverse in both directions, and free of aliases and of
trailing or truncated input.
-/

open List

namespace PolicyEngine.Lib

/-! ## Big-endian numbers -/

/-- The low `width` base-256 digits of `n`, most significant first. -/
def be : Nat → Nat → List UInt8
  | 0, _ => []
  | width + 1, n => be width (n / 256) ++ [UInt8.ofNat n]

/-- The number whose base-256 digits are given, most significant first. -/
def beValue (digits : List UInt8) : Nat := digits.foldl (fun n d => n * 256 + d.toNat) 0

@[simp] theorem length_be (width n : Nat) : (be width n).length = width := by
  induction width generalizing n with
  | zero => rfl
  | succ width ih => simp [be, ih]

@[simp] theorem beValue_append_singleton (digits : List UInt8) (d : UInt8) :
    beValue (digits ++ [d]) = beValue digits * 256 + d.toNat := by
  simp [beValue]

variable {n : Nat}

theorem beValue_be {width : Nat} (h : n < 256 ^ width) : beValue (be width n) = n := by
  induction width generalizing n with
  | zero => simp_all [be, beValue]
  | succ width ih =>
    have hq : n / 256 < 256 ^ width := by
      rw [Nat.div_lt_iff_lt_mul (by decide)]
      exact h
    rw [be, beValue_append_singleton, ih hq, UInt8.toNat_ofNat']
    omega

theorem beValue_lt (digits : List UInt8) : beValue digits < 256 ^ digits.length := by
  induction digits using List.reverseRecOn with
  | nil => simp [beValue]
  | append_singleton digits d ih =>
    rw [beValue_append_singleton, length_append, length_singleton, Nat.pow_succ]
    have := d.toNat_lt
    omega

theorem be_beValue (digits : List UInt8) : be digits.length (beValue digits) = digits := by
  induction digits using List.reverseRecOn with
  | nil => rfl
  | append_singleton digits d ih =>
    have hd := d.toNat_lt
    have hq : (beValue digits * 256 + d.toNat) / 256 = beValue digits := by omega
    have hr : UInt8.ofNat (beValue digits * 256 + d.toNat) = d := by
      apply UInt8.toNat_inj.1
      rw [UInt8.toNat_ofNat']
      omega
    rw [length_append, length_singleton, be, beValue_append_singleton, hq, ih, hr]

theorem be_inj {width m : Nat} (hm : m < 256 ^ width) (hn : n < 256 ^ width) (h : be width m = be width n) :
    m = n := by
  rw [← beValue_be hm, ← beValue_be hn, h]

/-! ## Two's complement -/

/-- The 64-bit pattern of a signed number. -/
def twos64 (n : Int) : Nat := (n % 2 ^ 64).toNat

/-- The signed number of a 64-bit pattern. -/
def signed64 (n : Nat) : Int := if n < 2 ^ 63 then n else n - 2 ^ 64

theorem twos64_lt (n : Int) : twos64 n < 256 ^ 8 := by
  simp only [twos64]
  omega

theorem signed64_twos64 {n : Int} (hlo : -2 ^ 63 ≤ n) (hhi : n < 2 ^ 63) : signed64 (twos64 n) = n := by
  simp only [signed64, twos64]
  omega

theorem twos64_signed64 (h : n < 256 ^ 8) : twos64 (signed64 n) = n := by
  simp only [signed64, twos64]
  omega

theorem signed64_bounds (h : n < 256 ^ 8) : -2 ^ 63 ≤ signed64 n ∧ signed64 n < 2 ^ 63 := by
  simp only [signed64]
  omega

/-! ## Readers -/

/-- Consumes a prefix of the input, or rejects it. -/
abbrev Reader (α : Type) := List UInt8 → Option (α × List UInt8)

namespace Reader

variable {α : Type}

def fixed (length : Nat) : Reader (List UInt8) := fun data =>
  if length > data.length then none else some (data.take length, data.drop length)

def byte : Reader UInt8
  | [] => none
  | b :: rest => some (b, rest)

/-- A big-endian number of `width` bytes. -/
def uint (width : Nat) : Reader Nat := fun data =>
  if data.length < width then none else some (beValue (data.take width), data.drop width)

/-- A length of `width` bytes, at most `maximum`, and that many bytes. -/
def prefixed (width maximum : Nat) : Reader (List UInt8) := fun data =>
  match uint width data with
  | none => none
  | some (length, rest) =>
    if length > maximum ∨ length > rest.length then none else some (rest.take length, rest.drop length)

theorem fixed_append (x rest : List UInt8) : fixed x.length (x ++ rest) = some (x, rest) := by
  simp [fixed]

variable {data x rest : List UInt8}

theorem fixed_eq_some {length : Nat} (h : fixed length data = some (x, rest)) :
    data = x ++ rest ∧ x.length = length := by
  simp only [fixed] at h
  split at h
  · cases h
  next hle =>
    cases h
    exact ⟨(take_append_drop _ _).symm, length_take_of_le (by omega)⟩

@[simp] theorem byte_cons (b : UInt8) (rest : List UInt8) : byte (b :: rest) = some (b, rest) := rfl

theorem byte_eq_some {b : UInt8} (h : byte data = some (b, rest)) : data = b :: rest := by
  cases data <;> simp_all [byte]

variable {width : Nat}

theorem uint_append (h : n < 256 ^ width) (rest : List UInt8) :
    uint width (be width n ++ rest) = some (n, rest) := by
  have htake : (be width n ++ rest).take width = be width n := by
    rw [take_append_of_le_length (by simp), take_of_length_le (by simp)]
  have hdrop : (be width n ++ rest).drop width = rest := by
    rw [drop_append_of_le_length (by simp), drop_of_length_le (by simp), nil_append]
  simp [uint, htake, hdrop, beValue_be h]

theorem uint_eq_some (h : uint width data = some (n, rest)) :
    data = be width n ++ rest ∧ n < 256 ^ width := by
  simp only [uint] at h
  split at h
  · cases h
  next hle =>
    cases h
    have hlen : (data.take width).length = width := length_take_of_le (by omega)
    refine ⟨?_, by simpa only [hlen] using beValue_lt (data.take width)⟩
    conv_lhs => rw [← take_append_drop width data]
    congr 1
    simpa only [hlen] using (be_beValue (data.take width)).symm

theorem prefixed_append {maximum : Nat} (hw : x.length < 256 ^ width) (hm : x.length ≤ maximum) (rest : List UInt8) :
    prefixed width maximum (be width x.length ++ x ++ rest) = some (x, rest) := by
  simp only [prefixed, append_assoc, uint_append hw]
  rw [if_neg (by simp; omega)]
  simp

theorem prefixed_eq_some {maximum : Nat} (h : prefixed width maximum data = some (x, rest)) :
    data = be width x.length ++ x ++ rest ∧ x.length ≤ maximum ∧ x.length < 256 ^ width := by
  simp only [prefixed] at h
  split at h
  · cases h
  next n tail hu =>
    obtain ⟨hdata, hn⟩ := uint_eq_some hu
    split at h
    · cases h
    next hle =>
      cases h
      have hlen : (tail.take n).length = n := length_take_of_le (by omega)
      rw [hlen]
      refine ⟨?_, by omega, hn⟩
      rw [append_assoc, take_append_drop]
      exact hdata

end Reader

/-! ## Record codecs -/

/-- `encode` and `decode` are inverse to each other: every valid value is stored and read back, and whatever is
read is valid and stored as the very bytes that were read. -/
structure ExactCodec {α ε : Type} (Valid : α → Prop) (encode : α → Except ε (List UInt8))
    (decode : List UInt8 → Except ε α) : Prop where
  decode_encode : ∀ {v}, Valid v → ∃ b, encode v = .ok b ∧ decode b = .ok v
  encode_decode : ∀ {b v}, decode b = .ok v → Valid v ∧ encode v = .ok b
  decode_inj : ∀ {b b' v}, decode b = .ok v → decode b' = .ok v → b = b'
  /-- Neither trailing nor truncated input is accepted. -/
  delimited : ∀ {b x v w}, decode b = .ok v → decode (b ++ x) = .ok w → x = []

/-- A codec is exact once its decoder stops where its encoder did and accepts only what its encoder produces. -/
theorem ExactCodec.of_append {α ε : Type} {Valid : α → Prop} {encode : α → Except ε (List UInt8)}
    {decode : List UInt8 → Except ε α}
    (happend : ∀ v, Valid v → ∃ b, encode v = .ok b ∧ ∀ x w, decode (b ++ x) = .ok w ↔ x = [] ∧ w = v)
    (haccepted : ∀ b v, decode b = .ok v → Valid v ∧ encode v = .ok b) : ExactCodec Valid encode decode where
  decode_encode := by
    intro v hv
    obtain ⟨b, henc, hdec⟩ := happend v hv
    refine ⟨b, henc, ?_⟩
    rw [← append_nil b]
    exact (hdec [] v).2 ⟨rfl, rfl⟩
  encode_decode := haccepted _ _
  decode_inj := by
    intro b b' v h h'
    have heq := (haccepted b v h).2.symm.trans (haccepted b' v h').2
    exact Except.ok.inj heq
  delimited := by
    intro b x v w h h'
    obtain ⟨hv, henc⟩ := haccepted b v h
    obtain ⟨b', henc', hdec⟩ := happend v hv
    obtain rfl := Except.ok.inj (henc'.symm.trans henc)
    exact ((hdec x w).1 h').1

end PolicyEngine.Lib
