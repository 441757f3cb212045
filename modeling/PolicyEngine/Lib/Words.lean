import PolicyEngine.Lib.Codec

/-!
# Words, slices and blocks of a byte string

32-bit words in either byte order, the part of a string between two offsets, and
the cutting of a string into blocks of one size.
-/

open List

namespace PolicyEngine.Lib

/-! ## 32-bit words -/

inductive ByteOrder where
  | little
  | big
  deriving DecidableEq, Repr

def ByteOrder.uint32 : ByteOrder → List UInt8 → UInt32
  | .little, b => .ofNat (beValue b.reverse)
  | .big, b => .ofNat (beValue b)

/-- The four bytes of a word, most significant first. -/
def word (n : UInt32) : List UInt8 := be 4 n.toNat

@[simp] theorem length_word (n : UInt32) : (word n).length = 4 := length_be 4 n.toNat

@[simp] theorem uint32_word (n : UInt32) : ByteOrder.big.uint32 (word n) = n := by
  have h : n.toNat < 256 ^ 4 := n.toNat_lt
  rw [ByteOrder.uint32, word, beValue_be h, UInt32.ofNat_toNat]

theorem word_uint32 {b : List UInt8} (h : b.length = 4) : word (ByteOrder.big.uint32 b) = b := by
  have hlt : beValue b < 2 ^ 32 := by simpa [h] using beValue_lt b
  rw [ByteOrder.uint32, word, UInt32.toNat_ofNat_of_lt' hlt, ← h, be_beValue]

/-! ## Slices -/

section

variable {α : Type}

/-- The part of a list from offset `i` up to offset `j`. -/
def slice (l : List α) (i j : Nat) : List α := (l.take j).drop i

variable {i j : Nat}

theorem length_slice {l : List α} (h : j ≤ l.length) : (slice l i j).length = j - i := by
  rw [slice, length_drop, length_take, Nat.min_eq_left h]

theorem slice_append_slice (l : List α) {k : Nat} (hij : i ≤ j) (hjk : j ≤ k) :
    slice l i j ++ slice l j k = slice l i k := by
  have hl : slice l i j = (slice l i k).take (j - i) := by
    rw [slice, slice, take_drop, take_take, Nat.add_sub_cancel' hij, Nat.min_eq_left hjk]
  have hr : slice l j k = (slice l i k).drop (j - i) := by
    rw [slice, slice, drop_drop, Nat.add_sub_cancel' hij]
  rw [hl, hr, take_append_drop]

theorem slice_append_drop (l : List α) (h : i ≤ j) : slice l i j ++ l.drop j = l.drop i := by
  have hs : slice l i j = (l.drop i).take (j - i) := by rw [slice, take_drop, Nat.add_sub_cancel' h]
  have hd : l.drop j = (l.drop i).drop (j - i) := by rw [drop_drop, Nat.add_sub_cancel' h]
  rw [hs, hd, take_append_drop]

/-- A slice that starts behind the first part is a slice of the second. -/
theorem slice_append_of_le {x : List α} (h : x.length ≤ i) (y : List α) (j : Nat) :
    slice (x ++ y) i j = slice y (i - x.length) (j - x.length) := by
  have hx : (x.take j).drop i = [] := by
    rw [drop_eq_nil_iff, length_take]
    omega
  rw [slice, slice, take_append, drop_append, hx, nil_append, length_take]
  rcases Nat.le_total x.length j with hj | hj
  · rw [Nat.min_eq_right hj]
  · rw [Nat.sub_eq_zero_of_le hj, take_zero, drop_nil, drop_nil]

theorem slice_append_of_eq {x n} (h : x.length = n) (y : List α) : slice (x ++ y) 0 n = x := by
  rw [slice, drop_zero, ← h, take_left]

theorem slice_of_length {x : List α} {n : Nat} (h : x.length = n) : slice x 0 n = x := by
  rw [slice, drop_zero, ← h, take_length]

end

/-! ## Blocks -/

section

variable {α : Type}

/-- The first `count` blocks of `size` elements. -/
def blocks (size : Nat) : Nat → List α → List (List α)
  | 0, _ => []
  | count + 1, l => l.take size :: blocks size count (l.drop size)

variable {size : Nat}

theorem blocks_flatten {parts : List (List α)} (h : ∀ p ∈ parts, p.length = size) :
    blocks size parts.length parts.flatten = parts := by
  induction parts with
  | nil => rfl
  | cons p parts ih =>
    obtain ⟨hp, hparts⟩ := forall_mem_cons.1 h
    rw [length_cons, flatten_cons, blocks, ← hp, take_left, drop_left, hp, ih hparts]

theorem flatten_blocks (count : Nat) (l : List α) :
    (blocks size count l).flatten = l.take (count * size) := by
  induction count generalizing l with
  | zero => simp [blocks]
  | succ count ih =>
    rw [blocks, flatten_cons, ih, Nat.succ_mul, Nat.add_comm, take_add]

theorem length_of_mem_blocks {count : Nat} {l b : List α} (hl : count * size ≤ l.length)
    (hb : b ∈ blocks size count l) : b.length = size := by
  induction count generalizing l with
  | zero => simp [blocks] at hb
  | succ count ih =>
    rw [Nat.succ_mul] at hl
    rcases mem_cons.1 hb with rfl | hb
    · rw [length_take]
      omega
    · exact ih (by rw [length_drop]; omega) hb

theorem length_flatten_of_length {parts : List (List α)} (h : ∀ p ∈ parts, p.length = size) :
    parts.flatten.length = parts.length * size := by
  induction parts with
  | nil => simp
  | cons p parts ih =>
    obtain ⟨hp, hparts⟩ := forall_mem_cons.1 h
    rw [flatten_cons, length_append, hp, ih hparts, length_cons, Nat.succ_mul, Nat.add_comm]

end

end PolicyEngine.Lib
