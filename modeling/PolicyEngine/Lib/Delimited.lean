import PolicyEngine.Lib.Codec

/-!
# Self-delimiting writers

A writer is self-delimiting on a set of values when its output can be cut off the
front of any longer input in one way only. Such writers compose by concatenation.
Repetition needs a reason to stop: a count written before, or something in the input
that no element starts with.
-/

open List

namespace PolicyEngine.Lib

variable {α β γ δ : Type}

/-- Two values of `P` written in front of one input are equal, and so is what follows them. -/
def Delimited (P : α → Prop) (write : α → List β) : Prop :=
  ∀ ⦃a b : α⦄, P a → P b → ∀ ⦃u v : List β⦄, write a ++ u = write b ++ v → a = b ∧ u = v

namespace Delimited

variable {P : α → Prop} {Q : γ → Prop} {write : α → List β}

theorem inj (h : Delimited P write) {a b : α} (ha : P a) (hb : P b) (heq : write a = write b) : a = b :=
  (h ha hb (congrArg (· ++ []) heq)).1

theorem mono {P' : α → Prop} (h : Delimited P write) (hP : ∀ a, P' a → P a) : Delimited P' write :=
  fun _ _ ha hb => h (hP _ ha) (hP _ hb)

/-- What determines a value may be written in its place. -/
theorem comap (h : Delimited P write) {f : γ → α} (hQ : ∀ c, Q c → P (f c))
    (hf : ∀ c d, Q c → Q d → f c = f d → c = d) : Delimited Q fun c => write (f c) := fun c d hc hd _ _ heq => by
  obtain ⟨hfeq, huv⟩ := h (hQ c hc) (hQ d hd) heq
  exact ⟨hf c d hc hd hfeq, huv⟩

/-- Two fields, the second written with knowledge of the first. -/
theorem bind {Q : α → γ → Prop} {write' : α → γ → List β} (h : Delimited P write)
    (h' : ∀ a, P a → Delimited (Q a) (write' a)) :
    Delimited (fun p : α × γ => P p.1 ∧ Q p.1 p.2) fun p => write p.1 ++ write' p.1 p.2 := by
  rintro ⟨a, c⟩ ⟨b, d⟩ ⟨ha, hc⟩ ⟨hb, hd⟩ u v heq
  simp only [append_assoc] at heq
  obtain ⟨rfl, hrest⟩ := h ha hb heq
  obtain ⟨rfl, huv⟩ := h' a ha hc hd hrest
  exact ⟨rfl, huv⟩

theorem prod {write' : γ → List β} (h : Delimited P write) (h' : Delimited Q write') :
    Delimited (fun p : α × γ => P p.1 ∧ Q p.2) fun p => write p.1 ++ write' p.2 :=
  h.bind fun _ _ => h'

/-- Writers of one fixed width are delimited as soon as they are injective. -/
theorem of_length {n : Nat} (hlen : ∀ a, P a → (write a).length = n)
    (hinj : ∀ a b, P a → P b → write a = write b → a = b) : Delimited P write := fun a b ha hb _ _ heq => by
  obtain ⟨hab, huv⟩ := append_inj heq ((hlen a ha).trans (hlen b hb).symm)
  exact ⟨hinj a b ha hb hab, huv⟩

/-! ## Repetition -/

/-- Lists of one length. -/
theorem replicate (h : Delimited P write) (n : Nat) :
    Delimited (fun l : List α => l.length = n ∧ ∀ a ∈ l, P a) fun l => l.flatMap write := by
  intro l m ⟨hln, hl⟩ ⟨hmn, hm⟩ u v heq
  induction l generalizing m n with
  | nil =>
    obtain rfl : m = [] := eq_nil_of_length_eq_zero (hmn.trans hln.symm)
    exact ⟨rfl, heq⟩
  | cons a l ih =>
    cases m with
    | nil => simp at hln hmn; omega
    | cons b m =>
      simp only [flatMap_cons, append_assoc] at heq
      obtain ⟨rfl, hrest⟩ := h (hl a (by simp)) (hm b (by simp)) heq
      have hl' : l.length = n - 1 := by simp at hln; omega
      have hm' : m.length = n - 1 := by simp at hmn; omega
      obtain ⟨rfl, huv⟩ := ih (n - 1) hl' (fun x hx => hl x (by simp [hx])) hm'
        (fun x hx => hm x (by simp [hx])) hrest
      exact ⟨rfl, huv⟩

/-- Before an input that does not look like an element, every list written in front is one written there. -/
theorem isPrefix_of_flatMap (h : Delimited P write) {more : List β → Prop}
    (hmore : ∀ a, P a → ∀ u, more (write a ++ u)) {l m : List α} (hl : ∀ a ∈ l, P a) (hm : ∀ a ∈ m, P a)
    {u v : List β} (hu : ¬ more u) (heq : l.flatMap write ++ u = m.flatMap write ++ v) : m <+: l := by
  induction m generalizing l with
  | nil => exact nil_prefix
  | cons b m ih =>
    cases l with
    | nil =>
      simp only [flatMap_nil, nil_append, flatMap_cons, append_assoc] at heq
      exact absurd (heq ▸ hmore b (hm b (by simp)) _) hu
    | cons a l =>
      simp only [flatMap_cons, append_assoc] at heq
      obtain ⟨rfl, hrest⟩ := h (hl a (by simp)) (hm b (by simp)) heq
      rw [cons_prefix_cons]
      exact ⟨rfl, ih (fun x hx => hl x (by simp [hx])) (fun x hx => hm x (by simp [hx])) hrest⟩

/-- Lists that end where the input stops looking like an element. -/
theorem flatMap (h : Delimited P write) {more : List β → Prop} (hmore : ∀ a, P a → ∀ u, more (write a ++ u))
    {l m : List α} (hl : ∀ a ∈ l, P a) (hm : ∀ a ∈ m, P a) {u v : List β} (hu : ¬ more u) (hv : ¬ more v)
    (heq : l.flatMap write ++ u = m.flatMap write ++ v) : l = m ∧ u = v := by
  have hml := h.isPrefix_of_flatMap hmore hl hm hu heq
  have hlm := h.isPrefix_of_flatMap hmore hm hl hv heq.symm
  obtain rfl : l = m := hlm.eq_of_length_le hml.length_le
  exact ⟨rfl, append_cancel_left heq⟩

end Delimited

/-- A list up to a terminator it does not hold. -/
theorem delimited_terminated (stop : β) : Delimited (stop ∉ ·) fun l : List β => l ++ [stop] := by
  intro l m hl hm u v heq
  simp only [append_assoc, singleton_append] at heq
  induction l generalizing m with
  | nil =>
    cases m with
    | nil => exact ⟨rfl, (List.cons.inj heq).2⟩
    | cons b m => exact absurd ((List.cons.inj heq).1 ▸ mem_cons_self) hm
  | cons a l ih =>
    cases m with
    | nil => exact absurd ((List.cons.inj heq).1 ▸ mem_cons_self) hl
    | cons b m =>
      obtain ⟨rfl, hrest⟩ := List.cons.inj heq
      obtain ⟨rfl, huv⟩ := ih (fun h => hl (mem_cons_of_mem _ h)) (fun h => hm (mem_cons_of_mem _ h)) hrest
      exact ⟨rfl, huv⟩

/-! ## Numbers and strings -/

theorem delimited_be (width : Nat) : Delimited (fun n => n < 256 ^ width) (be width) :=
  Delimited.of_length (fun n _ => length_be width n) fun _ _ hm hn h => be_inj hm hn h

/-- A length of `width` bytes and that many bytes. -/
def lengthPrefixed (width : Nat) (x : List UInt8) : List UInt8 := be width x.length ++ x

theorem delimited_lengthPrefixed (width : Nat) :
    Delimited (fun x => x.length < 256 ^ width) (lengthPrefixed width) := by
  intro x y hx hy u v heq
  simp only [lengthPrefixed, append_assoc] at heq
  obtain ⟨hlen, hrest⟩ := delimited_be width hx hy heq
  exact append_inj hrest hlen

/-- A small number written wide starts with a zero byte. -/
theorem head?_be {width n : Nat} (h : n < 256 ^ width) : (be (width + 1) n).head? = some 0 := by
  induction width generalizing n with
  | zero =>
    obtain rfl : n = 0 := by simpa using h
    rfl
  | succ width ih =>
    have hq : n / 256 < 256 ^ width := by
      rw [Nat.div_lt_iff_lt_mul (by decide)]
      exact h
    rw [be, head?_append, ih hq]
    rfl

theorem head?_lengthPrefixed {width x} (h : x.length < 256 ^ width) (u : List UInt8) :
    (lengthPrefixed (width + 1) x ++ u).head? = some 0 := by
  rw [lengthPrefixed, append_assoc, head?_append, head?_be h]
  rfl

end PolicyEngine.Lib
