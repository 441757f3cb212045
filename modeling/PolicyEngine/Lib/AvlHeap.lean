import PolicyEngine.Lib.Avl

/-!
# AVL maps as nodes in memory

The operations of `Lib.Avl` on nodes that refer to each other by address. A node is
allocated and never written again, so the memory only grows, and whatever tree an
address stood for it stands for ever after. A result of `none` is a read through a nil
or dangling address; an address that stands for a tree never leads to one.
-/

namespace PolicyEngine.Lib

structure Cell (κ ν : Type) where
  left : Option Nat
  right : Option Nat
  height : Nat
  key : κ
  value : ν

/-- The nodes allocated so far; a node's address is its place in the list. -/
abbrev Heap (κ ν : Type) := List (Cell κ ν)

namespace Heap

variable {κ ν : Type}

def read (m : Heap κ ν) (node : Option Nat) : Option (Cell κ ν) :=
  node.bind (m[·]?)

def height (m : Heap κ ν) (node : Option Nat) : Nat :=
  ((m.read node).map (·.height)).getD 0

def new (m : Heap κ ν) (key : κ) (value : ν) (left right : Option Nat) : Option Nat × Heap κ ν :=
  (some m.length, m ++ [⟨left, right, 1 + max (m.height left) (m.height right), key, value⟩])

def balance (m : Heap κ ν) (node : Cell κ ν) : Int :=
  m.height node.left - m.height node.right

def rotateRight (m : Heap κ ν) (node : Option Nat) : Option (Option Nat × Heap κ ν) := do
  let n ← m.read node
  let pivot ← m.read n.left
  let (newRight, m) := m.new n.key n.value pivot.right n.right
  some (m.new pivot.key pivot.value pivot.left newRight)

def rotateLeft (m : Heap κ ν) (node : Option Nat) : Option (Option Nat × Heap κ ν) := do
  let n ← m.read node
  let pivot ← m.read n.right
  let (newLeft, m) := m.new n.key n.value n.left pivot.left
  some (m.new pivot.key pivot.value newLeft pivot.right)

def rebalance (m : Heap κ ν) (node : Option Nat) : Option (Option Nat × Heap κ ν) := do
  let n ← m.read node
  if m.balance n > 1 then
    let l ← m.read n.left
    if m.balance l < 0 then
      let (left, m) ← m.rotateLeft n.left
      let (node, m) := m.new n.key n.value left n.right
      m.rotateRight node
    else m.rotateRight node
  else if m.balance n < -1 then
    let r ← m.read n.right
    if m.balance r > 0 then
      let (right, m) ← m.rotateRight n.right
      let (node, m) := m.new n.key n.value n.left right
      m.rotateLeft node
    else m.rotateLeft node
  else some (node, m)

section Ops

variable (cmp : κ → κ → Ordering)

/-- `fuel` bounds the depth of the recursion. -/
def set : Nat → Heap κ ν → Option Nat → κ → ν → Option (Option Nat × Heap κ ν)
  | _, m, none, key, value => some (m.new key value none none)
  | 0, _, some _, _, _ => none
  | fuel + 1, m, some a, key, value => do
    let n ← m.read (some a)
    match cmp key n.key with
    | .lt =>
      let (left, m) ← set fuel m n.left key value
      let (node, m) := m.new n.key n.value left n.right
      m.rebalance node
    | .gt =>
      let (right, m) ← set fuel m n.right key value
      let (node, m) := m.new n.key n.value n.left right
      m.rebalance node
    | .eq => some (m.new key value n.left n.right)

/-- The node with the least key: the loop down the left children. -/
def min : Nat → Heap κ ν → Cell κ ν → Option (Cell κ ν)
  | 0, _, _ => none
  | fuel + 1, m, n =>
    match n.left with
    | none => some n
    | some a => do min fuel m (← m.read (some a))

def delete : Nat → Heap κ ν → Option Nat → κ → Option (Option Nat × Heap κ ν)
  | _, m, none, _ => some (none, m)
  | 0, _, some _, _ => none
  | fuel + 1, m, some a, key => do
    let n ← m.read (some a)
    match cmp key n.key with
    | .lt =>
      let (left, m) ← delete fuel m n.left key
      let (node, m) := m.new n.key n.value left n.right
      m.rebalance node
    | .gt =>
      let (right, m) ← delete fuel m n.right key
      let (node, m) := m.new n.key n.value n.left right
      m.rebalance node
    | .eq =>
      match n.left, n.right with
      | none, right => some (right, m)
      | left, none => some (left, m)
      | left, right => do
        let successor ← min fuel m (← m.read right)
        let (right, m) ← delete fuel m right successor.key
        let (node, m) := m.new successor.key successor.value left right
        m.rebalance node

end Ops

/-! ## The tree at an address -/

/-- The tree a node stands for. -/
inductive Rep (m : Heap κ ν) : Option Nat → Avl κ ν → Prop
  | nil : Rep m none .nil
  | node {a : Nat} {c : Cell κ ν} {l r : Avl κ ν} : m[a]? = some c → Rep m c.left l → Rep m c.right r →
      Rep m (some a) (.node l r c.height c.key c.value)

variable {m m' : Heap κ ν} {p : Option Nat} {t : Avl κ ν}

/-- Allocation changes no tree. -/
theorem Rep.mono (h : m <+: m') (ht : Rep m p t) : Rep m' p t := by
  induction ht with
  | nil => exact .nil
  | node hc _ _ ihl ihr =>
    obtain ⟨later, rfl⟩ := h
    have hlt := (List.getElem?_eq_some_iff.1 hc).1
    exact .node (by rw [List.getElem?_append_left hlt, hc]) ihl ihr

theorem Rep.eq_nil (h : Rep m none t) : t = .nil := by
  cases h
  rfl

theorem Rep.read (h : Rep m p t) (hne : t ≠ .nil) :
    ∃ a c l r, p = some a ∧ m.read p = some c ∧ Rep m c.left l ∧ Rep m c.right r ∧
      t = .node l r c.height c.key c.value := by
  cases h with
  | nil => exact absurd rfl hne
  | node hc hl hr => exact ⟨_, _, _, _, rfl, hc, hl, hr, rfl⟩

theorem Rep.height (h : Rep m p t) : m.height p = t.height := by
  cases h with
  | nil => rfl
  | @node a c l r hc hl hr => simp [Heap.height, Heap.read, hc, Avl.height]

variable {l r : Avl κ ν}

theorem Rep.balance {c : Cell κ ν} (hl : Rep m c.left l) (hr : Rep m c.right r) :
    m.balance c = (Avl.node l r c.height c.key c.value).balance := by
  rw [Heap.balance, hl.height, hr.height]
  rfl

/-- What a computation leaves: a tree at the address it returns, in a memory that has only grown. -/
def Yields (m : Heap κ ν) (result : Option (Option Nat × Heap κ ν)) (t : Avl κ ν) : Prop :=
  ∃ p m', result = some (p, m') ∧ m <+: m' ∧ Rep m' p t

/-- What it leaves stands in the memory before it too. -/
theorem Yields.after {result} (hm : m <+: m') (h : Yields m' result t) :
    Yields m result t := by
  obtain ⟨p, m'', he, hm', hp⟩ := h
  exact ⟨p, m'', he, hm.trans hm', hp⟩

variable {pl pr : Option Nat}

theorem new_rep (hl : Rep m pl l) (hr : Rep m pr r) (key : κ) (value : ν) :
    ∃ p m', m.new key value pl pr = (p, m') ∧ m <+: m' ∧ Rep m' p (.mk key value l r) := by
  refine ⟨_, _, rfl, List.prefix_append _ _, ?_⟩
  have hgrown : m <+: m ++ [(⟨pl, pr, 1 + max (m.height pl) (m.height pr), key, value⟩ : Cell κ ν)] :=
    List.prefix_append _ _
  rw [Avl.mk, ← hl.height, ← hr.height]
  exact .node (c := ⟨pl, pr, 1 + max (m.height pl) (m.height pr), key, value⟩) (by simp) (hl.mono hgrown)
    (hr.mono hgrown)

theorem yields_new (hl : Rep m pl l) (hr : Rep m pr r) (key : κ) (value : ν) :
    Yields m (some (m.new key value pl pr)) (.mk key value l r) := by
  obtain ⟨p, m', he, hm, hp⟩ := new_rep hl hr key value
  exact ⟨p, m', congrArg some he, hm, hp⟩

theorem yields_self (h : Rep m p t) : Yields m (some (p, m)) t := ⟨p, m, rfl, List.prefix_rfl, h⟩

/-! ## The operations -/

variable {h : Nat}

theorem rotateRight_yields {k : κ} {v : ν} (hp : Rep m p (.node l r h k v)) (hl : l ≠ .nil) :
    Yields m (m.rotateRight p) (Avl.rotateRight (.node l r h k v)) := by
  obtain ⟨a, c, l', r', rfl, hc, hcl, hcr, he⟩ := hp.read (by simp)
  cases he
  obtain ⟨b, d, ll, lr, -, hd, hdl, hdr, rfl⟩ := hcl.read hl
  obtain ⟨q, m₁, hnew, hm₁, hq⟩ := new_rep hdr hcr c.key c.value
  simp only [Heap.rotateRight, hc, hd, Option.bind_eq_bind, Option.bind_some, hnew]
  exact (yields_new (hdl.mono hm₁) hq d.key d.value).after hm₁

theorem rotateLeft_yields {k : κ} {v : ν} (hp : Rep m p (.node l r h k v)) (hr : r ≠ .nil) :
    Yields m (m.rotateLeft p) (Avl.rotateLeft (.node l r h k v)) := by
  obtain ⟨a, c, l', r', rfl, hc, hcl, hcr, he⟩ := hp.read (by simp)
  cases he
  obtain ⟨b, d, rl, rr, -, hd, hdl, hdr, rfl⟩ := hcr.read hr
  obtain ⟨q, m₁, hnew, hm₁, hq⟩ := new_rep hcl hdl c.key c.value
  simp only [Heap.rotateLeft, hc, hd, Option.bind_eq_bind, Option.bind_some, hnew]
  exact (yields_new hq (hdr.mono hm₁) d.key d.value).after hm₁

theorem rebalance_yields {k : κ} {v : ν} (hp : Rep m p (.node l r h k v)) :
    Yields m (m.rebalance p) (Avl.rebalance (.node l r h k v)) := by
  obtain ⟨a, c, l', r', rfl, hc, hcl, hcr, he⟩ := hp.read (by simp)
  cases he
  simp only [Heap.rebalance, Avl.rebalance, hc, Option.bind_eq_bind, Option.bind_some, hcl.balance hcr]
  split
  next hleft =>
    have hl : l ≠ .nil := by
      rintro rfl
      simp only [Avl.balance, Avl.height] at hleft
      omega
    obtain ⟨b, d, ll, lr, hb, hd, hdl, hdr, rfl⟩ := hcl.read hl
    simp only [hd, Option.bind_some, hdl.balance hdr]
    split
    next hinner =>
      have hlr : lr ≠ .nil := by
        rintro rfl
        simp only [Avl.balance, Avl.height] at hinner
        omega
      obtain ⟨q, m₁, hrot, hm₁, hq⟩ := rotateLeft_yields hcl hlr
      obtain ⟨q₂, m₂, hnew, hm₂, hq₂⟩ := new_rep hq (hcr.mono hm₁) c.key c.value
      simp only [hrot, Option.bind_some, hnew]
      refine (rotateRight_yields hq₂ ?_).after (hm₁.trans hm₂)
      rw [Ne, ← Avl.toList_eq_nil, Avl.toList_rotateLeft]
      simp
    next => exact rotateRight_yields hp hl
  next =>
    split
    next hright =>
      have hr : r ≠ .nil := by
        rintro rfl
        simp only [Avl.balance, Avl.height] at hright
        omega
      obtain ⟨b, d, rl, rr, hb, hd, hdl, hdr, rfl⟩ := hcr.read hr
      simp only [hd, Option.bind_some, hdl.balance hdr]
      split
      next hinner =>
        have hrl : rl ≠ .nil := by
          rintro rfl
          simp only [Avl.balance, Avl.height] at hinner
          omega
        obtain ⟨q, m₁, hrot, hm₁, hq⟩ := rotateRight_yields hcr hrl
        obtain ⟨q₂, m₂, hnew, hm₂, hq₂⟩ := new_rep (hcl.mono hm₁) hq c.key c.value
        simp only [hrot, Option.bind_some, hnew]
        refine (rotateLeft_yields hq₂ ?_).after (hm₁.trans hm₂)
        rw [Ne, ← Avl.toList_eq_nil, Avl.toList_rotateRight]
        simp
      next => exact rotateLeft_yields hp hr
    next => exact yields_self hp

variable {result : Option (Option Nat × Heap κ ν)}

/-- A node over a new left subtree, rebalanced. -/
theorem rebuild_left {k : κ} {v : ν} (h : Yields m result l) (hr : Rep m pr r) :
    Yields m (do
      let (left, m) ← result
      let (node, m) := m.new k v left pr
      m.rebalance node) (Avl.rebalance (.mk k v l r)) := by
  obtain ⟨q, m₁, rfl, hm₁, hq⟩ := h
  obtain ⟨q₂, m₂, hnew, hm₂, hq₂⟩ := new_rep hq (hr.mono hm₁) k v
  simp only [Option.bind_eq_bind, Option.bind_some, hnew]
  exact (rebalance_yields hq₂).after (hm₁.trans hm₂)

theorem rebuild_right {k : κ} {v : ν} (hl : Rep m pl l) (h : Yields m result r) :
    Yields m (do
      let (right, m) ← result
      let (node, m) := m.new k v pl right
      m.rebalance node) (Avl.rebalance (.mk k v l r)) := by
  obtain ⟨q, m₁, rfl, hm₁, hq⟩ := h
  obtain ⟨q₂, m₂, hnew, hm₂, hq₂⟩ := new_rep (hl.mono hm₁) hq k v
  simp only [Option.bind_eq_bind, Option.bind_some, hnew]
  exact (rebalance_yields hq₂).after (hm₁.trans hm₂)

section Ops

variable (cmp : κ → κ → Ordering)

/-- Insertion adds at most one entry, -/
theorem length_toList_set (t : Avl κ ν) (key : κ) (value : ν) :
    (Avl.set cmp t key value).toList.length ≤ t.toList.length + 1 := by
  induction t with
  | nil => simp [Avl.set]
  | node l r h k v ihl ihr =>
    simp only [Avl.set]
    split <;> simp <;> omega

/-- and deletion none. -/
theorem length_toList_delete (t : Avl κ ν) (key : κ) : (Avl.delete cmp t key).toList.length ≤ t.toList.length := by
  induction t generalizing key with
  | nil => simp [Avl.delete]
  | node l r h k v ihl ihr =>
    unfold Avl.delete
    split
    next => simpa using ihl key
    next => simpa using ihr key
    next =>
      split
      · simp
      · simp
      · split
        next sk sv _ => simpa using ihr sk
        next => simp

theorem set_yields (fuel : Nat) (hp : Rep m p t) (hf : t.toList.length ≤ fuel) (key : κ) (value : ν) :
    Yields m (set cmp fuel m p key value) (Avl.set cmp t key value) := by
  induction hp generalizing fuel with
  | nil =>
    rw [Avl.set, show set cmp fuel m none key value = some (m.new key value none none) by cases fuel <;> rfl]
    exact yields_new .nil .nil key value
  | @node a c l r hc hl hr ihl ihr =>
    rw [Avl.toList_node, List.length_append, List.length_cons] at hf
    obtain ⟨fuel, rfl⟩ : ∃ n, fuel = n + 1 := ⟨fuel - 1, by omega⟩
    have hread : m.read (some a) = some c := hc
    simp only [set, Avl.set, hread, Option.bind_eq_bind, Option.bind_some]
    cases cmp key c.key with
    | lt => exact rebuild_left (ihl fuel (by omega)) hr
    | gt => exact rebuild_right hl (ihr fuel (by omega))
    | eq => exact yields_new hl hr key value

theorem min_eq (fuel : Nat) {a c} (hc : m[a]? = some c) (hp : Rep m (some a) t) (hf : t.toList.length ≤ fuel) :
    ∃ d, min fuel m c = some d ∧ t.first? = some (d.key, d.value) := by
  induction t generalizing fuel a c with
  | nil => cases hp
  | node l r h k v ihl ihr =>
    rw [Avl.toList_node, List.length_append, List.length_cons] at hf
    obtain ⟨fuel, rfl⟩ : ∃ n, fuel = n + 1 := ⟨fuel - 1, by omega⟩
    cases hp with
    | node hc' hl hr =>
      rw [hc] at hc'
      cases hc'
      cases hleft : c.left with
      | none =>
        rw [hleft] at hl
        obtain rfl := hl.eq_nil
        exact ⟨c, by simp [min, hleft], rfl⟩
      | some b =>
        rw [hleft] at hl
        cases hl with
        | @node _ e ll lr he hel her =>
          obtain ⟨d, hd, hfirst⟩ := ihl fuel he (.node he hel her) (by omega)
          exact ⟨d, by simp [min, hleft, Heap.read, he, hd], hfirst⟩

theorem delete_yields (fuel : Nat) (hp : Rep m p t) (hf : t.toList.length ≤ fuel) (key : κ) :
    Yields m (delete cmp fuel m p key) (Avl.delete cmp t key) := by
  induction hp generalizing fuel key with
  | nil =>
    rw [Avl.delete, show delete cmp fuel m none key = some (none, m) by cases fuel <;> rfl]
    exact yields_self .nil
  | @node a c l r hc hl hr ihl ihr =>
    rw [Avl.toList_node, List.length_append, List.length_cons] at hf
    obtain ⟨fuel, rfl⟩ : ∃ n, fuel = n + 1 := ⟨fuel - 1, by omega⟩
    have hread : m.read (some a) = some c := hc
    unfold Avl.delete
    simp only [delete, hread, Option.bind_eq_bind, Option.bind_some]
    cases cmp key c.key with
    | lt => exact rebuild_left (ihl fuel (by omega) key) hr
    | gt => exact rebuild_right hl (ihr fuel (by omega) key)
    | eq =>
      -- a node with two children is replaced by the successor of its key
      generalize c.left = pl, c.right = pr at hl hr ihl ihr
      cases hl with
      | nil => exact yields_self hr
      | @node b e ll lr he hel her =>
        cases hr with
        | nil => exact yields_self (.node he hel her)
        | @node b' e' rl rr he' hel' her' =>
          have hr : Rep m (some b') (.node rl rr e'.height e'.key e'.value) := .node he' hel' her'
          obtain ⟨d, hd, hfirst⟩ := min_eq fuel he' hr (by omega)
          have hread' : m.read (some b') = some e' := he'
          simp only [hfirst, hread', hd, Option.bind_some]
          exact rebuild_right (.node he hel her) (ihr fuel (by omega) d.key)

end Ops

end Heap

end PolicyEngine.Lib
