import PolicyEngine.Lib.Avl

/-!
# Balance of AVL maps

Stored heights are exact and the subtrees of a node differ by at most one in height.
Insertion and deletion change a subtree's height by at most one, which is what one
rebalancing of the node above can repair.
-/

namespace PolicyEngine.Lib

namespace Avl

variable {κ ν : Type}

/-- Exact heights, and a balance of at most one at every node. -/
def Balanced : Avl κ ν → Prop
  | nil => True
  | node l r h _ _ =>
    Balanced l ∧ Balanced r ∧ h = 1 + max l.height r.height ∧ l.height ≤ r.height + 1 ∧ r.height ≤ l.height + 1

@[simp] theorem balanced_nil : Balanced (nil : Avl κ ν) := trivial

variable {l r : Avl κ ν}

@[simp] theorem balanced_node {h k v} :
    Balanced (node l r h k v) ↔
      Balanced l ∧ Balanced r ∧ h = 1 + max l.height r.height ∧ l.height ≤ r.height + 1 ∧ r.height ≤ l.height + 1 :=
  Iff.rfl

theorem balanced_mk {k : κ} {v : ν} :
    Balanced (mk k v l r) ↔ Balanced l ∧ Balanced r ∧ l.height ≤ r.height + 1 ∧ r.height ≤ l.height + 1 := by
  simp [mk]

@[simp] theorem height_nil : (nil : Avl κ ν).height = 0 := rfl

@[simp] theorem height_node (l r : Avl κ ν) (h : Nat) (k : κ) (v : ν) : (node l r h k v).height = h := rfl

@[simp] theorem height_mk (l r : Avl κ ν) (k : κ) (v : ν) : (mk k v l r).height = 1 + max l.height r.height := rfl

theorem rotateRight_mk (k lk : κ) (v lv : ν) (ll lr r : Avl κ ν) (lh : Nat) :
    rotateRight (mk k v (node ll lr lh lk lv) r) = mk lk lv ll (mk k v lr r) := rfl

theorem rotateLeft_mk (k rk : κ) (v rv : ν) (l rl rr : Avl κ ν) (rh : Nat) :
    rotateLeft (mk k v l (node rl rr rh rk rv)) = mk rk rv (mk k v l rl) rr := rfl

theorem rotateLeftRight_mk (k lk ck : κ) (v lv cv : ν) (ll a b r : Avl κ ν) (lh ch : Nat) :
    rotateRight (mk k v (rotateLeft (node ll (node a b ch ck cv) lh lk lv)) r) =
      mk ck cv (mk lk lv ll a) (mk k v b r) := rfl

theorem rotateRightLeft_mk (k rk ck : κ) (v rv cv : ν) (l a b rr : Avl κ ν) (rh ch : Nat) :
    rotateLeft (mk k v l (rotateRight (node (node a b ch ck cv) rr rh rk rv))) =
      mk ck cv (mk k v l a) (mk rk rv b rr) := rfl

theorem rebalance_mk (k : κ) (v : ν) (l r : Avl κ ν) :
    rebalance (mk k v l r) =
      if r.height + 1 < l.height then rotateRight (if l.balance < 0 then mk k v (rotateLeft l) r else mk k v l r)
      else if l.height + 1 < r.height then rotateLeft (if r.balance > 0 then mk k v l (rotateRight r) else mk k v l r)
      else mk k v l r := by
  have hleft : (mk k v l r).balance > 1 ↔ r.height + 1 < l.height := by simp only [mk, balance]; omega
  have hright : (mk k v l r).balance < -1 ↔ l.height + 1 < r.height := by simp only [mk, balance]; omega
  simp only [← hleft, ← hright]
  rfl

/-- A node whose left subtree is two higher becomes balanced, and loses one in height unless the left subtree was
level. -/
theorem rebalance_left (k : κ) (v : ν) (hl : Balanced l) (hr : Balanced r) (h : l.height = r.height + 2) :
    Balanced (rebalance (mk k v l r)) ∧ l.height ≤ (rebalance (mk k v l r)).height ∧
      (rebalance (mk k v l r)).height ≤ l.height + 1 := by
  rw [rebalance_mk, if_pos (by omega)]
  cases l with
  | nil => simp at h
  | node ll lr lh lk lv =>
    simp only [balanced_node, height_node] at hl h ⊢
    split
    next hinner =>
      -- the inner grandchild is the higher one: a double rotation
      cases lr with
      | nil => simp [balance] at hinner; omega
      | node a b ch ck cv =>
        simp only [balance, balanced_node, height_node] at hl hinner
        rw [rotateLeftRight_mk]
        simp only [balanced_mk, height_mk]
        refine ⟨⟨⟨hl.1, hl.2.1.1, ?_⟩, ⟨hl.2.1.2.1, hr, ?_⟩, ?_⟩, ?_⟩ <;> omega
    next hinner =>
      simp only [balance] at hinner
      rw [rotateRight_mk]
      simp only [balanced_mk, height_mk]
      refine ⟨⟨hl.1, ⟨hl.2.1, hr, ?_⟩, ?_⟩, ?_⟩ <;> omega

theorem rebalance_right (k : κ) (v : ν) (hl : Balanced l) (hr : Balanced r) (h : r.height = l.height + 2) :
    Balanced (rebalance (mk k v l r)) ∧ r.height ≤ (rebalance (mk k v l r)).height ∧
      (rebalance (mk k v l r)).height ≤ r.height + 1 := by
  rw [rebalance_mk, if_neg (by omega), if_pos (by omega)]
  cases r with
  | nil => simp at h
  | node rl rr rh rk rv =>
    simp only [balanced_node, height_node] at hr h ⊢
    split
    next hinner =>
      cases rl with
      | nil => simp [balance] at hinner; omega
      | node a b ch ck cv =>
        simp only [balance, balanced_node, height_node] at hr hinner
        rw [rotateRightLeft_mk]
        simp only [balanced_mk, height_mk]
        refine ⟨⟨⟨hl, hr.1.1, ?_⟩, ⟨hr.1.2.1, hr.2.1, ?_⟩, ?_⟩, ?_⟩ <;> omega
    next hinner =>
      simp only [balance] at hinner
      rw [rotateLeft_mk]
      simp only [balanced_mk, height_mk]
      refine ⟨⟨⟨hl, hr.1, ?_⟩, hr.2.1, ?_⟩, ?_⟩ <;> omega

/-- Rebalancing a node whose subtrees differ by at most two: the result is balanced, as high as the node or one less,
and exactly as high if nothing had to be done. -/
theorem rebalance_spec (k : κ) (v : ν) (hl : Balanced l) (hr : Balanced r) (hlr : l.height ≤ r.height + 2)
    (hrl : r.height ≤ l.height + 2) :
    Balanced (rebalance (mk k v l r)) ∧ max l.height r.height ≤ (rebalance (mk k v l r)).height ∧
      (rebalance (mk k v l r)).height ≤ 1 + max l.height r.height ∧
      (l.height ≤ r.height + 1 → r.height ≤ l.height + 1 →
        (rebalance (mk k v l r)).height = 1 + max l.height r.height) := by
  by_cases hleft : l.height = r.height + 2
  · obtain ⟨hb, hlow, hhigh⟩ := rebalance_left k v hl hr hleft
    exact ⟨hb, by omega, by omega, by omega⟩
  by_cases hright : r.height = l.height + 2
  · obtain ⟨hb, hlow, hhigh⟩ := rebalance_right k v hl hr hright
    exact ⟨hb, by omega, by omega, by omega⟩
  rw [rebalance_mk, if_neg (by omega), if_neg (by omega), height_mk]
  exact ⟨balanced_mk.2 ⟨hl, hr, by omega, by omega⟩, by omega, by omega, fun _ _ => rfl⟩

section Ops

variable (cmp : κ → κ → Ordering)

/-- Insertion keeps the balance, and adds at most one to the height. -/
theorem balanced_set {t : Avl κ ν} (ht : Balanced t) (key : κ) (value : ν) :
    Balanced (set cmp t key value) ∧ t.height ≤ (set cmp t key value).height ∧
      (set cmp t key value).height ≤ t.height + 1 := by
  induction t with
  | nil => simp [set, balanced_mk]
  | node l r h k v ihl ihr =>
    obtain ⟨hl, hr, rfl, hlr, hrl⟩ := balanced_node.1 ht
    simp only [set, height_node]
    split
    next =>
      obtain ⟨hb, hlow, hhigh⟩ := ihl hl
      obtain ⟨hb', hlow', hhigh', heven⟩ := rebalance_spec k v hb hr (by omega) (by omega)
      exact ⟨hb', by omega, by omega⟩
    next =>
      obtain ⟨hb, hlow, hhigh⟩ := ihr hr
      obtain ⟨hb', hlow', hhigh', heven⟩ := rebalance_spec k v hl hb (by omega) (by omega)
      exact ⟨hb', by omega, by omega⟩
    next => exact ⟨balanced_mk.2 ⟨hl, hr, hlr, hrl⟩, by simp, by simp⟩

/-- Deletion keeps the balance, and takes at most one from the height. -/
theorem balanced_delete {t : Avl κ ν} (ht : Balanced t) (key : κ) :
    Balanced (delete cmp t key) ∧ (delete cmp t key).height ≤ t.height ∧
      t.height ≤ (delete cmp t key).height + 1 := by
  induction t generalizing key with
  | nil => simp [delete]
  | node l r h k v ihl ihr =>
    obtain ⟨hl, hr, rfl, hlr, hrl⟩ := balanced_node.1 ht
    unfold delete
    rw [height_node]
    split
    next =>
      obtain ⟨hb, hlow, hhigh⟩ := ihl hl key
      obtain ⟨hb', hlow', hhigh', heven⟩ := rebalance_spec k v hb hr (by omega) (by omega)
      exact ⟨hb', by omega, by omega⟩
    next =>
      obtain ⟨hb, hlow, hhigh⟩ := ihr hr key
      obtain ⟨hb', hlow', hhigh', heven⟩ := rebalance_spec k v hl hb (by omega) (by omega)
      exact ⟨hb', by omega, by omega⟩
    next =>
      split
      next => exact ⟨hr, by omega, by rw [height_nil]; omega⟩
      next => exact ⟨hl, by omega, by rw [height_nil]; omega⟩
      next =>
        split
        next sk sv hfirst =>
          obtain ⟨hb, hlow, hhigh⟩ := ihr hr sk
          obtain ⟨hb', hlow', hhigh', heven⟩ := rebalance_spec sk sv hl hb (by omega) (by omega)
          exact ⟨hb', by omega, by omega⟩
        next hfirst =>
          rw [first?_eq, List.head?_eq_none_iff, toList_eq_nil] at hfirst
          contradiction

end Ops

end Avl

end PolicyEngine.Lib
