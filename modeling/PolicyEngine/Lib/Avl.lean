import Mathlib

/-!
# Persistent AVL maps

An immutable height-balanced search tree over any comparator: lookup, insertion,
deletion and an ordered walk of one key range. A tree means the list `toList` of
its entries; every operation is characterised by what it does to that list.
Balance is only for speed: no result below needs it, because rotations keep the
list, whatever the stored heights are.
-/

open Std List

namespace PolicyEngine.Lib

/-- A node stores its height, as the rotations read it. -/
inductive Avl (κ ν : Type) where
  | nil
  | node (left right : Avl κ ν) (height : Nat) (key : κ) (value : ν)

namespace Avl

variable {κ ν σ : Type}

def height : Avl κ ν → Nat
  | nil => 0
  | node _ _ h _ _ => h

/-- A node over two subtrees, with its height computed from theirs. -/
def mk (key : κ) (value : ν) (left right : Avl κ ν) : Avl κ ν :=
  node left right (1 + max left.height right.height) key value

def balance : Avl κ ν → Int
  | nil => 0
  | node l r _ _ _ => l.height - r.height

def rotateRight : Avl κ ν → Avl κ ν
  | node (node ll lr _ lk lv) r _ k v => mk lk lv ll (mk k v lr r)
  | t => t

def rotateLeft : Avl κ ν → Avl κ ν
  | node l (node rl rr _ rk rv) _ k v => mk rk rv (mk k v l rl) rr
  | t => t

def rebalance : Avl κ ν → Avl κ ν
  | nil => nil
  | t@(node l r _ k v) =>
    if t.balance > 1 then
      rotateRight (if l.balance < 0 then mk k v (rotateLeft l) r else t)
    else if t.balance < -1 then
      rotateLeft (if r.balance > 0 then mk k v l (rotateRight r) else t)
    else t

section Ops

variable (cmp : κ → κ → Ordering)

def get : Avl κ ν → κ → Option ν
  | nil, _ => none
  | node l r _ k v, key =>
    match cmp key k with
    | .lt => get l key
    | .gt => get r key
    | .eq => some v

def set : Avl κ ν → κ → ν → Avl κ ν
  | nil, key, value => mk key value nil nil
  | node l r _ k v, key, value =>
    match cmp key k with
    | .lt => rebalance (mk k v (set l key value) r)
    | .gt => rebalance (mk k v l (set r key value))
    | .eq => mk key value l r

/-- The entry with the least key. -/
def first? : Avl κ ν → Option (κ × ν)
  | nil => none
  | node nil _ _ k v => some (k, v)
  | node l _ _ _ _ => first? l

def delete : Avl κ ν → κ → Avl κ ν
  | nil, _ => nil
  | node l r _ k v, key =>
    match cmp key k with
    | .lt => rebalance (mk k v (delete l key) r)
    | .gt => rebalance (mk k v l (delete r key))
    | .eq =>
      match l, r with
      | nil, r => r
      | l, nil => l
      | l, r =>
        match first? r with
        | some (sk, sv) => rebalance (mk sk sv l (delete r sk))
        | none => l

end Ops

/-- Walks the entries whose key falls in one range (`range k = .eq`) in order,
until the visitor answers `false`. -/
def walk (range : κ → Ordering) (visit : σ → ν → σ × Bool) : Avl κ ν → σ → σ × Bool
  | nil, s => (s, true)
  | node l r _ k v, s =>
    match range k with
    | .lt => walk range visit r s
    | .gt => walk range visit l s
    | .eq =>
      match walk range visit l s with
      | (s, false) => (s, false)
      | (s, true) =>
        match visit s v with
        | (s, false) => (s, false)
        | (s, true) => walk range visit r s

/-- The same visit over a list. -/
def visitList (visit : σ → ν → σ × Bool) : List ν → σ → σ × Bool
  | [], s => (s, true)
  | v :: rest, s =>
    match visit s v with
    | (s, false) => (s, false)
    | (s, true) => visitList visit rest s

/-! ## The list a tree means -/

def toList : Avl κ ν → List (κ × ν)
  | nil => []
  | node l r _ k v => toList l ++ (k, v) :: toList r

@[simp] theorem toList_nil : (nil : Avl κ ν).toList = [] := rfl

@[simp] theorem toList_node (l r : Avl κ ν) (h : Nat) (k : κ) (v : ν) :
    (node l r h k v).toList = l.toList ++ (k, v) :: r.toList := rfl

@[simp] theorem toList_mk (k : κ) (v : ν) (l r : Avl κ ν) :
    (mk k v l r).toList = l.toList ++ (k, v) :: r.toList := rfl

@[simp] theorem toList_eq_nil {t : Avl κ ν} : t.toList = [] ↔ t = nil := by
  cases t <;> simp

@[simp] theorem toList_rotateRight (t : Avl κ ν) : (rotateRight t).toList = t.toList := by
  unfold rotateRight
  split <;> simp

@[simp] theorem toList_rotateLeft (t : Avl κ ν) : (rotateLeft t).toList = t.toList := by
  unfold rotateLeft
  split <;> simp

@[simp] theorem toList_rebalance (t : Avl κ ν) : (rebalance t).toList = t.toList := by
  cases t with
  | nil => rfl
  | node l r h k v =>
    simp only [rebalance]
    split
    · rw [toList_rotateRight]
      split <;> simp
    · split
      · rw [toList_rotateLeft]
        split <;> simp
      · rfl

theorem first?_eq (t : Avl κ ν) : t.first? = t.toList.head? := by
  fun_induction first? t with
  | case1 => rfl
  | case2 => simp
  | case3 l r h k v hl ih =>
    cases hc : l.toList with
    | nil => exact absurd (toList_eq_nil.1 hc) (by rintro rfl; exact hl rfl)
    | cons a as => simp [ih, hc]

/-! ## Search order -/

section Ordered

variable (cmp : κ → κ → Ordering)

/-- Keys strictly increase from left to right. -/
def Ordered (t : Avl κ ν) : Prop := t.toList.Pairwise fun a b => cmp a.1 b.1 = .lt

variable {cmp}

theorem ordered_nil : Ordered cmp (nil : Avl κ ν) := List.Pairwise.nil

variable {h : Nat}

theorem ordered_node {l r : Avl κ ν} {k : κ} {v : ν} :
    Ordered cmp (node l r h k v) ↔ Ordered cmp l ∧ Ordered cmp r ∧
      (∀ p ∈ l.toList, cmp p.1 k = .lt) ∧ (∀ p ∈ r.toList, cmp k p.1 = .lt) ∧
      ∀ p ∈ l.toList, ∀ q ∈ r.toList, cmp p.1 q.1 = .lt := by
  simp only [Ordered, toList_node, pairwise_append, pairwise_cons, mem_cons]
  constructor
  · rintro ⟨hl, ⟨hk, hr⟩, hlr⟩
    exact ⟨hl, hr, fun p hp => hlr p hp _ (.inl rfl), hk, fun p hp q hq => hlr p hp q (.inr hq)⟩
  · rintro ⟨hl, hr, hlk, hkr, hlr⟩
    refine ⟨hl, ⟨hkr, hr⟩, fun p hp q hq => ?_⟩
    rcases hq with rfl | hq
    · exact hlk p hp
    · exact hlr p hp q hq

variable [TransCmp cmp]

/-- Every entry on the left of an ordered node is below any key at or above the node's. -/
theorem lt_of_mem_left {l r : Avl κ ν} {k key : κ} {v : ν} (ho : Ordered cmp (node l r h k v)) (hk : cmp k key ≠ .gt)
    {p : κ × ν} (hp : p ∈ l.toList) : cmp p.1 key = .lt := by
  have hpk := (ordered_node.1 ho).2.2.1 p hp
  exact TransCmp.lt_of_lt_of_isLE hpk (by rwa [Ordering.isLE_iff_ne_gt])

theorem gt_of_mem_right {l r : Avl κ ν} {k key : κ} {v : ν} (ho : Ordered cmp (node l r h k v)) (hk : cmp key k ≠ .gt)
    {p : κ × ν} (hp : p ∈ r.toList) : cmp key p.1 = .lt := by
  have hpk := (ordered_node.1 ho).2.2.2.1 p hp
  exact TransCmp.lt_of_isLE_of_lt (by rwa [Ordering.isLE_iff_ne_gt]) hpk

end Ordered

/-! ## What the operations do to the list -/

section Spec

variable {cmp : κ → κ → Ordering}

/-- The entries before a key, and those after it. -/
def before (cmp : κ → κ → Ordering) (key : κ) (l : List (κ × ν)) : List (κ × ν) :=
  l.filter fun p => cmp p.1 key == .lt

def after (cmp : κ → κ → Ordering) (key : κ) (l : List (κ × ν)) : List (κ × ν) :=
  l.filter fun p => cmp key p.1 == .lt

variable {key : κ} {l : List (κ × ν)}

theorem mem_before {p : κ × ν} :
    p ∈ before cmp key l ↔ p ∈ l ∧ cmp p.1 key = .lt := by simp [before]

theorem mem_after {p : κ × ν} :
    p ∈ after cmp key l ↔ p ∈ l ∧ cmp key p.1 = .lt := by simp [after]

theorem before_eq_self (h : ∀ p ∈ l, cmp p.1 key = .lt) : before cmp key l = l :=
  filter_eq_self.2 fun p hp => by simp [h p hp]

theorem after_eq_self (h : ∀ p ∈ l, cmp key p.1 = .lt) : after cmp key l = l :=
  filter_eq_self.2 fun p hp => by simp [h p hp]

variable [TransCmp cmp]

theorem before_eq_nil (h : ∀ p ∈ l, cmp key p.1 = .lt) : before cmp key l = [] :=
  filter_eq_nil_iff.2 fun p hp => by
    have := OrientedCmp.gt_of_lt (h p hp)
    simp [this]

theorem after_eq_nil (h : ∀ p ∈ l, cmp p.1 key = .lt) : after cmp key l = [] :=
  filter_eq_nil_iff.2 fun p hp => by
    have := OrientedCmp.gt_of_lt (h p hp)
    simp [this]

variable {h : Nat}

/-- The three ways a key can stand to an ordered node, seen on the node's list. -/
theorem split_lt {l r : Avl κ ν} {k : κ} {v : ν} (ho : Ordered cmp (node l r h k v)) (hk : cmp key k = .lt) :
    before cmp key (node l r h k v).toList = before cmp key l.toList ∧
      after cmp key (node l r h k v).toList = after cmp key l.toList ++ (k, v) :: r.toList := by
  have hr : ∀ p ∈ (k, v) :: r.toList, cmp key p.1 = .lt := by
    intro p hp
    rcases mem_cons.1 hp with rfl | hp
    · exact hk
    · exact gt_of_mem_right ho (by simp [hk]) hp
  constructor
  · simp only [toList_node, before, filter_append]
    rw [show List.filter _ ((k, v) :: r.toList) = [] from before_eq_nil hr, append_nil]
  · simp only [toList_node, after, filter_append]
    rw [show List.filter _ ((k, v) :: r.toList) = _ from after_eq_self hr]

theorem split_gt {l r : Avl κ ν} {k : κ} {v : ν} (ho : Ordered cmp (node l r h k v)) (hk : cmp key k = .gt) :
    before cmp key (node l r h k v).toList = l.toList ++ (k, v) :: before cmp key r.toList ∧
      after cmp key (node l r h k v).toList = after cmp key r.toList := by
  have hk' : cmp k key = .lt := OrientedCmp.lt_of_gt hk
  have hl : ∀ p ∈ l.toList, cmp p.1 key = .lt := fun p hp => lt_of_mem_left ho (by simp [hk']) hp
  constructor
  · simp only [toList_node, before, filter_append]
    rw [show List.filter _ l.toList = _ from before_eq_self hl]
    simp [hk']
  · simp only [toList_node, after, filter_append]
    rw [show List.filter _ l.toList = [] from after_eq_nil hl]
    simp [hk]

theorem split_eq {l r : Avl κ ν} {k : κ} {v : ν} (ho : Ordered cmp (node l r h k v)) (hk : cmp key k = .eq) :
    before cmp key (node l r h k v).toList = l.toList ∧ after cmp key (node l r h k v).toList = r.toList := by
  have hk' : cmp k key = .eq := OrientedCmp.eq_symm hk
  have hl : ∀ p ∈ l.toList, cmp p.1 key = .lt := fun p hp => lt_of_mem_left ho (by simp [hk']) hp
  have hr : ∀ p ∈ r.toList, cmp key p.1 = .lt := fun p hp => gt_of_mem_right ho (by simp [hk]) hp
  constructor
  · simp only [toList_node, before, filter_append]
    rw [show List.filter _ l.toList = _ from before_eq_self hl]
    simp [hk', show List.filter _ r.toList = [] from before_eq_nil hr]
  · simp only [toList_node, after, filter_append]
    rw [show List.filter _ l.toList = [] from after_eq_nil hl]
    simp [hk, show List.filter _ r.toList = _ from after_eq_self hr]

variable {t : Avl κ ν}

theorem toList_set (ho : Ordered cmp t) (key : κ) (value : ν) :
    (set cmp t key value).toList = before cmp key t.toList ++ (key, value) :: after cmp key t.toList := by
  induction t with
  | nil => simp [set, before, after]
  | node l r h k v ihl ihr =>
    obtain ⟨hl, hr, -⟩ := ordered_node.1 ho
    simp only [set]
    split
    next hk =>
      rw [(split_lt ho hk).1, (split_lt ho hk).2]
      simp [ihl hl]
    next hk =>
      rw [(split_gt ho hk).1, (split_gt ho hk).2]
      simp [ihr hr]
    next hk =>
      rw [(split_eq ho hk).1, (split_eq ho hk).2]
      simp

theorem toList_delete (ho : Ordered cmp t) (key : κ) :
    (delete cmp t key).toList = before cmp key t.toList ++ after cmp key t.toList := by
  induction t generalizing key with
  | nil => simp [delete, before, after]
  | node l r h k v ihl ihr =>
    obtain ⟨hl, hr, -⟩ := ordered_node.1 ho
    unfold delete
    split
    next hk =>
      rw [(split_lt ho hk).1, (split_lt ho hk).2]
      simp [ihl hl]
    next hk =>
      rw [(split_gt ho hk).1, (split_gt ho hk).2]
      simp [ihr hr]
    next hk =>
      rw [(split_eq ho hk).1, (split_eq ho hk).2]
      split
      · simp
      · simp
      · cases hr' : r.toList with
        | nil => exact absurd (toList_eq_nil.1 hr') (by assumption)
        | cons q qs =>
          -- the successor is the right list's head, and deleting it leaves the tail
          have hqs : ∀ p ∈ qs, cmp q.1 p.1 = .lt := by
            rw [Ordered, hr'] at hr
            exact (pairwise_cons.1 hr).1
          have hdel := ihr hr q.1
          have hqq : cmp q.1 q.1 = .eq := ReflCmp.compare_self
          rw [hr'] at hdel
          simp only [before, after, filter_cons, hqq] at hdel
          rw [show List.filter _ qs = [] from before_eq_nil hqs,
            show List.filter _ qs = qs from after_eq_self hqs] at hdel
          simp [first?_eq, hr', hdel]

theorem ordered_set (ho : Ordered cmp t) (key : κ) (value : ν) : Ordered cmp (set cmp t key value) := by
  rw [Ordered, toList_set ho, pairwise_append, pairwise_cons]
  refine ⟨List.Pairwise.filter _ ho, ⟨fun p hp => (mem_after.1 hp).2, List.Pairwise.filter _ ho⟩, ?_⟩
  intro p hp q hq
  have hpk := (mem_before.1 hp).2
  rcases mem_cons.1 hq with rfl | hq
  · exact hpk
  · exact TransCmp.lt_trans hpk (mem_after.1 hq).2

theorem ordered_delete (ho : Ordered cmp t) (key : κ) : Ordered cmp (delete cmp t key) := by
  rw [Ordered, toList_delete ho, pairwise_append]
  refine ⟨List.Pairwise.filter _ ho, List.Pairwise.filter _ ho, fun p hp q hq => ?_⟩
  exact TransCmp.lt_trans (mem_before.1 hp).2 (mem_after.1 hq).2

variable [LawfulEqCmp cmp]

theorem get_eq_some (ho : Ordered cmp t) {value : ν} :
    get cmp t key = some value ↔ (key, value) ∈ t.toList := by
  induction t with
  | nil => simp [get]
  | node l r h k v ihl ihr =>
    obtain ⟨hl, hr, hlk, hkr, -⟩ := ordered_node.1 ho
    have hself : cmp k k = .eq := ReflCmp.compare_self
    simp only [get, toList_node, mem_append, mem_cons, Prod.mk.injEq]
    split
    next hk =>
      rw [ihl hl]
      refine ⟨.inl, ?_⟩
      rintro (hm | ⟨rfl, -⟩ | hm)
      · exact hm
      · rw [hself] at hk; cases hk
      · have := OrientedCmp.gt_of_lt (hkr _ hm)
        simp only [this] at hk; cases hk
    next hk =>
      rw [ihr hr]
      refine ⟨fun hm => .inr (.inr hm), ?_⟩
      rintro (hm | ⟨rfl, -⟩ | hm)
      · have := hlk _ hm
        simp only [this] at hk; cases hk
      · rw [hself] at hk; cases hk
      · exact hm
    next hk =>
      obtain rfl := LawfulEqCmp.eq_of_compare hk
      refine ⟨fun hv => .inr (.inl ⟨rfl, (Option.some.inj hv).symm⟩), ?_⟩
      rintro (hm | ⟨-, rfl⟩ | hm)
      · have := hlk _ hm
        simp only [hself] at this; cases this
      · rfl
      · have := hkr _ hm
        simp only [hself] at this; cases this

variable (cmp) in
theorem ne_iff_lt_or_gt (a b : κ) : a ≠ b ↔ cmp a b = .lt ∨ cmp b a = .lt := by
  have hgt : cmp a b = .gt ↔ cmp b a = .lt := OrientedCmp.gt_iff_lt
  have heq : cmp a b = .eq ↔ a = b := LawfulEqCmp.compare_eq_iff_eq
  rw [← hgt, ne_eq, ← heq]
  cases cmp a b <;> simp

theorem mem_toList_set (ho : Ordered cmp t) {value p} :
    p ∈ (set cmp t key value).toList ↔ p = (key, value) ∨ p ∈ t.toList ∧ p.1 ≠ key := by
  rw [toList_set ho, mem_append, mem_cons, mem_before, mem_after]
  rw [ne_iff_lt_or_gt cmp]
  grind

theorem mem_toList_delete (ho : Ordered cmp t) {p : κ × ν} :
    p ∈ (delete cmp t key).toList ↔ p ∈ t.toList ∧ p.1 ≠ key := by
  rw [toList_delete ho, mem_append, mem_before, mem_after]
  rw [ne_iff_lt_or_gt cmp]
  grind

theorem get_set [DecidableEq κ] (ho : Ordered cmp t) (key k : κ) (value : ν) :
    get cmp (set cmp t key value) k = if k = key then some value else get cmp t k := by
  refine Option.ext fun v => ?_
  rw [get_eq_some (ordered_set ho key value), mem_toList_set ho]
  split
  next h => simp [h, eq_comm]
  next h => simp [h, get_eq_some ho]

theorem get_delete [DecidableEq κ] (ho : Ordered cmp t) (key k : κ) :
    get cmp (delete cmp t key) k = if k = key then none else get cmp t k := by
  refine Option.ext fun v => ?_
  rw [get_eq_some (ordered_delete ho key), mem_toList_delete ho]
  split
  next h => simp [h]
  next h => simp [h, get_eq_some ho]

end Spec

/-! ## The walk of a range -/

theorem visitList_append (visit : σ → ν → σ × Bool) (l r : List ν) (s : σ) :
    visitList visit (l ++ r) s =
      match visitList visit l s with
      | (s, false) => (s, false)
      | (s, true) => visitList visit r s := by
  induction l generalizing s with
  | nil => rfl
  | cons v l ih =>
    simp only [cons_append, visitList]
    rcases visit s v with ⟨s', _ | _⟩
    · rfl
    · exact ih s'

/-- A walk visits exactly the entries of its range, in key order, when the range
is monotone along the tree's order. -/
theorem walk_eq (range : κ → Ordering) (visit : σ → ν → σ × Bool) {cmp : κ → κ → Ordering}
    (hlt : ∀ a b, cmp a b = .lt → range b = .lt → range a = .lt)
    (hgt : ∀ a b, cmp a b = .lt → range a = .gt → range b = .gt) {t : Avl κ ν} (ho : Ordered cmp t) (s : σ) :
    walk range visit t s = visitList visit ((t.toList.filter fun p => range p.1 == .eq).map (·.2)) s := by
  induction t generalizing s with
  | nil => rfl
  | node l r h k v ihl ihr =>
    obtain ⟨hl, hr, hlk, hkr, -⟩ := ordered_node.1 ho
    simp only [walk, toList_node, filter_append]
    split
    next hk =>
      have hnil : l.toList.filter (fun p => range p.1 == .eq) = [] :=
        filter_eq_nil_iff.2 fun p hp => by simp [hlt p.1 k (hlk p hp) hk]
      simp [hnil, hk, ihr hr]
    next hk =>
      have hnil : r.toList.filter (fun p => range p.1 == .eq) = [] :=
        filter_eq_nil_iff.2 fun p hp => by simp [hgt k p.1 (hkr p hp) hk]
      simp [hnil, hk, ihl hl]
    next hk =>
      rw [map_append, visitList_append, ihl hl]
      rcases visitList visit _ s with ⟨s', _ | _⟩
      · rfl
      · simp only [hk, beq_self_eq_true, filter_cons_of_pos, map_cons, visitList]
        rcases visit s' v with ⟨s'', _ | _⟩
        · rfl
        · exact ihr hr s''

end Avl

end PolicyEngine.Lib
