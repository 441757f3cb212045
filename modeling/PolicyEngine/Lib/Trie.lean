import PolicyEngine.Lib.Avl

/-!
# Tries that hold no key below another

A persistent map from key paths to values whose nodes index their children by an
AVL tree. Insertion refuses a path that is a strict prefix, or a strict extension,
of a stored one, and deletion drops the branches it empties. An absent node is
`none`, so the map is an `Option (Trie κ ν)`.
-/

open Std

namespace PolicyEngine.Lib

inductive Trie (κ ν : Type) where
  | mk (value : Option ν) (children : Avl κ (Trie κ ν))

def Avl.isNil {κ ν : Type} : Avl κ ν → Bool
  | .nil => true
  | .node .. => false

@[simp] theorem Avl.isNil_iff {κ ν : Type} {t : Avl κ ν} : t.isNil = true ↔ t = .nil := by
  cases t <;> simp [Avl.isNil]

namespace Trie

variable {κ ν : Type}

def value : Trie κ ν → Option ν
  | mk v _ => v

def children : Trie κ ν → Avl κ (Trie κ ν)
  | mk _ c => c

def empty : Trie κ ν := mk none .nil

@[simp] theorem value_mk (v : Option ν) (c : Avl κ (Trie κ ν)) : (mk v c).value = v := rfl

@[simp] theorem children_mk (v : Option ν) (c : Avl κ (Trie κ ν)) : (mk v c).children = c := rfl

section Ops

variable (cmp : κ → κ → Ordering)

/-- `none` when the path conflicts with a stored one. -/
def set : Option (Trie κ ν) → List κ → ν → Option (Trie κ ν)
  | node, [], v =>
    let t := node.getD empty
    if t.children.isNil then some (mk (some v) t.children) else none
  | node, k :: path, v =>
    let t := node.getD empty
    if t.value.isSome then none
    else
      match set (t.children.get cmp k) path v with
      | none => none
      | some updated => some (mk t.value (t.children.set cmp k updated))

/-- The node at the end of a path. -/
def descend : Option (Trie κ ν) → List κ → Option (Trie κ ν)
  | node, [] => node
  | none, _ :: _ => none
  | some t, k :: path => descend (t.children.get cmp k) path

def get (node : Option (Trie κ ν)) (path : List κ) : Option ν :=
  match descend cmp node path with
  | none => none
  | some t => t.value

def delete : Option (Trie κ ν) → List κ → Option (Trie κ ν)
  | none, _ => none
  | some t, [] => if t.children.isNil then none else some (mk none t.children)
  | some t, k :: path =>
    match t.children.get cmp k with
    | none => some t
    | some child =>
      let children :=
        match delete (some child) path with
        | none => t.children.delete cmp k
        | some updated => t.children.set cmp k updated
      if t.value.isNone && children.isNil then none else some (mk t.value children)

def hasDescendant (node : Option (Trie κ ν)) (path : List κ) : Bool :=
  match descend cmp node path with
  | none => false
  | some t => !t.children.isNil

/-- What the operations keep: children are in search order, no node is idle, and
only a leaf holds a value. -/
inductive Wf : Trie κ ν → Prop
  | mk {v : Option ν} {c : Avl κ (Trie κ ν)} (ordered : c.Ordered cmp) (below : ∀ p ∈ c.toList, Wf p.2)
      (leaf : v.isSome → c = .nil) (used : v.isSome ∨ c ≠ .nil) : Wf (mk v c)

/-- A well-formed map: empty, or a well-formed trie. -/
def WfMap (node : Option (Trie κ ν)) : Prop := ∀ t ∈ node, Wf cmp t

end Ops

variable {cmp : κ → κ → Ordering}

theorem wfMap_none : WfMap cmp (none : Option (Trie κ ν)) := fun _ h => nomatch h

variable {t : Trie κ ν}

theorem wfMap_some : WfMap cmp (some t) ↔ Wf cmp t := by simp [WfMap]

theorem Wf.ordered (h : Wf cmp t) : t.children.Ordered cmp := by
  cases h with | mk ho _ _ _ => exact ho

theorem Wf.leaf (h : Wf cmp t) : t.value.isSome → t.children = .nil := by
  cases h with | mk _ _ hl _ => exact hl

@[simp] theorem get_none (path : List κ) : get cmp (none : Option (Trie κ ν)) path = none := by
  cases path <;> simp [get, descend]

@[simp] theorem get_nil (t : Trie κ ν) : get cmp (some t) [] = t.value := by simp [get, descend]

@[simp] theorem get_cons (t : Trie κ ν) (k : κ) (path : List κ) :
    get cmp (some t) (k :: path) = get cmp (t.children.get cmp k) path := by simp [get, descend]

@[simp] theorem delete_none (path : List κ) : delete cmp (none : Option (Trie κ ν)) path = none := by
  cases path <;> rfl

variable (cmp) in
theorem getD_children (node : Option (Trie κ ν)) (k : κ) (path : List κ) :
    get cmp ((node.getD empty).children.get cmp k) path = get cmp node (k :: path) := by
  cases node with
  | none => simp [empty, Avl.get]
  | some t => simp

variable (cmp) in
theorem getD_value (node : Option (Trie κ ν)) : (node.getD empty).value = get cmp node [] := by
  cases node <;> simp [empty]

variable {node : Option (Trie κ ν)}

theorem WfMap.ordered (h : WfMap cmp node) :
    (node.getD empty).children.Ordered cmp := by
  cases node with
  | none => exact Avl.ordered_nil
  | some n => exact (wfMap_some.1 h).ordered

/-- What a successful insertion did, one level down. -/
theorem set_cons_eq_some {k path v} (h : set cmp node (k :: path) v = some t) :
    get cmp node [] = none ∧ ∃ u, set cmp ((node.getD empty).children.get cmp k) path v = some u ∧
      t = mk none ((node.getD empty).children.set cmp k u) := by
  rw [set] at h
  have hval := getD_value cmp node
  generalize (node.getD empty).value = val at h hval
  cases val with
  | some w => simp at h
  | none =>
    refine ⟨hval.symm, ?_⟩
    cases hu : set cmp ((node.getD empty).children.get cmp k) path v with
    | none => simp [hu] at h
    | some u =>
      simp only [hu, Option.isSome_none, Bool.false_eq_true, if_false, Option.some.injEq] at h
      exact ⟨u, rfl, h.symm⟩

theorem set_nil_eq_some {v : ν} (h : set cmp node [] v = some t) :
    (node.getD empty).children = .nil ∧ t = mk (some v) .nil := by
  simp only [set] at h
  split at h
  next hc =>
    rw [Avl.isNil_iff] at hc
    exact ⟨hc, by rw [hc] at h; exact (Option.some.inj h).symm⟩
  next => cases h

section Lawful

variable [TransCmp cmp] [LawfulEqCmp cmp]

variable {node : Option (Trie κ ν)}

theorem WfMap.child (h : WfMap cmp node) (k : κ) :
    WfMap cmp ((node.getD empty).children.get cmp k) := by
  intro t ht
  cases node with
  | none => simp [empty, Avl.get] at ht
  | some n =>
    cases wfMap_some.1 h with
    | mk ho hb _ _ => exact hb (k, t) ((Avl.get_eq_some ho).1 ht)

variable {t : Trie κ ν}

/-- No branch of a well-formed trie is idle: it leads to a stored value. -/
theorem Wf.exists_value (h : Wf cmp t) : ∃ path, (get cmp (some t) path).isSome := by
  induction h with
  | @mk v c ho _ _ hu ih =>
    rcases hu with hv | hc
    · exact ⟨[], by simpa using hv⟩
    · obtain ⟨p, hp⟩ := List.exists_mem_of_ne_nil _ (mt Avl.toList_eq_nil.1 hc)
      obtain ⟨path, hpath⟩ := ih p hp
      refine ⟨p.1 :: path, ?_⟩
      rwa [get_cons, children_mk, (Avl.get_eq_some ho).2 hp]

theorem Wf.exists_below (h : Wf cmp t) (hc : t.children ≠ .nil) :
    ∃ k path, (get cmp (some t) (k :: path)).isSome := by
  cases h with
  | @mk v c ho hb _ _ =>
    obtain ⟨p, hp⟩ := List.exists_mem_of_ne_nil _ (mt Avl.toList_eq_nil.1 hc)
    obtain ⟨path, hpath⟩ := (hb p hp).exists_value
    refine ⟨p.1, path, ?_⟩
    rwa [get_cons, children_mk, (Avl.get_eq_some ho).2 hp]

/-- Children exist exactly when some longer path holds a value. -/
theorem children_ne_nil (h : WfMap cmp node) :
    (node.getD empty).children ≠ .nil ↔ ∃ k path, (get cmp node (k :: path)).isSome := by
  cases node with
  | none => simp [empty]
  | some t =>
    refine ⟨fun hc => (wfMap_some.1 h).exists_below hc, ?_⟩
    rintro ⟨k, path, hp⟩ hc
    rw [Option.getD_some] at hc
    simp [hc, Avl.get] at hp

/-- No stored path extends another. -/
theorem WfMap.prefixFree (h : WfMap cmp node) {p q : List κ} (hp : (get cmp node p).isSome)
    (hq : (get cmp node q).isSome) (hpq : p <+: q) : p = q := by
  induction p generalizing node q with
  | nil =>
    cases q with
    | nil => rfl
    | cons k q =>
      -- a node with a value has no children to hold the longer path
      have hc := (children_ne_nil h).2 ⟨k, q, hq⟩
      cases node with
      | none => simp at hp
      | some t =>
        rw [get_nil] at hp
        exact absurd ((wfMap_some.1 h).leaf hp) hc
  | cons k p ih =>
    cases q with
    | nil => simp at hpq
    | cons k' q =>
      obtain ⟨rfl, htail⟩ := List.cons_prefix_cons.1 hpq
      rw [← getD_children] at hp hq
      rw [ih (h.child k) hp hq htail]

/-! ## Insertion -/

theorem wf_set {path v} (hw : WfMap cmp node) (h : set cmp node path v = some t) : Wf cmp t := by
  induction path generalizing node t with
  | nil =>
    obtain ⟨-, rfl⟩ := set_nil_eq_some h
    exact .mk Avl.ordered_nil (by simp) (fun _ => rfl) (.inl rfl)
  | cons k path ih =>
    obtain ⟨-, u, hu, rfl⟩ := set_cons_eq_some h
    have huw := ih (hw.child k) hu
    have hmem : (k, u) ∈ ((node.getD empty).children.set cmp k u).toList :=
      (Avl.mem_toList_set hw.ordered).2 (.inl rfl)
    refine .mk (Avl.ordered_set hw.ordered k u) (fun p hp => ?_) (by simp) (.inr ?_)
    · rcases (Avl.mem_toList_set hw.ordered).1 hp with rfl | ⟨hp, -⟩
      · exact huw
      · exact hw.child p.1 p.2 ((Avl.get_eq_some hw.ordered).2 hp)
    · intro hnil
      simp [hnil] at hmem

theorem get_set [DecidableEq κ] {path v} (hw : WfMap cmp node) (h : set cmp node path v = some t) (q : List κ) :
    get cmp (some t) q = if q = path then some v else get cmp node q := by
  induction path generalizing node t q with
  | nil =>
    obtain ⟨hc, rfl⟩ := set_nil_eq_some h
    cases q with
    | nil => simp
    | cons k q =>
      have hnone := getD_children cmp node k q
      rw [hc, Avl.get, get_none] at hnone
      simp [← hnone, Avl.get]
  | cons k path ih =>
    obtain ⟨hnone, u, hu, rfl⟩ := set_cons_eq_some h
    cases q with
    | nil => simp [hnone]
    | cons k' q =>
      rw [get_cons, children_mk, Avl.get_set hw.ordered]
      by_cases hk : k' = k
      · subst hk
        simp [ih (hw.child k') hu, getD_children]
      · simp [hk, getD_children]

/-- Insertion fails exactly on a strict prefix or a strict extension of a stored path. -/
theorem set_eq_none (hw : WfMap cmp node) (path : List κ) (v : ν) :
    set cmp node path v = none ↔
      ∃ q, q ≠ path ∧ (q <+: path ∨ path <+: q) ∧ (get cmp node q).isSome := by
  induction path generalizing node with
  | nil =>
    have hif : set cmp node [] v = none ↔ (node.getD empty).children ≠ .nil := by
      simp only [set]
      split <;> simp_all
    rw [hif, children_ne_nil hw]
    constructor
    · rintro ⟨k, q, hq⟩
      exact ⟨k :: q, by simp, .inr (List.nil_prefix), hq⟩
    · rintro ⟨q, hne, -, hq⟩
      cases q with
      | nil => exact absurd rfl hne
      | cons k q => exact ⟨k, q, hq⟩
  | cons k path ih =>
    have hif : set cmp node (k :: path) v = none ↔
        (get cmp node []).isSome ∨ set cmp ((node.getD empty).children.get cmp k) path v = none := by
      rw [set, ← getD_value cmp node]
      by_cases hv : (node.getD empty).value.isSome
      · simp [hv]
      · cases hu : set cmp ((node.getD empty).children.get cmp k) path v <;> simp [hv]
    rw [hif, ih (hw.child k)]
    simp only [getD_children]
    constructor
    · rintro (hv | ⟨q, hne, hpre, hq⟩)
      · exact ⟨[], by simp, .inl List.nil_prefix, hv⟩
      · refine ⟨k :: q, by simpa using hne, ?_, hq⟩
        simpa [List.cons_prefix_cons] using hpre
    · rintro ⟨q, hne, hpre, hq⟩
      cases q with
      | nil => exact .inl hq
      | cons k' q =>
        obtain ⟨rfl, hpre'⟩ : k' = k ∧ (q <+: path ∨ path <+: q) := by
          rcases hpre with hp | hp
          · exact ⟨(List.cons_prefix_cons.1 hp).1, .inl (List.cons_prefix_cons.1 hp).2⟩
          · exact ⟨(List.cons_prefix_cons.1 hp).1.symm, .inr (List.cons_prefix_cons.1 hp).2⟩
        exact .inr ⟨q, by simpa using hne, hpre', hq⟩

/-! ## Deletion -/

theorem wf_delete (hw : WfMap cmp node) (path : List κ) :
    WfMap cmp (delete cmp node path) := by
  induction path generalizing node with
  | nil =>
    cases node with
    | none => simpa [delete] using wfMap_none
    | some t =>
      simp only [delete]
      split
      next => exact wfMap_none
      next hc =>
        obtain ⟨ho, hb, hl, -⟩ := wfMap_some.1 hw
        exact wfMap_some.2 (.mk ho hb (by simp) (.inr (by simpa using hc)))
  | cons k path ih =>
    cases node with
    | none => simpa [delete] using wfMap_none
    | some t =>
      have hcw := hw.child k
      rw [Option.getD_some] at hcw
      simp only [delete]
      cases hchild : t.children.get cmp k with
      | none => exact hw
      | some child =>
        rw [hchild] at hcw
        have hdel := ih hcw
        obtain ⟨ho, hb, hl, -⟩ := wfMap_some.1 hw
        rename_i v c
        simp only [children_mk, value_mk] at hchild ⊢
        have hvnone : v = none := by
          cases v with
          | none => rfl
          | some w => rw [hl rfl] at hchild; simp [Avl.get] at hchild
        subst hvnone
        -- the new children: ordered, and well formed below
        have hkids : ∀ c' : Avl κ (Trie κ ν), c'.Ordered cmp → (∀ p ∈ c'.toList, Wf cmp p.2) →
            WfMap cmp (if (none : Option ν).isNone && c'.isNil then none else some (mk none c')) := by
          intro c' ho' hb'
          split
          next => exact wfMap_none
          next hc => exact wfMap_some.2 (.mk ho' hb' (by simp) (.inr (by simpa using hc)))
        cases hd : delete cmp (some child) path with
        | none =>
          refine hkids _ (Avl.ordered_delete ho k) fun p hp => hb p ?_
          exact ((Avl.mem_toList_delete ho).1 hp).1
        | some u =>
          refine hkids _ (Avl.ordered_set ho k u) fun p hp => ?_
          rcases (Avl.mem_toList_set ho).1 hp with rfl | ⟨hp, -⟩
          · exact hdel u (by rw [hd]; rfl)
          · exact hb p hp

theorem get_delete [DecidableEq κ] (hw : WfMap cmp node) (path q : List κ) :
    get cmp (delete cmp node path) q = if q = path then none else get cmp node q := by
  induction path generalizing node q with
  | nil =>
    cases node with
    | none => simp [delete]
    | some t =>
      by_cases hc : t.children.isNil
      · have hnil := Avl.isNil_iff.1 hc
        cases q <;> simp [delete, hnil, Avl.isNil, Avl.get]
      · cases q <;> simp [delete, hc]
  | cons k path ih =>
    cases node with
    | none => simp [delete]
    | some t =>
      have hcw := hw.child k
      have ho := (wfMap_some.1 hw).ordered
      rw [Option.getD_some] at hcw
      simp only [delete]
      cases hchild : t.children.get cmp k with
      | none =>
        by_cases hq : q = k :: path
        · simp [hq, hchild]
        · simp [hq]
      | some child =>
        rw [hchild] at hcw
        -- the rebuilt node answers as the children do, whether or not it was dropped
        have hnode : ∀ c : Avl κ (Trie κ ν),
            get cmp (if t.value.isNone && c.isNil then none else some (mk t.value c)) q =
              get cmp (some (mk t.value c)) q := by
          intro c
          split
          next h =>
            rw [Bool.and_eq_true, Option.isNone_iff_eq_none, Avl.isNil_iff] at h
            cases q <;> simp [h.1, h.2, Avl.get]
          next => rfl
        rw [hnode]
        cases q with
        | nil => simp
        | cons k' q =>
          have hkid : ∀ q, get cmp ((match delete cmp (some child) path with
              | none => t.children.delete cmp k
              | some updated => t.children.set cmp k updated).get cmp k') q =
              if k' = k then get cmp (delete cmp (some child) path) q
              else get cmp (t.children.get cmp k') q := by
            intro q
            cases delete cmp (some child) path with
            | none => simp only [Avl.get_delete ho]; split <;> simp
            | some u => simp only [Avl.get_set ho]; split <;> simp
          rw [get_cons, children_mk, hkid, get_cons]
          by_cases hk : k' = k
          · subst hk
            simp [ih hcw, hchild]
          · simp [hk]

/-! ## Occupancy below a path -/

/-- A path has descendants exactly when a stored path strictly extends it. -/
theorem hasDescendant_iff (hw : WfMap cmp node) (path : List κ) :
    hasDescendant cmp node path = true ↔ ∃ q, q ≠ path ∧ path <+: q ∧ (get cmp node q).isSome := by
  induction path generalizing node with
  | nil =>
    have hif : hasDescendant cmp node [] = true ↔ (node.getD empty).children ≠ .nil := by
      cases node with
      | none => simp [hasDescendant, descend, empty]
      | some t => cases hc : t.children <;> simp [hasDescendant, descend, hc, Avl.isNil]
    rw [hif, children_ne_nil hw]
    constructor
    · rintro ⟨k, q, hq⟩
      exact ⟨k :: q, by simp, List.nil_prefix, hq⟩
    · rintro ⟨q, hne, -, hq⟩
      cases q with
      | nil => exact absurd rfl hne
      | cons k q => exact ⟨k, q, hq⟩
  | cons k path ih =>
    have hdown : hasDescendant cmp node (k :: path) =
        hasDescendant cmp ((node.getD empty).children.get cmp k) path := by
      cases node with
      | none => cases path <;> simp [hasDescendant, descend, empty, Avl.get]
      | some t => simp [hasDescendant, descend]
    rw [hdown, ih (hw.child k)]
    simp only [getD_children]
    constructor
    · rintro ⟨q, hne, hp, hq⟩
      exact ⟨k :: q, by simpa using hne, by simpa using hp, hq⟩
    · rintro ⟨q, hne, hp, hq⟩
      cases q with
      | nil => simp at hp
      | cons k' q =>
        obtain ⟨rfl, hp'⟩ := List.cons_prefix_cons.1 hp
        exact ⟨q, by simpa using hne, hp', hq⟩

end Lawful

end Trie

end PolicyEngine.Lib
