import PolicyEngine.Lib.AvlBalance
import PolicyEngine.Lib.Trie

/-!
# Balance of tries

The children of every node of a trie form a balanced tree, and insertion and deletion
keep it so.
-/

open Std

namespace PolicyEngine.Lib

namespace Trie

variable {κ ν : Type}

/-- The children of every node are a balanced tree. -/
inductive Balanced : Trie κ ν → Prop
  | mk {v : Option ν} {c : Avl κ (Trie κ ν)} (children : c.Balanced) (below : ∀ p ∈ c.toList, Balanced p.2) :
    Balanced (mk v c)

variable {t : Trie κ ν}

theorem Balanced.children_balanced (h : Balanced t) : t.children.Balanced := by
  cases h with | mk hc _ => exact hc

theorem Balanced.child (h : Balanced t) {p} (hp : p ∈ t.children.toList) :
    Balanced p.2 := by
  cases h with | mk _ hb => exact hb p hp

/-- The node an operation starts from, the empty one where there is none. -/
theorem balanced_getD {node : Option (Trie κ ν)} (h : ∀ t ∈ node, Balanced t) : Balanced (node.getD empty) := by
  cases node with
  | none => exact .mk Avl.balanced_nil (by simp)
  | some t => exact h t rfl

variable {cmp : κ → κ → Ordering} [TransCmp cmp] [LawfulEqCmp cmp]

/-- A child put in place of another keeps the node balanced. -/
theorem Balanced.setChild (h : Balanced t) (ho : t.children.Ordered cmp) (v : Option ν) (k : κ) {u : Trie κ ν}
    (hu : Balanced u) : Balanced (Trie.mk v (t.children.set cmp k u)) := by
  refine .mk (Avl.balanced_set cmp h.children_balanced k u).1 fun p hp => ?_
  rcases (Avl.mem_toList_set ho).1 hp with rfl | ⟨hp, -⟩
  · exact hu
  · exact h.child hp

theorem Balanced.deleteChild (h : Balanced t) (ho : t.children.Ordered cmp) (v : Option ν) (k : κ) :
    Balanced (Trie.mk v (t.children.delete cmp k)) :=
  .mk (Avl.balanced_delete cmp h.children_balanced k).1 fun _ hp => h.child ((Avl.mem_toList_delete ho).1 hp).1

theorem balanced_set {node : Option (Trie κ ν)} (hw : WfMap cmp node) (hb : ∀ t ∈ node, Balanced t) {path : List κ}
    {v : ν} (h : set cmp node path v = some t) : Balanced t := by
  induction path generalizing node t with
  | nil =>
    obtain ⟨-, rfl⟩ := set_nil_eq_some h
    exact .mk Avl.balanced_nil (by simp)
  | cons k path ih =>
    obtain ⟨-, u, hu, rfl⟩ := set_cons_eq_some h
    have hnode := balanced_getD hb
    exact hnode.setChild hw.ordered none k
      (ih (hw.child k) (fun c hc => hnode.child ((Avl.get_eq_some hw.ordered).1 hc)) hu)

theorem balanced_delete {u : Trie κ ν} (hw : Wf cmp t) (hb : Balanced t) {path : List κ}
    (h : delete cmp (some t) path = some u) : Balanced u := by
  induction path generalizing t u with
  | nil =>
    rw [delete] at h
    split at h
    · cases h
    · cases h
      exact .mk hb.children_balanced fun _ hp => hb.child hp
  | cons k path ih =>
    rw [delete] at h
    split at h
    next => exact Option.some.inj h ▸ hb
    next child hchild =>
      have hmem := (Avl.get_eq_some hw.ordered).1 hchild
      dsimp only at h
      split at h
      next =>
        obtain ⟨-, h⟩ := Option.ite_none_left_eq_some.1 h
        exact Option.some.inj h ▸ hb.deleteChild hw.ordered _ k
      next updated hupdated =>
        obtain ⟨-, h⟩ := Option.ite_none_left_eq_some.1 h
        have hchildWf : Wf cmp child := wfMap_some.1 (hchild ▸ (wfMap_some.2 hw).child k)
        exact Option.some.inj h ▸ hb.setChild hw.ordered _ k (ih hchildWf (hb.child hmem) hupdated)

end Trie

end PolicyEngine.Lib
