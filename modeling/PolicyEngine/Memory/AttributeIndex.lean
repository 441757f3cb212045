import PolicyEngine.Lib.TrieBalance
import PolicyEngine.Memory.Index

/-!
# Runs of the attribute index

Any sequence of `attributeSet` and `attributeDelete` from the empty root leaves balanced
search trees all the way down, whose paths are prefix-free for every entity, and answers
reads as the map the sequence leaves. A refused insertion changes nothing.
-/

open Std PolicyEngine.Lib

namespace PolicyEngine.Memory

/-- `attributeSet` with both results of the source: the root, and whether the attribute was taken. -/
def attributeSetRoot (root : AttributeEntityNode) (value : Attribute) : AttributeEntityNode × Bool :=
  match trieSet (entityGet root value.entity) value.path value with
  | none => (root, false)
  | some updated => (entitySet root value.entity updated, true)

theorem attributeSetRoot_eq (root : AttributeEntityNode) (value : Attribute) :
    attributeSetRoot root value =
      match attributeSet root value with
      | none => (root, false)
      | some root' => (root', true) := by
  unfold attributeSetRoot attributeSet
  cases trieSet (entityGet root value.entity) value.path value <;> rfl

inductive AttributeOp
  | set (value : Attribute)
  | delete (key : AttributeKey)

namespace AttributeOp

def apply (root : AttributeEntityNode) : AttributeOp → AttributeEntityNode
  | set value => (attributeSetRoot root value).1
  | delete key => attributeDelete root key

open Classical in
/-- What an operation does to the attributes of a dataset. -/
noncomputable def onDataset (d : Spec.Dataset) : AttributeOp → Spec.Dataset
  | set value => if d.Conflicts value.key then d else d.putAttribute value
  | delete key => d.deleteAttribute key

end AttributeOp

def attributeTree (ops : List AttributeOp) : AttributeEntityNode := ops.foldl AttributeOp.apply .nil

/-- The finite map given by a sequence of operations. -/
noncomputable def attributeMap (ops : List AttributeOp) : AttributeKey → Option Attribute :=
  (ops.foldl AttributeOp.onDataset .empty).attributes

/-- The entity tree and the segment trees below it are balanced. -/
structure AttributesBalanced (root : AttributeEntityNode) : Prop where
  entities : root.Balanced
  tries : ∀ p ∈ root.toList, p.2.Balanced

variable {root : AttributeEntityNode}

theorem AttributesBalanced.set (h : AttributesBalanced root) (hw : AttributesWf root) (e : EntityRef) {t}
    (ht : t.Balanced) : AttributesBalanced (entitySet root e t) where
  entities := (Avl.balanced_set compareEntity h.entities e t).1
  tries p hp := by
    rcases (Avl.mem_toList_set hw.ordered).1 hp with rfl | ⟨hp, -⟩
    · exact ht
    · exact h.tries p hp

theorem AttributesBalanced.delete (h : AttributesBalanced root) (hw : AttributesWf root) (e : EntityRef) :
    AttributesBalanced (entityDelete root e) where
  entities := (Avl.balanced_delete compareEntity h.entities e).1
  tries p hp := h.tries p ((Avl.mem_toList_delete hw.ordered).1 hp).1

theorem AttributesBalanced.entity (h : AttributesBalanced root) (hw : AttributesWf root) (e : EntityRef) :
    ∀ t ∈ entityGet root e, t.Balanced :=
  fun t ht => h.tries (e, t) ((Avl.get_eq_some hw.ordered).1 ht)

theorem attributeSet_balanced {root' a} (h : AttributesBalanced root) (hw : AttributesWf root)
    (hs : attributeSet root a = some root') : AttributesBalanced root' := by
  unfold attributeSet at hs
  split at hs
  next => cases hs
  next t ht =>
    obtain rfl := Option.some.inj hs
    exact h.set hw _ (Trie.balanced_set (hw.entity _) (h.entity hw _) ht)

theorem attributeDelete_balanced (h : AttributesBalanced root) (hw : AttributesWf root) (k : AttributeKey) :
    AttributesBalanced (attributeDelete root k) := by
  unfold attributeDelete
  split
  next => exact h
  next t ht =>
    split
    next => exact h.delete hw _
    next u hu =>
      exact h.set hw _ (Trie.balanced_delete (hw.entity k.entity t ht) (h.entity hw k.entity t ht) hu)

/-- Balanced search trees with the attributes of a dataset. -/
structure IsAttributeIndex (root : AttributeEntityNode) (d : Spec.Dataset) : Prop where
  wf : AttributesWf root
  balanced : AttributesBalanced root
  get : attributeGet root = d.attributes

variable {d : Spec.Dataset}

theorem IsAttributeIndex.conflicts (h : IsAttributeIndex root d) (a : Attribute) :
    attributeSet root a = none ↔ d.Conflicts a.key := by
  rw [attributeSet_eq_none h.wf, h.get]
  rfl

theorem IsAttributeIndex.apply (h : IsAttributeIndex root d) (op : AttributeOp) :
    IsAttributeIndex (op.apply root) (op.onDataset d) := by
  cases op with
  | set a =>
    rw [AttributeOp.apply, attributeSetRoot_eq, AttributeOp.onDataset]
    cases hs : attributeSet root a with
    | none =>
      rw [if_pos ((h.conflicts a).1 hs)]
      exact h
    | some root' =>
      rw [if_neg fun hc => by simp [(h.conflicts a).2 hc] at hs]
      refine ⟨attributeSet_wf h.wf hs, attributeSet_balanced h.balanced h.wf hs, ?_⟩
      funext k
      rw [attributeGet_set h.wf hs, h.get]
      exact (Function.update_apply ..).symm
  | delete key =>
    refine ⟨attributeDelete_wf h.wf key, attributeDelete_balanced h.balanced h.wf key, ?_⟩
    funext k
    rw [AttributeOp.apply, attributeGet_delete h.wf, h.get]
    exact (Function.update_apply ..).symm

theorem isAttributeIndex_foldl (h : IsAttributeIndex root d) (ops : List AttributeOp) :
    IsAttributeIndex (ops.foldl AttributeOp.apply root) (ops.foldl AttributeOp.onDataset d) := by
  induction ops generalizing root d with
  | nil => exact h
  | cons op ops ih => exact ih (h.apply op)

theorem isAttributeIndex_attributeTree (ops : List AttributeOp) :
    IsAttributeIndex (attributeTree ops) (ops.foldl AttributeOp.onDataset .empty) :=
  isAttributeIndex_foldl ⟨attributesWf_nil, ⟨Avl.balanced_nil, by simp⟩, congrArg (·.attributes) rootsDataset_nil⟩ ops

/-- The attribute index after any operations: search trees with exact heights and balance, tries whose every node has
a value or children and not both, an insertion refused exactly on a conflict and then without effect, and reads as the
map the operations leave. -/
theorem attribute_index (ops : List AttributeOp) :
    (attributeTree ops).Ordered compareEntity ∧ (attributeTree ops).Balanced ∧
    (∀ p ∈ (attributeTree ops).toList, Trie.Wf compare p.2 ∧ p.2.Balanced) ∧
    (∀ entity p q, (attributeMap ops ⟨entity, p⟩).isSome → (attributeMap ops ⟨entity, q⟩).isSome → p <+: q → p = q) ∧
    (∀ a, ((attributeSetRoot (attributeTree ops) a).2 = false ↔
        ∃ path, path ≠ a.path ∧ (path <+: a.path ∨ a.path <+: path) ∧ (attributeMap ops ⟨a.entity, path⟩).isSome) ∧
      ((attributeSetRoot (attributeTree ops) a).2 = false →
        (attributeSetRoot (attributeTree ops) a).1 = attributeTree ops)) ∧
    (∀ key, attributeGet (attributeTree ops) key = attributeMap ops key) ∧
    (∀ key, attributeHasDescendant (attributeTree ops) key = true ↔
      ∃ path, path ≠ key.path ∧ key.path <+: path ∧ (attributeMap ops ⟨key.entity, path⟩).isSome) := by
  have h := isAttributeIndex_attributeTree ops
  refine ⟨h.wf.ordered, h.balanced.entities, fun p hp => ⟨h.wf.tries p hp, h.balanced.tries p hp⟩, ?_, fun a => ⟨?_, ?_⟩,
    fun key => congrFun h.get key, fun key => ?_⟩
  · intro entity p q hp hq hpq
    rw [attributeMap, ← h.get] at hp hq
    exact (h.wf.entity entity).prefixFree hp hq hpq
  · rw [attributeMap, ← h.get, ← attributeSet_eq_none h.wf, attributeSetRoot_eq]
    split <;> simp_all
  · rw [attributeSetRoot_eq]
    split <;> simp
  · rw [attributeMap, ← h.get]
    exact attributeHasDescendant_iff h.wf key

end PolicyEngine.Memory
