import PolicyEngine.Lib.Runs
import PolicyEngine.Lib.Trie
import PolicyEngine.Spec.Dataset

/-!
# The memory adapter's indexes

`indexed.go`: immutable AVL trees of relationship tuples, and a tree of entities
whose values are segment tries. The source writes each tree's operations out per
node type; here they are one library at the node's key type. A namespace view
(`dataVersion`) refines `Spec.Dataset`.
-/

open Std PolicyEngine.Lib Function

namespace PolicyEngine.Memory

/-! ## Tuples -/

abbrev TupleNode := Avl Tuple RelationshipTuple

def tupleSet (node : TupleNode) (key : Tuple) (value : RelationshipTuple) : TupleNode :=
  Avl.set compareTuple node key value

def tupleDelete (node : TupleNode) (key : Tuple) : TupleNode := Avl.delete compareTuple node key

def compareTupleBucket (tuple : Tuple) (resource : EntityRef) (relation : Bytes) : Ordering :=
  (compareEntity tuple.resource resource).then (compare tuple.relation relation)

def queryTupleBucket {σ : Type} (node : TupleNode) (resource : EntityRef) (relation : Bytes)
    (visit : σ → RelationshipTuple → σ × Bool) (state : σ) : σ × Bool :=
  Avl.walk (fun key => compareTupleBucket key resource relation) visit node state

/-! ## Attributes -/

abbrev AttributeTrie := Trie Bytes Attribute

abbrev AttributeEntityNode := Avl EntityRef AttributeTrie

def entityGet (node : AttributeEntityNode) (entity : EntityRef) : Option AttributeTrie :=
  Avl.get compareEntity node entity

def entitySet (node : AttributeEntityNode) (entity : EntityRef) (trie : AttributeTrie) : AttributeEntityNode :=
  Avl.set compareEntity node entity trie

def entityDelete (node : AttributeEntityNode) (entity : EntityRef) : AttributeEntityNode :=
  Avl.delete compareEntity node entity

/-- `none` is a path conflict. -/
def trieSet (node : Option AttributeTrie) (path : Path) (value : Attribute) : Option AttributeTrie :=
  Trie.set compare node path value

def trieGet (node : Option AttributeTrie) (path : Path) : Option Attribute := Trie.get compare node path

def trieDelete (node : Option AttributeTrie) (path : Path) : Option AttributeTrie := Trie.delete compare node path

/-- `none` is a path conflict; the source then returns the root unchanged. -/
def attributeSet (root : AttributeEntityNode) (value : Attribute) : Option AttributeEntityNode :=
  match trieSet (entityGet root value.entity) value.path value with
  | none => none
  | some updated => some (entitySet root value.entity updated)

def attributeDelete (root : AttributeEntityNode) (key : AttributeKey) : AttributeEntityNode :=
  match entityGet root key.entity with
  | none => root
  | some trie =>
    match trieDelete (some trie) key.path with
    | none => entityDelete root key.entity
    | some updated => entitySet root key.entity updated

def attributeGet (root : AttributeEntityNode) (key : AttributeKey) : Option Attribute :=
  trieGet (entityGet root key.entity) key.path

def attributeHasDescendant (root : AttributeEntityNode) (key : AttributeKey) : Bool :=
  Trie.hasDescendant compare (entityGet root key.entity) key.path

/-! ## Well-formed attribute trees -/

/-- Entities in order, each with a well-formed trie. -/
structure AttributesWf (root : AttributeEntityNode) : Prop where
  ordered : root.Ordered compareEntity
  tries : ∀ p ∈ root.toList, Trie.Wf compare p.2

theorem attributesWf_nil : AttributesWf .nil := ⟨Avl.ordered_nil, by simp⟩

variable {root : AttributeEntityNode}

theorem AttributesWf.entity (h : AttributesWf root) (e : EntityRef) :
    Trie.WfMap compare (entityGet root e) :=
  fun t ht => h.tries (e, t) ((Avl.get_eq_some h.ordered).1 ht)

theorem AttributesWf.set (h : AttributesWf root) (e : EntityRef) {t} (ht : Trie.Wf compare t) :
    AttributesWf (entitySet root e t) where
  ordered := Avl.ordered_set h.ordered e t
  tries p hp := by
    rcases (Avl.mem_toList_set h.ordered).1 hp with rfl | ⟨hp, -⟩
    · exact ht
    · exact h.tries p hp

theorem AttributesWf.delete (h : AttributesWf root) (e : EntityRef) :
    AttributesWf (entityDelete root e) where
  ordered := Avl.ordered_delete h.ordered e
  tries p hp := h.tries p ((Avl.mem_toList_delete h.ordered).1 hp).1

theorem attributeSet_wf {root' a} (h : AttributesWf root) (hs : attributeSet root a = some root') :
    AttributesWf root' := by
  unfold attributeSet at hs
  split at hs
  next => cases hs
  next t ht =>
    obtain rfl := Option.some.inj hs
    exact h.set _ (Trie.wf_set (h.entity _) ht)

theorem attributeGet_set {root' a} (h : AttributesWf root) (hs : attributeSet root a = some root') (k : AttributeKey) :
    attributeGet root' k = if k = a.key then some a else attributeGet root k := by
  unfold attributeSet at hs
  split at hs
  next => cases hs
  next t ht =>
    obtain rfl := Option.some.inj hs
    simp only [attributeGet, entityGet, entitySet, Avl.get_set h.ordered]
    by_cases he : k.entity = a.entity
    · rw [if_pos he, trieGet, Trie.get_set (h.entity _) ht, he]
      have hk : k = a.key ↔ k.path = a.path := by
        cases k
        simp_all [Attribute.key]
      simp only [hk]
      rfl
    · have hk : k ≠ a.key := fun hk => he (hk ▸ rfl)
      rw [if_neg he, if_neg hk]

theorem attributeSet_eq_none (h : AttributesWf root) (a : Attribute) :
    attributeSet root a = none ↔
      ∃ path, path ≠ a.path ∧ (path <+: a.path ∨ a.path <+: path) ∧ (attributeGet root ⟨a.entity, path⟩).isSome := by
  have hset : attributeSet root a = none ↔ trieSet (entityGet root a.entity) a.path a = none := by
    unfold attributeSet
    split <;> simp_all
  rw [hset, trieSet, Trie.set_eq_none (h.entity _)]
  rfl

theorem attributeDelete_wf (h : AttributesWf root) (k : AttributeKey) :
    AttributesWf (attributeDelete root k) := by
  unfold attributeDelete
  split
  next => exact h
  next t ht =>
    have hw := Trie.wf_delete (ht ▸ h.entity k.entity) k.path
    split
    next => exact h.delete _
    next u hu => exact h.set _ (hw u hu)

theorem attributeGet_delete (h : AttributesWf root) (k q : AttributeKey) :
    attributeGet (attributeDelete root k) q = if q = k then none else attributeGet root q := by
  -- whatever the branch, the entity's trie answers as the deleted one
  have hentity : entityGet (attributeDelete root k) q.entity =
      if q.entity = k.entity then trieDelete (entityGet root k.entity) k.path else entityGet root q.entity := by
    unfold attributeDelete
    split
    next hn =>
      split
      next he => rw [he, hn, trieDelete, Trie.delete_none]
      next => rfl
    next t ht =>
      rw [ht]
      split
      next hd => rw [hd]; exact Avl.get_delete h.ordered _ _
      next u hu => rw [hu]; exact Avl.get_set h.ordered _ _ _
  rw [attributeGet, hentity]
  by_cases he : q.entity = k.entity
  · rw [if_pos he, trieGet, trieDelete, Trie.get_delete (h.entity _)]
    have hq : q = k ↔ q.path = k.path := by
      cases q; cases k
      simp_all
    simp only [hq, attributeGet, he]
    rfl
  · have hq : q ≠ k := fun hq => he (hq ▸ rfl)
    rw [if_neg he, if_neg hq, attributeGet]

theorem attributeHasDescendant_iff (h : AttributesWf root) (k : AttributeKey) :
    attributeHasDescendant root k = true ↔
      ∃ path, path ≠ k.path ∧ k.path <+: path ∧ (attributeGet root ⟨k.entity, path⟩).isSome :=
  Trie.hasDescendant_iff (h.entity _) _

/-! ## Namespace views -/

/-- An immutable namespace view. `ptr` is the identity of the Go pointer, which
commits compare; the zero view of a namespace without data has empty roots. -/
structure DataVersion where
  ptr : Nat
  generation : Nat
  tuples : TupleNode
  attributes : AttributeEntityNode

/-- The new roots of a write over a view, or `none` when an attribute conflicts. -/
def applyMutations (base : DataVersion) (r : WriteDataRequest) : Option (TupleNode × AttributeEntityNode) :=
  let tuples := r.tupleDeletes.foldl (fun root k => tupleDelete root k.tuple) base.tuples
  let tuples := r.tupleWrites.foldl (fun root t => tupleSet root t.tuple t) tuples
  let attributes := r.attributeDeletes.foldl attributeDelete base.attributes
  match r.attributeWrites.foldlM attributeSet attributes with
  | none => none
  | some attributes => some (tuples, attributes)

/-- The facts two roots hold. -/
def rootsDataset (tuples : TupleNode) (attributes : AttributeEntityNode) : Spec.Dataset :=
  ⟨Avl.get compareTuple tuples, attributeGet attributes⟩

def DataVersion.dataset (v : DataVersion) : Spec.Dataset := rootsDataset v.tuples v.attributes

/-- Both roots are search trees. -/
structure RootsWf (tuples : TupleNode) (attributes : AttributeEntityNode) : Prop where
  tuples_ordered : tuples.Ordered compareTuple
  attributes_wf : AttributesWf attributes

theorem rootsWf_nil : RootsWf .nil .nil := ⟨Avl.ordered_nil, attributesWf_nil⟩

theorem rootsDataset_nil : rootsDataset .nil .nil = Spec.Dataset.empty := by
  ext1
  · rfl
  · funext k
    simp [rootsDataset, Spec.Dataset.empty, attributeGet, entityGet, trieGet, Avl.get]

/-! Each index operation is the dataset operation of its name. -/

variable {t : TupleNode} {a : AttributeEntityNode}

theorem deleteTuple_refines (h : RootsWf t a) (k : Tuple) :
    RootsWf (tupleDelete t k) a ∧ rootsDataset (tupleDelete t k) a = (rootsDataset t a).deleteTuple k := by
  refine ⟨⟨Avl.ordered_delete h.tuples_ordered k, h.attributes_wf⟩, ?_⟩
  ext1
  · funext q
    simp only [rootsDataset, Spec.Dataset.deleteTuple, tupleDelete, Avl.get_delete h.tuples_ordered,
      update_apply]
  · rfl

theorem putTuple_refines (h : RootsWf t a) (v : RelationshipTuple) :
    RootsWf (tupleSet t v.tuple v) a ∧ rootsDataset (tupleSet t v.tuple v) a = (rootsDataset t a).putTuple v := by
  refine ⟨⟨Avl.ordered_set h.tuples_ordered _ v, h.attributes_wf⟩, ?_⟩
  ext1
  · funext q
    simp only [rootsDataset, Spec.Dataset.putTuple, tupleSet, Avl.get_set h.tuples_ordered, update_apply]
  · rfl

theorem deleteAttribute_refines (h : RootsWf t a) (k : AttributeKey) :
    RootsWf t (attributeDelete a k) ∧ rootsDataset t (attributeDelete a k) = (rootsDataset t a).deleteAttribute k := by
  refine ⟨⟨h.tuples_ordered, attributeDelete_wf h.attributes_wf k⟩, ?_⟩
  ext1
  · rfl
  · funext q
    simp only [rootsDataset, Spec.Dataset.deleteAttribute, attributeGet_delete h.attributes_wf, update_apply]

theorem putAttribute_refines {a' v} (h : RootsWf t a) (hs : attributeSet a v = some a') :
    RootsWf t a' ∧ rootsDataset t a' = (rootsDataset t a).putAttribute v := by
  refine ⟨⟨h.tuples_ordered, attributeSet_wf h.attributes_wf hs⟩, ?_⟩
  ext1
  · rfl
  · funext q
    simp only [rootsDataset, Spec.Dataset.putAttribute, attributeGet_set h.attributes_wf hs, update_apply]

theorem putAttributes_refines (h : RootsWf t a) (vs : List Attribute) :
    match vs.foldlM attributeSet a with
    | none => (rootsDataset t a).putAttributes vs = none
    | some a' => RootsWf t a' ∧ (rootsDataset t a).putAttributes vs = some (rootsDataset t a') := by
  induction vs generalizing a with
  | nil => exact ⟨h, rfl⟩
  | cons v vs ih =>
    have hconf : attributeSet a v = none ↔ (rootsDataset t a).Conflicts v.key := attributeSet_eq_none h.attributes_wf v
    rw [List.foldlM_cons, Spec.Dataset.putAttributes]
    cases hs : attributeSet a v with
    | none =>
      rw [if_pos (hconf.1 hs)]
      rfl
    | some a' =>
      obtain ⟨h', hd⟩ := putAttribute_refines h hs
      have hno : ¬ (rootsDataset t a).Conflicts v.key := fun hc => by simp [hconf.2 hc] at hs
      rw [if_neg hno, ← hd]
      exact ih h'

/-- The candidate of a write refines the write of the dataset, refusals included. -/
theorem applyMutations_refines {base} (h : RootsWf base.tuples base.attributes) (r : WriteDataRequest) :
    match applyMutations base r with
    | none => base.dataset.write r = none
    | some (t, a) => RootsWf t a ∧ base.dataset.write r = some (rootsDataset t a) := by
  obtain ⟨h₁, e₁⟩ := foldl_simulates (I := (RootsWf · base.attributes)) (f := (rootsDataset · base.attributes))
    (o := fun root (k : TupleKey) => tupleDelete root k.tuple) (p := fun d k => d.deleteTuple k.tuple)
    (fun _ k ht => deleteTuple_refines ht k.tuple) r.tupleDeletes h
  obtain ⟨h₂, e₂⟩ := foldl_simulates (I := (RootsWf · base.attributes)) (f := (rootsDataset · base.attributes))
    (fun _ v ht => putTuple_refines ht v) r.tupleWrites h₁
  obtain ⟨h₃, e₃⟩ := foldl_simulates (I := RootsWf _) (f := rootsDataset _)
    (fun _ k ha => deleteAttribute_refines ha k) r.attributeDeletes h₂
  have hprep := e₃
  rw [e₂, e₁] at hprep
  have hfinal := putAttributes_refines h₃ r.attributeWrites
  rw [hprep] at hfinal
  simp only [applyMutations]
  split at hfinal
  next => exact hfinal
  next => exact hfinal

end PolicyEngine.Memory
