import PolicyEngine.Lib.AvlBalance
import PolicyEngine.Lib.AvlHeap
import PolicyEngine.Memory.Index

/-!
# Runs of the tuple index

Any sequence of `tupleSet` and `tupleDelete` from the empty tree leaves a balanced
search tree of exactly the entries the sequence leaves, and at the level of nodes in
memory every earlier root still stands for its own version. A bucket query visits the
entries of one resource and relation in subject order.
-/

open Std PolicyEngine.Lib

namespace PolicyEngine.Memory

inductive TupleOp
  | set (key : Tuple) (value : RelationshipTuple)
  | delete (key : Tuple)

namespace TupleOp

def apply (node : TupleNode) : TupleOp → TupleNode
  | set key value => tupleSet node key value
  | delete key => tupleDelete node key

/-- What an operation does to a finite map. -/
def onMap (map : Tuple → Option RelationshipTuple) : TupleOp → Tuple → Option RelationshipTuple
  | set key value => Function.update map key (some value)
  | delete key => Function.update map key none

/-- The operation on nodes in memory. -/
def onHeap (fuel : Nat) (m : Heap Tuple RelationshipTuple) (node : Option Nat) :
    TupleOp → Option (Option Nat × Heap Tuple RelationshipTuple)
  | set key value => Heap.set compareTuple fuel m node key value
  | delete key => Heap.delete compareTuple fuel m node key

end TupleOp

def tupleTree (ops : List TupleOp) : TupleNode := ops.foldl TupleOp.apply .nil

/-- The finite map given by a sequence of operations. -/
def tupleMap (ops : List TupleOp) : Tuple → Option RelationshipTuple := ops.foldl TupleOp.onMap fun _ => none

/-- The trees after each operation, newest first, down to the empty one. -/
def tupleVersions (ops : List TupleOp) : List TupleNode := (ops.inits.map tupleTree).reverse

/-- The same sequence on nodes in memory: the roots, newest first, and the memory at the end. -/
def tupleRoots (fuel : Nat) (ops : List TupleOp) : Option (List (Option Nat) × Heap Tuple RelationshipTuple) :=
  ops.foldlM (fun (roots, m) op => do
    let (root, m) ← op.onHeap fuel m (roots.headD none)
    some (root :: roots, m)) ([none], [])

/-! ## The tree -/

variable {t : TupleNode}

theorem TupleOp.ordered (h : t.Ordered compareTuple) (op : TupleOp) :
    (op.apply t).Ordered compareTuple := by
  cases op with
  | set key value => exact Avl.ordered_set h key value
  | delete key => exact Avl.ordered_delete h key

theorem TupleOp.balanced (h : t.Balanced) (op : TupleOp) : (op.apply t).Balanced := by
  cases op with
  | set key value => exact (Avl.balanced_set compareTuple h key value).1
  | delete key => exact (Avl.balanced_delete compareTuple h key).1

theorem TupleOp.get (h : t.Ordered compareTuple) (op : TupleOp) :
    Avl.get compareTuple (op.apply t) = op.onMap (Avl.get compareTuple t) := by
  funext k
  cases op with
  | set key value => simp [apply, onMap, tupleSet, Avl.get_set h, Function.update_apply]
  | delete key => simp [apply, onMap, tupleDelete, Avl.get_delete h, Function.update_apply]

theorem TupleOp.length_le (t : TupleNode) (op : TupleOp) : (op.apply t).toList.length ≤ t.toList.length + 1 := by
  cases op with
  | set key value => exact Heap.length_toList_set compareTuple t key value
  | delete key => exact (Heap.length_toList_delete compareTuple t key).trans (Nat.le_succ _)

/-- A balanced search tree of the entries of `map`. -/
structure IsTupleIndex (t : TupleNode) (map : Tuple → Option RelationshipTuple) : Prop where
  ordered : t.Ordered compareTuple
  balanced : t.Balanced
  get : Avl.get compareTuple t = map

variable {map : Tuple → Option RelationshipTuple}

theorem IsTupleIndex.apply (h : IsTupleIndex t map) (op : TupleOp) :
    IsTupleIndex (op.apply t) (op.onMap map) :=
  ⟨op.ordered h.ordered, op.balanced h.balanced, (op.get h.ordered).trans (by rw [h.get])⟩

theorem isTupleIndex_foldl (h : IsTupleIndex t map) (ops : List TupleOp) :
    IsTupleIndex (ops.foldl TupleOp.apply t) (ops.foldl TupleOp.onMap map) := by
  induction ops generalizing t map with
  | nil => exact h
  | cons op ops ih => exact ih (h.apply op)

theorem isTupleIndex_tupleTree (ops : List TupleOp) : IsTupleIndex (tupleTree ops) (tupleMap ops) :=
  isTupleIndex_foldl ⟨Avl.ordered_nil, Avl.balanced_nil, by funext k; rfl⟩ ops

theorem IsTupleIndex.mem_iff (h : IsTupleIndex t map) {key value} :
    (key, value) ∈ t.toList ↔ map key = some value := by
  rw [← h.get, Avl.get_eq_some h.ordered]

/-! ## The nodes -/

theorem TupleOp.onHeap_yields {fuel : Nat} {m : Heap Tuple RelationshipTuple} {p : Option Nat} (hp : m.Rep p t)
    (hf : t.toList.length ≤ fuel) (op : TupleOp) : m.Yields (op.onHeap fuel m p) (op.apply t) := by
  cases op with
  | set key value => exact Heap.set_yields compareTuple fuel hp hf key value
  | delete key => exact Heap.delete_yields compareTuple fuel hp hf key

theorem tupleTree_concat (ops : List TupleOp) (op : TupleOp) : tupleTree (ops ++ [op]) = op.apply (tupleTree ops) := by
  simp [tupleTree]

theorem tupleVersions_concat (ops : List TupleOp) (op : TupleOp) :
    tupleVersions (ops ++ [op]) = tupleTree (ops ++ [op]) :: tupleVersions ops := by
  simp [tupleVersions, List.inits_append]

theorem exists_tupleVersions (ops : List TupleOp) : ∃ older, tupleVersions ops = tupleTree ops :: older := by
  rcases List.eq_nil_or_concat ops with rfl | ⟨ops, op, rfl⟩
  · exact ⟨[], rfl⟩
  · exact ⟨_, by rw [List.concat_eq_append, tupleVersions_concat]⟩

theorem length_tupleTree (ops : List TupleOp) : (tupleTree ops).toList.length ≤ ops.length := by
  induction ops using List.reverseRecOn with
  | nil => simp [tupleTree]
  | append_singleton ops op ih =>
    rw [tupleTree_concat, List.length_append]
    exact (op.length_le _).trans (Nat.succ_le_succ ih)

/-- Every root stands for its version, in whatever memory came after it. -/
theorem tupleRoots_eq (fuel : Nat) (ops : List TupleOp) (hf : ops.length ≤ fuel) :
    ∃ roots m, tupleRoots fuel ops = some (roots, m) ∧ List.Forall₂ m.Rep roots (tupleVersions ops) := by
  induction ops using List.reverseRecOn with
  | nil => exact ⟨[none], [], rfl, .cons .nil .nil⟩
  | append_singleton ops op ih =>
    rw [List.length_append] at hf
    obtain ⟨roots, m, hroots, hrep⟩ := ih (Nat.le_of_succ_le hf)
    obtain ⟨older, holder⟩ := exists_tupleVersions ops
    rw [holder] at hrep
    obtain ⟨p, roots, hpm, holderRep, rfl⟩ := List.forall₂_cons_right_iff.1 hrep
    obtain ⟨q, m₁, hq, hm, hqm⟩ := op.onHeap_yields hpm ((length_tupleTree ops).trans (Nat.le_of_succ_le hf))
    refine ⟨q :: p :: roots, m₁, ?_, ?_⟩
    · unfold tupleRoots at hroots ⊢
      rw [List.foldlM_append, hroots]
      simp [hq]
    · rw [tupleVersions_concat, tupleTree_concat, holder]
      exact .cons hqm (hrep.imp fun _ _ h => h.mono hm)

/-! ## Buckets -/

/-- Tuples compared by their bucket alone. -/
def compareBucket (left right : Tuple) : Ordering :=
  (compareEntity left.resource right.resource).then (compare left.relation right.relation)

instance : TransCmp compareBucket :=
  inferInstanceAs (TransCmp (compareLex (compareOn Tuple.resource) (compareOn Tuple.relation)))

/-- Buckets lie one after the other in the order of tuples. -/
theorem compareTuple_eq (a b : Tuple) :
    compareTuple a b = (compareBucket a b).then (compareSubject a.subject b.subject) := by
  simp only [compareTuple, compareBucket, Ordering.then_assoc]

theorem compareTupleBucket_eq (t : Tuple) (resource : EntityRef) (relation : Bytes) (subject : SubjectRef) :
    compareTupleBucket t resource relation = compareBucket t ⟨resource, relation, subject⟩ := rfl

theorem compareTupleBucket_eq_eq {t resource relation} :
    compareTupleBucket t resource relation = .eq ↔ t.resource = resource ∧ t.relation = relation := by
  simp [compareTupleBucket, Ordering.then_eq_eq, LawfulEqCmp.compare_eq_iff_eq]

theorem isLE_compareBucket {a b : Tuple} (h : compareTuple a b = .lt) : (compareBucket a b).isLE := by
  rw [compareTuple_eq, Ordering.then_eq_lt] at h
  rcases h with h | ⟨h, -⟩ <;> simp [h]

/-- The entries of a bucket, in key order. -/
def bucketEntries (t : TupleNode) (resource : EntityRef) (relation : Bytes) : List (Tuple × RelationshipTuple) :=
  t.toList.filter fun p => compareTupleBucket p.1 resource relation == .eq

theorem queryTupleBucket_eq {σ : Type} (h : t.Ordered compareTuple) (resource : EntityRef) (relation : Bytes)
    (visit : σ → RelationshipTuple → σ × Bool) (s : σ) :
    queryTupleBucket t resource relation visit s =
      Avl.visitList visit ((bucketEntries t resource relation).map (·.2)) s := by
  refine Avl.walk_eq _ _ (fun a b hab hb => ?_) (fun a b hab ha => ?_) h s
  · rw [compareTupleBucket_eq _ _ _ b.subject] at hb ⊢
    exact TransCmp.lt_of_isLE_of_lt (isLE_compareBucket hab) hb
  · rw [compareTupleBucket_eq _ _ _ a.subject] at ha ⊢
    exact TransCmp.gt_of_isGE_of_gt (OrientedCmp.isGE_iff_isLE.2 (isLE_compareBucket hab)) ha

theorem mem_bucketEntries (h : IsTupleIndex t map) {resource relation key value} :
    (key, value) ∈ bucketEntries t resource relation ↔
      key.resource = resource ∧ key.relation = relation ∧ map key = some value := by
  rw [bucketEntries, List.mem_filter, h.mem_iff, beq_iff_eq, compareTupleBucket_eq_eq]
  tauto

/-- Within a bucket, key order is subject order. -/
theorem pairwise_bucketEntries (h : t.Ordered compareTuple) (resource : EntityRef) (relation : Bytes) :
    (bucketEntries t resource relation).Pairwise fun a b => compareSubject a.1.subject b.1.subject = .lt := by
  have hsorted : (bucketEntries t resource relation).Pairwise fun a b => compareTuple a.1 b.1 = .lt :=
    List.Pairwise.filter _ h
  refine hsorted.imp_of_mem fun {a b} ha hb hab => ?_
  obtain ⟨har, harel⟩ := compareTupleBucket_eq_eq.1 (beq_iff_eq.1 (List.mem_filter.1 ha).2)
  obtain ⟨hbr, hbrel⟩ := compareTupleBucket_eq_eq.1 (beq_iff_eq.1 (List.mem_filter.1 hb).2)
  have hbucket : compareBucket a.1 b.1 = .eq := by
    simp [compareBucket, har, hbr, harel, hbrel, ReflCmp.compare_self]
  rwa [compareTuple_eq, hbucket] at hab

end PolicyEngine.Memory
