import Mathlib
import PolicyEngine.Core.Data

/-!
# What a namespace's data is

The meaning of authorization data, independent of any index: a finite map from
tuples to relationship facts and one from attribute keys to attributes. A write
deletes tuples, upserts tuples, deletes attributes and upserts attributes, in that
order. Both adapters refine this model.
-/

namespace PolicyEngine.Spec

/-- The facts of one generation. -/
@[ext] structure Dataset where
  tuples : Tuple → Option RelationshipTuple
  attributes : AttributeKey → Option Attribute

namespace Dataset

def empty : Dataset := ⟨fun _ => none, fun _ => none⟩

def deleteTuple (d : Dataset) (k : Tuple) : Dataset := { d with tuples := Function.update d.tuples k none }

def putTuple (d : Dataset) (t : RelationshipTuple) : Dataset :=
  { d with tuples := Function.update d.tuples t.tuple (some t) }

def deleteAttribute (d : Dataset) (k : AttributeKey) : Dataset :=
  { d with attributes := Function.update d.attributes k none }

def putAttribute (d : Dataset) (a : Attribute) : Dataset :=
  { d with attributes := Function.update d.attributes a.key (some a) }

/-- The deletions of a request and its tuple upserts: what precedes the attribute upserts. -/
def prepare (d : Dataset) (r : WriteDataRequest) : Dataset :=
  let d := r.tupleDeletes.foldl (fun d k => d.deleteTuple k.tuple) d
  let d := r.tupleWrites.foldl putTuple d
  r.attributeDeletes.foldl deleteAttribute d

/-- One committed request. -/
def apply (d : Dataset) (r : WriteDataRequest) : Dataset := r.attributeWrites.foldl putAttribute (d.prepare r)

/-- The dataset after a sequence of committed requests. -/
def replay (requests : List WriteDataRequest) : Dataset := requests.foldl apply empty

@[simp] theorem replay_nil : replay [] = empty := rfl

@[simp] theorem replay_append (rs : List WriteDataRequest) (r : WriteDataRequest) :
    replay (rs ++ [r]) = (replay rs).apply r := by
  simp [replay]

/-- Some stored path of the same entity strictly extends the key's, or is strictly extended by it. -/
def Conflicts (d : Dataset) (k : AttributeKey) : Prop :=
  ∃ path, path ≠ k.path ∧ (path <+: k.path ∨ k.path <+: path) ∧ (d.attributes ⟨k.entity, path⟩).isSome

open Classical in
/-- The attribute upserts, each refused when it conflicts with what is stored by then. -/
noncomputable def putAttributes (d : Dataset) : List Attribute → Option Dataset
  | [] => some d
  | a :: rest => if d.Conflicts a.key then none else putAttributes (d.putAttribute a) rest

/-- A request, refused when one of its attribute upserts conflicts. -/
noncomputable def write (d : Dataset) (r : WriteDataRequest) : Option Dataset :=
  (d.prepare r).putAttributes r.attributeWrites

theorem putAttributes_eq_some {d d' : Dataset} {as : List Attribute} (h : d.putAttributes as = some d') :
    d' = as.foldl putAttribute d := by
  induction as generalizing d with
  | nil => exact (Option.some.inj h).symm
  | cons a as ih =>
    rw [putAttributes] at h
    split at h
    · cases h
    · exact ih h

/-- A write that is not refused is the plain application of its mutations. -/
theorem write_eq_some {d d' : Dataset} {r : WriteDataRequest} (h : d.write r = some d') : d' = d.apply r :=
  putAttributes_eq_some h

/-- Some attribute of the same entity strictly below the key. -/
def HasDescendant (d : Dataset) (k : AttributeKey) : Prop :=
  ∃ path, path ≠ k.path ∧ k.path <+: path ∧ (d.attributes ⟨k.entity, path⟩).isSome

end Dataset

end PolicyEngine.Spec
