import Mathlib
import PolicyEngine.Lib.Compact

/-!
# Maps with text keys

A map has no order of its own. Its entries are listed in increasing key order, and that
list determines it.
-/

open Std

namespace PolicyEngine.Lib

abbrev StringMap (V : Type) := Finmap fun _ : List UInt8 => V

/-- Byte-wise lexicographic order. -/
def TextLE (a b : List UInt8) : Prop := (compare a b).isLE = true

instance : DecidableRel TextLE := fun _ _ => inferInstanceAs (Decidable (_ = true))
instance : IsTrans (List UInt8) TextLE := ⟨fun _ _ _ hab hbc => TransCmp.isLE_trans hab hbc⟩

theorem textLE_swap (a b : List UInt8) : TextLE b a ↔ (compare a b).isGE = true := by
  have h : compare b a = (compare a b).swap := OrientedCmp.eq_swap
  rw [TextLE, h, Ordering.isLE_swap]

instance : Std.Antisymm TextLE := ⟨fun a b hab hba => by
  rw [textLE_swap] at hba
  cases h : compare a b with
  | eq => exact LawfulEqCmp.eq_of_compare h
  | lt => simp [h] at hba
  | gt => simp [TextLE, h] at hab⟩

instance : Std.Total TextLE := ⟨fun a b => by
  rw [textLE_swap a b, TextLE]
  cases compare a b <;> simp⟩

namespace StringMap

variable {V : Type}

def sortedKeys (m : StringMap V) : List (List UInt8) := m.keys.sort TextLE

/-- The entries in key order. -/
def sortedEntries (m : StringMap V) : List (List UInt8 × V) :=
  (sortedKeys m).filterMap fun key => (m.lookup key).map (key, ·)

/-- How many entries a map has. -/
def size (m : StringMap V) : Nat := m.keys.card

theorem mem_sortedEntries {m : StringMap V} {key : List UInt8} {value : V} :
    (key, value) ∈ sortedEntries m ↔ m.lookup key = some value := by
  simp only [sortedEntries, sortedKeys, List.mem_filterMap, Finset.mem_sort, Finmap.mem_keys, Option.map_eq_some_iff,
    Prod.mk.injEq]
  constructor
  · rintro ⟨key', -, value', hlookup, rfl, rfl⟩
    exact hlookup
  · intro h
    exact ⟨key, Finmap.mem_of_lookup_eq_some h, value, h, rfl, rfl⟩

theorem sortedEntries_injective : Function.Injective fun m : StringMap V => sortedEntries m := by
  intro m n (h : sortedEntries m = sortedEntries n)
  refine Finmap.ext_lookup fun key => Option.ext fun value => ?_
  rw [← mem_sortedEntries, h, mem_sortedEntries]

theorem map_fst_sortedEntries (m : StringMap V) : (sortedEntries m).map Prod.fst = sortedKeys m := by
  rw [sortedEntries, List.map_filterMap]
  calc (sortedKeys m).filterMap (fun key => ((m.lookup key).map (key, ·)).map Prod.fst)
      = (sortedKeys m).filterMap some := List.filterMap_congr fun key hkey => by
        have hmem : key ∈ m := Finmap.mem_keys.1 ((Finset.mem_sort TextLE).1 hkey)
        obtain ⟨value, hvalue⟩ := Finmap.mem_iff.1 hmem
        simp [hvalue]
    _ = sortedKeys m := List.filterMap_some

theorem length_sortedEntries (m : StringMap V) : (sortedEntries m).length = size m := by
  rw [← List.length_map Prod.fst, map_fst_sortedEntries]
  exact Finset.length_sort TextLE

end StringMap

end PolicyEngine.Lib
