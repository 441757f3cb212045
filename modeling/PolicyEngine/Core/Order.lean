import PolicyEngine.Core.Values
import PolicyEngine.Lib.Compact

/-!
# Orders and canonical forms

The comparisons of `data.go`. Strings compare bytewise, as `cmp.Compare` does, so
every order below is total and lawful, and a sorted list without duplicates is the
only one with its elements. The `canonical…` functions sort and compact.
-/

open Std PolicyEngine.Lib

namespace PolicyEngine

/-! ## Comparisons -/

def compareEntity (left right : EntityRef) : Ordering :=
  (compare left.type right.type).then (compare left.id right.id)

def compareSubject (left right : SubjectRef) : Ordering :=
  (compare left.type right.type).then ((compare left.id right.id).then (compare left.relation right.relation))

def compareTuple (left right : Tuple) : Ordering :=
  (compareEntity left.resource right.resource).then
    ((compare left.relation right.relation).then (compareSubject left.subject right.subject))

def compareRelationshipTuple (left right : RelationshipTuple) : Ordering :=
  (compareTuple left.tuple right.tuple).then
    ((compare left.hasExpiry right.hasExpiry).then (compare left.expiresAt right.expiresAt))

/-- Segment by segment, then by length. -/
def compareAttributePath : Path → Path → Ordering
  | l :: left, r :: right => (compare l r).then (compareAttributePath left right)
  | left, right => compare left.length right.length

def compareAttributeDeleteKey (left right : AttributeKey) : Ordering :=
  (compareEntity left.entity right.entity).then (compareAttributePath left.path right.path)

def compareAttributeKey (left right : Attribute) : Ordering := compareAttributeDeleteKey left.key right.key

def compareValue (left right : Value) : Ordering :=
  (compare left.kind.code right.kind.code).then
    ((compare left.text right.text).then
      ((compare left.integer right.integer).then (compare left.boolean right.boolean)))

def compareAttribute (left right : Attribute) : Ordering :=
  (compareAttributeKey left right).then (compareValue left.value right.value)

/-! Each comparison is a lexicographic product of lawful ones. -/

instance : Ord EntityRef := ⟨compareEntity⟩
instance : Ord SubjectRef := ⟨compareSubject⟩
instance : Ord Tuple := ⟨compareTuple⟩
instance : Ord AttributeKey := ⟨compareAttributeDeleteKey⟩

instance : TransCmp compareEntity :=
  inferInstanceAs (TransCmp (compareLex (compareOn EntityRef.type) (compareOn EntityRef.id)))

instance : LawfulEqCmp compareEntity where
  eq_of_compare {a b} h := by
    cases a; cases b
    simpa [compareEntity, Ordering.then_eq_eq] using h

instance : TransOrd EntityRef := inferInstanceAs (TransCmp compareEntity)
instance : TransCmp compareSubject :=
  inferInstanceAs (TransCmp (compareLex (compareOn SubjectRef.type)
    (compareLex (compareOn SubjectRef.id) (compareOn SubjectRef.relation))))

instance : LawfulEqCmp compareSubject where
  eq_of_compare {a b} h := by
    cases a; cases b
    simpa [compareSubject, Ordering.then_eq_eq] using h

instance : TransOrd SubjectRef := inferInstanceAs (TransCmp compareSubject)
instance : TransCmp compareTuple :=
  inferInstanceAs (TransCmp (compareLex (compareOn Tuple.resource)
    (compareLex (compareOn Tuple.relation) (compareOn Tuple.subject))))

instance : LawfulEqCmp compareTuple where
  eq_of_compare {a b} h := by
    cases a; cases b
    simpa [compareTuple, Ordering.then_eq_eq, LawfulEqCmp.compare_eq_iff_eq] using h

instance : TransOrd Tuple := inferInstanceAs (TransCmp compareTuple)

instance : TransCmp compareRelationshipTuple :=
  inferInstanceAs (TransCmp (compareLex (compareOn RelationshipTuple.tuple)
    (compareLex (compareOn RelationshipTuple.hasExpiry) (compareOn RelationshipTuple.expiresAt))))

instance : LawfulEqCmp compareRelationshipTuple where
  eq_of_compare {a b} h := by
    cases a; cases b
    simpa [compareRelationshipTuple, Ordering.then_eq_eq, LawfulEqCmp.compare_eq_iff_eq, and_comm] using h

theorem compareAttributePath_eq (left right : Path) : compareAttributePath left right = compare left right := by
  induction left generalizing right with
  | nil => cases right <;> simp [compareAttributePath, Nat.compare_eq_lt]
  | cons l left ih =>
    cases right with
    | nil => simp [compareAttributePath, Nat.compare_eq_gt]
    | cons r right => rw [compareAttributePath, ih, List.compare_cons_cons]

instance : LawfulEqCmp compareAttributePath := by
  have : compareAttributePath = compare := funext₂ compareAttributePath_eq
  rw [this]
  infer_instance

theorem compareAttributeDeleteKey_eq :
    compareAttributeDeleteKey = compareLex (compareOn AttributeKey.entity) (compareOn AttributeKey.path) := by
  funext left right
  rw [compareAttributeDeleteKey, compareAttributePath_eq]
  rfl

instance : TransCmp compareAttributeDeleteKey := by
  rw [compareAttributeDeleteKey_eq]
  infer_instance

instance : LawfulEqCmp compareAttributeDeleteKey where
  eq_of_compare {a b} h := by
    cases a; cases b
    simpa [compareAttributeDeleteKey, Ordering.then_eq_eq, LawfulEqCmp.compare_eq_iff_eq] using h

instance : TransOrd AttributeKey := inferInstanceAs (TransCmp compareAttributeDeleteKey)
theorem ValueKind.code_inj {a b : ValueKind} (h : a.code = b.code) : a = b := by
  cases a <;> cases b <;> first | rfl | exact absurd h (by decide)

instance : Ord Value := ⟨compareValue⟩

instance : TransCmp compareValue :=
  inferInstanceAs (TransCmp (compareLex (compareOn fun v : Value => v.kind.code)
    (compareLex (compareOn Value.text) (compareLex (compareOn Value.integer) (compareOn Value.boolean)))))

instance : LawfulEqCmp compareValue where
  eq_of_compare {a b} h := by
    cases a; cases b
    simp only [compareValue, Ordering.then_eq_eq, LawfulEqCmp.compare_eq_iff_eq] at h
    simp [ValueKind.code_inj h.1, h.2]

instance : TransOrd Value := inferInstanceAs (TransCmp compareValue)
instance : TransCmp compareAttribute :=
  inferInstanceAs (TransCmp (compareLex (compareOn Attribute.key) (compareOn Attribute.value)))

/-! ## Canonical lists

Each `canonical…` function sorts and then compares every value with the last one it
kept; these are the comparisons. -/

def keepRelationshipTuple (last value : RelationshipTuple) : Result Bool :=
  if compareTuple last.tuple value.tuple = .eq then
    if compareRelationshipTuple last value ≠ .eq then .error .invalidArgument else .ok false
  else .ok true

def canonicalRelationshipTuples (values : List RelationshipTuple) : Result (List RelationshipTuple) :=
  compact keepRelationshipTuple (sortBy compareRelationshipTuple values)

def compareTupleKey (left right : TupleKey) : Ordering := compareTuple left.tuple right.tuple

instance : TransCmp compareTupleKey := inferInstanceAs (TransCmp (compareOn TupleKey.tuple))

def canonicalTupleKeys (values : List TupleKey) : List TupleKey := sortDedup compareTupleKey values

def keepAttribute (last value : Attribute) : Result Bool :=
  if compareAttributeKey last value = .eq then
    if compareValue last.value value.value ≠ .eq then .error .invalidArgument else .ok false
  else if attributePathPrefixConflict last.entity last.path value.entity value.path then .error .invalidArgument
  else .ok true

def canonicalAttributes (values : List Attribute) : Result (List Attribute) :=
  compact keepAttribute (sortBy compareAttribute values)

def keepAttributeKey (last value : AttributeKey) : Result Bool :=
  if compareAttributeDeleteKey last value = .eq then .ok false
  else if attributePathPrefixConflict last.entity last.path value.entity value.path then .error .invalidArgument
  else .ok true

def canonicalAttributeKeys (values : List AttributeKey) : Result (List AttributeKey) :=
  compact keepAttributeKey (sortBy compareAttributeDeleteKey values)

def tupleWriteDeleteConflict (writes : List RelationshipTuple) (deletes : List TupleKey) : Bool :=
  mergeHits (fun w d => compareTuple w.tuple d.tuple) (fun w d => compareTuple w.tuple d.tuple == .eq) writes deletes

def attributeWriteDeleteConflict (writes : List Attribute) (deletes : List AttributeKey) : Bool :=
  mergeHits (fun w d => compareAttributeDeleteKey w.key d)
    (fun w d => compareAttributeDeleteKey w.key d == .eq ||
      attributePathPrefixConflict w.entity w.path d.entity d.path) writes deletes

/-- What a list is to the `canonical` function that returned it: made of the
input's values, and its own canonical form. -/
structure Canonical {α : Type} (canonical : List α → Result (List α)) (values out : List α) : Prop where
  subperm : out.Subperm values
  ne_nil : values ≠ [] → out ≠ []
  fixed : canonical out = .ok out

variable {α : Type}

theorem canonical_of_compact {cmp} [TransCmp cmp] {keep} (hkeep : ∀ a b, keep a b = .ok true → cmp a b ≠ .eq)
    {values out : List α} (h : compact keep (sortBy cmp values) = .ok out) :
    Canonical (fun l => compact keep (sortBy cmp l)) values out where
  subperm := (compact_sublist h).subperm.trans (List.mergeSort_perm _ _).subperm
  ne_nil hne := by
    refine compact_ne_nil h fun hnil => hne (List.eq_nil_of_length_eq_zero ?_)
    rw [← (List.mergeSort_perm values _).length_eq, ← sortBy, hnil, List.length_nil]
  fixed := by
    refine compact_sortBy_idem (fun a b hk hle => ?_) h
    have hne := hkeep a b hk
    revert hle hne
    cases cmp a b <;> simp

theorem canonicalRelationshipTuples_ok {values out} (h : canonicalRelationshipTuples values = .ok out) :
    Canonical canonicalRelationshipTuples values out := by
  refine canonical_of_compact (fun a b hk heq => ?_) h
  obtain rfl := LawfulEqCmp.eq_of_compare heq
  simp [keepRelationshipTuple, ReflCmp.compare_self] at hk

theorem canonicalTupleKeys_ok (values : List TupleKey) :
    Canonical (fun l => .ok (canonicalTupleKeys l)) values (canonicalTupleKeys values) where
  subperm := sortDedup_subperm values
  ne_nil := sortDedup_ne_nil
  fixed := congrArg _ (sortDedup_of_strictSorted (strictSorted_sortDedup values))

variable {values out : List Attribute}

theorem canonicalAttributes_ok (h : canonicalAttributes values = .ok out) :
    Canonical canonicalAttributes values out := by
  refine canonical_of_compact (fun a b hk heq => ?_) h
  rw [compareAttribute, Ordering.then_eq_eq] at heq
  simp [keepAttribute, heq.1, heq.2] at hk

theorem canonicalAttributeKeys_ok {values out} (h : canonicalAttributeKeys values = .ok out) :
    Canonical canonicalAttributeKeys values out := by
  refine canonical_of_compact (fun a b hk heq => ?_) h
  simp [keepAttributeKey, heq] at hk

/-! A canonical list is its input's set in increasing order. -/

theorem sortedSet_canonicalRelationshipTuples {values out} (h : canonicalRelationshipTuples values = .ok out) :
    SortedSet compareRelationshipTuple values out := by
  refine sortedSet_compact (fun a b hk heq => ?_) (fun a b hk => ?_) h
  · obtain rfl := LawfulEqCmp.eq_of_compare heq
    simp [keepRelationshipTuple, ReflCmp.compare_self] at hk
  · simp only [keepRelationshipTuple] at hk
    split at hk
    · split at hk
      · cases hk
      next heq => exact LawfulEqCmp.eq_of_compare (not_not.1 heq)
    · cases hk

instance : LawfulEqCmp compareTupleKey where
  eq_of_compare {a b} h := by
    cases a; cases b
    simpa [compareTupleKey, LawfulEqCmp.compare_eq_iff_eq] using h

theorem sortedSet_canonicalTupleKeys (values : List TupleKey) :
    SortedSet compareTupleKey values (canonicalTupleKeys values) := sortedSet_sortDedup values

variable {a b : Attribute}

theorem Attribute.eq_of_key_value (hk : a.key = b.key) (hv : a.value = b.value) : a = b := by
  cases a; cases b
  simp_all [Attribute.key]

instance : LawfulEqCmp compareAttribute where
  eq_of_compare {a b} h := by
    rw [compareAttribute, Ordering.then_eq_eq] at h
    exact Attribute.eq_of_key_value (LawfulEqCmp.eq_of_compare h.1) (LawfulEqCmp.eq_of_compare h.2)

theorem sortedSet_canonicalAttributes (h : canonicalAttributes values = .ok out) :
    SortedSet compareAttribute values out := by
  refine sortedSet_compact (fun a b hk heq => ?_) (fun a b hk => ?_) h
  · rw [compareAttribute, Ordering.then_eq_eq] at heq
    simp [keepAttribute, heq.1, heq.2] at hk
  · simp only [keepAttribute] at hk
    split at hk
    next hkey =>
      split at hk
      · cases hk
      next hval =>
        exact Attribute.eq_of_key_value (LawfulEqCmp.eq_of_compare hkey) (LawfulEqCmp.eq_of_compare (not_not.1 hval))
    · split at hk <;> cases hk

theorem sortedSet_canonicalAttributeKeys {values out} (h : canonicalAttributeKeys values = .ok out) :
    SortedSet compareAttributeDeleteKey values out := by
  refine sortedSet_compact (fun a b hk heq => ?_) (fun a b hk => ?_) h
  · simp [keepAttributeKey, heq] at hk
  · simp only [keepAttributeKey] at hk
    split at hk
    next heq => exact LawfulEqCmp.eq_of_compare heq
    · split at hk <;> cases hk

/-! ## Path prefixes

Between a path and an extension of it stand only extensions of it, so a sorted list
whose neighbours do not conflict has no conflict at all. -/

theorem isPrefix_of_between [Ord α] [TransOrd α] [LawfulEqOrd α] {p r q : List α} (hpr : compare p r ≠ .gt)
    (hrq : compare r q ≠ .gt) (hpq : p <+: q) : p <+: r := by
  induction p generalizing r q with
  | nil => exact List.nil_prefix
  | cons a p ih =>
    obtain ⟨q, rfl⟩ := hpq
    cases r with
    | nil => exact absurd rfl hpr
    | cons b r =>
      rw [List.cons_append, List.compare_cons_cons] at hrq
      rw [List.compare_cons_cons] at hpr
      have hswap : compare a b = (compare b a).swap := OrientedCmp.eq_swap
      cases hba : compare b a with
      | gt => simp [hba] at hrq
      | lt => simp [hswap, hba] at hpr
      | eq =>
        obtain rfl := LawfulEqCmp.eq_of_compare hba
        rw [hba, Ordering.eq_then] at hpr hrq
        exact (List.cons_prefix_cons.2 ⟨rfl, ih hpr hrq (List.prefix_append _ _)⟩)

/-- Neither path of one entity extends the other. -/
def Attribute.Apart (a b : Attribute) : Prop := ¬ (a.entity = b.entity ∧ (a.path <+: b.path ∨ b.path <+: a.path))

instance : Std.Symm Attribute.Apart := ⟨fun _ _ h ⟨he, hp⟩ => h ⟨he.symm, hp.symm⟩⟩

theorem attributePathPrefixConflict_iff {e e' p q} :
    attributePathPrefixConflict e p e' q = true ↔ e = e' ∧ p ≠ q ∧ (p <+: q ∨ q <+: p) := by
  unfold attributePathPrefixConflict
  split
  next h =>
    refine iff_of_false (by simp) ?_
    rintro ⟨he, hne, hpq | hqp⟩ <;> rcases h with h | h
    · exact h he
    · exact hne (hpq.eq_of_length h)
    · exact h he
    · exact hne (hqp.eq_of_length h.symm).symm
  next h =>
    obtain ⟨he, hlen⟩ := not_or.1 h
    have hne : p ≠ q := fun hpq => hlen (hpq ▸ rfl)
    split
    next hlt =>
      rw [List.isPrefixOf_iff_prefix]
      exact ⟨fun hqp => ⟨not_not.1 he, hne, .inr hqp⟩, fun ⟨_, _, hc⟩ =>
        hc.elim (fun hpq => absurd hpq.length_le (by omega)) id⟩
    next hlt =>
      rw [List.isPrefixOf_iff_prefix]
      exact ⟨fun hpq => ⟨not_not.1 he, hne, .inl hpq⟩, fun ⟨_, _, hc⟩ =>
        hc.elim id fun hqp => absurd hqp.length_le (by omega)⟩

theorem keepAttribute_eq_true : keepAttribute a b = .ok true ↔ a.Apart b := by
  unfold keepAttribute
  split
  next hkey =>
    have hkeys : a.key = b.key := LawfulEqCmp.eq_of_compare hkey
    obtain ⟨hentity, hpath⟩ := AttributeKey.mk.inj hkeys
    refine iff_of_false (fun h => by split at h <;> cases h) fun h => h ⟨hentity, .inl (hpath ▸ List.prefix_rfl)⟩
  next hkey =>
    have hne (he : a.entity = b.entity) : a.path ≠ b.path := fun hp => hkey <| by
      have hkeys : a.key = b.key := by rw [Attribute.key, he, hp, Attribute.key]
      rw [compareAttributeKey, hkeys]
      exact ReflCmp.compare_self
    split
    next hconflict =>
      obtain ⟨he, -, hc⟩ := attributePathPrefixConflict_iff.1 hconflict
      exact iff_of_false (by simp) fun h => h ⟨he, hc⟩
    next hconflict =>
      exact iff_of_true rfl fun ⟨he, hc⟩ => hconflict (attributePathPrefixConflict_iff.2 ⟨he, hne he, hc⟩)

theorem compare_ne_gt_of_isPrefix [Ord α] [TransOrd α] {p q : List α} (h : p <+: q) : compare p q ≠ .gt := by
  induction p generalizing q with
  | nil => cases q <;> simp
  | cons a p ih =>
    obtain ⟨q, rfl⟩ := h
    have hself : compare a a = .eq := ReflCmp.compare_self
    rw [List.cons_append, List.compare_cons_cons, hself, Ordering.eq_then]
    exact ih (List.prefix_append _ _)

theorem compareAttribute_lt (h : compareAttribute a b = .lt) :
    compareEntity a.entity b.entity ≠ .gt ∧ (a.entity = b.entity → compare a.path b.path ≠ .gt) := by
  simp only [compareAttribute, compareAttributeKey, compareAttributeDeleteKey, Attribute.key, compareAttributePath_eq] at h
  refine ⟨fun hgt => by simp [hgt] at h, fun he hgt => ?_⟩
  have hself : compareEntity a.entity b.entity = .eq := he ▸ ReflCmp.compare_self
  simp [hself, hgt] at h

/-- An attribute apart from the next one in order is apart from those after it. -/
theorem apart_of_between {c : Attribute} (hab : compareAttribute a b = .lt) (hbc : compareAttribute b c = .lt)
    (h : a.Apart b) : a.Apart c := by
  rintro ⟨hac, hpre⟩
  obtain ⟨heab, hpab⟩ := compareAttribute_lt hab
  obtain ⟨hebc, hpbc⟩ := compareAttribute_lt hbc
  rw [← hac] at hebc
  have he : a.entity = b.entity := eq_of_compare_ne_gt heab hebc
  have hpbc := hpbc (he ▸ hac)
  have hpac : a.path <+: c.path := by
    rcases hpre with hpre | hpre
    · exact hpre
    · have hle := compareAttribute_lt (TransCmp.lt_trans hab hbc)
      rw [eq_of_compare_ne_gt (hle.2 hac) (compare_ne_gt_of_isPrefix hpre)]
  exact h ⟨he, .inl (isPrefix_of_between (hpab he) hpbc hpac)⟩

/-- The attributes of a canonical list are apart, and so is any part of it canonical. -/
theorem pairwise_apart_of_canonical (h : canonicalAttributes values = .ok out) :
    out.Pairwise Attribute.Apart := by
  have hsorted : out.Pairwise fun a b => compareAttribute a b = .lt := (sortedSet_canonicalAttributes h).sorted
  have hchain : out.IsChain fun a b => keepAttribute a b = .ok true := compact_chain h
  simp only [keepAttribute_eq_true] at hchain
  exact pairwise_of_isChain (R := Attribute.Apart) (fun _ _ _ => apart_of_between) hsorted hchain

theorem canonicalAttributes_sublist {part} (h : canonicalAttributes values = .ok out) (hpart : part.Sublist out) :
    canonicalAttributes part = .ok part := by
  have hsorted : StrictSorted compareAttribute part := (sortedSet_canonicalAttributes h).sorted.sublist hpart
  rw [canonicalAttributes, sortBy_of_strictSorted hsorted]
  refine compact_of_chain ?_
  simp only [keepAttribute_eq_true]
  exact ((pairwise_apart_of_canonical h).sublist hpart).isChain

end PolicyEngine
