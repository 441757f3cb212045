import PolicyEngine.Core.Data
import PolicyEngine.Lib.Conflicts

/-!
# Which data mutations are accepted

`NewWriteDataRequest` looks at neighbours after sorting, and at one pair at a time of
two sorted lists. That is enough to find every conflict, so acceptance and the request
depend only on which items are given. A tuple's expiry is a `time.Time`, which has a
location besides its instant; only the instant is ever compared.
-/

open Std PolicyEngine.Lib

namespace PolicyEngine

/-! ## Conflicts within a list -/

variable {a b : RelationshipTuple}

theorem keepRelationshipTuple_eq_true :
    keepRelationshipTuple a b = .ok true ↔ a.tuple ≠ b.tuple := by
  unfold keepRelationshipTuple
  split
  next heq => exact iff_of_false (fun h => by split at h <;> cases h) (not_not.2 (LawfulEqCmp.eq_of_compare heq))
  next hne => exact iff_of_true rfl fun heq => hne (heq ▸ ReflCmp.compare_self)

theorem keepRelationshipTuple_eq_false : keepRelationshipTuple a b = .ok false ↔ a = b := by
  constructor
  · intro h
    unfold keepRelationshipTuple at h
    split at h
    · split at h
      · cases h
      next heq => exact LawfulEqCmp.eq_of_compare (not_not.1 heq)
    · cases h
  · rintro rfl
    simp [keepRelationshipTuple, ReflCmp.compare_self]

/-- Between two facts about a tuple stand only facts about it. -/
theorem tuple_ne_of_between {c} (hab : compareRelationshipTuple a b = .lt) (hbc : compareRelationshipTuple b c = .lt)
    (h : a.tuple ≠ b.tuple) : a.tuple ≠ c.tuple := by
  intro hac
  rw [compareRelationshipTuple, Ordering.then_eq_lt] at hab hbc
  have hle {x y : RelationshipTuple} (hxy : compareTuple x.tuple y.tuple = .lt ∨ compareTuple x.tuple y.tuple = .eq ∧
      (compare x.hasExpiry y.hasExpiry).then (compare x.expiresAt y.expiresAt) = .lt) :
      compareTuple x.tuple y.tuple ≠ .gt := by
    rcases hxy with h | ⟨h, -⟩ <;> simp [h]
  exact h (eq_of_compare_ne_gt (hle hab) (hac ▸ hle hbc))

theorem canonicalRelationshipTuples_accepts {values} :
    (∃ out, canonicalRelationshipTuples values = .ok out) ↔
      ∀ t ∈ values, ∀ t' ∈ values, t = t' ∨ t.tuple ≠ t'.tuple := by
  have : Std.Symm fun t t' : RelationshipTuple => t.tuple ≠ t'.tuple := ⟨fun _ _ h => h.symm⟩
  exact exists_compact_sortBy_iff (fun _ _ => keepRelationshipTuple_eq_true) (fun _ _ => keepRelationshipTuple_eq_false)
    fun _ _ _ => tuple_ne_of_between

theorem keepAttribute_eq_false {a b : Attribute} : keepAttribute a b = .ok false ↔ a = b := by
  constructor
  · intro h
    unfold keepAttribute at h
    split at h
    next hkey =>
      split at h
      · cases h
      next hval =>
        exact Attribute.eq_of_key_value (LawfulEqCmp.eq_of_compare hkey) (LawfulEqCmp.eq_of_compare (not_not.1 hval))
    · split at h <;> cases h
  · rintro rfl
    simp [keepAttribute, compareAttributeKey, ReflCmp.compare_self]

theorem canonicalAttributes_accepts {values} :
    (∃ out, canonicalAttributes values = .ok out) ↔ ∀ a ∈ values, ∀ b ∈ values, a = b ∨ a.Apart b :=
  exists_compact_sortBy_iff (fun _ _ => keepAttribute_eq_true) (fun _ _ => keepAttribute_eq_false)
    fun _ _ _ => apart_of_between

/-- Neither path of one entity extends the other. -/
def AttributeKey.Apart (a b : AttributeKey) : Prop := ¬ (a.entity = b.entity ∧ (a.path <+: b.path ∨ b.path <+: a.path))

instance : Std.Symm AttributeKey.Apart := ⟨fun _ _ h ⟨he, hp⟩ => h ⟨he.symm, hp.symm⟩⟩

theorem AttributeKey.not_apart_self (k : AttributeKey) : ¬ k.Apart k := fun h => h ⟨rfl, .inl List.prefix_rfl⟩

theorem keepAttributeKey_eq_true {a b} : keepAttributeKey a b = .ok true ↔ a.Apart b := by
  unfold keepAttributeKey
  split
  next heq =>
    obtain rfl := LawfulEqCmp.eq_of_compare heq
    exact iff_of_false (by simp) a.not_apart_self
  next hne =>
    have hpath (he : a.entity = b.entity) : a.path ≠ b.path := fun hp => hne <| by
      rw [show a = b by cases a; cases b; simp_all]
      exact ReflCmp.compare_self
    split
    next hconflict =>
      obtain ⟨he, -, hc⟩ := attributePathPrefixConflict_iff.1 hconflict
      exact iff_of_false (by simp) fun h => h ⟨he, hc⟩
    next hconflict =>
      exact iff_of_true rfl fun ⟨he, hc⟩ => hconflict (attributePathPrefixConflict_iff.2 ⟨he, hpath he, hc⟩)

theorem keepAttributeKey_eq_false {a b} : keepAttributeKey a b = .ok false ↔ a = b := by
  constructor
  · intro h
    unfold keepAttributeKey at h
    split at h
    next heq => exact LawfulEqCmp.eq_of_compare heq
    · split at h <;> cases h
  · rintro rfl
    simp [keepAttributeKey, ReflCmp.compare_self]

/-- A key as an attribute, to carry the order of keys over. -/
def AttributeKey.attribute (k : AttributeKey) : Attribute := ⟨k.entity, k.path, .zero⟩

theorem compareAttribute_attribute (a b : AttributeKey) :
    compareAttribute a.attribute b.attribute = compareAttributeDeleteKey a b := by
  have hself : compareValue Value.zero Value.zero = .eq := ReflCmp.compare_self
  simp [compareAttribute, AttributeKey.attribute, compareAttributeKey, Attribute.key, hself]

theorem AttributeKey.apart_of_between {a b c} (hab : compareAttributeDeleteKey a b = .lt)
    (hbc : compareAttributeDeleteKey b c = .lt) (h : a.Apart b) : a.Apart c := by
  rw [← compareAttribute_attribute] at hab hbc
  exact PolicyEngine.apart_of_between (a := a.attribute) (b := b.attribute) (c := c.attribute) hab hbc h

theorem canonicalAttributeKeys_accepts {values} :
    (∃ out, canonicalAttributeKeys values = .ok out) ↔ ∀ a ∈ values, ∀ b ∈ values, a = b ∨ a.Apart b :=
  exists_compact_sortBy_iff (fun _ _ => keepAttributeKey_eq_true) (fun _ _ => keepAttributeKey_eq_false)
    fun _ _ _ => AttributeKey.apart_of_between

/-! ## Conflicts between writes and deletes -/

variable {α : Type}

theorem compare_irrefl {cmp} [ReflCmp cmp] {a : α} : cmp a a ≠ .lt := by
  simp [ReflCmp.compare_self]

theorem tupleWriteDeleteConflict_iff {writes deletes}
    (hw : writes.Pairwise fun a b => compareTuple a.tuple b.tuple = .lt) (hd : StrictSorted compareTupleKey deletes) :
    tupleWriteDeleteConflict writes deletes = true ↔ ∃ t ∈ writes, ∃ k ∈ deletes, t.tuple = k.tuple := by
  rw [tupleWriteDeleteConflict, mergeHits_eq_true (fun a b b' hab hb hit => ?_) (fun a a' b hab ha hit => ?_) hw hd]
  · simp [LawfulEqCmp.compare_eq_iff_eq]
  · have heq : a.tuple = b'.tuple := LawfulEqCmp.eq_of_compare (beq_iff_eq.1 hit)
    exact absurd (TransCmp.lt_trans hab (heq ▸ hb)) compare_irrefl
  · have heq : a'.tuple = b.tuple := LawfulEqCmp.eq_of_compare (beq_iff_eq.1 hit)
    exact absurd (heq ▸ ha) hab

/-- What stops the walk over attributes: two keys that are not apart. -/
theorem attributeHit_iff {a b} :
    (compareAttributeDeleteKey a b == .eq || attributePathPrefixConflict a.entity a.path b.entity b.path) = true ↔
      ¬ a.Apart b := by
  rw [← keepAttributeKey_eq_true, keepAttributeKey, Bool.or_eq_true, beq_iff_eq]
  split
  next heq => simp [heq]
  next hne =>
    split
    next hc => simp [hc]
    next hc => simp [hne, hc]

theorem attributeWriteDeleteConflict_iff {writes deletes}
    (hw : writes.Pairwise fun a b => compareAttributeDeleteKey a.key b.key = .lt)
    (hd : StrictSorted compareAttributeDeleteKey deletes) :
    attributeWriteDeleteConflict writes deletes = true ↔ ∃ a ∈ writes, ∃ k ∈ deletes, ¬ a.key.Apart k := by
  have hiff (a : Attribute) (k : AttributeKey) := @attributeHit_iff a.key k
  rw [attributeWriteDeleteConflict, mergeHits_eq_true (fun a b b' hab hb hit => ?_) (fun a a' b hab ha hit => ?_) hw hd]
  · simp only [← hiff]
    rfl
  · -- a write below a delete and apart from it is apart from the later deletes
    exact (hiff a b).2 fun hapart => (hiff a b').1 hit (AttributeKey.apart_of_between hab hb hapart)
  · -- and a delete below a write, from the later writes
    refine (hiff a b).2 fun hapart => (hiff a' b).1 hit ?_
    cases hba : compareAttributeDeleteKey b a.key with
    | lt => exact symm (AttributeKey.apart_of_between hba ha (symm hapart))
    | eq => exact absurd hapart (LawfulEqCmp.eq_of_compare hba ▸ b.not_apart_self)
    | gt => exact absurd (OrientedCmp.gt_iff_lt.1 hba) hab

/-! ## Acceptance -/

/-- Mutations that do not contradict each other. -/
structure Compatible (r : WriteDataRequest) : Prop where
  /-- No tuple has two expiries. -/
  expiries : ∀ t ∈ r.tupleWrites, ∀ t' ∈ r.tupleWrites, t.tuple = t'.tuple →
    t.hasExpiry = t'.hasExpiry ∧ t.expiresAt = t'.expiresAt
  /-- No attribute has two values. -/
  values : ∀ a ∈ r.attributeWrites, ∀ a' ∈ r.attributeWrites, a.entity = a'.entity → a.path = a'.path →
    a.value = a'.value
  /-- No written path is a strict prefix of another of its entity. -/
  writes : ∀ a ∈ r.attributeWrites, ∀ a' ∈ r.attributeWrites, a.entity = a'.entity → a.path <+: a'.path →
    a.path = a'.path
  deletes : ∀ k ∈ r.attributeDeletes, ∀ k' ∈ r.attributeDeletes, k.entity = k'.entity → k.path <+: k'.path →
    k.path = k'.path
  /-- No tuple is both written and deleted. -/
  tuples : ∀ t ∈ r.tupleWrites, ∀ k ∈ r.tupleDeletes, t.tuple ≠ k.tuple
  /-- No written path is a deleted one of its entity, nor a strict prefix or extension of one. -/
  attributes : ∀ a ∈ r.attributeWrites, ∀ k ∈ r.attributeDeletes, a.entity = k.entity →
    ¬ a.path <+: k.path ∧ ¬ k.path <+: a.path

theorem expiries_iff {l : List RelationshipTuple} :
    (∀ t ∈ l, ∀ t' ∈ l, t = t' ∨ t.tuple ≠ t'.tuple) ↔
      ∀ t ∈ l, ∀ t' ∈ l, t.tuple = t'.tuple → t.hasExpiry = t'.hasExpiry ∧ t.expiresAt = t'.expiresAt := by
  refine forall₂_congr fun t _ => forall₂_congr fun t' _ => ?_
  obtain ⟨tuple, expiry, has⟩ := t
  obtain ⟨tuple', expiry', has'⟩ := t'
  simp only [RelationshipTuple.mk.injEq]
  tauto

theorem deletes_iff {l : List AttributeKey} :
    (∀ a ∈ l, ∀ b ∈ l, a = b ∨ a.Apart b) ↔
      ∀ a ∈ l, ∀ b ∈ l, a.entity = b.entity → a.path <+: b.path → a.path = b.path := by
  constructor
  · intro h a ha b hb he hp
    rcases h a ha b hb with rfl | hapart
    · rfl
    · exact absurd ⟨he, .inl hp⟩ hapart
  · intro h a ha b hb
    by_cases hab : a.Apart b
    · exact .inr hab
    · obtain ⟨he, hp⟩ := not_not.1 hab
      have hpath : a.path = b.path := hp.elim (h a ha b hb he) fun hq => (h b hb a ha he.symm hq).symm
      cases a; cases b
      exact .inl (by simp_all)

theorem writes_iff {l : List Attribute} :
    (∀ a ∈ l, ∀ b ∈ l, a = b ∨ a.Apart b) ↔
      (∀ a ∈ l, ∀ b ∈ l, a.entity = b.entity → a.path = b.path → a.value = b.value) ∧
        ∀ a ∈ l, ∀ b ∈ l, a.entity = b.entity → a.path <+: b.path → a.path = b.path := by
  constructor
  · refine fun h => ⟨fun a ha b hb he hp => ?_, fun a ha b hb he hp => ?_⟩ <;> rcases h a ha b hb with rfl | hapart
    · rfl
    · exact absurd ⟨he, .inl (hp ▸ List.prefix_rfl)⟩ hapart
    · rfl
    · exact absurd ⟨he, .inl hp⟩ hapart
  · rintro ⟨hvalues, hpre⟩ a ha b hb
    by_cases hab : a.Apart b
    · exact .inr hab
    · obtain ⟨he, hp⟩ := not_not.1 hab
      have hpath : a.path = b.path := hp.elim (hpre a ha b hb he) fun hq => (hpre b hb a ha he.symm hq).symm
      exact .inl (Attribute.eq_of_key_value (by simp [Attribute.key, he, hpath]) (hvalues a ha b hb he hpath))

theorem strictSorted_tuples {values out} (h : canonicalRelationshipTuples values = .ok out) :
    out.Pairwise fun a b => compareTuple a.tuple b.tuple = .lt := by
  have hsorted := (sortedSet_canonicalRelationshipTuples h).sorted
  have hne := canonicalRelationshipTuples_accepts.1 ⟨out, (canonicalRelationshipTuples_ok h).fixed⟩
  refine List.Pairwise.imp_of_mem (fun {a b} ha hb hab => ?_) hsorted
  have hdiff : a.tuple ≠ b.tuple := (hne a ha b hb).resolve_left fun heq => compare_irrefl (heq ▸ hab)
  rw [compareRelationshipTuple, Ordering.then_eq_lt] at hab
  exact hab.resolve_right fun heq => hdiff (LawfulEqCmp.eq_of_compare heq.1)

theorem strictSorted_keys {values out} (h : canonicalAttributes values = .ok out) :
    out.Pairwise fun a b => compareAttributeDeleteKey a.key b.key = .lt := by
  refine ((sortedSet_canonicalAttributes h).sorted.and (pairwise_apart_of_canonical h)).imp fun {a b} hab => ?_
  have hlt := hab.1
  rw [compareAttribute, Ordering.then_eq_lt] at hlt
  refine hlt.resolve_right fun heq => hab.2 ?_
  obtain ⟨he, hp⟩ := AttributeKey.mk.inj (LawfulEqCmp.eq_of_compare heq.1)
  exact ⟨he, .inl (hp ▸ List.prefix_rfl)⟩

/-- Well-formed mutations are accepted exactly if they are compatible. -/
theorem newWriteDataRequest_accepts {input : WriteDataRequest} (hw : WellFormedWrite input) :
    (∃ r, newWriteDataRequest input = .ok r) ↔ Compatible input := by
  simp only [newWriteDataRequest_eq_ok, hw, true_and]
  constructor
  · rintro ⟨r, tw, aw, ad, htw, haw, had, hconf, -⟩
    rw [Bool.or_eq_false_iff] at hconf
    have htuples := mt (tupleWriteDeleteConflict_iff (strictSorted_tuples htw)
      (sortedSet_canonicalTupleKeys input.tupleDeletes).sorted).2 (by simp [hconf.1])
    have hattrs := mt (attributeWriteDeleteConflict_iff (strictSorted_keys haw)
      (sortedSet_canonicalAttributeKeys had).sorted).2 (by simp [hconf.2])
    have hwrites := writes_iff.1 (canonicalAttributes_accepts.1 ⟨aw, haw⟩)
    refine ⟨expiries_iff.1 (canonicalRelationshipTuples_accepts.1 ⟨tw, htw⟩), hwrites.1, hwrites.2,
      deletes_iff.1 (canonicalAttributeKeys_accepts.1 ⟨ad, had⟩), fun t ht k hk heq => htuples ?_, ?_⟩
    · exact ⟨t, ((sortedSet_canonicalRelationshipTuples htw).mem_iff t).2 ht, k,
        ((sortedSet_canonicalTupleKeys _).mem_iff k).2 hk, heq⟩
    · intro a ha k hk he
      have hapart : a.key.Apart k := by
        by_contra hnot
        exact hattrs ⟨a, ((sortedSet_canonicalAttributes haw).mem_iff a).2 ha, k,
          ((sortedSet_canonicalAttributeKeys had).mem_iff k).2 hk, hnot⟩
      exact ⟨fun hp => hapart ⟨he, .inl hp⟩, fun hp => hapart ⟨he, .inr hp⟩⟩
  · intro h
    obtain ⟨tw, htw⟩ := canonicalRelationshipTuples_accepts.2 (expiries_iff.2 h.expiries)
    obtain ⟨aw, haw⟩ := canonicalAttributes_accepts.2 (writes_iff.2 ⟨h.values, h.writes⟩)
    obtain ⟨ad, had⟩ := canonicalAttributeKeys_accepts.2 (deletes_iff.2 h.deletes)
    refine ⟨_, tw, aw, ad, htw, haw, had, ?_, rfl⟩
    rw [Bool.or_eq_false_iff, ← Bool.not_eq_true, ← Bool.not_eq_true, tupleWriteDeleteConflict_iff
      (strictSorted_tuples htw) (sortedSet_canonicalTupleKeys _).sorted, attributeWriteDeleteConflict_iff
      (strictSorted_keys haw) (sortedSet_canonicalAttributeKeys had).sorted]
    constructor
    · rintro ⟨t, ht, k, hk, heq⟩
      exact h.tuples t (((sortedSet_canonicalRelationshipTuples htw).mem_iff t).1 ht) k
        (((sortedSet_canonicalTupleKeys _).mem_iff k).1 hk) heq
    · rintro ⟨a, ha, k, hk, hnot⟩
      obtain ⟨he, hp⟩ := not_not.1 hnot
      obtain ⟨hno, hno'⟩ := h.attributes a (((sortedSet_canonicalAttributes haw).mem_iff a).1 ha) k
        (((sortedSet_canonicalAttributeKeys had).mem_iff k).1 hk) he
      exact hp.elim hno hno'

/-! ## Items as sets -/

/-- The same request, but for the order and the repetitions of its items. -/
structure SameItems (r r' : WriteDataRequest) : Prop where
  namespace_ : r.namespace_ = r'.namespace_
  validationRevisionID : r.validationRevisionID = r'.validationRevisionID
  expectedGeneration : r.expectedGeneration = r'.expectedGeneration
  idempotencyKey : r.idempotencyKey = r'.idempotencyKey
  tupleWrites : ∀ t, t ∈ r.tupleWrites ↔ t ∈ r'.tupleWrites
  tupleDeletes : ∀ k, k ∈ r.tupleDeletes ↔ k ∈ r'.tupleDeletes
  attributeWrites : ∀ a, a ∈ r.attributeWrites ↔ a ∈ r'.attributeWrites
  attributeDeletes : ∀ k, k ∈ r.attributeDeletes ↔ k ∈ r'.attributeDeletes

/-- The only error left to a well-formed input. -/
theorem newWriteDataRequest_outcome {input} (hw : WellFormedWrite input) :
    Outcome (· = .invalidArgument) (fun _ => True) (newWriteDataRequest input) := by
  rw [newWriteDataRequest, mutationBudget_eq, if_pos hw.count, ok_bind,
    (charges_writeDataRequest input).withinBudget_eq_ok.2 hw.cost, ok_bind]
  refine .bind (require_outcome rfl) fun _ _ => ?_
  rw [hw.namespace_ok, ok_bind, hw.key, ok_bind]
  refine .bind (require_outcome rfl) fun _ _ => .bind (require_outcome rfl) fun _ _ =>
    .bind (require_outcome rfl) fun _ _ => .bind (require_outcome rfl) fun _ _ => ?_
  refine .bind (compact_outcome (fun a b => ?_) _) fun _ _ => .bind (compact_outcome (fun a b => ?_) _) fun _ _ =>
    .bind (compact_outcome (fun a b => ?_) _) fun _ _ => .bind (require_outcome rfl) fun _ _ => .ok trivial
  · unfold keepRelationshipTuple
    repeat' split
    exacts [.error rfl, .ok trivial, .ok trivial]
  · unfold keepAttribute
    repeat' split
    exacts [.error rfl, .ok trivial, .error rfl, .ok trivial]
  · unfold keepAttributeKey
    repeat' split
    exacts [.ok trivial, .error rfl, .ok trivial]

variable {r r' : WriteDataRequest}

theorem SameItems.symm (h : SameItems r r') : SameItems r' r :=
  ⟨h.namespace_.symm, h.validationRevisionID.symm, h.expectedGeneration.symm, h.idempotencyKey.symm,
    fun t => (h.tupleWrites t).symm, fun k => (h.tupleDeletes k).symm, fun a => (h.attributeWrites a).symm,
    fun k => (h.attributeDeletes k).symm⟩

theorem SameItems.compatible (h : SameItems r r') (hc : Compatible r) : Compatible r' where
  expiries t ht t' ht' := hc.expiries t ((h.tupleWrites t).2 ht) t' ((h.tupleWrites t').2 ht')
  values a ha b hb := hc.values a ((h.attributeWrites a).2 ha) b ((h.attributeWrites b).2 hb)
  writes a ha b hb := hc.writes a ((h.attributeWrites a).2 ha) b ((h.attributeWrites b).2 hb)
  deletes a ha b hb := hc.deletes a ((h.attributeDeletes a).2 ha) b ((h.attributeDeletes b).2 hb)
  tuples t ht k hk := hc.tuples t ((h.tupleWrites t).2 ht) k ((h.tupleDeletes k).2 hk)
  attributes a ha k hk := hc.attributes a ((h.attributeWrites a).2 ha) k ((h.attributeDeletes k).2 hk)

theorem SameItems.newWriteDataRequest_eq (h : SameItems r r') (hr : WellFormedWrite r) (hr' : WellFormedWrite r') :
    newWriteDataRequest r = newWriteDataRequest r' := by
  by_cases hc : Compatible r
  · obtain ⟨x, hx⟩ := (newWriteDataRequest_accepts hr).2 hc
    obtain ⟨x', hx'⟩ := (newWriteDataRequest_accepts hr').2 (h.compatible hc)
    rw [hx, hx']
    obtain ⟨-, tw, aw, ad, htw, haw, had, -, rfl⟩ := newWriteDataRequest_eq_ok.1 hx
    obtain ⟨-, tw', aw', ad', htw', haw', had', -, rfl⟩ := newWriteDataRequest_eq_ok.1 hx'
    rw [h.namespace_, h.validationRevisionID, h.expectedGeneration, h.idempotencyKey,
      ((sortedSet_canonicalRelationshipTuples htw).eq_iff (sortedSet_canonicalRelationshipTuples htw')).2 h.tupleWrites,
      ((sortedSet_canonicalTupleKeys _).eq_iff (sortedSet_canonicalTupleKeys _)).2 h.tupleDeletes,
      ((sortedSet_canonicalAttributes haw).eq_iff (sortedSet_canonicalAttributes haw')).2 h.attributeWrites,
      ((sortedSet_canonicalAttributeKeys had).eq_iff (sortedSet_canonicalAttributeKeys had')).2 h.attributeDeletes]
  · have herror {x : WriteDataRequest} (hx : WellFormedWrite x) (hno : ¬ Compatible x) :
        newWriteDataRequest x = .error .invalidArgument := by
      cases hres : newWriteDataRequest x with
      | error e => rw [(newWriteDataRequest_outcome hx).of_error hres]
      | ok y => exact absurd ((newWriteDataRequest_accepts hx).1 ⟨y, hres⟩) hno
    rw [herror hr hc, herror hr' (mt h.symm.compatible hc)]

/-! ## Times with a location -/

/-- A `time.Time`: an instant, and the location it is shown in. -/
structure LocatedTime where
  instant : Time
  location : Bytes
  deriving DecidableEq, Repr

structure LocatedTuple where
  tuple : Tuple
  expiresAt : LocatedTime
  hasExpiry : Bool
  deriving DecidableEq, Repr

/-- What the comparisons see of a tuple: `Compare` and `IsZero` look at the instant alone. -/
def LocatedTuple.value (t : LocatedTuple) : RelationshipTuple := ⟨t.tuple, t.expiresAt.instant, t.hasExpiry⟩

structure LocatedRequest where
  namespace_ : Bytes
  validationRevisionID : Bytes
  expectedGeneration : Nat
  idempotencyKey : Bytes
  tupleWrites : List LocatedTuple
  tupleDeletes : List TupleKey
  attributeWrites : List Attribute
  attributeDeletes : List AttributeKey
  deriving DecidableEq, Repr

/-- The request without the locations. -/
def LocatedRequest.request (r : LocatedRequest) : WriteDataRequest :=
  { r with tupleWrites := r.tupleWrites.map (·.value) }

/-- What `sort.Slice` promises: the same tuples in order; it may place equal ones either way. -/
structure Sorts (sort : List LocatedTuple → List LocatedTuple) : Prop where
  perm : ∀ l, (sort l).Perm l
  sorted : ∀ l, (sort l).Pairwise fun a b => (compareRelationshipTuple a.value b.value).isLE

/-- `NewWriteDataRequest`, on tuples whose expiries have locations. -/
def newLocatedWriteDataRequest (sort : List LocatedTuple → List LocatedTuple) (input : LocatedRequest) :
    Result LocatedRequest := do
  let mutations ← mutationBudget input.request
  withinBudget maxAggregateInputBytes (addWriteDataRequestCost · input.request)
  require (validRevisionIDString input.validationRevisionID && mutations.used != 0) .invalidArgument
  validateNamespace input.namespace_
  validateIdentifier input.idempotencyKey
  require (input.tupleWrites.all (·.value.valid)) .invalidArgument
  require (input.tupleDeletes.all (·.valid)) .invalidArgument
  require (input.attributeWrites.all (·.valid)) .invalidArgument
  require (input.attributeDeletes.all (·.valid)) .invalidArgument
  let tupleWrites ← compact (fun a b => keepRelationshipTuple a.value b.value) (sort input.tupleWrites)
  let tupleDeletes := canonicalTupleKeys input.tupleDeletes
  let attributeWrites ← canonicalAttributes input.attributeWrites
  let attributeDeletes ← canonicalAttributeKeys input.attributeDeletes
  require (!(tupleWriteDeleteConflict (tupleWrites.map (·.value)) tupleDeletes ||
    attributeWriteDeleteConflict attributeWrites attributeDeletes)) .invalidArgument
  .ok { input with tupleWrites, tupleDeletes, attributeWrites, attributeDeletes }

/-- Two computations that agree step by step up to what `p` and `g` show. -/
theorem map_bind {α' β β' : Type} {x : Result α} {y : Result α'} {f : α → Result β} {h : α' → Result β'} (p : α → α')
    {g : β → β'} (hx : x.map p = y) (hf : ∀ a, (f a).map g = h (p a)) :
    (x >>= f).map g = y >>= h := by
  subst hx
  cases x with
  | error e => rfl
  | ok a => exact hf a

theorem map_id (x : Result α) : x.map id = x := by cases x <;> rfl

section Located

variable {sort : List LocatedTuple → List LocatedTuple} (hsort : Sorts sort) {input r : LocatedRequest}
include hsort

/-- The locations change neither the answer nor the request. -/
theorem map_newLocatedWriteDataRequest (input : LocatedRequest) :
    (newLocatedWriteDataRequest sort input).map (·.request) = newWriteDataRequest input.request := by
  have hvalid : input.tupleWrites.all (·.value.valid) = input.request.tupleWrites.all (·.valid) := by
    simp [LocatedRequest.request, List.all_map]
    rfl
  have hcanonical : (compact (fun a b : LocatedTuple => keepRelationshipTuple a.value b.value)
      (sort input.tupleWrites)).map (List.map (·.value)) = canonicalRelationshipTuples input.request.tupleWrites := by
    rw [map_compact, map_eq_sortBy compareRelationshipTuple _ (hsort.perm _) (hsort.sorted _)]
    rfl
  unfold newLocatedWriteDataRequest newWriteDataRequest
  rw [hvalid]
  refine map_bind id (map_id _) fun _ => map_bind id (map_id _) fun _ => map_bind id (map_id _) fun _ =>
    map_bind id (map_id _) fun _ => map_bind id (map_id _) fun _ => map_bind id (map_id _) fun _ =>
    map_bind id (map_id _) fun _ => map_bind id (map_id _) fun _ => map_bind id (map_id _) fun _ =>
    map_bind (List.map (·.value)) hcanonical fun _ => map_bind id (map_id _) fun _ => map_bind id (map_id _) fun _ =>
    map_bind id (map_id _) fun _ => rfl

omit hsort in
theorem newLocatedWriteDataRequest_tupleWrites (h : newLocatedWriteDataRequest sort input = .ok r) :
    compact (fun a b => keepRelationshipTuple a.value b.value) (sort input.tupleWrites) = .ok r.tupleWrites := by
  unfold newLocatedWriteDataRequest at h
  obtain ⟨_, -, h⟩ := bind_eq_ok.1 h
  simp only [check_eq_ok] at h
  obtain ⟨-, -, -, -, -, -, -, -, h⟩ := h
  obtain ⟨tupleWrites, htw, h⟩ := bind_eq_ok.1 h
  obtain ⟨_, -, h⟩ := bind_eq_ok.1 h
  obtain ⟨_, -, h⟩ := bind_eq_ok.1 h
  obtain ⟨-, h⟩ := check_eq_ok.1 h
  rw [htw, ← Except.ok.inj h]

/-- A request rebuilt from its own parts is the same, locations included. -/
theorem newLocatedWriteDataRequest_idem (h : newLocatedWriteDataRequest sort input = .ok r) :
    newLocatedWriteDataRequest sort r = .ok r := by
  have htw := newLocatedWriteDataRequest_tupleWrites h
  have hrequest : newWriteDataRequest input.request = .ok r.request := by
    rw [← map_newLocatedWriteDataRequest hsort, h]
    rfl
  have hagain := map_newLocatedWriteDataRequest hsort r
  rw [newWriteDataRequest_idem hrequest] at hagain
  -- the tuples are in strict order already, so sorting leaves them as they are
  have hstrict : r.tupleWrites.Pairwise fun a b => compareRelationshipTuple a.value b.value = .lt := by
    obtain ⟨-, tw, aw, ad, hcanonical, -, -, -, heq⟩ := newWriteDataRequest_eq_ok.1 hrequest
    have hsorted := (sortedSet_canonicalRelationshipTuples hcanonical).sorted
    rw [show tw = r.tupleWrites.map (·.value) from (congrArg (·.tupleWrites) heq).symm] at hsorted
    exact List.pairwise_map.1 hsorted
  have hsame : sort r.tupleWrites = r.tupleWrites := by
    refine (hsort.perm _).eq_of_pairwise (fun a b ha hb hab hba => ?_) (hsort.sorted _) (hstrict.imp fun h => by simp [h])
    by_contra hne
    have : Std.Symm fun a b : LocatedTuple => compareRelationshipTuple a.value b.value ≠ .eq :=
      ⟨fun a b h heq => h (OrientedCmp.eq_symm heq)⟩
    have hdiff := (hstrict.imp (S := fun a b => compareRelationshipTuple a.value b.value ≠ .eq) fun h => by simp [h]).forall
      ((hsort.perm _).mem_iff.1 ha) hb hne
    rw [eq_of_compare_ne_gt (Ordering.isLE_iff_ne_gt.1 hab) (Ordering.isLE_iff_ne_gt.1 hba)] at hdiff
    exact hdiff ReflCmp.compare_self
  cases hr : newLocatedWriteDataRequest sort r with
  | error e => rw [hr] at hagain; cases hagain
  | ok r' =>
    rw [hr] at hagain
    have htw' := newLocatedWriteDataRequest_tupleWrites hr
    rw [hsame, compact_of_chain (compact_chain htw)] at htw'
    have hparts : r'.request = r.request := Except.ok.inj hagain
    simp only [LocatedRequest.request, WriteDataRequest.mk.injEq] at hparts
    obtain ⟨h1, h2, h3, h4, -, h6, h7, h8⟩ := hparts
    cases r; cases r'
    simp_all

end Located

/-- Which data mutations are accepted, and as what, for any sort that orders the tuples: the locations of the expiries
do not matter; nor do the order and the repetitions of the items; a request rebuilt from its parts is itself; and
well-formed mutations are accepted exactly if they are compatible. -/
theorem newWriteDataRequest_canonical {sort : List LocatedTuple → List LocatedTuple} (hsort : Sorts sort) :
    (∀ input, (newLocatedWriteDataRequest sort input).map (·.request) = newWriteDataRequest input.request) ∧
    (∀ input input' : LocatedRequest, WellFormedWrite input.request → WellFormedWrite input'.request →
      SameItems input.request input'.request →
      (newLocatedWriteDataRequest sort input).map (·.request) = (newLocatedWriteDataRequest sort input').map (·.request)) ∧
    (∀ input r, newLocatedWriteDataRequest sort input = .ok r → newLocatedWriteDataRequest sort r = .ok r) ∧
    (∀ input, WellFormedWrite input.request →
      ((∃ r, newLocatedWriteDataRequest sort input = .ok r) ↔ Compatible input.request)) := by
  refine ⟨map_newLocatedWriteDataRequest hsort, fun input input' hw hw' hsame => ?_, fun input r h => newLocatedWriteDataRequest_idem hsort h,
    fun input hw => ?_⟩
  · rw [map_newLocatedWriteDataRequest hsort, map_newLocatedWriteDataRequest hsort]
    exact hsame.newWriteDataRequest_eq hw hw'
  · rw [← newWriteDataRequest_accepts hw, ← map_newLocatedWriteDataRequest hsort]
    cases newLocatedWriteDataRequest sort input <;> simp [Except.map]

/-! One expiry given in two locations, and a deletion of another tuple. -/

/-- A stable sort. -/
def sampleSort (l : List LocatedTuple) : List LocatedTuple :=
  l.mergeSort fun a b => (compareRelationshipTuple a.value b.value).isLE

theorem sorts_sampleSort : Sorts sampleSort where
  perm l := List.mergeSort_perm l _
  sorted l := by
    refine List.pairwise_mergeSort ?_ (fun a b => ?_) l
    · intro a b c hab hbc
      exact TransCmp.isLE_trans hab hbc
    · have hswap : compareRelationshipTuple a.value b.value = (compareRelationshipTuple b.value a.value).swap :=
        OrientedCmp.eq_swap
      rw [hswap]
      cases compareRelationshipTuple b.value a.value <;> simp

def sampleLocated : LocatedRequest where
  namespace_ := ascii "n"
  validationRevisionID := List.replicate 64 0x30
  expectedGeneration := 0
  idempotencyKey := ascii "k"
  tupleWrites :=
    [⟨⟨⟨ascii "doc", ascii "1"⟩, ascii "viewer", ⟨ascii "user", ascii "u", []⟩⟩, ⟨5, ascii "UTC"⟩, true⟩,
     ⟨⟨⟨ascii "doc", ascii "1"⟩, ascii "viewer", ⟨ascii "user", ascii "u", []⟩⟩, ⟨5, ascii "Europe/Berlin"⟩, true⟩]
  tupleDeletes := [⟨⟨⟨ascii "doc", ascii "2"⟩, ascii "viewer", ⟨ascii "user", ascii "u", []⟩⟩⟩]
  attributeWrites := []
  attributeDeletes := []

theorem newWriteDataRequest_canonical_sample : ∃ r, newLocatedWriteDataRequest sampleSort sampleLocated = .ok r := by
  have hw : WellFormedWrite sampleLocated.request := by constructor <;> decide +kernel
  refine ((newWriteDataRequest_canonical sorts_sampleSort).2.2.2 sampleLocated hw).2 ?_
  constructor <;> decide +kernel

end PolicyEngine
