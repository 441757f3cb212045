import PolicyEngine.App.Agreement
import PolicyEngine.App.DeclaredPaths
import PolicyEngine.App.Opening

/-!
# The attributes an evaluation sees

Contextual attributes may add to the stored ones but not override them. What a session
sees is the union of both, which has one value at each path and no path above another.
`resolveResourceAttributes` turns the part of it that the action's guard declares into
the nested map the language reads.
-/

open PolicyEngine.Lib List

namespace PolicyEngine.Spec.Dataset

/-- No stored path of an entity extends another. -/
def PrefixFree (d : Dataset) : Prop :=
  ∀ ⦃e : EntityRef⦄ ⦃p q : Path⦄, (d.attributes ⟨e, p⟩).isSome → (d.attributes ⟨e, q⟩).isSome → p <+: q → p = q

/-- The attribute would replace a stored value, or stand above or below a stored path. -/
def Overrides (d : Dataset) (a : Attribute) : Prop :=
  (∃ b, d.attributes a.key = some b ∧ b.value ≠ a.value) ∨ d.Conflicts a.key

end PolicyEngine.Spec.Dataset

namespace PolicyEngine.App

open Spec (Dataset)

/-! ## Snapshots that answer -/

/-- The key may be asked for, and the answer that nothing is stored there fits a result. -/
structure Askable (k : AttributeKey) : Prop where
  key : newAttributeKeyPath k.entity k.path = .ok k
  fits : attributeKeyCost k + (fieldMetadataBytes + boolBytes + valueCost .zero) ≤ maxAggregateOutputBytes

/-- The snapshot answers attribute reads from the dataset: no store error. -/
structure Serves (snapshot : Snapshot) (d : Dataset) : Prop where
  stored : ∀ k, (d.attributes k).isSome → k.valid = true
  get : ∀ k, Askable k → ∃ r, snapshot.getAttribute k = .ok r ∧ r.Valid = true ∧ r.key = k ∧
    r.Value = (d.attributes k).map (·.value)
  descendant : ∀ k, Askable k → ∃ b, snapshot.hasAttributeDescendant k = .ok b ∧ (b = true ↔ d.HasDescendant k)

variable {e : EntityRef} {p : Path}

/-- A prefix of a key's path makes a key as well. -/
theorem Askable.take (h : Askable ⟨e, p⟩) {n : Nat} (hn : 1 ≤ n) : Askable ⟨e, p.take n⟩ := by
  obtain ⟨-, he, hp, hcost⟩ := newAttributeKeyPath_eq_ok.1 h.key
  have hfits := h.fits
  obtain ⟨hne, hlen, hpcost, hsegments⟩ := validateAttributePath_eq_ok.1 hp
  have hle : attributePathCost (p.take n) ≤ attributePathCost p := by
    have := sum_map_le_of_subperm (f := textCost) (take_sublist n p).subperm
    simp only [attributePathCost]
    omega
  simp only [attributeKeyCost] at hcost hfits
  refine ⟨newAttributeKeyPath_eq_ok.2 ⟨rfl, he, validateAttributePath_eq_ok.2 ⟨?_, ?_, hle.trans hpcost, ?_⟩, ?_⟩, ?_⟩
  · obtain ⟨s, p, rfl⟩ := exists_cons_of_ne_nil hne
    obtain ⟨n, rfl⟩ := Nat.exists_eq_succ_of_ne_zero (by omega : n ≠ 0)
    simp
  · exact (length_take_le' n p).trans hlen
  · exact fun s hs => hsegments s (mem_of_mem_take hs)
  · simp only [attributeKeyCost]
    omega
  · simp only [attributeKeyCost]
    omega

variable {snapshot : Snapshot} {d : Dataset}

/-- The stored paths strictly above a path are among the prefixes the code looks up. -/
theorem Serves.exists_ancestor (h : Serves snapshot d) (e : EntityRef) (p : Path) :
    ((List.range' 1 (p.length - 1)).any fun n => (d.attributes ⟨e, p.take n⟩).isSome) = true ↔
      ∃ q, q ≠ p ∧ q <+: p ∧ (d.attributes ⟨e, q⟩).isSome := by
  rw [any_eq_true]
  constructor
  · rintro ⟨n, hn, hstored⟩
    obtain ⟨hlo, hhi⟩ := mem_range'_1.1 hn
    refine ⟨p.take n, fun heq => ?_, take_prefix n p, hstored⟩
    have := congrArg List.length heq
    rw [length_take] at this
    omega
  · rintro ⟨q, hne, hq, hstored⟩
    obtain ⟨-, hpath⟩ := AttributeKey.valid_iff.1 (h.stored _ hstored)
    have hq0 : q.length ≠ 0 := fun h0 => (validateAttributePath_eq_ok.1 hpath).1 (eq_nil_of_length_eq_zero h0)
    have hlt : q.length < p.length := lt_of_le_of_ne hq.length_le fun heq => hne (hq.eq_of_length heq)
    refine ⟨q.length, mem_range'_1.2 ⟨by omega, by omega⟩, ?_⟩
    rwa [← prefix_iff_eq_take.1 hq]

/-! ## Additive attributes -/

variable {v w : Value}

theorem equalValue_iff (hv : v.valid = true) (hw : w.valid = true) : equalValue v w = true ↔ v = w := by
  obtain ⟨kind, text, integer, boolean⟩ := v
  obtain ⟨kind', text', integer', boolean'⟩ := w
  cases kind <;> cases kind' <;> simp_all [equalValue, Value.valid]

theorem AttributeResult.valid_value {r : AttributeResult} (h : r.Valid = true) (hv : r.Value = some v) :
    v.valid = true := by
  obtain ⟨key, value, found, mark⟩ := r
  simp only [AttributeResult.Valid, Bool.and_eq_true] at h
  obtain ⟨x, hx⟩ := isOk_iff.1 h.2
  cases found with
  | false => simp [AttributeResult.Value] at hv
  | true =>
    obtain rfl : value = v := by simpa [AttributeResult.Value] using hv
    obtain ⟨canonical, -, hx⟩ := bind_eq_ok.1 hx
    rw [if_pos rfl] at hx
    obtain ⟨a, ha, -⟩ := bind_eq_ok.1 hx
    exact (newAttributePath_eq_ok.1 (orFail_eq_ok.1 ha)).2.2.2.1

theorem AttributeResult.found_eq (r : AttributeResult) : r.found = r.Value.isSome := by
  obtain ⟨key, value, found, mark⟩ := r
  cases found <;> rfl

variable {a : Attribute}

/-- One lookup of the walk down an attribute's path. -/
theorem Serves.checkStoredPrefix (h : Serves snapshot d) (ha : a.value.valid = true) (hkey : Askable a.key)
    (duplicate : Bool) {n : Nat} (hn : 1 ≤ n) :
    checkStoredPrefix snapshot a duplicate n =
      match d.attributes ⟨a.entity, a.path.take n⟩ with
      | none => .ok duplicate
      | some b => if n = a.path.length ∧ b.value = a.value then .ok true else .error .invalidArgument := by
  have htake := hkey.take hn
  obtain ⟨r, hget, hvalid, hrkey, hvalue⟩ := h.get ⟨a.entity, a.path.take n⟩ htake
  simp only [App.checkStoredPrefix, htake.key, ok_bind, hget, hvalid, hrkey, decide_true, Bool.and_self, require_true, hvalue]
  cases hstored : d.attributes ⟨a.entity, a.path.take n⟩ with
  | none => rfl
  | some b =>
    have hb : b.value.valid = true := AttributeResult.valid_value hvalid (by rw [hvalue, hstored]; rfl)
    simp only [Option.map_some]
    by_cases hcond : n = a.path.length ∧ b.value = a.value
    · rw [if_pos hcond, require_eq_ok.2 (by simp [hcond.1, (equalValue_iff hb ha).2 hcond.2])]
      rfl
    · have hfalse : (decide (n = a.path.length) && equalValue b.value a.value) = false := by
        rw [Bool.eq_false_iff]
        intro htrue
        simp only [Bool.and_eq_true, decide_eq_true_eq, equalValue_iff hb ha] at htrue
        exact hcond htrue
      rw [if_neg hcond, hfalse]
      rfl

/-- A loop that only looks for a reason to fail. -/
theorem foldlM_eq_of_bad {α ι : Type} {e : ErrorCategory} {f : α → ι → Result α} {bad : ι → Bool} {l : List ι}
    (hf : ∀ acc, ∀ i ∈ l, f acc i = if bad i then .error e else .ok acc) (acc : α) :
    l.foldlM f acc = if l.any bad then .error e else .ok acc := by
  induction l with
  | nil => rfl
  | cons i l ih =>
    rw [foldlM_cons, hf acc i mem_cons_self, any_cons]
    cases bad i with
    | true => rfl
    | false => exact ih fun acc j hj => hf acc j (mem_cons_of_mem _ hj)

/-- The walk down an attribute's path, and what it says of the attribute itself. -/
theorem Serves.walk (h : Serves snapshot d) (ha : a.value.valid = true) (hkey : Askable a.key) :
    (List.range' 1 a.path.length).foldlM (App.checkStoredPrefix snapshot a) false =
      if (List.range' 1 (a.path.length - 1)).any fun n => (d.attributes ⟨a.entity, a.path.take n⟩).isSome then
        .error .invalidArgument
      else match d.attributes a.key with
        | none => .ok false
        | some b => if b.value = a.value then .ok true else .error .invalidArgument := by
  obtain ⟨-, -, hpath, -⟩ := newAttributeKeyPath_eq_ok.1 hkey.key
  obtain ⟨n, hn⟩ := Nat.exists_eq_succ_of_ne_zero fun h0 : a.path.length = 0 =>
    (validateAttributePath_eq_ok.1 hpath).1 (eq_nil_of_length_eq_zero h0)
  have hsplit : List.range' 1 a.path.length = List.range' 1 (a.path.length - 1) ++ [a.path.length] := by
    rw [hn, Nat.succ_sub_one, Nat.succ_eq_add_one, List.range'_1_concat, Nat.add_comm]
  have habove (acc : Bool) : ∀ i ∈ List.range' 1 (a.path.length - 1), App.checkStoredPrefix snapshot a acc i =
      if (d.attributes ⟨a.entity, a.path.take i⟩).isSome then .error .invalidArgument else .ok acc := by
    intro i hi
    obtain ⟨hlo, hhi⟩ := mem_range'_1.1 hi
    have hne : i ≠ a.path.length := by omega
    rw [h.checkStoredPrefix ha hkey acc hlo]
    cases d.attributes ⟨a.entity, a.path.take i⟩ <;> simp [hne]
  rw [hsplit, foldlM_append, foldlM_eq_of_bad habove]
  split
  · rfl
  · rw [ok_bind, foldlM_cons, h.checkStoredPrefix ha hkey false (by omega), take_length]
    simp only [foldlM_nil, true_and, Attribute.key]
    cases d.attributes ⟨a.entity, a.path⟩ with
    | none => rfl
    | some b =>
      by_cases hvalue : b.value = a.value
      · simp [hvalue]
      · simp [hvalue]

/-- An attribute is accepted exactly when it is declared and overrides nothing; it adds when nothing is stored there. -/
theorem Serves.additive (h : Serves snapshot d) (s : DataSchema) (ha : a.value.valid = true) (hkey : Askable a.key) :
    (s.validAttributePath a.entity a.path = true → ¬ d.Overrides a →
      s.additive snapshot a = .ok (d.attributes a.key).isNone) ∧
    (s.validAttributePath a.entity a.path = false ∨ d.Overrides a → s.additive snapshot a = .error .invalidArgument) := by
  obtain ⟨hasDescendant, hdescendant, hiff⟩ := h.descendant a.key hkey
  have hwalk := h.walk ha hkey
  have hnew : newAttributeKeyPath a.entity a.path = .ok a.key := hkey.key
  have hancestor := h.exists_ancestor a.entity a.path
  have hconflicts : d.Conflicts a.key ↔ (∃ q, q ≠ a.path ∧ q <+: a.path ∧ (d.attributes ⟨a.entity, q⟩).isSome) ∨
      hasDescendant = true := by
    rw [hiff]
    constructor
    · rintro ⟨q, hne, hq | hq, hstored⟩
      · exact .inl ⟨q, hne, hq, hstored⟩
      · exact .inr ⟨q, hne, hq, hstored⟩
    · rintro (⟨q, hne, hq, hstored⟩ | ⟨q, hne, hq, hstored⟩)
      · exact ⟨q, hne, .inl hq, hstored⟩
      · exact ⟨q, hne, .inr hq, hstored⟩
  unfold DataSchema.additive
  rw [hwalk]
  refine ⟨fun hpath hno => ?_, fun hbad => ?_⟩
  · obtain ⟨hvalue, hfree⟩ := not_or.1 hno
    obtain ⟨habove, hbelow⟩ := not_or.1 (mt hconflicts.2 hfree)
    rw [hpath, require_true, ok_bind, if_neg (mt hancestor.1 habove), hnew]
    simp only [ok_bind, hdescendant, Bool.eq_false_iff.2 hbelow, Bool.not_false, require_true]
    cases hstored : d.attributes a.key with
    | none => rfl
    | some b =>
      have hsame : b.value = a.value := by_contra fun hne => hvalue ⟨b, hstored, hne⟩
      simp [hsame]
  · cases hpath : s.validAttributePath a.entity a.path with
    | false => rfl
    | true =>
      rw [require_true, ok_bind]
      -- the walk fails, or accepts and the descendants do
      split
      · rfl
      next habove =>
        rcases hbad with hbad | ⟨b, hstored, hne⟩ | hbad
        · rw [hpath] at hbad
          cases hbad
        · simp [hstored, hne]
        · have hbelow : hasDescendant = true := (hconflicts.1 hbad).resolve_left (mt hancestor.2 habove)
          rw [hnew]
          simp only [ok_bind, hdescendant, hbelow, Bool.not_true]
          cases d.attributes a.key with
          | none => rfl
          | some b => by_cases hvalue : b.value = a.value <;> simp [hvalue, require]

/-! ## Normalization -/

/-- Some guard of the entity compares the field. -/
def DeclaredIn (schema : Schema) (k : AttributeKey) : Prop :=
  ∃ g ∈ schema.guards, g.entity = k.entity.type ∧ k.path ∈ g.resourceFields

/-- The attributes of built facts are valid, and their keys within the limits. -/
theorem key_of_mem_contextual {tuples attributes contextual}
    (h : newContextualData tuples attributes = .ok contextual) (ha : a ∈ contextual.attributes) :
    a.value.valid = true ∧ Askable a.key := by
  obtain ⟨-, -, hcost, -, hvalid, -, has⟩ := newContextualData_eq_ok.1 h
  have hmem : a ∈ attributes := ((sortedSet_canonicalAttributes has).mem_iff a).1 ha
  obtain ⟨hkey, hvalue⟩ := Attribute.valid_iff.1 (hvalid a hmem)
  obtain ⟨hentity, hpath⟩ := AttributeKey.valid_iff.1 hkey
  -- the facts' own cost leaves room for the answer
  have hle := sum_map_le_of_subperm (f := attributeCost) (singleton_subperm_iff.2 hmem)
  simp only [map_cons, map_nil, sum_cons, sum_nil] at hle
  have hcost : attributeKeyCost a.key + (2 * collectionMetadataBytes + valueMetadataBytes) ≤ maxAggregateInputBytes := by
    simp only [contextualDataCost, attributeCost, valueCost, attributeKeyCost, Attribute.key] at hcost hle ⊢
    omega
  refine ⟨hvalue, newAttributeKeyPath_eq_ok.2 ⟨rfl, hentity, hpath, (Nat.le_add_right _ _).trans hcost⟩, ?_⟩
  simp only [valueCost, Value.zero, reduceCtorEq, if_false, collectionMetadataBytes, fieldMetadataBytes, boolBytes,
    valueMetadataBytes, maxAggregateInputBytes, maxAggregateOutputBytes] at hcost ⊢
  omega

section Normalization

variable {snapshot : Snapshot} {d : Dataset} {schema : Schema} {s : DataSchema} {tuples : List RelationshipTuple}
  {attributes : List Attribute} {contextual : ContextualData}

/-- One attribute of built facts: refused, or added unless it is stored already. -/
theorem Serves.additive_contextual (h : Serves snapshot d) (hs : Indexed schema.guards s)
    (hbuilt : newContextualData tuples attributes = .ok contextual) (ha : a ∈ contextual.attributes) :
    (DeclaredIn schema a.key ∧ ¬ d.Overrides a → s.additive snapshot a = .ok (d.attributes a.key).isNone) ∧
      (¬ DeclaredIn schema a.key ∨ d.Overrides a → s.additive snapshot a = .error .invalidArgument) := by
  obtain ⟨hvalue, hkey⟩ := key_of_mem_contextual hbuilt ha
  have hdeclared : s.validAttributePath a.entity a.path = true ↔ DeclaredIn schema a.key := hs.validAttributePath _ _
  obtain ⟨haccepts, hrefuses⟩ := h.additive s hvalue hkey
  rw [← hdeclared]
  refine ⟨fun hok => haccepts hok.1 hok.2, fun hbad => hrefuses ?_⟩
  rwa [Bool.not_eq_true] at hbad

theorem Serves.normalize_error (h : Serves snapshot d) (hs : Indexed schema.guards s)
    (hbuilt : newContextualData tuples attributes = .ok contextual)
    (hbad : ∃ a ∈ contextual.attributes, ¬ DeclaredIn schema a.key ∨ d.Overrides a) :
    s.NormalizeContextualData snapshot contextual = .error .invalidArgument := by
  have hsame : newContextualData contextual.tuples contextual.attributes = .ok contextual :=
    newContextualData_part hbuilt (List.Sublist.refl _)
  have houtcome : Outcome (· = .invalidArgument) (fun _ => True) (contextual.attributes.foldlM (fun additive a => do
      let adds ← s.additive snapshot a
      .ok (if adds then additive ++ [a] else additive)) ([] : List Attribute)) := by
    refine Outcome.foldlM _ (fun kept a ha _ => ?_) trivial
    obtain ⟨haccepts, hrefuses⟩ := h.additive_contextual hs hbuilt ha
    by_cases hok : DeclaredIn schema a.key ∧ ¬ d.Overrides a
    · rw [haccepts hok]
      exact .ok trivial
    · rw [hrefuses (by rwa [not_and_or, not_not] at hok)]
      exact .error rfl
  rw [DataSchema.NormalizeContextualData, hsame, ok_bind]
  generalize hfold : contextual.attributes.foldlM (m := Except ErrorCategory) _ _ = result at houtcome ⊢
  cases result with
  | error e => exact congrArg Except.error houtcome
  | ok kept =>
    obtain ⟨a, ha, hbad⟩ := hbad
    have hok := (additive_foldlM_eq_ok.1 hfold).1 a ha
    rw [(h.additive_contextual hs hbuilt ha).2 hbad] at hok
    cases hok

theorem Serves.normalize_ok (h : Serves snapshot d) (hs : Indexed schema.guards s)
    (hbuilt : newContextualData tuples attributes = .ok contextual)
    (hgood : ∀ a ∈ contextual.attributes, DeclaredIn schema a.key ∧ ¬ d.Overrides a) :
    s.NormalizeContextualData snapshot contextual =
      .ok ⟨contextual.tuples, contextual.attributes.filter fun a => (d.attributes a.key).isNone⟩ := by
  have hadditive (a : Attribute) (ha : a ∈ contextual.attributes) :=
    (h.additive_contextual hs hbuilt ha).1 (hgood a ha)
  have hfilter : contextual.attributes.filter (s.adds snapshot) =
      contextual.attributes.filter fun a => (d.attributes a.key).isNone :=
    filter_congr fun a ha => by rw [DataSchema.adds, hadditive a ha]
  refine normalizeContextualData_eq_ok.2 ⟨contextual, newContextualData_part hbuilt (List.Sublist.refl _), fun a ha => ?_, ?_⟩
  · rw [hadditive a ha]
    rfl
  · rw [hfilter]
    exact newContextualData_part hbuilt filter_sublist

/-- Normalization refuses the facts, or accepts them all. -/
theorem Serves.normalize_cases (h : Serves snapshot d) (hs : Indexed schema.guards s)
    (hbuilt : newContextualData tuples attributes = .ok contextual) :
    ((∃ a ∈ contextual.attributes, ¬ DeclaredIn schema a.key ∨ d.Overrides a) ∧
      s.NormalizeContextualData snapshot contextual = .error .invalidArgument) ∨
    ((∀ a ∈ contextual.attributes, DeclaredIn schema a.key ∧ ¬ d.Overrides a) ∧
      s.NormalizeContextualData snapshot contextual =
        .ok ⟨contextual.tuples, contextual.attributes.filter fun a => (d.attributes a.key).isNone⟩) := by
  by_cases hbad : ∃ a ∈ contextual.attributes, ¬ DeclaredIn schema a.key ∨ d.Overrides a
  · exact .inl ⟨hbad, h.normalize_error hs hbuilt hbad⟩
  · have hgood (a : Attribute) (ha : a ∈ contextual.attributes) : DeclaredIn schema a.key ∧ ¬ d.Overrides a := by
      have hnot : ¬ (¬ DeclaredIn schema a.key ∨ d.Overrides a) := fun hor => hbad ⟨a, ha, hor⟩
      exact ⟨not_not.1 (not_or.1 hnot).1, (not_or.1 hnot).2⟩
    exact .inr ⟨hgood, h.normalize_ok hs hbuilt hgood⟩

end Normalization

/-! ## The union -/

/-- A value is stored at the key, or a contextual attribute has it. -/
def View (d : Dataset) (attributes : List Attribute) (k : AttributeKey) (v : Value) : Prop :=
  (∃ b, d.attributes k = some b ∧ b.value = v) ∨ ∃ a ∈ attributes, a.key = k ∧ a.value = v

/-- Attributes that add to a dataset: apart from each other and from what is stored. -/
structure Additive (d : Dataset) (attributes : List Attribute) : Prop where
  apart : attributes.Pairwise Attribute.Apart
  unstored : ∀ a ∈ attributes, d.attributes a.key = none ∧ ¬ d.Conflicts a.key
  valid : ∀ a ∈ attributes, a.value.valid = true

theorem pairwise_apart_eq {attributes : List Attribute} (h : attributes.Pairwise Attribute.Apart) {b : Attribute}
    (ha : a ∈ attributes) (hb : b ∈ attributes) (he : a.entity = b.entity) (hp : a.path <+: b.path) : a = b := by
  by_contra hne
  exact h.forall ha hb hne ⟨he, .inl hp⟩

variable {d : Dataset} {attributes : List Attribute}

theorem Additive.unique (h : Additive d attributes) {k : AttributeKey} (hv : View d attributes k v)
    (hw : View d attributes k w) : v = w := by
  rcases hv with ⟨b, hb, rfl⟩ | ⟨a, ha, rfl, rfl⟩
  · rcases hw with ⟨c, hc, rfl⟩ | ⟨a, ha, rfl, -⟩
    · rw [hb] at hc
      rw [Option.some.inj hc]
    · rw [(h.unstored a ha).1] at hb
      cases hb
  · rcases hw with ⟨c, hc, rfl⟩ | ⟨a', ha', hkey, rfl⟩
    · rw [(h.unstored a ha).1] at hc
      cases hc
    · obtain ⟨he, hp⟩ := AttributeKey.mk.inj hkey
      rw [pairwise_apart_eq h.apart ha' ha he (hp ▸ prefix_rfl)]

theorem Additive.prefixFree (h : Additive d attributes) (hfree : d.PrefixFree) {q : Path}
    (hv : View d attributes ⟨e, p⟩ v) (hw : View d attributes ⟨e, q⟩ w) (hpq : p <+: q) : p = q := by
  rcases hv with ⟨b, hb, -⟩ | ⟨a, ha, hkey, -⟩ <;> rcases hw with ⟨c, hc, -⟩ | ⟨a', ha', hkey', -⟩
  · exact hfree (by rw [hb]; rfl) (by rw [hc]; rfl) hpq
  · by_contra hne
    refine (h.unstored a' ha').2 ⟨p, ?_⟩
    rw [hkey']
    exact ⟨hne, .inl hpq, by rw [hb]; rfl⟩
  · by_contra hne
    refine (h.unstored a ha).2 ⟨q, ?_⟩
    rw [hkey]
    exact ⟨fun heq => hne heq.symm, .inr hpq, by rw [hc]; rfl⟩
  · obtain ⟨rfl, rfl⟩ := AttributeKey.mk.inj hkey
    obtain ⟨he, rfl⟩ := AttributeKey.mk.inj hkey'
    rw [pairwise_apart_eq h.apart ha ha' he.symm hpq]

/-- The facts of an opened session add to what its snapshot stores. -/
theorem additive_of_gathered [Dsl] {ports : Ports} {schema : Schema} {s : DataSchema} {request : SharedRequest}
    {contextual : ContextualData} (h : Gathered ports s snapshot request contextual) (hs : Indexed schema.guards s)
    (hserves : Serves snapshot d) : Additive d contextual.attributes := by
  have hnormal (e : ContextualData) (he : s.NormalizeContextualData snapshot e = .ok contextual) :
      Additive d contextual.attributes := by
    obtain ⟨validated, hbuilt, hall, hout⟩ := normalizeContextualData_eq_ok.1 he
    have hsame : newContextualData validated.tuples validated.attributes = .ok validated :=
      newContextualData_part hbuilt (List.Sublist.refl _)
    have hagain : s.NormalizeContextualData snapshot validated = .ok contextual :=
      normalizeContextualData_eq_ok.2 ⟨validated, hsame, hall, hout⟩
    rcases hserves.normalize_cases hs hbuilt with ⟨-, herror⟩ | ⟨hgood, hok⟩
    · rw [hagain] at herror
      cases herror
    obtain rfl := Except.ok.inj (hok.symm.trans hagain)
    obtain ⟨-, -, -, -, -, -, has⟩ := newContextualData_eq_ok.1 hbuilt
    refine ⟨(pairwise_apart_of_canonical has).sublist filter_sublist, fun a ha => ?_, fun a ha => ?_⟩
    · obtain ⟨ha, hnone⟩ := mem_filter.1 ha
      exact ⟨Option.isNone_iff_eq_none.1 hnone, (not_or.1 (hgood a ha).2).2⟩
    · exact (key_of_mem_contextual hbuilt (mem_filter.1 ha).1).1
  cases h with
  | own _ h => exact hnormal _ h
  | delegated _ _ _ _ _ h => exact hnormal _ h

/-! ## Resolving one path -/

/-- A fold that remembers the last hit. -/
theorem foldl_last_hit {α β : Type} {P : α → Prop} [DecidablePred P] (f : α → β) (l : List α) :
    l.foldl (fun found a => if P a then some (f a) else found) none = (l.filter P).getLast?.map f := by
  induction l using List.reverseRecOn with
  | nil => rfl
  | append_singleton l a ih =>
    rw [foldl_append, ih, filter_append]
    by_cases ha : P a <;> simp [ha]

/-- At most one contextual attribute has a key, so the last one found is it. -/
theorem contextualValue_eq_some {r : SnapshotReader} (h : r.contextual.attributes.Pairwise Attribute.Apart) :
    r.contextualValue e p = some v ↔ ∃ a ∈ r.contextual.attributes, a.key = ⟨e, p⟩ ∧ a.value = v := by
  rw [SnapshotReader.contextualValue, foldl_last_hit, Option.map_eq_some_iff]
  constructor
  · rintro ⟨a, hlast, rfl⟩
    obtain ⟨hmem, hhit⟩ := mem_filter.1 (mem_of_getLast? hlast)
    obtain ⟨rfl, rfl⟩ := of_decide_eq_true hhit
    exact ⟨a, hmem, rfl, rfl⟩
  · rintro ⟨a, ha, hkey, rfl⟩
    obtain ⟨rfl, rfl⟩ := AttributeKey.mk.inj hkey
    have hmem : a ∈ r.contextual.attributes.filter fun b => b.entity = a.entity ∧ b.path = a.path :=
      mem_filter.2 ⟨ha, by simp⟩
    obtain ⟨b, hb⟩ := Option.ne_none_iff_exists'.1 fun hnone => ne_nil_of_mem hmem (getLast?_eq_none_iff.1 hnone)
    obtain ⟨hbmem, hhit⟩ := mem_filter.1 (mem_of_getLast? hb)
    obtain ⟨he, hp⟩ := of_decide_eq_true hhit
    obtain rfl := pairwise_apart_eq h hbmem ha he (hp ▸ prefix_rfl)
    exact ⟨b, hb, rfl⟩

theorem resolveValue_of_valid (h : v.valid = true) : ∃ x, resolveValue v = .ok x := by
  obtain ⟨kind, text, integer, boolean⟩ := v
  cases kind
  · simp [Value.valid] at h
  all_goals exact ⟨_, rfl⟩

theorem pathPrefix_iff {q : Path} : pathPrefix p q = true ↔ p ≠ q ∧ p <+: q := by
  simp only [pathPrefix, Bool.and_eq_true, decide_eq_true_eq, isPrefixOf_iff_prefix]
  constructor
  · rintro ⟨hlt, hpq⟩
    exact ⟨fun heq => by simp [heq] at hlt, hpq⟩
  · rintro ⟨hne, hpq⟩
    exact ⟨lt_of_le_of_ne hpq.length_le fun heq => hne (hpq.eq_of_length heq), hpq⟩

section Resolve

variable {r : SnapshotReader} {e : EntityRef} {p : Path}

/-- Where something is stored no contextual path stands above or below. -/
theorem contextualPathConflict_of_stored (hadd : Additive d r.contextual.attributes)
    (hstored : (d.attributes ⟨e, p⟩).isSome) : r.contextualPathConflict e p = false := by
  rw [SnapshotReader.contextualPathConflict, any_eq_false]
  intro a ha hconflict
  simp only [Bool.and_eq_true, decide_eq_true_eq, Bool.or_eq_true, pathPrefix_iff] at hconflict
  obtain ⟨⟨rfl, hne⟩, hpre⟩ := hconflict
  refine (hadd.unstored a ha).2 ⟨p, fun heq => hne heq.symm, ?_, hstored⟩
  exact hpre.elim (fun h => .inr h.2) fun h => .inl h.2

/-- Around a contextual attribute nothing is stored. -/
theorem rejectPersistentPathConflict_ok (hserves : Serves r.snapshot d) (hadd : Additive d r.contextual.attributes)
    (hkey : Askable ⟨e, p⟩) (ha : a ∈ r.contextual.attributes) (hak : a.key = ⟨e, p⟩) :
    r.rejectPersistentPathConflict e p ⟨e, p⟩ = .ok () := by
  obtain ⟨-, hfree⟩ := hadd.unstored a ha
  rw [hak] at hfree
  obtain ⟨b, hdescendant, hiff⟩ := hserves.descendant ⟨e, p⟩ hkey
  have hb : b = false := by
    rw [Bool.eq_false_iff]
    intro htrue
    obtain ⟨q, hne, hpq, hstored⟩ := hiff.1 htrue
    exact hfree ⟨q, hne, .inr hpq, hstored⟩
  simp only [SnapshotReader.rejectPersistentPathConflict, hdescendant, ok_bind, hb, Bool.not_false, require_true,
    forM_eq_ok]
  intro n hn
  obtain ⟨hlo, hhi⟩ := mem_range'_1.1 hn
  have htake := hkey.take hlo
  obtain ⟨result, hget, hvalid, hrkey, hvalue⟩ := hserves.get ⟨e, p.take n⟩ htake
  have hnone : d.attributes ⟨e, p.take n⟩ = none := by
    by_contra hsome
    refine hfree ⟨p.take n, fun heq => ?_, .inl (List.take_prefix n p), Option.isSome_iff_ne_none.2 hsome⟩
    have hlength : (p.take n).length = p.length := congrArg List.length heq
    rw [length_take] at hlength
    omega
  have hfound : result.found = false := by rw [AttributeResult.found_eq, hvalue, hnone]; rfl
  simp [htake.key, hget, hvalid, hrkey, hfound]

/-- A declared path resolves to its value in the union, or to nothing. -/
theorem resolveAttribute_eq (hserves : Serves r.snapshot d) (hadd : Additive d r.contextual.attributes)
    (hkey : Askable ⟨e, p⟩) :
    (∃ v x, View d r.contextual.attributes ⟨e, p⟩ v ∧ resolveValue v = .ok x ∧ r.ResolveAttribute e p = .ok (some x)) ∨
      ((∀ v, ¬ View d r.contextual.attributes ⟨e, p⟩ v) ∧ r.ResolveAttribute e p = .ok none) := by
  obtain ⟨result, hget, hvalid, hrkey, hvalue⟩ := hserves.get ⟨e, p⟩ hkey
  have hfound := AttributeResult.found_eq result
  rw [hvalue] at hfound
  simp only [SnapshotReader.ResolveAttribute, hkey.key, orFail_ok, ok_bind, hget, hvalid, hrkey, decide_true, Bool.and_self,
    require_true, hvalue, hfound]
  cases hcontextual : r.contextualValue e p with
  | some v =>
    obtain ⟨a, ha, hak, rfl⟩ := (contextualValue_eq_some hadd.apart).1 hcontextual
    have hnone : d.attributes ⟨e, p⟩ = none := hak ▸ (hadd.unstored a ha).1
    obtain ⟨x, hx⟩ := resolveValue_of_valid (hadd.valid a ha)
    refine .inl ⟨a.value, x, .inr ⟨a, ha, hak, rfl⟩, hx, ?_⟩
    simp [hnone, rejectPersistentPathConflict_ok hserves hadd hkey ha hak, hx]
  | none =>
    have hno (v : Value) : ¬ ∃ a ∈ r.contextual.attributes, a.key = ⟨e, p⟩ ∧ a.value = v := fun h => by
      rw [(contextualValue_eq_some hadd.apart).2 h] at hcontextual
      cases hcontextual
    cases hstored : d.attributes ⟨e, p⟩ with
    | none =>
      refine .inr ⟨?_, by simp⟩
      rintro v (⟨b, hb, -⟩ | hv)
      · rw [hstored] at hb
        cases hb
      · exact hno v hv
    | some b =>
      have hb : b.value.valid = true := AttributeResult.valid_value hvalid (by rw [hvalue, hstored]; rfl)
      obtain ⟨x, hx⟩ := resolveValue_of_valid hb
      have hconflict := contextualPathConflict_of_stored hadd (e := e) (p := p) (by rw [hstored]; rfl)
      exact .inl ⟨b.value, x, .inl ⟨b, hstored, rfl⟩, hx, by simp [hconflict, hx]⟩

end Resolve

/-! ## Resolving the paths of an action -/

section Resources

variable [Dsl] {session : Session} {resource : EntityRef}

/-- The declared part of the union, as the values of the language. -/
def Resolved (d : Dataset) (attributes : List Attribute) (resource : EntityRef) (declared : Path → Prop) (p : Path)
    (x : Scalar) : Prop :=
  declared p ∧ ∃ v, View d attributes ⟨resource, p⟩ v ∧ resolveValue v = .ok x

omit [Dsl] in
theorem chargeAttribute_run (items bytes : Nat) (b : Budgets) :
    chargeAttribute items bytes b = .error .resourceExhausted ∨ ∃ b', chargeAttribute items bytes b = .ok ((), b') := by
  cases hb : addWork items bytes b.attribute_ with
  | ok w => exact .inr ⟨_, by simp only [chargeAttribute, charge, hb]; rfl⟩
  | error e =>
    obtain rfl : e = .resourceExhausted := by
      unfold addWork at hb
      split at hb
      · cases hb
      · split at hb <;> cases hb
        rfl
    exact .inl (by simp only [chargeAttribute, charge, hb]; rfl)

variable {p : Path} {m : ResourceAttributes}

omit [Dsl] in
/-- Inserting one path of a union that is single-valued and prefix-free. -/
theorem represents_insert (hadd : Additive d attributes) (hfree : d.PrefixFree) {done x}
    (hv : View d attributes ⟨resource, p⟩ v) (hx : resolveValue v = .ok x) (hne : p ≠ []) (hp : p ∉ done)
    (hm : Nested.Represents m (Resolved d attributes resource (· ∈ done))) :
    ∃ m', Nested.insert compare m p x = some m' ∧
      Nested.Represents m' (Resolved d attributes resource (· ∈ done ++ [p])) := by
  have hapart (q : Path) (w : Scalar) (hq : Resolved d attributes resource (· ∈ done) q w) : ¬ q <+: p ∧ ¬ p <+: q := by
    obtain ⟨hdone, u, hu, -⟩ := hq
    have hqp : q ≠ p := fun heq => hp (heq ▸ hdone)
    exact ⟨fun h => hqp (hadd.prefixFree hfree hu hv h), fun h => hqp (hadd.prefixFree hfree hv hu h).symm⟩
  have hinserted : ∃ m', Nested.insert compare m p x = some m' ∧ Nested.Represents m'
      fun q w => q = p ∧ w = x ∨ Resolved d attributes resource (· ∈ done) q w := hm.insert x hne hapart
  obtain ⟨m', hinsert, hm'⟩ := hinserted
  refine ⟨m', hinsert, ?_⟩
  have hsame : (fun q w => q = p ∧ w = x ∨ Resolved d attributes resource (· ∈ done) q w) =
      Resolved d attributes resource (· ∈ done ++ [p]) := by
    funext q w
    refine propext ⟨?_, ?_⟩
    · rintro (⟨rfl, rfl⟩ | ⟨hdone, hview⟩)
      · exact ⟨by simp, v, hv, hx⟩
      · exact ⟨mem_append_left _ hdone, hview⟩
    · rintro ⟨hdone, u, hu, hw⟩
      rcases mem_append.1 hdone with hdone | hdone
      · exact .inr ⟨hdone, u, hu, hw⟩
      · obtain rfl := mem_singleton.1 hdone
        obtain rfl := hadd.unique hv hu
        exact .inl ⟨rfl, Except.ok.inj (hw.symm.trans hx)⟩
  rwa [hsame] at hm'

/-- One more path: charged for, and inserted when the union has it. -/
theorem resolveResourcePath_step (hserves : Serves session.reader.snapshot d)
    (hadd : Additive d session.reader.contextual.attributes) (hfree : d.PrefixFree) {done : List Path}
    (hkey : Askable ⟨resource, p⟩) (hp : p ∉ done)
    (hm : Nested.Represents m (Resolved d session.reader.contextual.attributes resource (· ∈ done))) (b : Budgets) :
    resolveResourcePath session resource m p b = .error .resourceExhausted ∨
      ∃ m' b', resolveResourcePath session resource m p b = .ok (m', b') ∧
        Nested.Represents m' (Resolved d session.reader.contextual.attributes resource (· ∈ done ++ [p])) := by
  obtain ⟨-, -, hpath, -⟩ := newAttributeKeyPath_eq_ok.1 hkey.key
  have hne := (validateAttributePath_eq_ok.1 hpath).1
  unfold resolveResourcePath
  rcases chargeAttribute_run (p.length + 2) (8 * p.length + (p.map List.length).sum) b with hb | ⟨b₁, hb⟩
  · exact .inl (by rw [bind_run, hb]; rfl)
  rw [bind_run, hb, ok_bind]
  rcases resolveAttribute_eq hserves hadd hkey with ⟨v, x, hv, hx, hresolve⟩ | ⟨hnone, hresolve⟩
  · have hlift : (liftM (Except.ok (some x) : Result _) : Evaluator _) b₁ = .ok (some x, b₁) := rfl
    rw [bind_run, hresolve, hlift, ok_bind]
    dsimp only
    rcases chargeAttribute_run 0 (scalarBytes x) b₁ with hb₁ | ⟨b₂, hb₁⟩
    · exact .inl (by rw [bind_run, hb₁]; rfl)
    · obtain ⟨m', hinsert, hm'⟩ := represents_insert hadd hfree hv hx hne hp hm
      refine .inr ⟨m', b₂, ?_, hm'⟩
      rw [bind_run, hb₁, ok_bind]
      simp only [hinsert]
      rfl
  · refine .inr ⟨m, b₁, by rw [bind_run, hresolve]; rfl, ?_⟩
    have hsame : Resolved d session.reader.contextual.attributes resource (· ∈ done) =
        Resolved d session.reader.contextual.attributes resource (· ∈ done ++ [p]) := by
      funext q w
      refine propext ⟨fun ⟨hdone, hview⟩ => ⟨mem_append_left _ hdone, hview⟩, ?_⟩
      rintro ⟨hdone, u, hu, hw⟩
      rcases mem_append.1 hdone with hdone | hdone
      · exact ⟨hdone, u, hu, hw⟩
      · obtain rfl := mem_singleton.1 hdone
        exact absurd hu (hnone u)
    rwa [← hsame]

/-- The loop over the declared paths. -/
theorem resolveResourceAttributes_loop (hserves : Serves session.reader.snapshot d)
    (hadd : Additive d session.reader.contextual.attributes) (hfree : d.PrefixFree) (done rest : List Path)
    (hkeys : ∀ p ∈ rest, Askable ⟨resource, p⟩) (hnodup : (done ++ rest).Nodup)
    (hm : Nested.Represents m (Resolved d session.reader.contextual.attributes resource (· ∈ done))) (b : Budgets) :
    rest.foldlM (resolveResourcePath session resource) m b = .error .resourceExhausted ∨
      ∃ m' b', rest.foldlM (resolveResourcePath session resource) m b = .ok (m', b') ∧
        Nested.Represents m' (Resolved d session.reader.contextual.attributes resource (· ∈ done ++ rest)) := by
  induction rest generalizing done m b with
  | nil => exact .inr ⟨m, b, rfl, by rwa [append_nil]⟩
  | cons p rest ih =>
    have hp : p ∉ done := fun hp => (nodup_append.1 hnodup).2.2 p hp p mem_cons_self rfl
    rw [foldlM_cons, bind_run]
    rcases resolveResourcePath_step hserves hadd hfree (hkeys p mem_cons_self) hp hm b with hb | ⟨m₁, b₁, hb, hm₁⟩
    · exact .inl (by rw [hb]; rfl)
    · rw [hb, ok_bind, append_cons]
      rw [append_cons] at hnodup
      exact ih (done ++ [p]) (fun q hq => hkeys q (mem_cons_of_mem _ hq)) hnodup hm₁ b₁

omit [Dsl] in
/-- A field of the resource has at least one segment. -/
theorem ne_nil_of_mem_resourceFields {g : Guard} (h : p ∈ g.resourceFields) : p ≠ [] := by
  obtain ⟨c, -, hp⟩ := mem_flatMap.1 h
  clear h
  induction c with
  | comparison field =>
    rcases field with - | ⟨root, - | ⟨segment, rest⟩⟩
    · simp [Condition.resourceFields] at hp
    · simp [Condition.resourceFields] at hp
    · simp only [Condition.resourceFields] at hp
      split at hp
      · rw [mem_singleton.1 hp]
        exact cons_ne_nil _ _
      · cases hp
  | logical left right ihl ihr => exact (mem_append.1 hp).elim ihl ihr
  | other => cases hp

/-- The fields a policy compares are made of the identifiers of the language. -/
def LanguageFields (schema : Schema) : Prop :=
  ∀ g ∈ schema.guards, ∀ p ∈ g.resourceFields, ∀ segment ∈ p,
    validateIdentifier segment = .ok () ∧ validDSLIdentifier segment = true

/-- The guard of the action compares the field. -/
def DeclaredFor (schema : Schema) (resource : EntityRef) (action : Bytes) (p : Path) : Prop :=
  ∃ g, guardOf schema.guards resource.type action = some g ∧ p ∈ g.resourceFields

/-- The path and its key are within the limits of a request and of an answer. -/
structure WithinLimits (resource : EntityRef) (p : Path) : Prop where
  segments : p.length ≤ maxAggregateWorkItems
  answer : attributeKeyCost ⟨resource, p⟩ + (fieldMetadataBytes + boolBytes + valueCost .zero) ≤ maxAggregateOutputBytes

omit [Dsl] in
theorem askable_of_declared {schema action} (hresource : validateEntityRef resource = .ok ())
    (hfields : LanguageFields schema) (hp : DeclaredFor schema resource action p) (hlimits : WithinLimits resource p) :
    Askable ⟨resource, p⟩ := by
  obtain ⟨g, hguard, hmem⟩ := hp
  have hg : g ∈ schema.guards := mem_reverse.1 (mem_of_find?_eq_some hguard)
  have hcost : attributeKeyCost ⟨resource, p⟩ ≤ maxAggregateInputBytes := (Nat.le_add_right _ _).trans hlimits.answer
  have hpath : attributePathCost p ≤ maxAggregateInputBytes := by
    simp only [attributeKeyCost] at hcost
    omega
  refine ⟨newAttributeKeyPath_eq_ok.2 ⟨rfl, hresource, ?_, hcost⟩, hlimits.answer⟩
  exact validateAttributePath_eq_ok.2 ⟨ne_nil_of_mem_resourceFields hmem, hlimits.segments, hpath, hfields g hg p hmem⟩

/-- The nested map of an action has the declared part of the union, and nothing else. -/
theorem resolveResourceAttributes_represents (hserves : Serves session.reader.snapshot d)
    (hadd : Additive d session.reader.contextual.attributes) (hfree : d.PrefixFree) {schema : Schema}
    (hs : Indexed schema.guards session.schema) {action : Bytes} (hkeys : ∀ p, DeclaredFor schema resource action p →
      Askable ⟨resource, p⟩) (b : Budgets) :
    resolveResourceAttributes session resource action b = .error .resourceExhausted ∨
      ∃ m b', resolveResourceAttributes session resource action b = .ok (m, b') ∧
        Nested.Represents m (Resolved d session.reader.contextual.attributes resource
          (DeclaredFor schema resource action)) := by
  have hmem (p : Path) : p ∈ session.schema.ResourcePaths resource.type action ↔ DeclaredFor schema resource action p :=
    hs.resources resource.type action p
  have hstart : Nested.Represents ([] : ResourceAttributes)
      (Resolved d session.reader.contextual.attributes resource (· ∈ ([] : List Path))) := by
    have hempty : Resolved d session.reader.contextual.attributes resource (· ∈ ([] : List Path)) = fun _ _ => False := by
      funext p x
      exact propext ⟨fun h => absurd h.1 not_mem_nil, False.elim⟩
    rw [hempty]
    exact Nested.represents_nil
  have hloop := resolveResourceAttributes_loop hserves hadd hfree [] (session.schema.ResourcePaths resource.type action)
    (fun p hp => hkeys p ((hmem p).1 hp)) (hs.nodup _ _) hstart b
  simp only [nil_append, hmem] at hloop
  exact hloop

end Resources

/-! ## The attribute view -/

/-- Over a snapshot that serves a prefix-free dataset: normalization refuses built facts exactly when an attribute is
undeclared or overrides, and drops what is stored already; in an opened session the union of stored and contextual
attributes is single-valued and prefix-free, and the map of every action is exactly its declared part. -/
theorem attribute_view [Dsl] {snapshot : Snapshot} {d : Dataset} (hserves : Serves snapshot d) (hfree : d.PrefixFree) :
    (∀ {artifact : Artifact} {schema : Schema} {s : DataSchema} {tuples : List RelationshipTuple}
        {attributes : List Attribute} {contextual : ContextualData}, Dsl.parse artifact = some schema →
      newDataSchema artifact = .ok s → newContextualData tuples attributes = .ok contextual →
      ((∃ e, s.NormalizeContextualData snapshot contextual = .error e) ↔
        ∃ a ∈ contextual.attributes, ¬ DeclaredIn schema a.key ∨ d.Overrides a) ∧
      (∀ e, s.NormalizeContextualData snapshot contextual = .error e → e = .invalidArgument) ∧
      ∀ out, s.NormalizeContextualData snapshot contextual = .ok out →
        out = ⟨contextual.tuples, contextual.attributes.filter fun a => (d.attributes a.key).isNone⟩) ∧
    ∀ {ports : Ports} {caller : Caller} {request : SharedRequest} {fingerprint : Bytes} {session : Session}
        {schema : Schema} {b b' : Budgets},
      openEvaluationSession ports caller request fingerprint b = .ok (session, b') →
      session.reader.snapshot = snapshot → Dsl.parse session.artifact = some schema →
      (∀ k v w, View d session.reader.contextual.attributes k v → View d session.reader.contextual.attributes k w →
        v = w) ∧
      (∀ e p q v w, View d session.reader.contextual.attributes ⟨e, p⟩ v →
        View d session.reader.contextual.attributes ⟨e, q⟩ w → p <+: q → p = q) ∧
      ∀ (resource : EntityRef) (action : Bytes) (b : Budgets), validateEntityRef resource = .ok () →
        LanguageFields schema → (∀ p, DeclaredFor schema resource action p → WithinLimits resource p) →
        resolveResourceAttributes session resource action b = .error .resourceExhausted ∨
          ∃ m b', resolveResourceAttributes session resource action b = .ok (m, b') ∧
            Nested.Represents m (Resolved d session.reader.contextual.attributes resource
              (DeclaredFor schema resource action)) := by
  refine ⟨fun {artifact schema s tuples attributes contextual} hparse hschema hbuilt => ?_,
    fun {ports caller request fingerprint session schema b b'} hopen hsnapshot hparse => ?_⟩
  · obtain ⟨schema', hparse', hs⟩ := indexed_of_newDataSchema hschema
    obtain rfl := Option.some.inj (hparse.symm.trans hparse')
    rcases hserves.normalize_cases hs hbuilt with ⟨hbad, herror⟩ | ⟨hgood, hok⟩
    · refine ⟨iff_of_true ⟨_, herror⟩ hbad, fun e he => ?_, fun out hout => ?_⟩
      · exact (Except.error.inj (herror.symm.trans he)).symm
      · rw [herror] at hout
        cases hout
    · refine ⟨iff_of_false ?_ ?_, fun e he => ?_, fun out hout => (Except.ok.inj (hok.symm.trans hout)).symm⟩
      · rintro ⟨e, he⟩
        rw [hok] at he
        cases he
      · rintro ⟨a, ha, hbad⟩
        exact hbad.elim (fun h => h (hgood a ha).1) (hgood a ha).2
      · rw [hok] at he
        cases he
  · subst hsnapshot
    have hopened := opened_of_openEvaluationSession hopen
    obtain ⟨schema', hparse', hs⟩ := indexed_of_newDataSchema hopened.schema
    obtain rfl := Option.some.inj (hparse.symm.trans hparse')
    have hadd := additive_of_gathered hopened.facts hs hserves
    refine ⟨fun k v w => hadd.unique, fun e p q v w => hadd.prefixFree hfree, ?_⟩
    intro resource action b hresource hfields hlimits
    exact resolveResourceAttributes_represents hserves hadd hfree hs
      (fun p hp => askable_of_declared hresource hfields hp (hlimits p hp)) b

/-! The sample check over a store that has its one contextual attribute already. -/

section Sample

local instance : Dsl := Dsl.sample

def ownerName : Attribute := ⟨⟨ascii "doc", ascii "readme"⟩, [ascii "owner", ascii "name"], newIntegerValue 3⟩

def ownedDataset : Dataset := ⟨fun _ => none, fun k => if k = ownerName.key then some ownerName else none⟩

def ownedSnapshot : Snapshot :=
  { sampleSnapshot (ascii "tenant") 1 with
    getAttribute := fun k =>
      .ok (if k = ownerName.key then ⟨k, ownerName.value, true, true⟩ else ⟨k, .zero, false, true⟩)
    hasAttributeDescendant := fun k => .ok (decide (k = ⟨ownerName.entity, [ascii "owner"]⟩)) }

theorem serves_ownedSnapshot : Serves ownedSnapshot ownedDataset where
  stored k hk := by
    simp only [ownedDataset] at hk
    split at hk
    next heq =>
      subst heq
      decide +kernel
    next => cases hk
  get k hk := by
    by_cases heq : k = ownerName.key
    · subst heq
      exact ⟨_, rfl, by decide +kernel, by decide +kernel, by decide +kernel⟩
    · refine ⟨⟨k, .zero, false, true⟩, by simp [ownedSnapshot, heq], ?_, rfl, by simp [ownedDataset, heq, AttributeResult.Value]⟩
      have hfits := hk.fits
      rw [AttributeResult.Valid, Bool.true_and, isOk_iff]
      simp only [newAttributeResult, hk.key, orFail_ok, ok_bind, Bool.false_eq_true, if_false]
      refine ⟨none, ?_⟩
      rw [require_eq_ok.2 (by rfl), ok_bind, (charges_attributeResult k .zero).withinBudget, if_pos]
      · rfl
      · simp only [attributeKeyCost] at hfits
        omega
  descendant k hk := by
    obtain ⟨-, -, hpath, -⟩ := newAttributeKeyPath_eq_ok.1 hk.key
    have hne := (validateAttributePath_eq_ok.1 hpath).1
    refine ⟨_, rfl, ?_⟩
    rw [decide_eq_true_iff]
    constructor
    · rintro rfl
      exact ⟨ownerName.path, by decide, by decide, by decide⟩
    · rintro ⟨q, hq, hpre, hstored⟩
      simp only [ownedDataset] at hstored
      split at hstored
      next heq =>
        obtain ⟨entity, path⟩ := k
        obtain ⟨rfl, rfl⟩ := AttributeKey.mk.inj heq
        -- of the two prefixes only the shorter one is not the path itself
        rcases path with - | ⟨segment, - | ⟨next, rest⟩⟩
        · exact absurd rfl hne
        · obtain ⟨rfl, -⟩ := cons_prefix_cons.1 hpre
          rfl
        · obtain ⟨rfl, htail⟩ := cons_prefix_cons.1 hpre
          obtain ⟨rfl, hrest⟩ := cons_prefix_cons.1 htail
          exact absurd (by rw [prefix_nil.1 hrest]; rfl) hq
      next => cases hstored

theorem prefixFree_ownedDataset : ownedDataset.PrefixFree := by
  intro e p q hp hq _
  simp only [ownedDataset] at hp hq
  split at hp
  next hpkey =>
    split at hq
    next hqkey => exact (AttributeKey.mk.inj (hpkey.trans hqkey.symm)).2
    next => cases hq
  next => cases hp

def ownedPorts : Ports := { samplePorts [] with openSnapshot := fun _ _ _ => .ok ownedSnapshot }

def ownedSession : Result (Session × Budgets) :=
  openEvaluationSession ownedPorts sampleCaller (sampleCheck []).shared (checkFingerprint (sampleCheck []))
    (sessionBudgets none none)

/-- The contextual attribute is dropped, and the map has the stored one. -/
theorem attribute_view_sample :
    ∃ session m b, (∃ b', ownedSession = .ok (session, b')) ∧ session.reader.contextual.attributes = [] ∧
      resolveResourceAttributes session ownerName.entity (ascii "read") (sessionBudgets none none) = .ok (m, b) ∧
      Nested.find m ownerName.path = some (.scalar (.integer 3)) := by
  have hopen : ownedSession.isOk = true := by decide +kernel
  obtain ⟨⟨session, b'⟩, hsession⟩ := isOk_iff.1 hopen
  have hfacts : ∀ p ∈ ownedSession.toOption, p.1.reader.contextual.attributes = [] ∧
      (resolveResourceAttributes p.1 ownerName.entity (ascii "read") (sessionBudgets none none)).isOk = true := by
    decide +kernel
  obtain ⟨hempty, hresolves⟩ := hfacts (session, b') (by rw [hsession]; rfl)
  have hsnapshot : session.reader.snapshot = ownedSnapshot := by
    have h := (opened_of_openEvaluationSession hsession).snapshot
    simp only [openExactSnapshot, check_eq_ok] at h
    obtain ⟨-, h⟩ := h
    obtain ⟨head, -, h⟩ := bind_eq_ok.1 h
    simp only [check_eq_ok] at h
    obtain ⟨-, h⟩ := h
    obtain ⟨snapshot, hport, h⟩ := bind_eq_ok.1 h
    simp only [check_eq_ok] at h
    rw [← Except.ok.inj h.2]
    exact (Except.ok.inj hport).symm
  have hfields : LanguageFields sampleSchema := by
    unfold LanguageFields
    decide +kernel
  have hlimits (p : Path) (hp : DeclaredFor sampleSchema ownerName.entity (ascii "read") p) :
      WithinLimits ownerName.entity p := by
    obtain ⟨g, hguard, hmem⟩ := hp
    have hall : ∀ g ∈ guardOf sampleSchema.guards ownerName.entity.type (ascii "read"), ∀ p ∈ g.resourceFields,
        p.length ≤ maxAggregateWorkItems ∧ attributeKeyCost ⟨ownerName.entity, p⟩ +
          (fieldMetadataBytes + boolBytes + valueCost .zero) ≤ maxAggregateOutputBytes := by
      decide +kernel
    obtain ⟨hsegments, hanswer⟩ := hall g hguard p hmem
    exact ⟨hsegments, hanswer⟩
  have hview := (attribute_view serves_ownedSnapshot prefixFree_ownedDataset).2 hsession hsnapshot rfl
  rcases hview.2.2 ownerName.entity (ascii "read") (sessionBudgets none none) (by decide +kernel) hfields hlimits with
    herror | ⟨m, b, hm, hrepresents⟩
  · rw [herror] at hresolves
    cases hresolves
  · refine ⟨session, m, b, ⟨b', hsession⟩, hempty, hm, (hrepresents.leaf _ _).2 ⟨?_, ownerName.value, ?_, rfl⟩⟩
    · exact ⟨_, rfl, by decide⟩
    · exact .inl ⟨ownerName, by decide, rfl⟩

end Sample

end PolicyEngine.App
