import PolicyEngine.App.Schema

/-!
# The attribute paths a policy declares

`newDataSchema` indexes the resource fields that the guards of a policy compare. The
index of an entity has the fields of all its guards; the paths of an action are the
fields of its guard, each listed once.
-/

open PolicyEngine.Lib List

namespace PolicyEngine.App

/-- The resource fields a condition compares, without the root. -/
def Condition.resourceFields : Condition → List Path
  | .comparison (root :: segment :: rest) => if root = ascii "resource" then [segment :: rest] else []
  | .comparison _ => []
  | .logical left right => left.resourceFields ++ right.resourceFields
  | .other => []

def Guard.resourceFields (g : Guard) : List Path := g.conditions.flatMap Condition.resourceFields

/-- The guard of an action; of several the last one counts. -/
def guardOf (guards : List Guard) (entity action : Bytes) : Option Guard :=
  guards.reverse.find? fun g => g.entity = entity && g.action = action

/-! ## Collecting -/

theorem contains_collectResourcePaths (t : AttributePathTrie) (c : Condition) (q : Path) :
    (collectResourcePaths t c).contains q = true ↔ t.contains q = true ∨ q ∈ c.resourceFields := by
  induction c generalizing t with
  | comparison field =>
    rcases field with - | ⟨root, - | ⟨segment, rest⟩⟩
    · simp [collectResourcePaths, Condition.resourceFields]
    · simp [collectResourcePaths, Condition.resourceFields]
    · simp only [collectResourcePaths, Condition.resourceFields]
      split
      · rw [PathTrie.contains_insert, mem_singleton, or_comm]
      · simp
  | logical left right ihl ihr =>
    rw [collectResourcePaths, ihr, ihl, Condition.resourceFields, mem_append, or_assoc]
  | other => simp [collectResourcePaths, Condition.resourceFields]

theorem wf_collectResourcePaths {t} (h : PathTrie.Wf compare t) (c : Condition) :
    PathTrie.Wf compare (collectResourcePaths t c) := by
  induction c generalizing t with
  | comparison field =>
    rcases field with - | ⟨root, - | ⟨segment, rest⟩⟩
    · exact h
    · exact h
    · rw [collectResourcePaths]
      split
      · exact h.insert _
      · exact h
  | logical left right ihl ihr => exact ihr (ihl h)
  | other => exact h

theorem contains_foldl_collect (t : AttributePathTrie) (conditions : List Condition) (q : Path) :
    (conditions.foldl collectResourcePaths t).contains q = true ↔
      t.contains q = true ∨ q ∈ conditions.flatMap Condition.resourceFields := by
  induction conditions generalizing t with
  | nil => simp
  | cons c conditions ih =>
    rw [foldl_cons, ih, contains_collectResourcePaths, flatMap_cons, mem_append, or_assoc]

theorem wf_foldl_collect {t} (h : PathTrie.Wf compare t) (conditions : List Condition) :
    PathTrie.Wf compare (conditions.foldl collectResourcePaths t) := by
  induction conditions generalizing t with
  | nil => exact h
  | cons c conditions ih => exact ih (wf_collectResourcePaths h c)

/-! ## Indexing -/

/-- What a schema says after some guards are indexed. -/
structure Indexed (done : List Guard) (s : DataSchema) : Prop where
  declared : ∀ g ∈ done, (s.entities.lookup g.entity).isSome = true
  attributes : ∀ name entity, s.entities.lookup name = some entity →
    ∀ q, entity.attributePaths.contains q = true ↔ ∃ g ∈ done, g.entity = name ∧ q ∈ g.resourceFields
  resources : ∀ entity action q, q ∈ s.ResourcePaths entity action ↔
    ∃ g, guardOf done entity action = some g ∧ q ∈ g.resourceFields
  nodup : ∀ entity action, (s.ResourcePaths entity action).Nodup

theorem guardOf_append (done : List Guard) (g : Guard) (entity action : Bytes) :
    guardOf (done ++ [g]) entity action =
      if g.entity = entity ∧ g.action = action then some g else guardOf done entity action := by
  rw [guardOf, reverse_append, reverse_singleton, singleton_append, find?_cons, guardOf]
  by_cases h : g.entity = entity ∧ g.action = action
  · simp [h]
  · rw [if_neg h]
    split
    next heq => exact absurd (by simpa using heq) h
    next => rfl

variable {s : DataSchema}

theorem Indexed.addGuard {done s' g} (h : Indexed done s) (hg : s.addGuard g = .ok s') : Indexed (done ++ [g]) s' := by
  unfold DataSchema.addGuard at hg
  split at hg
  · cases hg
  next entity hentity =>
    obtain rfl := Except.ok.inj hg
    have hpaths : PathTrie.Wf compare (g.conditions.foldl collectResourcePaths .empty) :=
      wf_foldl_collect PathTrie.wf_empty _
    have hresource (entity' action : Bytes) :
        DataSchema.ResourcePaths ⟨s.entities.insert g.entity
            { entity with attributePaths := g.conditions.foldl collectResourcePaths entity.attributePaths },
          s.resourcePaths.insert (g.entity, g.action)
            ((g.conditions.foldl collectResourcePaths .empty).paths [])⟩ entity' action =
          if g.entity = entity' ∧ g.action = action then (g.conditions.foldl collectResourcePaths .empty).paths []
          else s.ResourcePaths entity' action := by
      unfold DataSchema.ResourcePaths
      split
      next heq => rw [← heq.1, ← heq.2, Finmap.lookup_insert, Option.getD_some]
      next hne =>
        rw [Finmap.lookup_insert_of_ne]
        rintro heq
        obtain ⟨rfl, rfl⟩ := Prod.mk.inj heq
        exact hne ⟨rfl, rfl⟩
    refine ⟨?_, ?_, ?_, ?_⟩
    · intro g' hg'
      rcases mem_append.1 hg' with hg' | hg'
      · by_cases heq : g'.entity = g.entity
        · rw [heq, Finmap.lookup_insert, Option.isSome_some]
        · rw [Finmap.lookup_insert_of_ne _ heq]
          exact h.declared g' hg'
      · rw [mem_singleton.1 hg', Finmap.lookup_insert, Option.isSome_some]
    · intro name e he q
      by_cases hname : name = g.entity
      · subst hname
        rw [Finmap.lookup_insert, Option.some.injEq] at he
        subst he
        rw [contains_foldl_collect, h.attributes _ _ hentity]
        constructor
        · rintro (⟨g', hg', hname, hq⟩ | hq)
          · exact ⟨g', mem_append_left _ hg', hname, hq⟩
          · exact ⟨g, by simp, rfl, hq⟩
        · rintro ⟨g', hg', hname, hq⟩
          rcases mem_append.1 hg' with hg' | hg'
          · exact .inl ⟨g', hg', hname, hq⟩
          · obtain rfl := mem_singleton.1 hg'
            exact .inr hq
      · rw [Finmap.lookup_insert_of_ne _ hname] at he
        rw [h.attributes _ _ he]
        simp only [mem_append, mem_singleton, or_and_right, exists_or, exists_eq_left]
        exact ⟨.inl, fun hq => hq.elim id fun hq => absurd hq.1.symm hname⟩
    · intro entity' action q
      rw [hresource, guardOf_append]
      split
      next =>
        rw [PathTrie.mem_paths hpaths]
        simp [contains_foldl_collect, Guard.resourceFields]
      next => exact h.resources entity' action q
    · intro entity' action
      rw [hresource]
      split
      · exact PathTrie.nodup_paths hpaths []
      · exact h.nodup entity' action

theorem Indexed.foldlM {done guards s'} (h : Indexed done s) (hs' : guards.foldlM DataSchema.addGuard s = .ok s') :
    Indexed (done ++ guards) s' := by
  induction guards generalizing done s with
  | nil =>
    obtain rfl := Except.ok.inj hs'
    rwa [append_nil]
  | cons g guards ih =>
    obtain ⟨next, hg, hrest⟩ := bind_eq_ok.1 hs'
    have hindexed := ih (h.addGuard hg) hrest
    rwa [append_assoc, singleton_append] at hindexed

/-- Before any guard the indexes are empty. -/
theorem indexed_nil {entities : List EntityDeclaration} {m : StringMap DataEntity}
    (hm : ∀ name e, m.lookup name = some e → e.attributePaths = .empty) :
    Indexed [] ⟨entities.foldl (fun entities e => entities.insert e.name (newDataEntity e)) m, ∅⟩ := by
  induction entities generalizing m with
  | nil =>
    refine ⟨by simp, fun name e he q => ?_, fun entity action q => ?_, fun entity action => ?_⟩
    · rw [hm name e he]
      simp
    · simp [DataSchema.ResourcePaths, guardOf]
    · simp [DataSchema.ResourcePaths]
  | cons entity entities ih =>
    refine ih fun name e he => ?_
    by_cases hname : name = entity.name
    · subst hname
      rw [Finmap.lookup_insert, Option.some.injEq] at he
      subst he
      rfl
    · rw [Finmap.lookup_insert_of_ne _ hname] at he
      exact hm name e he

theorem indexed_of_newDataSchema [Dsl] {artifact : Artifact} (h : newDataSchema artifact = .ok s) :
    ∃ schema, Dsl.parse artifact = some schema ∧ Indexed schema.guards s := by
  unfold newDataSchema at h
  split at h
  · cases h
  next schema hparse =>
    refine ⟨schema, hparse, ?_⟩
    have hempty : Indexed []
        ⟨schema.entities.foldl (fun entities e => entities.insert e.name (newDataEntity e)) ∅, ∅⟩ := indexed_nil (by simp)
    have hindexed := hempty.foldlM h
    rwa [nil_append] at hindexed

theorem Indexed.validAttributePath {guards : List Guard} (h : Indexed guards s) (entity : EntityRef) (path : Path) :
    s.validAttributePath entity path = true ↔ ∃ g ∈ guards, g.entity = entity.type ∧ path ∈ g.resourceFields := by
  unfold DataSchema.validAttributePath
  split
  next hnone =>
    refine iff_of_false (by simp) ?_
    rintro ⟨g, hg, hentity, -⟩
    have hsome := h.declared g hg
    rw [hentity, hnone] at hsome
    cases hsome
  next e he => exact h.attributes _ _ he path

end PolicyEngine.App
