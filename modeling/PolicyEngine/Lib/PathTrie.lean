import Mathlib

/-!
# Trees over paths

Two trees whose nodes keep their children under distinct keys in increasing order: a
trie that marks the paths inserted into it and lists them in order, and a nested map
whose leaves hold values, into which no leaf goes twice, below another or above one.
-/

open Std List

namespace PolicyEngine.Lib

/-! ## Members in key order -/

section Members

variable {κ τ : Type} (cmp : κ → κ → Ordering)

/-- Puts a value under a key, in order. -/
def setMember (k : κ) (v : τ) : List (κ × τ) → List (κ × τ)
  | [] => [(k, v)]
  | (k', v') :: rest =>
    match cmp k k' with
    | .lt => (k, v) :: (k', v') :: rest
    | .eq => (k, v) :: rest
    | .gt => (k', v') :: setMember k v rest

/-- Keys in strictly increasing order. -/
def OrderedKeys (l : List (κ × τ)) : Prop := l.Pairwise fun a b => cmp a.1 b.1 = .lt

variable {cmp}

variable {l : List (κ × τ)}

theorem mem_setMember {k v p} (h : p ∈ setMember cmp k v l) :
    p = (k, v) ∨ p ∈ l := by
  induction l with
  | nil => simpa [setMember] using h
  | cons q l ih =>
    rw [setMember] at h
    split at h
    · simpa using h
    · rcases mem_cons.1 h with rfl | h
      · exact .inl rfl
      · exact .inr (mem_cons_of_mem _ h)
    · rcases mem_cons.1 h with rfl | h
      · exact .inr mem_cons_self
      · exact (ih h).imp_right (mem_cons_of_mem _)

variable [TransCmp cmp]

theorem orderedKeys_setMember {k : κ} {v : τ} (h : OrderedKeys cmp l) :
    OrderedKeys cmp (setMember cmp k v l) := by
  induction l with
  | nil => exact pairwise_singleton _ _
  | cons q l ih =>
    obtain ⟨hq, hl⟩ := pairwise_cons.1 h
    rw [setMember]
    split
    next hlt =>
      refine pairwise_cons.2 ⟨fun p hp => ?_, h⟩
      rcases mem_cons.1 hp with rfl | hp
      · exact hlt
      · exact TransCmp.lt_trans hlt (hq p hp)
    next heq => exact pairwise_cons.2 ⟨fun p hp => TransCmp.lt_of_eq_of_lt heq (hq p hp), hl⟩
    next hgt =>
      refine pairwise_cons.2 ⟨fun p hp => ?_, ih hl⟩
      rcases mem_setMember hp with rfl | hp
      · exact OrientedCmp.lt_of_gt hgt
      · exact hq p hp

variable [DecidableEq κ]

omit [DecidableEq κ] in
theorem not_lt_self (k : κ) : cmp k k ≠ .lt := by
  have h : cmp k k = .eq := ReflCmp.compare_self
  simp [h]

omit [TransCmp cmp] in
theorem lookup_cons_if (k key : κ) (value : τ) (l : List (κ × τ)) :
    ((key, value) :: l).lookup k = if k = key then some value else l.lookup k := by
  by_cases h : k = key
  · simp [h]
  · rw [lookup_cons, beq_false_of_ne h, if_neg h]

theorem lookup_setMember [LawfulEqCmp cmp] (k k' : κ) (v : τ) (l : List (κ × τ)) :
    (setMember cmp k v l).lookup k' = if k' = k then some v else l.lookup k' := by
  induction l with
  | nil => by_cases h : k' = k <;> simp [setMember, lookup_cons_if, h]
  | cons q l ih =>
    obtain ⟨key, value⟩ := q
    rw [setMember]
    split
    · by_cases h : k' = k <;> simp [lookup_cons_if, h]
    next heq =>
      obtain rfl := LawfulEqCmp.eq_of_compare heq
      by_cases h : k' = k <;> simp [lookup_cons_if, h]
    next hgt =>
      have hne : key ≠ k := by
        rintro rfl
        exact not_lt_self key (OrientedCmp.lt_of_gt hgt)
      rw [lookup_cons_if, ih, lookup_cons_if]
      by_cases h : k' = k
      · subst h
        simp [hne.symm]
      · simp [h]

theorem lookup_eq_some_iff {k : κ} {v : τ} (h : OrderedKeys cmp l) :
    l.lookup k = some v ↔ (k, v) ∈ l := by
  induction l with
  | nil => simp
  | cons q l ih =>
    obtain ⟨key, value⟩ := q
    obtain ⟨hq, hl⟩ := pairwise_cons.1 h
    rw [lookup_cons_if, mem_cons]
    by_cases hk : k = key
    · subst hk
      have hnot : (k, v) ∉ l := fun hmem => not_lt_self k (hq _ hmem)
      simp [hnot, eq_comm]
    · simp [hk, ih hl]

end Members

/-! ## A trie of paths -/

inductive PathTrie (κ : Type) where
  | mk (terminal : Bool) (children : List (κ × PathTrie κ))

namespace PathTrie

variable {κ : Type} [DecidableEq κ] (cmp : κ → κ → Ordering)

def empty : PathTrie κ := mk false []

def insert : PathTrie κ → List κ → PathTrie κ
  | mk _ children, [] => mk true children
  | mk terminal children, k :: path =>
    mk terminal (setMember cmp k (insert ((children.lookup k).getD empty) path) children)

def contains : PathTrie κ → List κ → Bool
  | mk terminal _, [] => terminal
  | mk _ children, k :: path =>
    match children.lookup k with
    | none => false
    | some child => contains child path

mutual
/-- The marked paths below a node that was reached by `before`, shorter ones first. -/
def paths : PathTrie κ → List κ → List (List κ)
  | mk terminal children, before => (if terminal then [before] else []) ++ childPaths children before

def childPaths : List (κ × PathTrie κ) → List κ → List (List κ)
  | [], _ => []
  | (k, child) :: rest, before => paths child (before ++ [k]) ++ childPaths rest before
end

/-- Every node's children are in order. -/
inductive Wf : PathTrie κ → Prop
  | mk {terminal : Bool} {children : List (κ × PathTrie κ)} (ordered : OrderedKeys cmp children)
      (below : ∀ p ∈ children, Wf p.2) : Wf (mk terminal children)

variable {cmp}

omit [DecidableEq κ] in
theorem wf_empty : Wf cmp (empty : PathTrie κ) := .mk List.Pairwise.nil (by simp)

@[simp] theorem contains_empty (path : List κ) : contains (empty : PathTrie κ) path = false := by
  cases path <;> rfl

variable [TransCmp cmp]

theorem Wf.child {terminal children} (h : Wf cmp (PathTrie.mk terminal children)) (k : κ) :
    Wf cmp ((children.lookup k).getD empty) := by
  cases h with
  | mk ordered below =>
    cases hk : children.lookup k with
    | none => exact wf_empty
    | some child => exact below (k, child) ((lookup_eq_some_iff ordered).1 hk)

theorem Wf.insert {t : PathTrie κ} (h : Wf cmp t) (path : List κ) : Wf cmp (PathTrie.insert cmp t path) := by
  induction path generalizing t with
  | nil =>
    cases h with
    | mk ordered below => exact .mk ordered below
  | cons k path ih =>
    obtain ⟨terminal, children⟩ := t
    have hchild := h.child k
    cases h with
    | mk ordered below =>
      refine .mk (orderedKeys_setMember ordered) fun p hp => ?_
      rcases mem_setMember hp with rfl | hp
      · exact ih hchild
      · exact below p hp

theorem contains_getD (o : Option (PathTrie κ)) (path : List κ) :
    (o.getD empty).contains path = (o.elim false fun t => t.contains path) := by
  cases o <;> simp

theorem contains_insert [LawfulEqCmp cmp] (t : PathTrie κ) (path q : List κ) :
    (insert cmp t path).contains q = true ↔ q = path ∨ t.contains q = true := by
  induction path generalizing t q with
  | nil =>
    obtain ⟨terminal, children⟩ := t
    cases q <;> simp [PathTrie.insert, contains]
  | cons k path ih =>
    obtain ⟨terminal, children⟩ := t
    cases q with
    | nil => simp [PathTrie.insert, contains]
    | cons k' q =>
      simp only [PathTrie.insert, contains, lookup_setMember, List.cons.injEq]
      by_cases hk : k' = k
      · subst hk
        rw [if_pos rfl]
        simp only [ih, contains_getD, true_and]
        cases children.lookup k' <;> simp
      · rw [if_neg hk]
        simp [hk]

omit [DecidableEq κ] [TransCmp cmp] in
theorem childPaths_eq (children : List (κ × PathTrie κ)) (before : List κ) :
    childPaths children before = children.flatMap fun p => p.2.paths (before ++ [p.1]) := by
  induction children with
  | nil => rw [childPaths]; rfl
  | cons p rest ih => rw [childPaths, ih]; rfl

theorem mem_paths {t : PathTrie κ} (h : Wf cmp t) (before q : List κ) :
    q ∈ t.paths before ↔ ∃ path, q = before ++ path ∧ t.contains path = true := by
  induction h generalizing before q with
  | @mk terminal children ordered below ih =>
    rw [paths, mem_append, childPaths_eq, mem_flatMap]
    constructor
    · rintro (hq | ⟨p, hp, hq⟩)
      · refine ⟨[], ?_⟩
        cases terminal <;> simp_all [contains]
      · obtain ⟨path, rfl, hpath⟩ := (ih p hp _ _).1 hq
        refine ⟨p.1 :: path, by simp, ?_⟩
        rw [contains, (lookup_eq_some_iff ordered).2 hp]
        exact hpath
    · rintro ⟨path, rfl, hpath⟩
      cases path with
      | nil =>
        rw [contains] at hpath
        exact .inl (by simp [hpath])
      | cons k path =>
        rw [contains] at hpath
        split at hpath
        · cases hpath
        next child hchild =>
          have hmem := (lookup_eq_some_iff ordered).1 hchild
          exact .inr ⟨(k, child), hmem, (ih _ hmem _ _).2 ⟨path, by simp, hpath⟩⟩

/-- No path is listed twice. -/
theorem nodup_paths {t : PathTrie κ} (h : Wf cmp t) (before : List κ) : (t.paths before).Nodup := by
  induction h generalizing before with
  | @mk terminal children ordered below ih =>
    rw [paths, childPaths_eq]
    refine nodup_append.2 ⟨by cases terminal <;> simp, nodup_flatMap.2 ⟨fun p hp => ih p hp _, ?_⟩, ?_⟩
    · refine ordered.imp_of_mem fun {p q} hp hq hlt path hpath hpath' => ?_
      -- the paths of two children differ in the key after `before`
      obtain ⟨r, rfl, -⟩ := (mem_paths (below p hp) _ _).1 hpath
      obtain ⟨s, hs, -⟩ := (mem_paths (below q hq) _ _).1 hpath'
      simp only [append_assoc, cons_append, nil_append, append_cancel_left_eq,
        List.cons.injEq] at hs
      exact not_lt_self q.1 (hs.1 ▸ hlt)
    · intro path hpath path' hpath' heq
      obtain ⟨p, hp, hmem⟩ := mem_flatMap.1 hpath'
      obtain ⟨r, hr, -⟩ := (mem_paths (below p hp) _ _).1 hmem
      have hbefore : path = before := by cases terminal <;> simp_all
      rw [← heq, hbefore] at hr
      have := congrArg List.length hr
      simp at this

end PathTrie

/-! ## Nested maps -/

inductive Nested (κ α : Type) where
  | scalar (value : α)
  | object (members : List (κ × Nested κ α))

namespace Nested

variable {κ α : Type} [DecidableEq κ] (cmp : κ → κ → Ordering)

/-- `none` when the path is empty, taken, or runs through a scalar. -/
def insert : List (κ × Nested κ α) → List κ → α → Option (List (κ × Nested κ α))
  | _, [], _ => none
  | members, [k], v =>
    match members.lookup k with
    | none => some (setMember cmp k (.scalar v) members)
    | some _ => none
  | members, k :: path, v =>
    match members.lookup k with
    | none => (insert [] path v).map fun next => setMember cmp k (.object next) members
    | some (.object next) => (insert next path v).map fun next => setMember cmp k (.object next) members
    | some (.scalar _) => none

/-- What stands at the end of a path. -/
def find : List (κ × Nested κ α) → List κ → Option (Nested κ α)
  | members, [] => some (.object members)
  | members, k :: path =>
    match members.lookup k with
    | none => none
    | some (.object next) => find next path
    | some (.scalar v) => if path = [] then some (.scalar v) else none

/-- The map has exactly the leaves of `S`, and objects only on the way to one. -/
structure Represents (members : List (κ × Nested κ α)) (S : List κ → α → Prop) : Prop where
  leaf : ∀ path v, find members path = some (.scalar v) ↔ S path v
  inner : ∀ path, (∃ next, find members path = some (.object next)) ↔
    path = [] ∨ ∃ q v, S q v ∧ path <+: q ∧ path ≠ q

theorem represents_nil : Represents ([] : List (κ × Nested κ α)) fun _ _ => False := by
  constructor
  · intro path v
    cases path <;> simp [find]
  · intro path
    cases path <;> simp [find]

variable {cmp} [TransCmp cmp] [LawfulEqCmp cmp]

/-- The members an insertion goes on with below `k`. -/
def membersAt (members : List (κ × Nested κ α)) (k : κ) : List (κ × Nested κ α) :=
  match members.lookup k with
  | some (.object next) => next
  | _ => []

variable {members : List (κ × Nested κ α)} {path : List κ}

omit [TransCmp cmp] [LawfulEqCmp cmp] in
theorem insert_cons {k v m} (hpath : path ≠ []) :
    insert cmp members (k :: path) v = some m ↔
      (∀ w, members.lookup k ≠ some (.scalar w)) ∧
        ∃ next, insert cmp (membersAt members k) path v = some next ∧ m = setMember cmp k (.object next) members := by
  obtain ⟨k', path, rfl⟩ := exists_cons_of_ne_nil hpath
  rw [insert, membersAt]
  · cases hk : members.lookup k with
    | none => simp [eq_comm (a := m)]
    | some child => cases child <;> simp [eq_comm (a := m)]
  · simp

theorem find_setMember (members : List (κ × Nested κ α)) (k : κ) (child : Nested κ α) (k' : κ) (path : List κ) :
    find (setMember cmp k child members) (k' :: path) =
      if k' = k then find [(k, child)] (k :: path) else find members (k' :: path) := by
  by_cases h : k' = k
  · subst h
    simp [find, lookup_setMember]
  · simp [find, lookup_setMember, h]

omit [TransCmp cmp] [LawfulEqCmp cmp] in
theorem find_membersAt {k : κ} (h : ∀ w, members.lookup k ≠ some (.scalar w)) (hpath : path ≠ []) :
    find (membersAt members k) path = find members (k :: path) := by
  obtain ⟨k', path, rfl⟩ := exists_cons_of_ne_nil hpath
  rw [membersAt, find.eq_2 members]
  cases hk : members.lookup k with
  | none => simp [find]
  | some child =>
    cases child with
    | object => rfl
    | scalar w => exact absurd hk (h w)

/-- What an insertion changes: its path is a leaf, the way there is made of objects, and the rest stays. -/
theorem find_insert {m v} (h : insert cmp members path v = some m) :
    find m path = some (.scalar v) ∧ (∀ q, q <+: path → q ≠ path → ∃ next, find m q = some (.object next)) ∧
      ∀ q, ¬ q <+: path → find m q = find members q := by
  induction path generalizing members m with
  | nil => cases h
  | cons k path ih =>
    by_cases hpath : path = []
    · subst hpath
      rw [insert] at h
      split at h
      next hk =>
        obtain rfl := Option.some.inj h
        refine ⟨by simp [find, lookup_setMember], fun q hq hne => ?_, fun q hq => ?_⟩
        · rcases prefix_cons_iff.1 hq with rfl | ⟨r, rfl, hr⟩
          · exact ⟨_, rfl⟩
          · exact absurd (by rw [prefix_nil.1 hr]) hne
        · cases q with
          | nil => exact absurd nil_prefix hq
          | cons k' r =>
            rw [find_setMember]
            split
            next hk' =>
              subst hk'
              have hr : r ≠ [] := by rintro rfl; exact hq prefix_rfl
              simp [find, hk, hr]
            next => rfl
      next => cases h
    · obtain ⟨hscalar, next, hnext, rfl⟩ := (insert_cons hpath).1 h
      obtain ⟨hleaf, hinner, hrest⟩ := ih hnext
      refine ⟨by simpa [find, lookup_setMember] using hleaf, fun q hq hne => ?_, fun q hq => ?_⟩
      · rcases prefix_cons_iff.1 hq with rfl | ⟨r, rfl, hr⟩
        · exact ⟨_, rfl⟩
        · simpa [find, lookup_setMember] using hinner r hr fun heq => hne (by rw [heq])
      · cases q with
        | nil => exact absurd nil_prefix hq
        | cons k' r =>
          rw [find_setMember]
          split
          next hk' =>
            subst hk'
            have hr : ¬ r <+: path := fun hr => hq ((prefix_cons_inj _).2 hr)
            have hne : r ≠ [] := by rintro rfl; exact hr nil_prefix
            rw [← find_membersAt hscalar hne, ← hrest r hr]
            simp [find]
          next => rfl

variable (cmp) in
omit [TransCmp cmp] [LawfulEqCmp cmp] in
/-- An insertion succeeds when nothing stands at its path and no scalar on the way. -/
theorem exists_insert (v : α) (hne : path ≠ []) (hscalar : ∀ q w, q <+: path → find members q ≠ some (.scalar w))
    (hfree : find members path = none) :
    ∃ m, insert cmp members path v = some m := by
  induction path generalizing members with
  | nil => exact absurd rfl hne
  | cons k path ih =>
    by_cases hpath : path = []
    · subst hpath
      have hk : members.lookup k = none := by
        rw [find] at hfree
        split at hfree
        next hk => exact hk
        next => cases hfree
        next => cases hfree
      exact ⟨_, by rw [insert, hk]⟩
    · have hk (w : α) : members.lookup k ≠ some (.scalar w) := fun hk =>
        hscalar [k] w (by simp [prefix_cons_iff]) (by simp [find, hk])
      have hscalar' (q : List κ) (w : α) (hq : q <+: path) : find (membersAt members k) q ≠ some (.scalar w) := by
        by_cases hq' : q = []
        · simp [hq', find]
        · rw [find_membersAt hk hq']
          exact hscalar _ w ((prefix_cons_inj k).2 hq)
      obtain ⟨next, hnext⟩ := ih hpath hscalar' (by rw [find_membersAt hk hpath, hfree])
      exact ⟨_, (insert_cons hpath).2 ⟨hk, next, hnext, rfl⟩⟩

/-- A leaf at a path that no other leaf's path extends or is extended by. -/
theorem Represents.insert {S} (h : Represents members S) (v : α) (hne : path ≠ [])
    (hfree : ∀ q w, S q w → ¬ q <+: path ∧ ¬ path <+: q) :
    ∃ m, insert cmp members path v = some m ∧ Represents m fun q w => q = path ∧ w = v ∨ S q w := by
  have hnone : find members path = none := by
    cases hfind : find members path with
    | none => rfl
    | some child =>
      cases child with
      | scalar w => exact absurd prefix_rfl (hfree _ _ ((h.leaf path w).1 hfind)).1
      | object next =>
        rcases (h.inner path).1 ⟨next, hfind⟩ with hnil | ⟨q, w, hS, hq, -⟩
        · exact absurd hnil hne
        · exact absurd hq (hfree q w hS).2
  obtain ⟨m, hm⟩ := exists_insert cmp v hne (fun q w hq hfind => (hfree q w ((h.leaf q w).1 hfind)).1 hq) hnone
  obtain ⟨hleaf, hinner, hrest⟩ := find_insert hm
  refine ⟨m, hm, fun q w => ?_, fun q => ?_⟩
  · by_cases hq : q <+: path
    · have hS : ¬ S q w := fun hS => (hfree q w hS).1 hq
      by_cases heq : q = path
      · subst heq
        simp [hleaf, hS, eq_comm]
      · obtain ⟨next, hnext⟩ := hinner q hq heq
        simp [hnext, heq, hS]
    · have heq : q ≠ path := by rintro rfl; exact hq prefix_rfl
      rw [hrest q hq, h.leaf]
      simp [heq]
  · by_cases hq : q <+: path
    · by_cases heq : q = path
      · subst heq
        refine iff_of_false (fun ⟨next, hnext⟩ => by simp [hleaf] at hnext) ?_
        rintro (hnil | ⟨r, w, ⟨rfl, rfl⟩ | hS, hpre, hne'⟩)
        · exact hne hnil
        · exact hne' rfl
        · exact (hfree r w hS).2 hpre
      · exact iff_of_true (hinner q hq heq) (.inr ⟨path, v, .inl ⟨rfl, rfl⟩, hq, heq⟩)
    · rw [hrest q hq, h.inner]
      refine or_congr_right ⟨?_, ?_⟩
      · rintro ⟨r, w, hS, hr⟩
        exact ⟨r, w, .inr hS, hr⟩
      · rintro ⟨r, w, ⟨rfl, rfl⟩ | hS, hr⟩
        · exact absurd hr.1 hq
        · exact ⟨r, w, hS, hr⟩

end Nested

end PolicyEngine.Lib
