import Mathlib

/-!
# Tables with a primary key

A table is a list of rows with distinct keys, in some order that no statement
fixes. The statements are those of SQL on one table; what each leaves behind is
stated by membership, which the distinct keys make exact.
-/

open List

namespace PolicyEngine.Lib

variable {ρ κ : Type} {key : ρ → κ}

/-- Rows with distinct keys. -/
structure Table (key : ρ → κ) where
  rows : List ρ
  nodup : (rows.map key).Nodup

namespace Table

instance : Membership ρ (Table key) := ⟨fun t r => r ∈ t.rows⟩

instance [DecidableEq ρ] (r : ρ) (t : Table key) : Decidable (r ∈ t) := inferInstanceAs (Decidable (r ∈ t.rows))

variable {t : Table key} {r : ρ}

theorem mem_def : r ∈ t ↔ r ∈ t.rows := Iff.rfl

def empty : Table key := ⟨[], .nil⟩

@[simp] theorem not_mem_empty (r : ρ) : r ∉ (empty : Table key) := not_mem_nil

/-- Rows of one key are one row. -/
theorem eq_of_key {r' : ρ} (h : r ∈ t) (h' : r' ∈ t) (hk : key r = key r') : r = r' :=
  inj_on_of_nodup_map t.nodup h h' hk

/-- A table is its rows. -/
theorem eq_of_rows {t' : Table key} (h : t.rows = t'.rows) : t = t' := by
  cases t
  cases t'
  cases h
  rfl

/-- UPDATE of every row, in columns outside the key. -/
def map (t : Table key) (f : ρ → ρ) (hf : ∀ r, key (f r) = key r) : Table key :=
  ⟨t.rows.map f, by rw [List.map_map, show key ∘ f = key from funext hf]; exact t.nodup⟩

@[simp] theorem mem_map {f hf x} :
    x ∈ t.map f hf ↔ ∃ r ∈ t, f r = x := List.mem_map

variable [DecidableEq κ]

/-! ## SELECT by key -/

def get? (t : Table key) (k : κ) : Option ρ := t.rows.find? fun r => key r = k

theorem get?_eq_some {k : κ} : t.get? k = some r ↔ r ∈ t ∧ key r = k := by
  constructor
  · intro h
    exact ⟨mem_of_find?_eq_some h, by simpa using find?_some h⟩
  · rintro ⟨hr, rfl⟩
    have hsome : (t.get? (key r)).isSome := by
      rw [get?, find?_isSome]
      exact ⟨r, hr, by simp⟩
    obtain ⟨r', hr'⟩ := Option.isSome_iff_exists.1 hsome
    have hk : key r' = key r := by simpa using find?_some hr'
    rw [hr', eq_of_key (mem_of_find?_eq_some hr') hr hk]

theorem get?_eq_none {k : κ} : t.get? k = none ↔ ∀ r ∈ t, key r ≠ k := by
  simp [get?, find?_eq_none, mem_def]

theorem get?_key (h : r ∈ t) : t.get? (key r) = some r := get?_eq_some.2 ⟨h, rfl⟩

theorem get?_isSome {k : κ} : (t.get? k).isSome = true ↔ ∃ r ∈ t, key r = k := by
  rw [Option.isSome_iff_exists]
  exact exists_congr fun r => get?_eq_some

theorem get?_map (t : Table key) (f : ρ → ρ) (hf : ∀ r, key (f r) = key r) (k : κ) :
    (t.map f hf).get? k = (t.get? k).map f := by
  cases h : t.get? k with
  | none =>
    rw [get?_eq_none] at h
    refine get?_eq_none.2 fun x hx => ?_
    obtain ⟨r, hr, rfl⟩ := mem_map.1 hx
    rw [hf]
    exact h r hr
  | some r =>
    obtain ⟨hr, rfl⟩ := get?_eq_some.1 h
    exact get?_eq_some.2 ⟨mem_map.2 ⟨r, hr, rfl⟩, hf r⟩

@[simp] theorem get?_empty (k : κ) : (empty : Table key).get? k = none := rfl

/-! ## INSERT … ON CONFLICT DO UPDATE -/

/-- Replaces the row of the same key in place, or appends. -/
def setRows (key : ρ → κ) (r : ρ) : List ρ → List ρ
  | [] => [r]
  | x :: rest => if key x = key r then r :: rest else x :: setRows key r rest

theorem mem_setRows {x l} (hl : (l.map key).Nodup) :
    x ∈ setRows key r l ↔ x = r ∨ x ∈ l ∧ key x ≠ key r := by
  induction l with
  | nil => simp [setRows]
  | cons y l ih =>
    obtain ⟨hy, hl⟩ := nodup_cons.1 hl
    unfold setRows
    split
    next heq =>
      -- no later row has the replaced key
      have hne : ∀ z ∈ l, key z ≠ key r := fun z hz hzk => hy (by
        rw [heq, ← hzk]
        exact mem_map_of_mem hz)
      rw [mem_cons, mem_cons]
      constructor
      · rintro (h | h)
        · exact .inl h
        · exact .inr ⟨.inr h, hne x h⟩
      · rintro (h | ⟨rfl | h, hk⟩)
        · exact .inl h
        · exact absurd heq hk
        · exact .inr h
    next hne =>
      rw [mem_cons, ih hl, mem_cons]
      constructor
      · rintro (rfl | h | ⟨h, hk⟩)
        · exact .inr ⟨.inl rfl, hne⟩
        · exact .inl h
        · exact .inr ⟨.inr h, hk⟩
      · rintro (h | ⟨rfl | h, hk⟩)
        · exact .inr (.inl h)
        · exact .inl rfl
        · exact .inr (.inr ⟨h, hk⟩)

theorem nodup_setRows (r : ρ) {l : List ρ} (hl : (l.map key).Nodup) : ((setRows key r l).map key).Nodup := by
  induction l with
  | nil => simp [setRows]
  | cons y l ih =>
    obtain ⟨hy, hl'⟩ := nodup_cons.1 hl
    unfold setRows
    split
    next heq => simpa only [map_cons, heq] using hl
    next hne =>
      refine List.nodup_cons.2 ⟨fun hmem => ?_, ih hl'⟩
      obtain ⟨z, hz, hzk⟩ := List.mem_map.1 hmem
      rcases (mem_setRows hl').1 hz with rfl | ⟨hz, -⟩
      · exact hne hzk.symm
      · exact hy (hzk ▸ mem_map_of_mem hz)

def set (t : Table key) (r : ρ) : Table key := ⟨setRows key r t.rows, nodup_setRows r t.nodup⟩

@[simp] theorem mem_set {x : ρ} : x ∈ t.set r ↔ x = r ∨ x ∈ t ∧ key x ≠ key r := mem_setRows t.nodup

/-- Writing a row that is there changes nothing. -/
theorem set_of_mem (h : r ∈ t) : t.set r = t := by
  obtain ⟨l, hl⟩ := t
  have hrows : ∀ l : List ρ, (l.map key).Nodup → r ∈ l → setRows key r l = l := by
    intro l hl hr
    induction l with
    | nil => cases hr
    | cons y l ih =>
      obtain ⟨hy, hl⟩ := nodup_cons.1 hl
      unfold setRows
      rcases mem_cons.1 hr with rfl | hr
      · rw [if_pos rfl]
      · have hne : key y ≠ key r := fun heq => hy (heq ▸ mem_map_of_mem hr)
        rw [if_neg hne, ih hl hr]
  simp only [set, hrows l hl h]

/-- Of two writes under one key the last counts. -/
theorem set_set {r' : ρ} (h : key r = key r') : (t.set r).set r' = t.set r' := by
  obtain ⟨l, hl⟩ := t
  have hrows : ∀ l : List ρ, setRows key r' (setRows key r l) = setRows key r' l := by
    intro l
    induction l with
    | nil => simp [setRows, h]
    | cons y l ih =>
      by_cases hy : key y = key r
      · simp [setRows, hy, h]
      · have hy' : key y ≠ key r' := h ▸ hy
        simp [setRows, hy, hy', ih]
  simp only [set, hrows l]

/-- A row under a new key is appended. -/
theorem rows_set (h : ∀ x ∈ t, key x ≠ key r) : (t.set r).rows = t.rows ++ [r] := by
  obtain ⟨l, hl⟩ := t
  have hrows : ∀ l : List ρ, (∀ x ∈ l, key x ≠ key r) → setRows key r l = l ++ [r] := by
    intro l hne
    induction l with
    | nil => rfl
    | cons y l ih =>
      rw [setRows, if_neg (hne y mem_cons_self), ih fun x hx => hne x (mem_cons_of_mem _ hx), cons_append]
  exact hrows l h

theorem get?_set (t : Table key) (r : ρ) (k : κ) : (t.set r).get? k = if key r = k then some r else t.get? k := by
  split
  next h => exact get?_eq_some.2 ⟨mem_set.2 (.inl rfl), h⟩
  next h =>
    rw [Option.ext_iff]
    intro x
    simp only [get?_eq_some, mem_set]
    constructor
    · rintro ⟨rfl | ⟨hx, -⟩, hk⟩
      · exact absurd hk h
      · exact ⟨hx, hk⟩
    · rintro ⟨hx, rfl⟩
      exact ⟨.inr ⟨hx, Ne.symm h⟩, rfl⟩

/-! ## INSERT and UPDATE -/

/-- Refused when the key is taken. -/
def insert? (t : Table key) (r : ρ) : Option (Table key) := if (t.get? (key r)).isSome then none else some (t.set r)

theorem insert?_eq_some {t' : Table key} :
    t.insert? r = some t' ↔ (∀ x ∈ t, key x ≠ key r) ∧ t' = t.set r := by
  unfold insert?
  rw [← get?_eq_none]
  cases t.get? (key r) with
  | none => simp [eq_comm]
  | some x => simp

/-- UPDATE of the row with a key, in columns outside the key. -/
def update (t : Table key) (k : κ) (f : ρ → ρ) : Table key :=
  match t.get? k with
  | none => t
  | some r => t.set (f r)

theorem update_of_get? {k : κ} (f : ρ → ρ) (h : t.get? k = some r) :
    t.update k f = t.set (f r) := by
  simp [update, h]

theorem get?_update {f : ρ → ρ} (hf : ∀ r, key (f r) = key r) (t : Table key) (k k' : κ) :
    (t.update k f).get? k' = if k = k' then (t.get? k).map f else t.get? k' := by
  unfold update
  split
  next hnone =>
    split
    next heq => rw [← heq, hnone, Option.map_none]
    next => rfl
  next r hget =>
    have hk : key (f r) = k := (hf r).trans (get?_eq_some.1 hget).2
    rw [get?_set, hk, hget, Option.map_some]

theorem keys_setRows {l : List ρ} (hr : key r ∈ l.map key) : (setRows key r l).map key = l.map key := by
  induction l with
  | nil => cases hr
  | cons y l ih =>
    unfold setRows
    split
    next heq => rw [map_cons, map_cons, heq]
    next hne =>
      have htail : key r ∈ l.map key := (mem_cons.1 hr).resolve_left fun h => hne h.symm
      rw [map_cons, map_cons, ih htail]

/-- An UPDATE leaves the keys where they are. -/
theorem keys_update {f : ρ → ρ} (hf : ∀ r, key (f r) = key r) (t : Table key) (k : κ) :
    (t.update k f).rows.map key = t.rows.map key := by
  unfold update
  split
  next => rfl
  next r hget =>
    refine keys_setRows ?_
    rw [hf]
    exact mem_map_of_mem (get?_eq_some.1 hget).1

/-! ## DELETE -/

def deleteWhere (t : Table key) (p : ρ → Bool) : Table key :=
  ⟨t.rows.filter (!p ·), (List.filter_sublist.map key).nodup t.nodup⟩

omit [DecidableEq κ] in
@[simp] theorem mem_deleteWhere {p x} : x ∈ t.deleteWhere p ↔ x ∈ t ∧ p x = false := by
  simp [deleteWhere, mem_def]

end Table

end PolicyEngine.Lib
