import PolicyEngine.Lib.Table

/-!
# Tables in order of use

A bounded map is a table with the list of its keys, the one used last at the front.
`Recent` ties the two together: the list is the table's keys in another order, so it
holds each of them once. Every operation of such a map keeps it.
-/

open List

namespace PolicyEngine.Lib

variable {ρ κ : Type} {key : ρ → κ} [DecidableEq κ]

/-! ## DELETE by key -/

namespace Table

def delete (t : Table key) (k : κ) : Table key := t.deleteWhere fun r => key r = k

variable {t : Table key}

@[simp] theorem mem_delete {k : κ} {r : ρ} : r ∈ t.delete k ↔ r ∈ t ∧ key r ≠ k := by
  simp [delete]

theorem get?_delete (t : Table key) (k k' : κ) : (t.delete k).get? k' = if k = k' then none else t.get? k' := by
  split
  next h =>
    rw [get?_eq_none]
    rintro r hr rfl
    exact (mem_delete.1 hr).2 h.symm
  next h =>
    cases hget : t.get? k' with
    | none =>
      rw [get?_eq_none] at hget ⊢
      exact fun r hr => hget r (mem_delete.1 hr).1
    | some r =>
      rw [get?_eq_some] at hget ⊢
      exact ⟨mem_delete.2 ⟨hget.1, fun hk => h (hk.symm.trans hget.2)⟩, hget.2⟩

theorem keys_delete (t : Table key) (k : κ) : (t.delete k).rows.map key = (t.rows.map key).erase k := by
  rw [t.nodup.erase_eq_filter, filter_map]
  refine congrArg (List.map key) (filter_congr fun r _ => ?_)
  by_cases h : key r = k <;> simp [h]

theorem mem_keys {k : κ} : k ∈ t.rows.map key ↔ (t.get? k).isSome = true := by
  rw [get?_isSome, List.mem_map]
  rfl

theorem keys_set {r : ρ} (h : (t.get? (key r)).isSome = true) :
    (t.set r).rows.map key = t.rows.map key :=
  keys_setRows (mem_keys.2 h)

theorem length_delete {k : κ} (h : (t.get? k).isSome = true) :
    (t.delete k).rows.length + 1 = t.rows.length := by
  have hmem := mem_keys.2 h
  have hlength := length_erase_of_mem hmem
  rw [← keys_delete, length_map, length_map] at hlength
  have := length_pos_of_mem hmem
  rw [length_map] at this
  omega

theorem length_set {r : ρ} (h : t.get? (key r) = none) :
    (t.set r).rows.length = t.rows.length + 1 := by
  rw [rows_set (get?_eq_none.1 h), length_append]
  rfl

omit [DecidableEq κ] in
theorem nodup_rows (t : Table key) : t.rows.Nodup := t.nodup.of_map key

/-- A row before the others. -/
theorem perm_delete {r : ρ} (h : r ∈ t) : t.rows.Perm (r :: (t.delete (key r)).rows) := by
  have hnew : r ∉ (t.delete (key r)).rows := fun hr => (mem_delete.1 hr).2 rfl
  refine (perm_ext_iff_of_nodup t.nodup_rows (nodup_cons.2 ⟨hnew, nodup_rows _⟩)).2 fun x => ?_
  rw [mem_cons]
  change x ∈ t ↔ x = r ∨ x ∈ t.delete (key r)
  rw [mem_delete]
  constructor
  · intro hx
    by_cases hk : key x = key r
    · exact .inl (eq_of_key hx h hk)
    · exact .inr ⟨hx, hk⟩
  · rintro (rfl | hx)
    exacts [h, hx.1]

theorem perm_set (t : Table key) (r : ρ) : (t.set r).rows.Perm (r :: (t.delete (key r)).rows) := by
  have hrows := perm_delete (mem_set.2 (.inl rfl) : r ∈ t.set r)
  refine hrows.trans (.cons r ?_)
  refine (perm_ext_iff_of_nodup (nodup_rows _) (nodup_rows _)).2 fun x => ?_
  change x ∈ (t.set r).delete (key r) ↔ x ∈ t.delete (key r)
  simp only [mem_delete, mem_set]
  constructor
  · rintro ⟨rfl | hx, hne⟩
    exacts [absurd rfl hne, ⟨hx.1, hne⟩]
  · rintro ⟨hx, hne⟩
    exact ⟨.inr ⟨hx, hne⟩, hne⟩

end Table

/-! ## The order of use -/

/-- Moves a key to the front. -/
def touch (k : κ) (recency : List κ) : List κ := if k ∈ recency then k :: recency.erase k else recency

theorem touch_perm (k : κ) (recency : List κ) : (touch k recency).Perm recency := by
  unfold touch
  split
  next h => exact (perm_cons_erase h).symm
  next => rfl

/-- The list holds the keys of the table, each once. -/
def Recent (t : Table key) (recency : List κ) : Prop := (t.rows.map key).Perm recency

namespace Recent

variable {t : Table key} {recency : List κ}

omit [DecidableEq κ] in
theorem nodup (h : Recent t recency) : recency.Nodup := h.nodup_iff.1 t.nodup

theorem mem_iff (h : Recent t recency) {k : κ} : k ∈ recency ↔ (t.get? k).isSome = true := by
  rw [← List.Perm.mem_iff h, Table.mem_keys]

omit [DecidableEq κ] in
theorem length_eq (h : Recent t recency) : t.rows.length = recency.length := by
  rw [← List.Perm.length_eq h, length_map]

omit [DecidableEq κ] in
theorem empty : Recent (Table.empty : Table key) [] := .nil

theorem touch (h : Recent t recency) (k : κ) : Recent t (touch k recency) := h.trans (touch_perm k recency).symm

theorem set (h : Recent t recency) {r : ρ} (hr : (t.get? (key r)).isSome = true) : Recent (t.set r) recency := by
  rw [Recent, Table.keys_set hr]
  exact h

theorem push (h : Recent t recency) {r : ρ} (hr : t.get? (key r) = none) : Recent (t.set r) (key r :: recency) := by
  rw [Recent, Table.rows_set (Table.get?_eq_none.1 hr), map_append]
  exact perm_append_comm.trans (.cons _ h)

theorem delete (h : Recent t recency) (k : κ) : Recent (t.delete k) (recency.erase k) := by
  rw [Recent, Table.keys_delete]
  exact List.Perm.erase k h

/-- Removing the back of the list and its row. -/
theorem delete_back (h : Recent t recency) {k : κ} (hk : recency.getLast? = some k) :
    Recent (t.delete k) recency.dropLast := by
  obtain ⟨front, rfl⟩ := getLast?_eq_some_iff.1 hk
  rw [Recent, Table.keys_delete, dropLast_concat]
  have hperm := (h.trans perm_append_comm).erase k
  simpa using hperm

end Recent

end PolicyEngine.Lib
