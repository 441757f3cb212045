import Mathlib
import PolicyEngine.Lib.Compact

/-!
# Paging through a growing collection

A listing returns a sorted collection page by page. Each page holds the first entries
after the place where the page before it ended, of the entries present by then, so
entries may be added anywhere between two pages. What was there from the start is
listed once, in order, when a page leaves nothing after it.
-/

open Std List

namespace PolicyEngine.Lib.Paging

variable {α : Type} (cmp : α → α → Ordering)

/-- The entries after a place; no place is before all of them. -/
def rest (place : Option α) (entries : List α) : List α :=
  match place with
  | none => entries
  | some p => entries.filter fun e => cmp p e = .lt

/-- One page: what is in the collection by then, and how much of it is asked for. -/
structure View (α : Type) where
  entries : List α
  limit : Nat

def View.page (place : Option α) (v : View α) : List α := (rest cmp place v.entries).take v.limit

/-- Where a page ends: at its last entry, or where it began if it has none. -/
def View.finish (place : Option α) (v : View α) : Option α := (v.page cmp place).getLast?.or place

/-- The pages of successive views, one after the other. -/
def pages : Option α → List (View α) → List α
  | _, [] => []
  | place, v :: views => v.page cmp place ++ pages (v.finish cmp place) views

/-- Where the last of them ends. -/
def finish : Option α → List (View α) → Option α
  | place, [] => place
  | place, v :: views => finish (v.finish cmp place) views

variable {cmp}

/-- The place is before the entry. -/
def Precedes (cmp : α → α → Ordering) (place : Option α) (e : α) : Prop := ∀ p ∈ place, cmp p e = .lt

variable {place : Option α} {e : α}

theorem mem_rest {entries : List α} :
    e ∈ rest cmp place entries ↔ e ∈ entries ∧ Precedes cmp place e := by
  cases place <;> simp [rest, Precedes]

theorem rest_sublist (place : Option α) (entries : List α) : (rest cmp place entries).Sublist entries := by
  cases place with
  | none => exact .refl _
  | some p => exact filter_sublist

theorem View.page_sublist (place : Option α) (v : View α) : (v.page cmp place).Sublist v.entries :=
  (take_sublist _ _).trans (rest_sublist place v.entries)

theorem strictSorted_rest {entries : List α} (h : StrictSorted cmp entries) (place : Option α) :
    StrictSorted cmp (rest cmp place entries) :=
  h.sublist (rest_sublist place entries)

theorem strictSorted_page {v : View α} (h : StrictSorted cmp v.entries) (place : Option α) :
    StrictSorted cmp (v.page cmp place) :=
  h.sublist (View.page_sublist place v)

/-- What the limit cuts off lies after the end of the page. -/
theorem View.precedes_of_mem_drop {v : View α} (h : StrictSorted cmp v.entries)
    (he : e ∈ (rest cmp place v.entries).drop v.limit) : Precedes cmp (v.finish cmp place) e := by
  have hsorted := strictSorted_rest h place
  rw [← take_append_drop v.limit (Paging.rest cmp place v.entries)] at hsorted
  intro p hp
  rw [View.finish, Option.mem_def, Option.or_eq_some_iff] at hp
  rcases hp with hlast | ⟨-, hplace⟩
  · exact (pairwise_append.1 hsorted).2.2 p (mem_of_getLast? hlast) e he
  · exact (mem_rest.1 (mem_of_mem_drop he)).2 p hplace

/-- A page passes over nothing: an entry after its start is on it, or after its end. -/
theorem View.mem_page_or_precedes {v : View α} (h : StrictSorted cmp v.entries) (he : e ∈ v.entries)
    (hp : Precedes cmp place e) : e ∈ v.page cmp place ∨ Precedes cmp (v.finish cmp place) e := by
  have hmem := mem_rest.2 ⟨he, hp⟩
  rw [← take_append_drop v.limit (Paging.rest cmp place v.entries), mem_append] at hmem
  exact hmem.imp_right (View.precedes_of_mem_drop h)

variable {views : List (View α)}

/-- Nor do successive pages. -/
theorem mem_pages_or_precedes (h : ∀ v ∈ views, StrictSorted cmp v.entries) (he : ∀ v ∈ views, e ∈ v.entries)
    (hp : Precedes cmp place e) :
    e ∈ pages cmp place views ∨ Precedes cmp (finish cmp place views) e := by
  induction views generalizing place with
  | nil => exact .inr hp
  | cons v views ih =>
    rw [forall_mem_cons] at h he
    rw [pages, finish, mem_append]
    rcases View.mem_page_or_precedes h.1 he.1 hp with hpage | hp'
    · exact .inl (.inl hpage)
    · exact (ih h.2 he.2 hp').imp_left .inr

theorem pages_append (place : Option α) (views views' : List (View α)) :
    pages cmp place (views ++ views') = pages cmp place views ++ pages cmp (finish cmp place views) views' := by
  induction views generalizing place with
  | nil => rfl
  | cons v views ih => rw [cons_append, pages, ih, pages, finish, append_assoc]

theorem finish_append (place : Option α) (views views' : List (View α)) :
    finish cmp place (views ++ views') = finish cmp (finish cmp place views) views' := by
  induction views generalizing place with
  | nil => rfl
  | cons v views ih => rw [cons_append, finish, ih, finish]

theorem exists_view_of_mem_pages (h : e ∈ pages cmp place views) :
    ∃ v ∈ views, e ∈ v.entries := by
  induction views generalizing place with
  | nil => simp [pages] at h
  | cons v views ih =>
    rw [pages, mem_append] at h
    rcases h with h | h
    · exact ⟨v, mem_cons_self, (View.page_sublist place v).subset h⟩
    · obtain ⟨v', hv', he⟩ := ih h
      exact ⟨v', mem_cons_of_mem _ hv', he⟩

/-- Pages that start before everything end at an entry they list. -/
theorem mem_pages_of_finish (h : finish cmp place views = some e) : e ∈ pages cmp place views ∨ place = some e := by
  induction views generalizing place with
  | nil => exact .inr h
  | cons v views ih =>
    rw [pages, mem_append]
    rcases ih h with hmem | hfinish
    · exact .inl (.inr hmem)
    · rw [View.finish, Option.or_eq_some_iff] at hfinish
      exact hfinish.imp (fun hlast => .inl (mem_of_getLast? hlast)) (·.2)

section Laws

variable [TransCmp cmp]

variable {place : Option α}

theorem Precedes.trans {a b : α} (h : Precedes cmp place a) (hab : cmp a b = .lt) :
    Precedes cmp place b :=
  fun p hp => TransCmp.lt_trans (h p hp) hab

/-- Every entry of a page lies between its two ends. -/
theorem View.between {v : View α} (hs : StrictSorted cmp v.entries) {e : α} (he : e ∈ v.page cmp place) :
    Precedes cmp place e ∧ ∀ {b : α}, Precedes cmp (v.finish cmp place) b → cmp e b = .lt := by
  refine ⟨(mem_rest.1 (mem_of_mem_take he)).2, fun {b} hb => ?_⟩
  have hsorted := strictSorted_page hs place
  rcases eq_nil_or_concat (v.page cmp place) with hnil | ⟨init, last, hpage⟩
  · simp [hnil] at he
  · rw [concat_eq_append] at hpage
    have hlast : cmp last b = .lt := hb last (by simp [View.finish, hpage])
    rw [hpage, mem_append, mem_singleton] at he
    rcases he with he | rfl
    · rw [hpage] at hsorted
      exact TransCmp.lt_trans ((pairwise_append.1 hsorted).2.2 e he last (by simp)) hlast
    · exact hlast

/-- What is after the end of a page is after its start. -/
theorem View.precedes_of_finish {v : View α} (hs : StrictSorted cmp v.entries) {b : α}
    (hb : Precedes cmp (v.finish cmp place) b) : Precedes cmp place b := by
  cases hpage : v.page cmp place with
  | nil => rwa [View.finish, hpage] at hb
  | cons a l =>
    have hmem : a ∈ v.page cmp place := by rw [hpage]; exact mem_cons_self
    obtain ⟨hbefore, hafter⟩ := View.between hs hmem
    exact hbefore.trans (hafter hb)

/-- Something lies after the end of a page exactly if the limit cuts something off. -/
theorem View.exists_after_iff {v : View α} (hs : StrictSorted cmp v.entries) (place : Option α) :
    (∃ e ∈ v.entries, Precedes cmp (v.finish cmp place) e) ↔ v.limit < (rest cmp place v.entries).length := by
  constructor
  · rintro ⟨e, he, hp⟩
    by_contra hle
    have hall : v.page cmp place = rest cmp place v.entries := take_of_length_le (Nat.le_of_not_lt hle)
    have hmem : e ∈ v.page cmp place := hall ▸ mem_rest.2 ⟨he, View.precedes_of_finish hs hp⟩
    have hself := (View.between hs hmem).2 hp
    simp [ReflCmp.compare_self] at hself
  · intro hlt
    have hdrop : (rest cmp place v.entries)[v.limit] ∈ (rest cmp place v.entries).drop v.limit :=
      mem_drop_iff_getElem.2 ⟨0, by omega, by simp⟩
    exact ⟨_, (mem_rest.1 (mem_of_mem_drop hdrop)).1, View.precedes_of_mem_drop hs hdrop⟩

/-- Successive pages list everything in order, between the place they start at and the one they end at. -/
theorem pages_spec {views} (h : ∀ v ∈ views, StrictSorted cmp v.entries) (place : Option α) :
    StrictSorted cmp (pages cmp place views) ∧ (∀ e ∈ pages cmp place views, Precedes cmp place e) ∧
      ∀ b, Precedes cmp (finish cmp place views) b →
        Precedes cmp place b ∧ ∀ e ∈ pages cmp place views, cmp e b = .lt := by
  induction views generalizing place with
  | nil => exact ⟨.nil, by simp [pages], fun b hb => ⟨hb, by simp [pages]⟩⟩
  | cons v views ih =>
    rw [forall_mem_cons] at h
    obtain ⟨hsorted, hafter, hbefore⟩ := ih h.2 (v.finish cmp place)
    simp only [pages, finish, mem_append]
    refine ⟨pairwise_append.2 ⟨strictSorted_page h.1 place, hsorted, fun a ha b hb =>
      (View.between h.1 ha).2 (hafter b hb)⟩, ?_, fun b hb => ⟨View.precedes_of_finish h.1 (hbefore b hb).1, ?_⟩⟩
    · rintro e (he | he)
      · exact (View.between h.1 he).1
      · exact View.precedes_of_finish h.1 (hafter e he)
    · rintro e (he | he)
      · exact (View.between h.1 he).2 (hbefore b hb).1
      · exact (hbefore b hb).2 e he

/-- Over pages that start before everything, the end is before exactly what all of them are before. -/
theorem precedes_finish_iff {views} (h : ∀ v ∈ views, StrictSorted cmp v.entries) {b : α} :
    Precedes cmp (finish cmp none views) b ↔ ∀ e ∈ pages cmp none views, cmp e b = .lt := by
  refine ⟨fun hb => ((pages_spec h none).2.2 b hb).2, fun hb e he => ?_⟩
  rcases mem_pages_of_finish he with hmem | hnone
  · exact hb e hmem
  · cases hnone

end Laws

end PolicyEngine.Lib.Paging
