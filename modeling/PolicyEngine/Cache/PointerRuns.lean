import PolicyEngine.Cache.PointerCalls

/-!
# Runs of the slot-pointer cache

Beside a store whose slot generations only grow, no resident pointer falls behind a
committed update that was reported, or behind an earlier resident: a floor under a slot
is kept by the entry, by the pending pointer of a fill, or by the store that a fill has
still to read.
-/

open PolicyEngine.Lib Function

namespace PolicyEngine.Cache

/-! ## Beside a store -/

/-- The cache, the slots of the store, and the fills that are about. -/
structure PointerSystem where
  cache : PointerCache
  /-- The pointers committed to a slot, the last one first. -/
  slots : SlotKey → List SlotPointer
  begun : List AuthoritativeFill
  /-- What the lookups made under a fill have read. -/
  lookups : AuthoritativeFill → List SlotPointer

inductive PointerAction where
  | commit (key : SlotKey) (pointer : SlotPointer)
  | updateCommitted (key : SlotKey) (pointer : SlotPointer)
  | beginAuthoritativeFill (key : SlotKey)
  | lookup (f : AuthoritativeFill)
  | complete (f : AuthoritativeFill) (pointer : SlotPointer)
  | cancel (f : AuthoritativeFill)
  | pin (key : SlotKey)

namespace PointerSystem

/-- Slot generations only grow, an update follows its commit, and a fill is completed with what was looked up under it,
or with no valid pointer. -/
def step (s : PointerSystem) : PointerAction → Option PointerSystem
  | .commit key pointer =>
    if key.valid ∧ pointer.valid ∧ ∀ q ∈ s.slots key, q.generation < pointer.generation then
      some { s with slots := Function.update s.slots key (pointer :: s.slots key) }
    else none
  | .updateCommitted key pointer =>
    if pointer ∈ s.slots key then some { s with cache := (s.cache.UpdateCommitted key pointer).2 } else none
  | .beginAuthoritativeFill key =>
    match s.cache.BeginAuthoritativeFill key with
    | (.error _, c) => some { s with cache := c }
    | (.ok f, c) => some { s with cache := c, begun := f :: s.begun }
  | .lookup f =>
    if f ∈ s.begun then
      some { s with lookups := Function.update s.lookups f ((s.slots f.key).head?.toList ++ s.lookups f) }
    else none
  | .complete f pointer =>
    if f ∈ s.begun ∧ (pointer ∈ s.lookups f ∨ pointer.valid = false) then
      some { s with cache := (s.cache.Complete f pointer).2 }
    else none
  | .cancel f => if f ∈ s.begun then some { s with cache := s.cache.Cancel f } else none
  | .pin key => some { s with cache := (s.cache.Pin key).2 }

def Initial (maxEntries : Nat) (s : PointerSystem) : Prop :=
  s.cache = NewPointerCache maxEntries ∧ (∀ k, s.slots k = []) ∧ s.begun = [] ∧ ∀ f, s.lookups f = []

abbrev Reached (maxEntries : Nat) : PointerSystem → Prop := Reachable step (Initial maxEntries)

/-- What is resident, pending or looked up was committed to its slot. -/
structure Inv (s : PointerSystem) : Prop where
  wf : s.cache.Wf
  sorted : ∀ k, (s.slots k).Pairwise fun p q => q.generation < p.generation
  valid : ∀ k, ∀ p ∈ s.slots k, k.valid = true ∧ p.valid = true
  begun : ∀ f ∈ s.begun, ∀ state, f.state = some state → state < s.cache.nextState
  unread : ∀ f, f ∉ s.begun → s.lookups f = []
  resident : ∀ k e, s.cache.entries.get? k = some e → e.pointer ∈ s.slots k
  pending : ∀ k fill q, s.cache.fills.get? k = some fill → fill.pending = some q → q ∈ s.slots k
  looked : ∀ f, ∀ q ∈ s.lookups f, q ∈ s.slots f.key

/-- Nothing older than `generation` is or becomes resident: the entry, or the fill, or what the fill reads is as new. -/
structure Floor (s : PointerSystem) (key : SlotKey) (generation : Nat) : Prop where
  store : ∃ q ∈ s.slots key, generation ≤ q.generation
  resident : ∀ e, s.cache.entries.get? key = some e → generation ≤ e.pointer.generation
  filling : ∀ fill, s.cache.fills.get? key = some fill → fill.conflicted = true ∨
    (∃ q, fill.pending = some q ∧ generation ≤ q.generation) ∨
    ∀ q ∈ s.lookups ⟨key, some fill.state⟩, generation ≤ q.generation

variable {s s' : PointerSystem}

theorem inv_initial {maxEntries : Nat} (h : s.Initial maxEntries) : s.Inv := by
  obtain ⟨hcache, hslots, hbegun, hlookups⟩ := h
  constructor
  · rw [hcache]; exact PointerCache.wf_new maxEntries
  · intro k; rw [hslots]; exact .nil
  · intro k p hp; rw [hslots] at hp; cases hp
  · intro f hf; rw [hbegun] at hf; cases hf
  · exact fun f _ => hlookups f
  · intro k e he; rw [hcache] at he; cases he
  · intro k fill q hfill; rw [hcache] at hfill; cases hfill
  · intro f q hq; rw [hlookups] at hq; cases hq

/-! ## Commits and lookups -/

variable {key k : SlotKey} {pointer q : SlotPointer}

/-- A commit takes nothing away. -/
theorem mem_committed (h : q ∈ s.slots k) :
    q ∈ update s.slots key (pointer :: s.slots key) k := by
  rw [update_apply]
  split
  next heq => subst heq; exact List.mem_cons_of_mem _ h
  next => exact h

theorem Inv.commit (h : s.Inv) {key pointer} (hkey : key.valid = true) (hpointer : pointer.valid = true)
    (hnew : ∀ q ∈ s.slots key, q.generation < pointer.generation) :
    Inv { s with slots := update s.slots key (pointer :: s.slots key) } := by
  refine ⟨h.wf, fun k => ?_, fun k p hp => ?_, h.begun, h.unread, fun k e he => mem_committed (h.resident k e he),
    fun k fill q hfill hq => mem_committed (h.pending k fill q hfill hq), fun f q hq => mem_committed (h.looked f q hq)⟩
  · dsimp only
    rw [update_apply]
    split
    next heq => subst heq; exact List.pairwise_cons.2 ⟨hnew, h.sorted k⟩
    next => exact h.sorted k
  · dsimp only at hp
    rw [update_apply] at hp
    split at hp
    next heq =>
      subst heq
      rcases List.mem_cons.1 hp with rfl | hp
      · exact ⟨hkey, hpointer⟩
      · exact h.valid k p hp
    next => exact h.valid k p hp

theorem Floor.commit {k g} (hf : s.Floor k g) (key : SlotKey) (pointer : SlotPointer) :
    Floor { s with slots := update s.slots key (pointer :: s.slots key) } k g := by
  refine ⟨?_, hf.resident, hf.filling⟩
  obtain ⟨q, hq, hle⟩ := hf.store
  exact ⟨q, mem_committed hq, hle⟩

/-- The current pointer of a slot is the newest one. -/
theorem Inv.le_current (h : s.Inv) {p} (hp : (s.slots k).head? = some p) (hq : q ∈ s.slots k) :
    q.generation ≤ p.generation := by
  obtain ⟨rest, hslots⟩ := List.head?_eq_some_iff.1 hp
  have hsorted := h.sorted k
  rw [hslots] at hsorted hq
  rcases List.mem_cons.1 hq with rfl | hq
  · exact Nat.le_refl _
  · exact Nat.le_of_lt (List.rel_of_pairwise_cons hsorted hq)

variable {f : AuthoritativeFill}

theorem mem_lookup {f'} (h : q ∈ update s.lookups f ((s.slots f.key).head?.toList ++ s.lookups f) f') :
    q ∈ s.lookups f' ∨ f' = f ∧ (s.slots f.key).head? = some q := by
  rw [update_apply] at h
  split at h
  next heq =>
    rw [List.mem_append, Option.mem_toList] at h
    exact h.elim (fun hq => .inr ⟨heq, hq⟩) fun hq => .inl (heq ▸ hq)
  next => exact .inl h

theorem Inv.lookup (h : s.Inv) (hf : f ∈ s.begun) :
    Inv { s with lookups := update s.lookups f ((s.slots f.key).head?.toList ++ s.lookups f) } := by
  refine ⟨h.wf, h.sorted, h.valid, h.begun, fun f' hf' => ?_, h.resident, h.pending, fun f' q hq => ?_⟩
  · dsimp only
    have hne : f' ≠ f := by
      rintro rfl
      exact hf' hf
    rw [update_of_ne hne]
    exact h.unread f' hf'
  · rcases mem_lookup hq with hq | ⟨rfl, hq⟩
    · exact h.looked f' q hq
    · exact List.mem_of_mem_head? hq

variable {g : Nat}

theorem Floor.lookup (hf : s.Floor k g) (h : s.Inv) (f : AuthoritativeFill) :
    Floor { s with lookups := update s.lookups f ((s.slots f.key).head?.toList ++ s.lookups f) } k g := by
  refine ⟨hf.store, hf.resident, fun fill hfill => ?_⟩
  rcases hf.filling fill hfill with hconflicted | hpending | hlooked
  · exact .inl hconflicted
  · exact .inr (.inl hpending)
  · refine .inr (.inr fun q hq => ?_)
    rcases mem_lookup hq with hq | ⟨rfl, hq⟩
    · exact hlooked q hq
    · obtain ⟨q', hq', hle⟩ := hf.store
      exact Nat.le_trans hle (h.le_current hq hq')

/-! ## Calls -/

variable {c : PointerCache}

/-- A call that leaves the cache `c`. -/
theorem Inv.call (h : s.Inv) (hwf : c.Wf) (hnext : s.cache.nextState ≤ c.nextState)
    (hresident : ∀ k e, c.entries.get? k = some e → e.pointer ∈ s.slots k)
    (hpending : ∀ k fill q, c.fills.get? k = some fill → fill.pending = some q → q ∈ s.slots k) :
    Inv { s with cache := c } :=
  ⟨hwf, h.sorted, h.valid, fun f hf state hstate => Nat.lt_of_lt_of_le (h.begun f hf state hstate) hnext, h.unread,
    hresident, hpending, h.looked⟩

theorem Inv.updateCommitted (h : s.Inv) (hp : pointer ∈ s.slots key) (hu : s.cache.Updated key pointer c) :
    Inv { s with cache := c } := by
  have hwf := hu.wf h.wf
  cases hu with
  | refused | absent | behind | same => exact h.call hwf (Nat.le_refl _) h.resident h.pending
  | newer hentry =>
    refine h.call hwf (Nat.le_refl _) (fun k e he => ?_) h.pending
    rw [Table.get?_set] at he
    split at he
    next heq => rw [← Option.some.inj he, ← heq]; exact hp
    next => exact h.resident k e he
  | @noted fill fill' hentry hfill hn =>
    refine h.call hwf (Nat.le_refl _) h.resident fun k f q hf hq => ?_
    rw [Table.get?_set] at hf
    split at hf
    next heq =>
      obtain rfl := Option.some.inj hf
      have hkey : key = k := by rw [← heq, hn.key, (Table.get?_eq_some.1 hfill).2]
      subst hkey
      rcases hn.source q hq with rfl | hq
      · exact hp
      · exact h.pending key fill q hfill hq
    next => exact h.pending k f q hf hq

theorem Floor.updateCommitted (hf : s.Floor k g) (hu : s.cache.Updated key pointer c) :
    Floor { s with cache := c } k g := by
  cases hu with
  | refused | absent | behind | same => exact ⟨hf.store, hf.resident, hf.filling⟩
  | newer hentry hlt =>
    refine ⟨hf.store, fun e he => ?_, hf.filling⟩
    dsimp only at he
    rw [Table.get?_set] at he
    split at he
    next heq =>
      obtain rfl := heq
      rw [← Option.some.inj he]
      exact Nat.le_of_lt (Nat.lt_of_le_of_lt (hf.resident _ hentry) hlt)
    next => exact hf.resident e he
  | @noted fill fill' hentry hfill hn =>
    refine ⟨hf.store, hf.resident, fun f hfget => ?_⟩
    dsimp only at hfget ⊢
    rw [Table.get?_set] at hfget
    split at hfget
    next heq =>
      obtain rfl := Option.some.inj hfget
      have hkey : key = k := by rw [← heq, hn.key, (Table.get?_eq_some.1 hfill).2]
      subst hkey
      rw [hn.state]
      rcases hf.filling fill hfill with hconflicted | ⟨q, hq, hle⟩ | hlooked
      · exact .inl (hn.conflicted hconflicted)
      · obtain ⟨q', hq', hle'⟩ := hn.pending q hq
        exact .inr (.inl ⟨q', hq', Nat.le_trans hle hle'⟩)
      · exact .inr (.inr hlooked)
    next => exact hf.filling f hfget

/-- A reported commit is a floor from then on. -/
theorem Inv.floor_updateCommitted (h : s.Inv) (hp : pointer ∈ s.slots key) (hu : s.cache.Updated key pointer c) :
    Floor { s with cache := c } key pointer.generation := by
  have hvalid : ¬ (key.valid = false ∨ pointer.valid = false) := by simp [h.valid key pointer hp]
  refine ⟨⟨pointer, hp, Nat.le_refl _⟩, ?_, ?_⟩
  · intro e he
    dsimp only at he
    cases hu with
    | refused hinvalid => exact absurd hinvalid hvalid
    | absent hentry => rw [hentry] at he; cases he
    | behind hentry hle | same hentry hle => rw [← Option.some.inj (hentry.symm.trans he)]; exact hle
    | newer =>
      rw [Table.get?_set, if_pos rfl] at he
      cases Option.some.inj he
      exact Nat.le_refl _
    | noted hentry => rw [hentry] at he; cases he
  · intro fill hfill
    dsimp only at hfill ⊢
    cases hu with
    | refused hinvalid => exact absurd hinvalid hvalid
    | absent _ hnone => rw [hnone] at hfill; cases hfill
    | behind hentry | same hentry | newer hentry =>
      rw [h.wf.disjoint key (by rw [hentry]; rfl)] at hfill
      cases hfill
    | noted hentry hget hn =>
      rw [Table.get?_set, hn.key, if_pos (Table.get?_eq_some.1 hget).2] at hfill
      rw [← Option.some.inj hfill]
      exact hn.covers.imp id .inl

/-- A resident is a floor from then on: its slot has no fill that could have read earlier. -/
theorem Inv.floor_resident (h : s.Inv) {e} (he : s.cache.entries.get? key = some e) :
    s.Floor key e.pointer.generation := by
  refine ⟨⟨e.pointer, h.resident key e he, Nat.le_refl _⟩, fun e' he' => ?_, fun fill hfill => ?_⟩
  · cases Option.some.inj (he.symm.trans he')
    exact Nat.le_refl _
  · rw [h.wf.disjoint key (by rw [he]; rfl)] at hfill
    cases hfill

/-- A fresh fill has read nothing yet. -/
theorem Inv.fresh (h : s.Inv) (key : SlotKey) : s.lookups ⟨key, some s.cache.nextState⟩ = [] :=
  h.unread _ fun hmem => Nat.lt_irrefl _ (h.begun _ hmem _ rfl)

theorem Inv.begin (h : s.Inv) (hb : s.cache.Begun key (.ok f, c)) :
    Inv { s with cache := c, begun := f :: s.begun } := by
  have hwf := hb.wf h.wf
  cases hb with
  | reserved _ _ _ _ hfills _ _ hentries =>
    have hcall := h.call hwf (Nat.le_succ _) (fun k e he => h.resident k e (hentries k e he)) fun k fill q hfill hq => ?_
    · refine ⟨hcall.wf, hcall.sorted, hcall.valid, fun f hf state hstate => ?_, fun f hf => ?_, hcall.resident,
        hcall.pending, hcall.looked⟩
      · rcases List.mem_cons.1 hf with rfl | hf
        · rw [← Option.some.inj hstate]
          exact Nat.lt_succ_self _
        · exact hcall.begun f hf state hstate
      · exact h.unread f fun hmem => hf (List.mem_cons_of_mem _ hmem)
    · rw [hfills, Table.get?_set] at hfill
      split at hfill
      · rw [← Option.some.inj hfill] at hq
        cases hq
      · exact h.pending k fill q hfill hq

theorem Floor.begin (hf : s.Floor k g) (h : s.Inv) (hb : s.cache.Begun key (.ok f, c)) :
    Floor { s with cache := c, begun := f :: s.begun } k g := by
  cases hb with
  | reserved _ _ _ _ hfills _ _ hentries =>
    refine ⟨hf.store, fun e he => hf.resident e (hentries k e he), fun fill hfill => ?_⟩
    dsimp only at hfill ⊢
    rw [hfills, Table.get?_set] at hfill
    split at hfill
    next heq =>
      obtain rfl := Option.some.inj hfill
      obtain rfl := heq
      refine .inr (.inr fun q hq => ?_)
      rw [h.fresh] at hq
      cases hq
    next => exact hf.filling fill hfill

theorem Inv.complete (h : s.Inv) (hp : pointer ∈ s.lookups f ∨ pointer.valid = false)
    (hc : s.cache.Completed f pointer c) :
    Inv { s with cache := c } := by
  have hwf := hc.wf h.wf
  have hreleased : ∀ k fill q, (s.cache.fills.delete f.key).get? k = some fill → fill.pending = some q →
      q ∈ s.slots k := by
    intro k fill q hfill hq
    rw [Table.get?_delete] at hfill
    split at hfill
    · cases hfill
    · exact h.pending k fill q hfill hq
  cases hc with
  | closed => exact h
  | released => exact h.call hwf (Nat.le_refl _) h.resident hreleased
  | @admitted fill selected hfill hpointer _ hselected =>
    refine h.call hwf (Nat.le_refl _) (fun k e he => ?_) hreleased
    rw [Table.get?_set] at he
    split at he
    next heq =>
      obtain rfl := Option.some.inj he
      obtain rfl : f.key = k := heq
      rcases (PointerCache.selectNewestPointer_eq_ok hselected).1 with rfl | hpending
      · exact h.looked f selected (hp.resolve_right (by simp [hpointer]))
      · exact h.pending f.key fill selected (PointerCache.held_eq_some.1 hfill).1 hpending
    next => exact h.resident k e he

theorem Floor.release {k g} (hf : s.Floor k g) (key : SlotKey) :
    Floor { s with cache := { s.cache with fills := s.cache.fills.delete key } } k g := by
  refine ⟨hf.store, hf.resident, fun fill hfill => ?_⟩
  dsimp only at hfill
  rw [Table.get?_delete] at hfill
  split at hfill
  · cases hfill
  · exact hf.filling fill hfill

theorem Floor.complete (hf : s.Floor k g) (hp : pointer ∈ s.lookups f ∨ pointer.valid = false)
    (hc : s.cache.Completed f pointer c) :
    Floor { s with cache := c } k g := by
  cases hc with
  | closed => exact hf
  | released => exact hf.release f.key
  | @admitted fill selected hfill hpointer hconflicted hselected =>
    refine ⟨hf.store, fun e he => ?_, (hf.release f.key).filling⟩
    dsimp only at he
    rw [Table.get?_set] at he
    split at he
    next heq =>
      obtain rfl := Option.some.inj he
      obtain rfl : f.key = k := heq
      obtain ⟨hget, hhandle⟩ := PointerCache.held_eq_some.1 hfill
      obtain ⟨-, hauthoritative, hpending⟩ := PointerCache.selectNewestPointer_eq_ok hselected
      -- either the pending pointer or the looked up one reaches the floor
      rcases hf.filling fill hget with htrue | ⟨q, hq, hle⟩ | hlooked
      · rw [hconflicted] at htrue
        cases htrue
      · exact Nat.le_trans hle (hpending q hq)
      · refine Nat.le_trans (hlooked pointer ?_) hauthoritative
        have hsame : (⟨f.key, some fill.state⟩ : AuthoritativeFill) = f := by rw [hhandle]
        rw [hsame]
        exact hp.resolve_right (by simp [hpointer])
    next => exact hf.resident e he

theorem Inv.cancel (h : s.Inv) (f : AuthoritativeFill) : Inv { s with cache := s.cache.Cancel f } := by
  refine h.call (h.wf.cancel f) ?_ ?_ ?_ <;> unfold PointerCache.Cancel <;> split
  · exact Nat.le_refl _
  · exact Nat.le_refl _
  · exact h.resident
  · exact h.resident
  · exact h.pending
  · intro k fill q hfill hq
    rw [Table.get?_delete] at hfill
    split at hfill
    · cases hfill
    · exact h.pending k fill q hfill hq

theorem Floor.cancel (hf : s.Floor k g) (f : AuthoritativeFill) :
    Floor { s with cache := s.cache.Cancel f } k g := by
  unfold PointerCache.Cancel
  split
  · exact hf
  · exact hf.release f.key

theorem pin_frame (c : PointerCache) (key : SlotKey) : (c.Pin key).2.entries = c.entries ∧
    (c.Pin key).2.fills = c.fills ∧ (c.Pin key).2.nextState = c.nextState ∧
      (c.Pin key).2.maxEntries = c.maxEntries := by
  unfold PointerCache.Pin
  split
  · exact ⟨rfl, rfl, rfl, rfl⟩
  split <;> exact ⟨rfl, rfl, rfl, rfl⟩

theorem Inv.pin (h : s.Inv) (key : SlotKey) : Inv { s with cache := (s.cache.Pin key).2 } := by
  obtain ⟨hentries, hfills, hnext, -⟩ := pin_frame s.cache key
  refine h.call (h.wf.pin key) (Nat.le_of_eq hnext.symm) ?_ ?_
  · rw [hentries]; exact h.resident
  · rw [hfills]; exact h.pending

theorem Floor.pin {k g} (hf : s.Floor k g) (key : SlotKey) :
    Floor { s with cache := (s.cache.Pin key).2 } k g := by
  obtain ⟨hentries, hfills, -, -⟩ := pin_frame s.cache key
  refine ⟨hf.store, ?_, ?_⟩ <;> dsimp only
  · rw [hentries]; exact hf.resident
  · rw [hfills]; exact hf.filling

/-! ## Runs -/

/-- The states one action may lead to. -/
inductive Moves (s : PointerSystem) : PointerSystem → Prop
  | still : Moves s s
  | commit {key : SlotKey} {pointer : SlotPointer} (hkey : key.valid = true) (hpointer : pointer.valid = true)
      (hnew : ∀ q ∈ s.slots key, q.generation < pointer.generation) :
      Moves s { s with slots := Function.update s.slots key (pointer :: s.slots key) }
  | updated {key : SlotKey} {pointer : SlotPointer} {c : PointerCache} (hp : pointer ∈ s.slots key)
      (hu : s.cache.Updated key pointer c) : Moves s { s with cache := c }
  | begun {key : SlotKey} {f : AuthoritativeFill} {c : PointerCache} (hb : s.cache.Begun key (.ok f, c)) :
      Moves s { s with cache := c, begun := f :: s.begun }
  | lookup {f : AuthoritativeFill} (hf : f ∈ s.begun) :
      Moves s { s with lookups := Function.update s.lookups f ((s.slots f.key).head?.toList ++ s.lookups f) }
  | completed {f : AuthoritativeFill} {pointer : SlotPointer} {c : PointerCache}
      (hp : pointer ∈ s.lookups f ∨ pointer.valid = false) (hc : s.cache.Completed f pointer c) :
      Moves s { s with cache := c }
  | cancel (f : AuthoritativeFill) : Moves s { s with cache := s.cache.Cancel f }
  | pin (key : SlotKey) : Moves s { s with cache := (s.cache.Pin key).2 }

theorem Inv.moves (h : s.Inv) {a} (hstep : s.step a = some s') : s.Moves s' := by
  cases a with
  | commit key pointer =>
    simp only [step, Option.ite_none_right_eq_some, Option.some.injEq] at hstep
    obtain ⟨⟨hkey, hpointer, hnew⟩, rfl⟩ := hstep
    exact .commit hkey hpointer hnew
  | updateCommitted key pointer =>
    simp only [step, Option.ite_none_right_eq_some, Option.some.injEq] at hstep
    obtain ⟨hp, rfl⟩ := hstep
    exact .updated hp (PointerCache.updated _ _ _)
  | beginAuthoritativeFill key =>
    have hb := PointerCache.begun h.wf key
    simp only [step] at hstep
    split at hstep
    next e c hbegin =>
      rw [hbegin] at hb
      cases hb
      obtain rfl := Option.some.inj hstep
      exact .still
    next f c hbegin =>
      obtain rfl := Option.some.inj hstep
      exact .begun (hbegin ▸ hb)
  | lookup f =>
    simp only [step, Option.ite_none_right_eq_some, Option.some.injEq] at hstep
    obtain ⟨hf, rfl⟩ := hstep
    exact .lookup hf
  | complete f pointer =>
    simp only [step, Option.ite_none_right_eq_some, Option.some.injEq] at hstep
    obtain ⟨⟨-, hp⟩, rfl⟩ := hstep
    exact .completed hp (PointerCache.completed h.wf _ _)
  | cancel f =>
    simp only [step, Option.ite_none_right_eq_some, Option.some.injEq] at hstep
    obtain ⟨-, rfl⟩ := hstep
    exact .cancel f
  | pin key =>
    obtain rfl := Option.some.inj hstep
    exact .pin key

theorem Inv.step (h : s.Inv) {a} (hstep : s.step a = some s') : s'.Inv := by
  cases h.moves hstep with
  | still => exact h
  | commit hkey hpointer hnew => exact h.commit hkey hpointer hnew
  | updated hp hu => exact h.updateCommitted hp hu
  | begun hb => exact h.begin hb
  | lookup hf => exact h.lookup hf
  | completed hp hc => exact h.complete hp hc
  | cancel f => exact h.cancel f
  | pin key => exact h.pin key

theorem Floor.step {k g} (hf : s.Floor k g) (h : s.Inv) {a} (hstep : s.step a = some s') : s'.Floor k g := by
  cases h.moves hstep with
  | still => exact hf
  | commit => exact hf.commit _ _
  | updated hp hu => exact hf.updateCommitted hu
  | begun hb => exact hf.begin h hb
  | lookup => exact hf.lookup h _
  | completed hp hc => exact hf.complete hp hc
  | cancel f => exact hf.cancel f
  | pin key => exact hf.pin key

theorem Inv.maxEntries_eq (h : s.Inv) {a} (hstep : s.step a = some s') :
    s'.cache.maxEntries = s.cache.maxEntries := by
  cases h.moves hstep with
  | still | commit | lookup => rfl
  | updated hp hu => cases hu <;> rfl
  | begun hb => cases hb; assumption
  | completed hp hc => cases hc <;> rfl
  | cancel f => unfold PointerCache.Cancel; split <;> rfl
  | pin key => exact (pin_frame s.cache key).2.2.2

theorem inv_of_reached {maxEntries : Nat} (h : s.Reached maxEntries) : s.Inv ∧ s.cache.maxEntries = maxEntries := by
  refine h.invariant (I := fun t => t.Inv ∧ t.cache.maxEntries = maxEntries) (fun t hi => ?_) fun t a t' hi _ hs => ?_
  · exact ⟨inv_initial hi, by rw [hi.1]; rfl⟩
  · exact ⟨hi.1.step hs, (hi.1.maxEntries_eq hs).trans hi.2⟩

/-- A floor stays, whatever follows. -/
theorem Floor.run (hf : s.Floor k g) (h : s.Inv) (hr : Reachable PointerSystem.step (· = s) s') :
    s'.Floor k g :=
  (hr.invariant (I := fun t => t.Inv ∧ t.Floor k g) (by rintro _ rfl; exact ⟨h, hf⟩)
    fun _ _ _ hi _ hs => ⟨hi.1.step hs, hi.2.step hi.1 hs⟩).2

/-- The cache in every reachable state, and what its residents are at least. -/
theorem pointerCache_coherent {maxEntries : Nat} (h : s.Reached maxEntries) :
    (∀ k, (s.cache.entries.get? k).isSome = true → s.cache.fills.get? k = none) ∧
    s.cache.entries.rows.length + s.cache.fills.rows.length ≤ maxEntries ∧
    s.cache.recency.Nodup ∧ (∀ k, k ∈ s.cache.recency ↔ (s.cache.entries.get? k).isSome = true) ∧
    (∀ key pointer t t' e, s.step (.updateCommitted key pointer) = some t → Reachable step (· = t) t' →
      t'.cache.entries.get? key = some e → pointer.generation ≤ e.pointer.generation) ∧
    ∀ key e t' e', s.cache.entries.get? key = some e → Reachable step (· = s) t' →
      t'.cache.entries.get? key = some e' → e.pointer.generation ≤ e'.pointer.generation := by
  obtain ⟨hinv, hmax⟩ := inv_of_reached h
  refine ⟨hinv.wf.disjoint, hmax ▸ hinv.wf.bounded, hinv.wf.recent.nodup, fun k => hinv.wf.recent.mem_iff, ?_, ?_⟩
  · intro key pointer t t' e hstep hrun he
    have ht := hinv.step hstep
    simp only [step, Option.ite_none_right_eq_some, Option.some.injEq] at hstep
    obtain ⟨hp, rfl⟩ := hstep
    exact ((hinv.floor_updateCommitted hp (PointerCache.updated _ _ _)).run ht hrun).resident e he
  · intro key e t' e' he hrun he'
    exact ((hinv.floor_resident he).run hinv hrun).resident e' he'

/-! A commit between the lookup of a fill and its completion. -/

def mainSlot : SlotKey := ⟨ascii "n", ascii "main"⟩

def quietSystem : PointerSystem := ⟨NewPointerCache 1, fun _ => [], [], fun _ => []⟩

def overtakenFill : List PointerAction :=
  [.commit mainSlot ⟨ascii "r1", 1⟩, .beginAuthoritativeFill mainSlot, .lookup ⟨mainSlot, some 0⟩,
    .commit mainSlot ⟨ascii "r2", 2⟩]

theorem pointerCache_coherent_sample :
    ∃ (s t t' : PointerSystem) (e : PointerEntry), s.Reached 1 ∧
      s.step (.updateCommitted mainSlot ⟨ascii "r2", 2⟩) = some t ∧
      t.step (.complete ⟨mainSlot, some 0⟩ ⟨ascii "r1", 1⟩) = some t' ∧ t'.cache.entries.get? mainSlot = some e ∧
      2 ≤ e.pointer.generation := by
  obtain ⟨e, he⟩ : ∃ e, (run step quietSystem (overtakenFill ++ [.updateCommitted mainSlot ⟨ascii "r2", 2⟩] ++
      [.complete ⟨mainSlot, some 0⟩ ⟨ascii "r1", 1⟩])).bind (·.cache.entries.get? mainSlot) = some e :=
    Option.isSome_iff_exists.1 (by decide +kernel)
  obtain ⟨t', hrun, he⟩ := Option.bind_eq_some_iff.1 he
  obtain ⟨t, hrun, hcomplete⟩ := run_concat.1 hrun
  obtain ⟨s, hrun, hupdate⟩ := run_concat.1 hrun
  have hreached : s.Reached 1 := Reachable.run (.start ⟨rfl, fun _ => rfl, rfl, fun _ => rfl⟩) hrun
  obtain ⟨-, -, -, -, hfloor, -⟩ := pointerCache_coherent hreached
  exact ⟨s, t, t', e, hreached, hupdate, hcomplete, he, hfloor _ _ t t' e hupdate (.next (.start rfl) trivial hcomplete) he⟩

end PointerSystem

end PolicyEngine.Cache
