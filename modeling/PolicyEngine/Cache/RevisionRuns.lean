import PolicyEngine.Cache.RevisionResidents

/-!
# Runs of the compiled-revision cache

The key of a load that is neither abandoned nor finished leads to it, and no other load
is in flight for that key. As long as a load is unfinished, its waiters are the callers
that wait for it or are about to leave, so the one that brings them to zero is the last.
-/

open PolicyEngine.Lib List

namespace PolicyEngine.Cache

variable [Artifacts]

/-- The caller waits for the call, or is about to leave it. -/
def GetOrLoad.on (t : GetOrLoad) (id : Nat) : Bool :=
  match t.pc with
  | .waiting call => call = id
  | .leaving call => call = id
  | _ => false

/-- The load has not completed and is not abandoned. -/
def RevisionCall.live (call : RevisionCall) : Prop := call.abandoned = false ∧ call.result = none

namespace RevisionSystem

def waitersOn (s : RevisionSystem) (id : Nat) : Nat := s.callers.countP (·.on id)

structure CallOk (s : RevisionSystem) (id : Nat) (call : RevisionCall) : Prop where
  live_iff : call.live ↔ s.cache.inflight.get? call.key = some ⟨call.key, id⟩
  waiters : call.result = none → call.waiters = s.waitersOn id
  abandoned : call.abandoned = true → call.result = none → call.waiters = 0
  canceled : call.canceled = true → ¬call.live
  unfinished : ∀ result, call.pc = .loading ∨ call.pc = .loaded result → call.result = none
  published : call.pc = .published → call.result ≠ none
  loaded : ∀ value, call.pc = .loaded (.ok value) → (call.key, value) ∈ s.produced
  result : ∀ value, call.result = some (.ok value) → (call.key, value) ∈ s.produced

def CallerOk (s : RevisionSystem) (t : GetOrLoad) : Prop :=
  match t.pc with
  | .waiting id => ∃ call, s.calls[id]? = some call ∧ call.key = t.key
  | .leaving id => ∃ call, s.calls[id]? = some call ∧ call.key = t.key
  | .returned (.ok value) => (t.key, value) ∈ s.produced
  | _ => True

structure Inv (limits : RevisionLimits) (s : RevisionSystem) : Prop where
  wf : s.cache.Wf
  limits_eq : s.cache.limits = limits
  inflight : ∀ row ∈ s.cache.inflight, ∃ call, s.calls[row.call]? = some call ∧ call.key = row.key
  calls : ∀ id call, s.calls[id]? = some call → s.CallOk id call
  callers : ∀ t ∈ s.callers, s.CallerOk t
  entries : ∀ e ∈ s.cache.entries, (e.key, e.value) ∈ s.produced

/-- Calls keep their keys, and what was produced stays produced. -/
structure Extends (s s' : RevisionSystem) : Prop where
  calls : ∀ {id : Nat} {call : RevisionCall}, s.calls[id]? = some call →
    ∃ call' : RevisionCall, s'.calls[id]? = some call' ∧ call'.key = call.key
  produced : ∀ {p}, p ∈ s.produced → p ∈ s'.produced

variable {s s' : RevisionSystem} {limits : RevisionLimits}

variable {t : GetOrLoad}

theorem Extends.caller (h : Extends s s') (ht : s.CallerOk t) : s'.CallerOk t := by
  have hcall {id : Nat} : (∃ call, s.calls[id]? = some call ∧ call.key = t.key) →
      ∃ call, s'.calls[id]? = some call ∧ call.key = t.key := by
    rintro ⟨call, hcall, hkey⟩
    obtain ⟨call', hcall', hkey'⟩ := h.calls hcall
    exact ⟨call', hcall', hkey'.trans hkey⟩
  unfold CallerOk at ht ⊢
  split
  next hpc => rw [hpc] at ht; exact hcall ht
  next hpc => rw [hpc] at ht; exact hcall ht
  next hpc => rw [hpc] at ht; exact h.produced ht
  next => trivial

variable {id : Nat} {call : RevisionCall}

/-- A call that a step does not touch. -/
theorem CallOk.frame (h : s.CallOk id call)
    (hinflight : s'.cache.inflight.get? call.key = some ⟨call.key, id⟩ ↔ s.cache.inflight.get? call.key = some ⟨call.key, id⟩)
    (hwaiters : call.result = none → s'.waitersOn id = s.waitersOn id)
    (hproduced : ∀ {p}, p ∈ s.produced → p ∈ s'.produced) : s'.CallOk id call where
  live_iff := h.live_iff.trans hinflight.symm
  waiters hresult := by rw [h.waiters hresult, hwaiters hresult]
  abandoned := h.abandoned
  canceled := h.canceled
  unfinished := h.unfinished
  published := h.published
  loaded value hpc := hproduced (h.loaded value hpc)
  result value hresult := hproduced (h.result value hresult)

variable {call' : RevisionCall}

theorem Extends.set (hcall : s.calls[id]? = some call) (hcalls : s'.calls = s.calls.set id call')
    (hkey : call'.key = call.key) (hproduced : ∀ {p}, p ∈ s.produced → p ∈ s'.produced) : Extends s s' where
  calls := by
    intro j other hother
    by_cases hj : j = id
    · subst hj
      obtain rfl := Option.some.inj (hcall.symm.trans hother)
      exact ⟨call', by rw [hcalls, List.getElem?_set_self (List.getElem?_eq_some_iff.1 hcall).1], hkey⟩
    · exact ⟨other, by rw [hcalls, List.getElem?_set_ne (Ne.symm hj)]; exact hother, rfl⟩
  produced := hproduced

/-! ## Steps of a caller -/

theorem waitersOn_set {i : Nat} {t t' : GetOrLoad} (ht : s.callers[i]? = some t)
    (hcallers : s'.callers = s.callers.set i t') (id : Nat) :
    (s'.waitersOn id : Int) = s.waitersOn id - (if t.on id then 1 else 0) + (if t'.on id then 1 else 0) := by
  rw [waitersOn, waitersOn, hcallers, countP_set ht]

variable {i : Nat}

theorem waitersOn_come (ht : s.callers[i]? = some t) (hpc : t.pc = .locking)
    (hcallers : s'.callers = s.callers.set i { t with pc := .waiting id }) (j : Nat) :
    (s'.waitersOn j : Int) = s.waitersOn j + (if id = j then 1 else 0) := by
  have hoff : t.on j = false := by rw [GetOrLoad.on, hpc]
  rw [waitersOn_set ht hcallers, hoff]
  simp [GetOrLoad.on]

variable {result : Hydration}

theorem waitersOn_go (ht : s.callers[i]? = some t) (hpc : t.pc = .leaving id)
    (hcallers : s'.callers = s.callers.set i { t with pc := .returned result }) (j : Nat) :
    (s'.waitersOn j : Int) = s.waitersOn j - (if id = j then 1 else 0) := by
  have hon : t.on j = decide (id = j) := by rw [GetOrLoad.on, hpc]
  rw [waitersOn_set ht hcallers, hon]
  simp [GetOrLoad.on]

/-- A caller who moves without coming to an unfinished load or going from one. -/
theorem Inv.moveCaller (h : Inv limits s) {t' : GetOrLoad} (ht : s.callers[i]? = some t)
    (hon : ∀ id call, s.calls[id]? = some call → call.result = none → t'.on id = t.on id) (hok : s.CallerOk t') :
    Inv limits { s with callers := s.callers.set i t' } where
  wf := h.wf
  limits_eq := h.limits_eq
  inflight := h.inflight
  calls id call hcall := by
    refine (h.calls id call hcall).frame Iff.rfl (fun hresult => ?_) fun hp => hp
    have hcount := @waitersOn_set _ s { s with callers := s.callers.set i t' } i t t' ht rfl id
    rw [hon id call hcall hresult] at hcount
    omega
  callers x hx := by
    obtain hx | rfl := mem_or_eq_of_mem_set hx
    · exact h.callers x hx
    · exact hok
  entries := h.entries

/-- What a lookup finds it moves to the front. -/
theorem Inv.touch (h : Inv limits s) (key : RevisionKey) :
    Inv limits { s with cache := { s.cache with recency := Lib.touch key s.cache.recency } } where
  wf := ⟨⟨h.wf.recent.touch key, h.wf.bytes_eq⟩, h.wf.entries_le, h.wf.bytes_le⟩
  limits_eq := h.limits_eq
  inflight := h.inflight
  calls id call hcall := (h.calls id call hcall).frame Iff.rfl (fun _ => rfl) fun hp => hp
  callers := h.callers
  entries := h.entries

variable {row : Inflight}

/-- The call that a row of the map leads to. -/
theorem Inv.live_of_inflight (h : Inv limits s) {key : RevisionKey} (hrow : s.cache.inflight.get? key = some row) :
    ∃ call, s.calls[row.call]? = some call ∧ call.key = key ∧ row.key = key ∧ call.live := by
  obtain ⟨hmem, hkey⟩ := Table.get?_eq_some.1 hrow
  obtain ⟨call, hcall, hcallKey⟩ := h.inflight row hmem
  refine ⟨call, hcall, hcallKey.trans hkey, hkey, (h.calls _ call hcall).live_iff.2 ?_⟩
  rw [hcallKey, hkey, hrow, ← hkey]

theorem Inv.inflight_extends (h : Inv limits s) (hextends : Extends s s') (hrow : row ∈ s.cache.inflight) :
    ∃ call, s'.calls[row.call]? = some call ∧ call.key = row.key := by
  obtain ⟨call, hcall, hkey⟩ := h.inflight row hrow
  obtain ⟨call', hcall', hkey'⟩ := hextends.calls hcall
  exact ⟨call', hcall', hkey'.trans hkey⟩

/-- A caller joins a load. -/
theorem Inv.join (h : Inv limits s) (ht : s.callers[i]? = some t) (hpc : t.pc = .locking)
    (hrow : s.cache.inflight.get? t.key = some row) (hcall : s.calls[row.call]? = some call)
    (hcache : s'.cache = s.cache) (hcalls : s'.calls = s.calls.set row.call { call with waiters := call.waiters + 1 })
    (hcallers : s'.callers = s.callers.set i { t with pc := .waiting row.call })
    (hproduced : s'.produced = s.produced) : Inv limits s' := by
  have hcount := waitersOn_come ht hpc hcallers
  have hextends : Extends s s' := .set hcall hcalls rfl fun hp => hproduced ▸ hp
  obtain ⟨call₀, hcall₀, hkey, -, hlive⟩ := h.live_of_inflight hrow
  obtain rfl := Option.some.inj (hcall.symm.trans hcall₀)
  refine ⟨hcache ▸ h.wf, hcache ▸ h.limits_eq, ?_, fun id other hother => ?_, fun x hx => ?_, ?_⟩
  · rw [hcache]
    exact fun x hx => h.inflight_extends hextends hx
  · rw [hcalls] at hother
    obtain ⟨rfl, rfl⟩ | ⟨hid, hother⟩ := getElem?_set_eq_some hother
    · have hok := (h.calls _ call hcall)
      refine ⟨hcache ▸ hok.live_iff, fun hresult => ?_, fun habandoned _ => ?_, hok.canceled, hok.unfinished, hok.published,
        hproduced ▸ hok.loaded, hproduced ▸ hok.result⟩
      · have hwaiters := hok.waiters hresult
        rw [hcount, if_pos rfl, ← hwaiters]
      · exact absurd (hlive.1.symm.trans habandoned) Bool.false_ne_true
    · refine (h.calls id other hother).frame (by rw [hcache]) (fun _ => ?_) hextends.produced
      have hothers := hcount id
      rw [if_neg (Ne.symm hid)] at hothers
      omega
  · rw [hcallers] at hx
    obtain hx | rfl := mem_or_eq_of_mem_set hx
    · exact hextends.caller (h.callers x hx)
    · obtain ⟨call', hcall', hkey'⟩ := hextends.calls hcall
      exact ⟨call', hcall', hkey'.trans hkey⟩
  · rw [hcache, hproduced]
    exact h.entries

/-- A caller starts a load. -/
theorem Inv.start (h : Inv limits s) {i : Nat} {t : GetOrLoad} (ht : s.callers[i]? = some t) (hpc : t.pc = .locking)
    (hrow : s.cache.inflight.get? t.key = none)
    (hcache : s'.cache = { s.cache with inflight := s.cache.inflight.set ⟨t.key, s.calls.length⟩ })
    (hcalls : s'.calls = s.calls ++ [⟨t.key, 1, false, none, false, .loading⟩])
    (hcallers : s'.callers = s.callers.set i { t with pc := .waiting s.calls.length })
    (hproduced : s'.produced = s.produced) : Inv limits s' := by
  have hcount := waitersOn_come ht hpc hcallers
  have hkept : ∀ {id : Nat} {call : RevisionCall}, s.calls[id]? = some call → s'.calls[id]? = some call := by
    intro id call hcall
    rw [hcalls, List.getElem?_append_left (List.getElem?_eq_some_iff.1 hcall).1, hcall]
  have hnew : s'.calls[s.calls.length]? = some ⟨t.key, 1, false, none, false, .loading⟩ := by
    rw [hcalls, List.getElem?_concat_length]
  have hextends : Extends s s' := ⟨fun hcall => ⟨_, hkept hcall, rfl⟩, fun hp => hproduced ▸ hp⟩
  -- nobody is on a call that is not there yet
  have hnobody : s.waitersOn s.calls.length = 0 := by
    refine countP_eq_zero.2 fun x hx hon => ?_
    have hxok := h.callers x hx
    have hnone : ¬∃ call, s.calls[s.calls.length]? = some call ∧ call.key = x.key := by simp
    unfold GetOrLoad.on at hon
    unfold CallerOk at hxok
    split at hon
    next hxpc => rw [hxpc, of_decide_eq_true hon] at hxok; exact hnone hxok
    next hxpc => rw [hxpc, of_decide_eq_true hon] at hxok; exact hnone hxok
    next => cases hon
  have hinflight : s'.cache.inflight = s.cache.inflight.set ⟨t.key, s.calls.length⟩ := by rw [hcache]
  refine ⟨?_, ?_, fun row hmem => ?_, fun id call hcall => ?_, fun x hx => ?_, ?_⟩
  · rw [hcache]
    exact ⟨⟨h.wf.recent, h.wf.bytes_eq⟩, h.wf.entries_le, h.wf.bytes_le⟩
  · rw [hcache]
    exact h.limits_eq
  · rw [hinflight] at hmem
    obtain rfl | ⟨hmem, -⟩ := Table.mem_set.1 hmem
    · exact ⟨_, hnew, rfl⟩
    · exact h.inflight_extends hextends hmem
  · rw [hcalls] at hcall
    obtain ⟨hlt, hcall⟩ | ⟨rfl, rfl⟩ := getElem?_append_singleton_eq_some hcall
    · refine (h.calls id call hcall).frame ?_ (fun _ => ?_) hextends.produced
      · rw [hinflight, Table.get?_set]
        split
        next hkey =>
          dsimp only at hkey
          rw [← hkey, hrow]
          simp only [Option.some.injEq, Inflight.mk.injEq, true_and, reduceCtorEq, iff_false]
          omega
        next => exact Iff.rfl
      · have hothers := hcount id
        rw [if_neg (Nat.ne_of_gt hlt)] at hothers
        omega
    · refine ⟨⟨fun _ => ?_, fun _ => ⟨rfl, rfl⟩⟩, fun _ => ?_, by simp, by simp, fun _ _ => rfl, by simp, by simp, by simp⟩
      · rw [hinflight, Table.get?_set, if_pos rfl]
      · rw [hcount, hnobody, if_pos rfl]
        rfl
  · rw [hcallers] at hx
    obtain hx | rfl := mem_or_eq_of_mem_set hx
    · exact hextends.caller (h.callers x hx)
    · exact ⟨_, hnew, rfl⟩
  · rw [hcache, hproduced]
    exact h.entries

/-- A caller leaves a load that is in flight; the last one to do so gives it up. -/
theorem Inv.leave (h : Inv limits s) (ht : s.callers[i]? = some t) (hpc : t.pc = .leaving id)
    (hreturned : s.CallerOk { t with pc := .returned result }) (hrow : s.cache.inflight.get? t.key = some ⟨t.key, id⟩)
    (hcall : s.calls[id]? = some call) (hcall' : call' = { call with
      waiters := call.waiters - 1
      abandoned := decide (call.waiters - 1 = 0)
      canceled := call.canceled || decide (call.waiters - 1 = 0) }) (hcache : s'.cache = { s.cache with
      inflight := if call.waiters - 1 = 0 then s.cache.inflight.delete t.key else s.cache.inflight })
    (hcalls : s'.calls = s.calls.set id call')
    (hcallers : s'.callers = s.callers.set i { t with pc := .returned result }) (hproduced : s'.produced = s.produced) :
    Inv limits s' := by
  have hcount := waitersOn_go ht hpc hcallers
  have hextends : Extends s s' := .set hcall hcalls (by rw [hcall']) fun hp => hproduced ▸ hp
  obtain ⟨call₀, hcall₀, hkey, -, hlive⟩ := h.live_of_inflight hrow
  obtain rfl := Option.some.inj (hcall.symm.trans hcall₀)
  have hinflight : s'.cache.inflight =
      if call.waiters - 1 = 0 then s.cache.inflight.delete t.key else s.cache.inflight := by rw [hcache]
  have hok := h.calls id call hcall
  have hwaiters := hok.waiters hlive.2
  refine ⟨?_, ?_, fun row hmem => ?_, fun j other hother => ?_, fun x hx => ?_, ?_⟩
  · rw [hcache]
    exact ⟨⟨h.wf.recent, h.wf.bytes_eq⟩, h.wf.entries_le, h.wf.bytes_le⟩
  · rw [hcache]
    exact h.limits_eq
  · rw [hinflight] at hmem
    refine h.inflight_extends hextends ?_
    split at hmem
    · exact (Table.mem_delete.1 hmem).1
    · exact hmem
  · rw [hcalls] at hother
    obtain ⟨rfl, hthis⟩ | ⟨hj, hother⟩ := getElem?_set_eq_some hother
    · rw [hthis]
      have hcallKey : call'.key = t.key := by rw [hcall', hkey]
      refine ⟨?_, fun _ => ?_, fun habandoned _ => ?_, fun hcanceled => ?_, fun result hpc => ?_, fun hpc => ?_,
        fun value hpc => ?_, fun value hresult => ?_⟩
      · rw [hcallKey, hinflight, hcall', RevisionCall.live]
        split
        next hzero => simp [hzero, Table.get?_delete]
        next hzero => simp [hzero, hrow, hlive.2]
      · rw [hcount, if_pos rfl, ← hwaiters, hcall']
      · rw [hcall'] at habandoned ⊢
        exact of_decide_eq_true habandoned
      · intro hlive'
        rw [hcall'] at hcanceled hlive'
        rw [RevisionCall.live] at hlive'
        dsimp only at hcanceled hlive'
        rw [hlive'.1, Bool.or_false] at hcanceled
        exact hok.canceled hcanceled hlive
      · rw [hcall']
        exact hlive.2
      · rw [hcall'] at hpc
        exact absurd hlive.2 (hok.published hpc)
      · rw [hcall'] at hpc ⊢
        exact hextends.produced (hok.loaded value hpc)
      · rw [hcall'] at hresult ⊢
        exact hextends.produced (hok.result value hresult)
    · refine (h.calls j other hother).frame ?_ (fun _ => ?_) hextends.produced
      · rw [hinflight]
        split
        next =>
          rw [Table.get?_delete]
          split
          next hsame =>
            rw [← hsame, hrow]
            simpa using Ne.symm hj
          next => exact Iff.rfl
        next => exact Iff.rfl
      · have hothers := hcount j
        rw [if_neg (Ne.symm hj)] at hothers
        omega
  · rw [hcallers] at hx
    obtain hx | rfl := mem_or_eq_of_mem_set hx
    · exact hextends.caller (h.callers x hx)
    · exact hextends.caller hreturned
  · rw [hcache, hproduced]
    exact h.entries

/-! ## Steps of a load -/

/-- A step that changes one call, the cache beside its map, and what was produced. -/
theorem Inv.setCall (h : Inv limits s) (hcall : s.calls[id]? = some call) (hcalls : s'.calls = s.calls.set id call')
    (hkey : call'.key = call.key) (hwf : s'.cache.Wf) (hlimits : s'.cache.limits = s.cache.limits)
    (hinflight : ∀ key j, s'.cache.inflight.get? key = some ⟨key, j⟩ → s.cache.inflight.get? key = some ⟨key, j⟩)
    (hothers : ∀ key j, j ≠ id → s.cache.inflight.get? key = some ⟨key, j⟩ → s'.cache.inflight.get? key = some ⟨key, j⟩)
    (hcallers : s'.callers = s.callers) (hproduced : ∀ {p}, p ∈ s.produced → p ∈ s'.produced)
    (hok : s'.CallOk id call') (hentries : ∀ e ∈ s'.cache.entries, (e.key, e.value) ∈ s'.produced) : Inv limits s' := by
  have hextends : Extends s s' := .set hcall hcalls hkey hproduced
  refine ⟨hwf, hlimits.trans h.limits_eq, fun row hmem => ?_, fun j other hother => ?_, fun x hx => ?_, hentries⟩
  · have hrow := hinflight row.key row.call (Table.get?_key hmem)
    exact h.inflight_extends hextends (Table.get?_eq_some.1 hrow).1
  · rw [hcalls] at hother
    obtain ⟨rfl, rfl⟩ | ⟨hj, hother⟩ := getElem?_set_eq_some hother
    · exact hok
    · exact (h.calls j other hother).frame ⟨hinflight _ j, hothers _ j hj⟩
        (fun _ => by rw [waitersOn, waitersOn, hcallers]) hproduced
  · rw [hcallers] at hx
    exact hextends.caller (h.callers x hx)

theorem Inv.answer (h : Inv limits s) (hcall : s.calls[id]? = some call) (hpc : call.pc = .loading)
    (loader : LoaderAnswer) {produced : List (RevisionKey × HydratedRevision)}
    (hproduced : produced = match loadRevision call.key loader with
      | .ok value => (call.key, value) :: s.produced
      | .error _ => s.produced) :
    Inv limits { s with
      calls := s.calls.set id { call with pc := .loaded (loadRevision call.key loader) }
      produced := produced } := by
  have hok := h.calls id call hcall
  have hkept : ∀ {p}, p ∈ s.produced → p ∈ produced := by
    intro p hp
    rw [hproduced]
    split
    · exact mem_cons_of_mem _ hp
    · exact hp
  refine h.setCall hcall rfl rfl h.wf rfl (fun _ _ hrow => hrow) (fun _ _ _ hrow => hrow) rfl hkept ?_
    fun e he => hkept (h.entries e he)
  refine ⟨hok.live_iff, hok.waiters, hok.abandoned, hok.canceled, fun _ _ => hok.unfinished (.error .loader) (.inl hpc),
    by simp, fun value hloaded => ?_, fun value hresult => hkept (hok.result value hresult)⟩
  dsimp only at hloaded ⊢
  rw [hproduced, LoadPc.loaded.inj hloaded]
  exact mem_cons_self

theorem Inv.release (h : Inv limits s) {id : Nat} {call : RevisionCall} (hcall : s.calls[id]? = some call)
    (hpublished : call.result ≠ none) :
    Inv limits { s with calls := s.calls.set id { call with canceled := true, pc := .finished } } := by
  have hok := h.calls id call hcall
  refine h.setCall hcall rfl rfl h.wf rfl (fun _ _ hrow => hrow) (fun _ _ _ hrow => hrow) rfl (fun hp => hp) ?_ h.entries
  exact ⟨hok.live_iff, hok.waiters, hok.abandoned, fun _ hlive => hpublished hlive.2, by simp, by simp, by simp, hok.result⟩

/-- The row of a call goes when it completes. -/
def dropInflight (inflight : Table Inflight.key) (key : RevisionKey) (id : Nat) : Table Inflight.key :=
  if ((inflight.get? key).filter (·.call = id)).isSome then inflight.delete key else inflight

omit [Artifacts] in
theorem get?_dropInflight (inflight : Table Inflight.key) (key : RevisionKey) (id : Nat) (k : RevisionKey) (j : Nat) :
    (dropInflight inflight key id).get? k = some ⟨k, j⟩ ↔ inflight.get? k = some ⟨k, j⟩ ∧ ¬(k = key ∧ j = id) := by
  unfold dropInflight
  split
  next hthis =>
    rw [Option.isSome_filter, Option.any_eq_true] at hthis
    obtain ⟨row, hrow, hcall⟩ := hthis
    rw [Table.get?_delete]
    split
    next hkey =>
      subst hkey
      simp only [reduceCtorEq, true_and, false_iff, not_and, not_not, hrow, Option.some.injEq]
      rintro rfl
      exact of_decide_eq_true hcall
    next hkey => simp [Ne.symm hkey]
  next hthis =>
    refine ⟨fun hrow => ⟨hrow, ?_⟩, And.left⟩
    rintro ⟨rfl, rfl⟩
    exact hthis (by simp [hrow])

theorem Inv.complete (h : Inv limits s) {cache : RevisionCache} (hcall : s.calls[id]? = some call) (hwf : cache.Wf)
    (hlimits : cache.limits = s.cache.limits) (hinflight : cache.inflight = dropInflight s.cache.inflight call.key id)
    (hresult : ∀ value, result = .ok value → (call.key, value) ∈ s.produced)
    (hentries : ∀ e ∈ cache.entries, (e.key, e.value) ∈ s.produced) :
    Inv limits { s with
      cache := cache
      calls := s.calls.set id { call with result := some result, pc := .published } } := by
  have hok := h.calls id call hcall
  refine h.setCall hcall rfl rfl hwf hlimits (fun key j hrow => ?_) (fun key j hj hrow => ?_) rfl (fun hp => hp) ?_ hentries
  · rw [hinflight, get?_dropInflight] at hrow
    exact hrow.1
  · rw [hinflight, get?_dropInflight]
    exact ⟨hrow, fun hsame => hj hsame.2⟩
  · refine ⟨⟨fun hlive => ?_, fun hrow => ?_⟩, by simp, by simp, fun _ hlive => ?_, by simp, by simp, by simp, fun value hvalue => ?_⟩
    · cases hlive.2
    · dsimp only at hrow
      rw [hinflight, get?_dropInflight] at hrow
      exact absurd ⟨rfl, rfl⟩ hrow.2
    · cases hlive.2
    · exact hresult value (Option.some.inj hvalue)

/-- Of the residents that a step leaves, all are active if an active one has gone. -/
def Evicts (c c' : RevisionCache) : Prop :=
  ∀ e ∈ c.entries, e.active = true → c'.entries.get? e.key = none → ∀ e' ∈ c.entries, e' ∈ c'.entries → e'.active = true

omit [Artifacts] in
theorem Evicts.of_eq [Artifacts] {c c' : RevisionCache} (h : c'.entries = c.entries) : Evicts c c' := by
  intro e he _ hgone
  rw [h, Table.get?_key he] at hgone
  cases hgone

/-- What the completion of a load comes to. -/
structure Completion (s : RevisionSystem) (id : Nat) (call : RevisionCall) (result : Hydration) (cache : RevisionCache) :
    Prop where
  wf : cache.Wf
  limits : cache.limits = s.cache.limits
  inflight : cache.inflight = dropInflight s.cache.inflight call.key id
  answer : ∀ value, result = .ok value → (call.key, value) ∈ s.produced
  entries : ∀ e ∈ cache.entries, (e.key, e.value) ∈ s.produced
  abandoned : call.abandoned = true →
    cache.entries = s.cache.entries ∧ cache.recency = s.cache.recency ∧ cache.bytes = s.cache.bytes
  evicts : Evicts s.cache cache

theorem Inv.completeLocked (h : Inv limits s) {loaded : Hydration} (hcall : s.calls[id]? = some call)
    (hpc : call.pc = .loaded loaded) :
    ∃ result cache, Completion s id call result cache ∧
      s.completeLocked id call loaded = some { s with
        cache := cache
        calls := s.calls.set id { call with result := some result, pc := .published } } := by
  have hproduced : ∀ value, loaded = .ok value → (call.key, value) ∈ s.produced := by
    rintro value rfl
    exact (h.calls id call hcall).loaded value hpc
  have hwf : { s.cache with inflight := dropInflight s.cache.inflight call.key id }.Wf :=
    ⟨⟨h.wf.recent, h.wf.bytes_eq⟩, h.wf.entries_le, h.wf.bytes_le⟩
  have hkept : Completion s id call loaded { s.cache with inflight := dropInflight s.cache.inflight call.key id } :=
    ⟨hwf, rfl, rfl, hproduced, h.entries, fun _ => ⟨rfl, rfl, rfl⟩, .of_eq rfl⟩
  cases loaded with
  | error e => exact ⟨.error e, _, hkept, rfl⟩
  | ok value =>
    cases habandoned : call.abandoned with
    | true =>
      refine ⟨.ok value, _, hkept, ?_⟩
      dsimp only [RevisionSystem.completeLocked]
      rw [habandoned]
      rfl
    | false =>
      obtain ⟨v, c', hadmits, hadmitted⟩ := hwf.admit_ call.key value
      refine ⟨.ok v, c', ⟨hadmitted.wf, hadmitted.limits, hadmitted.inflight, ?_, ?_, ?_, ?_⟩, ?_⟩
      · rintro _ ⟨⟩
        obtain rfl | ⟨e, he, hkey, rfl⟩ := hadmitted.answer
        · exact hproduced _ rfl
        · exact hkey ▸ h.entries e he
      · intro e he
        obtain he | ⟨hkey, hvalue⟩ := hadmitted.resident e he
        · exact h.entries e he
        · rw [hkey, hvalue]
          exact hproduced value rfl
      · rw [habandoned]
        exact fun h => absurd h Bool.false_ne_true
      · intro e he hactive hgone e' he' hin
        refine hadmitted.active ⟨e, he, fun hmem => ?_, hactive⟩ e' he' hin
        rw [Table.get?_key hmem] at hgone
        cases hgone
      · rw [dropInflight] at hadmits
        dsimp only [RevisionSystem.completeLocked]
        rw [habandoned]
        dsimp only
        rw [hadmits]

/-! ## Runs -/

theorem Inv.lookup (h : Inv limits s) (ht : s.callers[i]? = some t) (hpc : t.pc = .locking) :
    Inv limits ((s.lookupLocked t.key).1.setCaller i t (s.lookupLocked t.key).2) := by
  unfold lookupLocked
  split
  next e he =>
    obtain ⟨hmem, hkey⟩ := Table.get?_eq_some.1 he
    refine (h.touch t.key).moveCaller ht (fun id _ _ _ => ?_) ?_
    · rw [GetOrLoad.on, GetOrLoad.on, hpc]
    · have hproduced := h.entries e hmem
      rw [hkey] at hproduced
      exact hproduced
  next =>
    split
    next id call hfound =>
      simp only [Option.bind_eq_some_iff, Option.map_eq_some_iff, Prod.mk.injEq] at hfound
      obtain ⟨row, hrow, call', hcall, rfl, rfl⟩ := hfound
      exact h.join ht hpc hrow hcall rfl rfl rfl rfl
    next hnone =>
      have hrow : s.cache.inflight.get? t.key = none := by
        cases hrow : s.cache.inflight.get? t.key with
        | none => rfl
        | some row =>
          obtain ⟨call, hcall, -⟩ := h.live_of_inflight hrow
          rw [hrow, Option.bind_some, hcall] at hnone
          cases hnone
      exact h.start ht hpc hrow rfl rfl rfl rfl

theorem entries_lookupLocked (key : RevisionKey) : (s.lookupLocked key).1.cache.entries = s.cache.entries := by
  unfold lookupLocked
  split
  · rfl
  split <;> rfl

/-- A caller on a finished load is counted no more, wherever it goes. -/
theorem on_eq_of_finished (hpc : t.pc = .waiting id ∨ t.pc = .leaving id) (hcall : s.calls[id]? = some call)
    (hfinished : call.result ≠ none) (j : Nat) (other : RevisionCall) (hother : s.calls[j]? = some other)
    (hunfinished : other.result = none) :
    GetOrLoad.on { t with pc := .returned result } j = t.on j := by
  have hne : id ≠ j := by
    rintro rfl
    obtain rfl := Option.some.inj (hcall.symm.trans hother)
    exact hfinished hunfinished
  obtain hpc | hpc := hpc <;> simp [GetOrLoad.on, hpc, hne]

theorem Inv.receive (h : Inv limits s) (ht : s.callers[i]? = some t) (hpc : t.pc = .waiting id)
    (hresult : (s.calls[id]?).bind (·.result) = some result) :
    Inv limits (s.setCaller i t (.returned result)) := by
  obtain ⟨call, hcall, hcallResult⟩ := Option.bind_eq_some_iff.1 hresult
  refine h.moveCaller ht (on_eq_of_finished (.inl hpc) hcall (by rw [hcallResult]; exact Option.some_ne_none _)) ?_
  have htok := h.callers t (mem_of_getElem? ht)
  rw [CallerOk, hpc] at htok
  obtain ⟨call', hcall', hkey⟩ := htok
  obtain rfl := Option.some.inj (hcall.symm.trans hcall')
  cases result with
  | error e => trivial
  | ok value =>
    have hproduced := (h.calls id call hcall).result value hcallResult
    rw [hkey] at hproduced
    exact hproduced

theorem Inv.go (h : Inv limits s) (ht : s.callers[i]? = some t) (hpc : t.pc = .leaving id) :
    Inv limits ((s.leaveLocked t.key id).setCaller i t (.returned (.error .context))) := by
  have hmem : t ∈ s.callers := mem_of_getElem? ht
  have htok := h.callers t hmem
  rw [CallerOk, hpc] at htok
  obtain ⟨call, hcall, hkey⟩ := htok
  have hok := h.calls id call hcall
  unfold leaveLocked
  split
  next row call' hrow hcall' =>
    obtain rfl := Option.some.inj (hcall.symm.trans hcall')
    obtain ⟨hget, hid⟩ := Option.filter_eq_some_iff.1 hrow
    obtain ⟨-, -, -, hrowKey, -⟩ := h.live_of_inflight hget
    have hthis : s.cache.inflight.get? t.key = some ⟨t.key, id⟩ := by
      rw [hget, ← hrowKey, ← of_decide_eq_true hid]
    obtain ⟨habandoned, -⟩ := hok.live_iff.2 (by rw [hkey]; exact hthis)
    have hreturned : s.CallerOk { t with pc := .returned (.error .context) } := trivial
    dsimp only
    split
    next hzero =>
      exact h.leave ht hpc hreturned hthis hcall rfl (by rw [if_pos hzero]; rfl) (by simp [hzero, setCaller]) rfl rfl
    next hmore =>
      exact h.leave ht hpc hreturned hthis hcall rfl (by rw [if_neg hmore]; rfl) (by simp [hmore, habandoned, setCaller])
        rfl rfl
  next hgone =>
    -- the load is over, since an abandoned one has no caller left
    have hresult : call.result ≠ none := by
      intro hresult
      have hnot : ¬call.live := by
        intro hlive
        have hrow := hok.live_iff.1 hlive
        rw [hkey] at hrow
        exact hgone ⟨t.key, id⟩ call (by rw [hrow]; simp) hcall
      have habandoned : call.abandoned = true := by
        by_contra hfalse
        exact hnot ⟨by simpa using hfalse, hresult⟩
      have hzero := hok.waiters hresult
      rw [hok.abandoned habandoned hresult] at hzero
      have hpos : 0 < s.waitersOn id :=
        countP_pos_iff.2 ⟨t, hmem, by rw [GetOrLoad.on, hpc]; exact decide_eq_true rfl⟩
      omega
    exact h.moveCaller ht (on_eq_of_finished (.inr hpc) hcall hresult) trivial

theorem entries_leaveLocked (key : RevisionKey) (id : Nat) : (s.leaveLocked key id).cache.entries = s.cache.entries := by
  unfold leaveLocked
  split
  · dsimp only
    split <;> rfl
  · rfl

theorem Inv.stepCaller (h : Inv limits s) (ht : s.callers[i]? = some t) {preferDone : Bool}
    (hs : s.stepCaller i t preferDone = some s') : Inv limits s' ∧ s'.cache.entries = s.cache.entries := by
  have htok := h.callers t (mem_of_getElem? ht)
  unfold RevisionSystem.stepCaller at hs
  split at hs
  next hpc =>
    have hentry {pc : GetPc} (hoff : ∀ id, GetOrLoad.on { t with pc := pc } id = false) (hok : s.CallerOk { t with pc := pc }) :
        Inv limits (s.setCaller i t pc) :=
      h.moveCaller ht (fun id _ _ _ => by rw [hoff, GetOrLoad.on, hpc]) hok
    split at hs
    · cases hs
      exact ⟨hentry (fun _ => rfl) trivial, rfl⟩
    split at hs
    · cases hs
      exact ⟨hentry (fun _ => rfl) trivial, rfl⟩
    split at hs <;> cases hs <;> exact ⟨hentry (fun _ => rfl) trivial, rfl⟩
  next hpc =>
    cases hs
    exact ⟨h.lookup ht hpc, entries_lookupLocked t.key⟩
  next id hpc =>
    have hleaving : Inv limits (s.setCaller i t (.leaving id)) := by
      refine h.moveCaller ht (fun j _ _ _ => by rw [GetOrLoad.on, GetOrLoad.on, hpc]) ?_
      rw [CallerOk, hpc] at htok
      exact htok
    split at hs
    next result hresult =>
      split at hs <;> cases hs
      · exact ⟨hleaving, rfl⟩
      · exact ⟨h.receive ht hpc hresult, rfl⟩
    next =>
      split at hs <;> cases hs
      exact ⟨hleaving, rfl⟩
  next id hpc =>
    cases hs
    exact ⟨h.go ht hpc, entries_leaveLocked t.key id⟩
  next => cases hs

theorem Inv.invoke (h : Inv limits s) (key : RevisionKey) (hasLoader : Bool) :
    Inv limits { s with callers := s.callers ++ [⟨key, hasLoader, false, .entry⟩] } where
  wf := h.wf
  limits_eq := h.limits_eq
  inflight := h.inflight
  calls id call hcall := by
    refine (h.calls id call hcall).frame Iff.rfl (fun _ => ?_) fun hp => hp
    simp [waitersOn, GetOrLoad.on]
  callers x hx := by
    obtain hx | hx := mem_append.1 hx
    · exact h.callers x hx
    · obtain rfl := mem_singleton.1 hx
      trivial
  entries := h.entries

theorem Inv.setActive (h : Inv limits s) (key : RevisionKey) (active : Bool) :
    Inv limits { s with cache := s.cache.SetActive key active } where
  wf := h.wf.setActive key active
  limits_eq := (RevisionCache.limits_setActive key active).trans h.limits_eq
  inflight := by
    dsimp only
    rw [RevisionCache.inflight_setActive]
    exact h.inflight
  calls id call hcall := by
    refine (h.calls id call hcall).frame ?_ (fun _ => rfl) fun hp => hp
    dsimp only
    rw [RevisionCache.inflight_setActive]
  callers := h.callers
  entries e he := by
    obtain ⟨e', he', hkey, hvalue⟩ := RevisionCache.mem_setActive he
    rw [← hkey, ← hvalue]
    exact h.entries e' he'

theorem Inv.step (h : Inv limits s) {a : RevisionAction} (hs : s.step a = some s') :
    Inv limits s' ∧ Evicts s.cache s'.cache := by
  cases a with
  | invoke key hasLoader =>
    cases hs
    exact ⟨h.invoke key hasLoader, .of_eq rfl⟩
  | cancel i =>
    simp only [RevisionSystem.step] at hs
    split at hs <;> cases hs
    next t ht =>
      exact ⟨h.moveCaller ht (fun _ _ _ _ => rfl) (h.callers t (mem_of_getElem? ht)), .of_eq rfl⟩
  | step i preferDone =>
    simp only [RevisionSystem.step] at hs
    split at hs
    · cases hs
    next t ht =>
      obtain ⟨hinv, hentries⟩ := h.stepCaller ht hs
      exact ⟨hinv, .of_eq hentries⟩
  | answer id loader =>
    simp only [RevisionSystem.step] at hs
    split at hs
    · cases hs
    next call hcall =>
      split at hs <;> cases hs
      next hpc => exact ⟨h.answer hcall hpc loader rfl, .of_eq rfl⟩
  | complete id =>
    simp only [RevisionSystem.step] at hs
    split at hs
    · cases hs
    next call hcall =>
      split at hs
      next loaded hpc =>
        obtain ⟨result, cache, hdone, heq⟩ := h.completeLocked hcall hpc
        obtain rfl := Option.some.inj (heq.symm.trans hs)
        exact ⟨h.complete hcall hdone.wf hdone.limits hdone.inflight hdone.answer hdone.entries, hdone.evicts⟩
      · cases hs
  | release id =>
    simp only [RevisionSystem.step] at hs
    split at hs
    · cases hs
    next call hcall =>
      split at hs <;> cases hs
      next hpc => exact ⟨h.release hcall ((h.calls id call hcall).published hpc), .of_eq rfl⟩
  | setActive key active =>
    cases hs
    refine ⟨h.setActive key active, fun e he _ hgone => ?_⟩
    obtain ⟨e', he', hkey⟩ := RevisionCache.exists_mem_setActive key active he
    rw [← hkey, Table.get?_key he'] at hgone
    cases hgone

theorem Initial.inv (h : Initial limits s) : Inv limits s := by
  obtain ⟨hcache, hcalls, hcallers, hproduced⟩ := h
  refine ⟨?_, ?_, ?_, ?_, ?_, ?_⟩
  · rw [hcache]
    exact RevisionCache.wf_new limits
  · rw [hcache]
    rfl
  · rw [hcache]
    exact fun row hrow => absurd hrow (Table.not_mem_empty row)
  · rw [hcalls]
    exact fun id call hcall => absurd hcall (by simp)
  · rw [hcallers]
    exact fun t ht => absurd ht not_mem_nil
  · rw [hcache]
    exact fun e he => absurd he (Table.not_mem_empty e)

theorem Reached.inv (h : Reached limits s) : Inv limits s :=
  h.invariant (fun _ h => h.inv) fun _ _ _ hi _ hs => (hi.step hs).1

/-- Loads of one key that are neither abandoned nor finished are one load. -/
theorem Inv.live_unique (h : Inv limits s) {j : Nat} (hi : s.calls[i]? = some call) (hj : s.calls[j]? = some call')
    (hlive : call.live) (hlive' : call'.live) (hkey : call.key = call'.key) : i = j := by
  have hrow := (h.calls i call hi).live_iff.1 hlive
  have hrow' := (h.calls j call' hj).live_iff.1 hlive'
  rw [hkey, hrow'] at hrow
  exact (Inflight.mk.inj (Option.some.inj hrow)).2.symm

theorem Inv.nobody_of_canceled (h : Inv limits s) (hcall : s.calls[id]? = some call)
    (hcanceled : call.canceled = true) (hresult : call.result = none) :
    call.abandoned = true ∧ ∀ t ∈ s.callers, t.on id = false := by
  have hok := h.calls id call hcall
  have habandoned : call.abandoned = true := by
    by_contra hnot
    exact hok.canceled hcanceled ⟨by simpa using hnot, hresult⟩
  refine ⟨habandoned, fun t ht => ?_⟩
  have hzero : s.waitersOn id = 0 := by
    have hwaiters := hok.waiters hresult
    rw [hok.abandoned habandoned hresult] at hwaiters
    omega
  simpa using countP_eq_zero.1 hzero t ht

/-- In every run, whenever the lock is free: the accounts are right and within both limits;
the eviction loop ends, and every load that has its answer can complete; no pass of the loop,
and no step, takes an active entry while there is an inactive one; a key has one load that is
in flight and not abandoned; a load is cancelled before its completion only if it has no
caller left; an abandoned load is not admitted; and a caller gets what a loader produced for
its key. -/
theorem revisionCache_coherent (h : Reached limits s) :
    s.cache.bytes = (s.cache.entries.rows.map fun e => (e.value.approximateBytes : Int)).sum ∧
    s.cache.entries.rows.length ≤ limits.maxEntries ∧
    s.cache.bytes ≤ limits.maxBytes ∧
    (∀ value : HydratedRevision, limits.maxEntries ≠ 0 → value.approximateBytes ≤ limits.maxBytes →
      ∃ c, ∀ fuel, s.cache.entries.rows.length < fuel → RevisionCache.makeRoom fuel s.cache value = some c) ∧
    (∀ (id : Nat) (call : RevisionCall) (loaded : Hydration), s.calls[id]? = some call → call.pc = .loaded loaded → (s.step (.complete id)).isSome = true) ∧
    (∀ n, ∀ e ∈ (RevisionCache.evictOneLocked^[n] s.cache).entries,
      e ∉ (RevisionCache.evictOneLocked^[n + 1] s.cache).entries → e.active = true →
      ∀ e' ∈ (RevisionCache.evictOneLocked^[n] s.cache).entries, e'.active = true) ∧
    (∀ a s', s.step a = some s' → ∀ e ∈ s.cache.entries, e.active = true → s'.cache.entries.get? e.key = none →
      ∀ e' ∈ s.cache.entries, e' ∈ s'.cache.entries → e'.active = true) ∧
    (∀ (i j : Nat) (call call' : RevisionCall), s.calls[i]? = some call → s.calls[j]? = some call' → call.live → call'.live →
      call.key = call'.key → i = j) ∧
    (∀ (id : Nat) (call : RevisionCall), s.calls[id]? = some call → call.canceled = true → call.result = none →
      call.abandoned = true ∧ ∀ t ∈ s.callers, t.on id = false) ∧
    (∀ (id : Nat) (call : RevisionCall) (s' : RevisionSystem), s.calls[id]? = some call → call.abandoned = true → s.step (.complete id) = some s' →
      s'.cache.entries = s.cache.entries ∧ s'.cache.recency = s.cache.recency ∧ s'.cache.bytes = s.cache.bytes) ∧
    ∀ t ∈ s.callers, ∀ value, t.pc = .returned (.ok value) → (t.key, value) ∈ s.produced := by
  have hinv := h.inv
  refine ⟨hinv.wf.bytes_eq, ?_, ?_, ?_, ?_, ?_, fun _ _ hs => (hinv.step hs).2, fun _ _ _ _ => hinv.live_unique,
    fun _ _ => hinv.nobody_of_canceled, ?_, ?_⟩
  · rw [← hinv.limits_eq]
    exact hinv.wf.entries_le
  · rw [← hinv.limits_eq]
    exact hinv.wf.bytes_le
  · intro value hentries hvalue
    rw [← hinv.limits_eq] at hentries hvalue
    obtain ⟨c, -, hrun⟩ := RevisionCache.makeRoom_spec hinv.wf.toAccounted hentries hvalue
    exact ⟨c, hrun⟩
  · intro id call loaded hcall hpc
    obtain ⟨result, cache, -, heq⟩ := hinv.completeLocked hcall hpc
    simp only [RevisionSystem.step, hcall, hpc, heq, Option.isSome_some]
  · intro n e he hout hactive
    rw [Function.iterate_succ_apply'] at hout
    exact (hinv.wf.toAccounted.evictions n).active_of_evicted he hout hactive
  · intro id call s' hcall habandoned hs
    simp only [RevisionSystem.step, hcall] at hs
    split at hs
    next loaded hpc =>
      obtain ⟨result, cache, hdone, heq⟩ := hinv.completeLocked hcall hpc
      obtain rfl := Option.some.inj (heq.symm.trans hs)
      exact hdone.abandoned habandoned
    · cases hs
  · intro t ht value hpc
    have hok := hinv.callers t ht
    rw [CallerOk, hpc] at hok
    exact hok

end RevisionSystem

end PolicyEngine.Cache

namespace PolicyEngine.Cache.RevisionSystem

/-- Artifacts that are their own sizes. -/
@[reducible] def sizes : Artifacts := ⟨Nat, some⟩

def keyOf (revision : String) : RevisionKey := ⟨ascii "n", ascii revision, ascii "abi"⟩

/-- With room for one entry, an active revision gives way to the next one. -/
def replaced : List (@RevisionAction sizes) :=
  letI := sizes
  [.invoke (keyOf "r1") true, .step 0 false, .step 0 false, .answer 0 (.artifact (5 : Nat)), .complete 0, .step 0 false,
    .setActive (keyOf "r1") true, .invoke (keyOf "r2") true, .step 1 false, .step 1 false,
    .answer 1 (.artifact (7 : Nat)), .complete 1]

theorem revisionCache_coherent_sample :
    letI := sizes
    ∃ s : RevisionSystem, s.Reached ⟨1, 1000⟩ ∧ (s.cache.entries.get? (keyOf "r2")).isSome = true ∧
      s.cache.entries.rows.length ≤ 1 ∧ s.cache.bytes ≤ (1000 : Nat) := by
  letI := sizes
  obtain ⟨e, he⟩ : ∃ e, (run step (⟨NewRevisionCache ⟨1, 1000⟩, [], [], []⟩ : RevisionSystem) replaced).bind
      (·.cache.entries.get? (keyOf "r2")) = some e :=
    Option.isSome_iff_exists.1 (by decide +kernel)
  obtain ⟨s, hrun, he⟩ := Option.bind_eq_some_iff.1 he
  have hreached : s.Reached ⟨1, 1000⟩ := Reachable.run (.start ⟨rfl, rfl, rfl, rfl⟩) hrun
  obtain ⟨-, hentries, hbytes, -⟩ := revisionCache_coherent hreached
  exact ⟨s, hreached, by rw [he]; rfl, hentries, hbytes⟩

end PolicyEngine.Cache.RevisionSystem
