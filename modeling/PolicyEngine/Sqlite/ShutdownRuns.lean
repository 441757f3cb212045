import PolicyEngine.Sqlite.Shutdown

/-!
# No view outlives the store

Every channel made for the openers belongs to one stretch during which openers are
counted: it is open while there are any and closed once, when the last one leaves.
Every view that still has its connection is registered, or in the hands of an opener
that is counted, so a close that has closed what was registered and has waited for
what was counted has seen every connection given back.
-/

open PolicyEngine.Lib Function

namespace PolicyEngine.Sqlite.Shutdown

/-! ## The opener count and its channels -/

/-- The registry while `n` openers are in flight. -/
structure Registry.Counts (r : Registry) (n : Nat) : Prop where
  openers : r.snapshotOpeners = n
  shutdown : r.snapshotShutdown = r.snapshotClosing
  /-- The channel is open as long as there is somebody to wait for, -/
  waitedFor : 0 < n → ∃ done, r.snapshotOpenersDone = some done ∧ done ∉ r.closed
  /-- and closed when there is nobody left. -/
  left : n = 0 → ∀ done, r.snapshotOpenersDone = some done → done ∈ r.closed
  current : ∀ done, r.snapshotOpenersDone = some done → done < r.made
  old : ∀ done ∈ r.closed, done < r.made
  nodup : r.closed.Nodup

variable {r r' : Registry} {n : Nat}

theorem Registry.Counts.beginSnapshotOpen (h : r.Counts n) (hr : r.beginSnapshotOpen = some r') :
    r'.Counts (n + 1) ∧ r.snapshotClosing = false ∧ r'.snapshotClosing = false ∧ r'.snapshots = r.snapshots := by
  obtain ⟨hopen, hshut, hwait, hleft, hcur, hold, hnodup⟩ := h
  unfold Registry.beginSnapshotOpen at hr
  split at hr
  · cases hr
  next hc =>
    dsimp only at hr
    split at hr
    next hfirst =>
      cases hr
      refine ⟨⟨?_, ?_, ?_, ?_, ?_, ?_, ?_⟩, ?_⟩ <;> grind
    next hmore =>
      cases hr
      refine ⟨⟨?_, ?_, ?_, ?_, ?_, ?_, ?_⟩, ?_⟩ <;> grind

theorem Registry.Counts.endSnapshotOpen (h : r.Counts (n + 1)) :
    r.endSnapshotOpen.Counts n ∧ r.endSnapshotOpen.snapshotClosing = r.snapshotClosing ∧
      r.endSnapshotOpen.snapshots = r.snapshots ∧ r.endSnapshotOpen.snapshotOpenersDone = r.snapshotOpenersDone := by
  obtain ⟨hopen, hshut, hwait, hleft, hcur, hold, hnodup⟩ := h
  obtain ⟨done, hdone, hnew⟩ := hwait n.succ_pos
  have hne : (r.snapshotOpeners == 0) = false := by grind
  unfold Registry.endSnapshotOpen
  simp only [hne, hdone, Bool.false_eq_true, if_false]
  split
  next hlast =>
    refine ⟨⟨?_, ?_, ?_, ?_, ?_, ?_, ?_⟩, ?_⟩ <;> grind
  next hmore =>
    refine ⟨⟨?_, ?_, ?_, ?_, ?_, ?_, ?_⟩, ?_⟩ <;> grind

theorem Registry.Counts.beginClose (h : r.Counts n) : r.beginClose.Counts n := by
  obtain ⟨hopen, hshut, hwait, hleft, hcur, hold, hnodup⟩ := h
  unfold Registry.beginClose
  split <;> constructor <;> grind

theorem Registry.Counts.setSnapshots (h : r.Counts n) (snapshots : Finset Nat) : { r with snapshots }.Counts n :=
  ⟨h.openers, h.shutdown, h.waitedFor, h.left, h.current, h.old, h.nodup⟩

theorem Registry.Counts.onView (h : r.Counts n) (view : Nat) (a : Lifetime.Action) : (r.onView view a).Counts n := by
  cases a <;> first | exact h | exact h.setSnapshots _

/-! ## Who has which view -/

variable {dbClosed : Bool} {o : Opener} {input : Input}

theorem Opener.move_keeps {shutdown o'} (h : Opener.move shutdown dbClosed o input = some o') :
    o'.inFlight = o.inFlight ∧ ∀ view, o.view = some view → o'.view = some view := by
  unfold Opener.move at h
  split at h <;> simp only [Option.ite_none_right_eq_some, Option.some.injEq, reduceCtorEq] at h
  case h_2 ok | h_14 => subst h; split <;> simp [Opener.inFlight, Opener.view]
  case h_11 | h_12 => obtain ⟨-, rfl⟩ := h; simp [Opener.inFlight, Opener.view]
  all_goals subst h; simp [Opener.inFlight, Opener.view]

variable {view : Nat}

theorem Opener.inFlight_of_view (h : o.view = some view) : o.inFlight = true := by
  cases o <;> first | rfl | cases h

theorem Reason.next_inFlight (reason : Reason) (closeErr err : Option ErrorCategory) :
    (reason.next closeErr err).inFlight = true := by
  cases reason with
  | stale second =>
    cases closeErr with
    | none => cases second <;> rfl
    | some e => rfl
  | _ => rfl

/-- A view that still has its connection is in `R` or with an opener. -/
def Covered (s : State) (R : Finset Nat) : Prop :=
  ∀ view sys, s.views view = some sys →
    .released ∈ sys.history ∨ view ∈ R ∨ ∃ i, (s.openers i).view = some view

/-- `closeOwnedSnapshots` has nothing left to wait for. -/
structure Swept (s : State) : Prop where
  closing : s.registry.snapshotClosing = true
  noOpener : ∀ i, (s.openers i).inFlight = false
  covered : Covered s ∅

/-- What a close knows of the openers it counted. -/
structure Waits (s : State) (done : Option Nat) (opening : Int) : Prop where
  closing : s.registry.snapshotClosing = true
  nobody : done = none ∨ ¬ 0 < opening → ∀ i, (s.openers i).inFlight = false
  current : ∀ channel, done = some channel → 0 < opening → s.registry.snapshotOpenersDone = some channel

def CloserOk (s : State) : Closer → Prop
  | .draining remaining _ done opening => Waits s done opening ∧ Covered s remaining
  | .closing view _ remaining _ done opening => Waits s done opening ∧ Covered s (insert view remaining)
  | .awaiting done _ =>
    s.registry.snapshotClosing = true ∧ s.registry.snapshotOpenersDone = some done ∧ Covered s ∅
  | .drained _ => Swept s
  | _ => True

structure Inv (s : State) : Prop where
  counts : ∃ F : Finset Nat, (∀ i, i ∈ F ↔ (s.openers i).inFlight = true) ∧ s.registry.Counts F.card
  views : ∀ view sys, s.views view = some sys → Reachable Lifetime.step (· = .start ()) sys
  registered : Covered s s.registry.snapshots
  closers : ∀ j, CloserOk s (s.closers j)
  finished : s.closeOnce = .finished → Swept s

theorem Inv.start : Inv .start where
  counts := ⟨∅, by simp [State.start, Opener.inFlight], by constructor <;> simp [State.start, Registry.start]⟩
  views _ _ h := by cases h
  registered _ _ h := by cases h
  closers _ := trivial
  finished h := by cases h

/-- What a step keeps once the store is closing. -/
structure Keeps (s s' : State) : Prop where
  closing : s'.registry.snapshotClosing = true
  done : s'.registry.snapshotOpenersDone = s.registry.snapshotOpenersDone
  noOpener : ∀ i, (s.openers i).inFlight = false → (s'.openers i).inFlight = false
  covered : ∀ R, Covered s R → Covered s' R

variable {s s' : State}

variable {sys sys' : View} {a : Lifetime.Action}

theorem released_of_step (h : Lifetime.step sys a = some sys') (hr : .released ∈ sys.history) :
    .released ∈ sys'.history :=
  (Lifetime.step_history sys a sys' h).subset hr

variable {R : Finset Nat}

/-- The ways in which the views of `s` go on in `s'`: a view keeps what it had and is new only with an opener, and an
opener gives up a view only when its connection is back or it is now in `R'`. -/
theorem Covered.next {R' : Finset Nat} (h : Covered s R) (hR : R ⊆ R') (hviews : ∀ v t', s'.views v = some t' →
      (∃ t, s.views v = some t ∧ (.released ∈ t.history → .released ∈ t'.history)) ∨
        ∃ i, (s'.openers i).view = some v)
    (hopeners : ∀ i v, (s.openers i).view = some v → (s'.openers i).view = some v ∨ v ∈ R' ∨
      ∀ t', s'.views v = some t' → .released ∈ t'.history) : Covered s' R' := by
  intro v t' ht'
  rcases hviews v t' ht' with ⟨t, ht, hkeeps⟩ | hheld
  · rcases h v t ht with hr | hv | ⟨i, hi⟩
    · exact .inl (hkeeps hr)
    · exact .inr (.inl (hR hv))
    · rcases hopeners i v hi with hi' | hv | hr
      · exact .inr (.inr ⟨i, hi'⟩)
      · exact .inr (.inl hv)
      · exact .inl (hr t' ht')
  · exact .inr (.inr hheld)

theorem Covered.next_of_eq (h : Covered s R) (hviews : s'.views = s.views)
    (hopeners : ∀ i v, (s.openers i).view = some v → (s'.openers i).view = some v) : Covered s' R :=
  h.next subset_rfl (fun _ t' ht' => .inl ⟨t', hviews ▸ ht', id⟩) fun i v hi => .inl (hopeners i v hi)

theorem Covered.next_of_step (h : Covered s R) (hv : s.views view = some sys) (hs : Lifetime.step sys a = some sys')
    (hviews : s'.views = update s.views view (some sys'))
    (hopeners : ∀ i v, (s.openers i).view = some v → (s'.openers i).view = some v) : Covered s' R := by
  refine h.next subset_rfl (fun v t' ht' => .inl ?_) fun i v hi => .inl (hopeners i v hi)
  rw [hviews, update_apply] at ht'
  split at ht'
  next heq =>
    subst heq
    cases ht'
    exact ⟨sys, hv, released_of_step hs⟩
  next => exact ⟨t', ht', id⟩

variable {i : Nat}

/-- One opener moves on and keeps its view. -/
theorem setOpener_view (ho : ∀ v, (s.openers i).view = some v → o.view = some v) (k v : Nat)
    (hk : (s.openers k).view = some v) : (update s.openers i o k).view = some v := by
  rw [update_apply]
  split
  next heq => subst heq; exact ho v hk
  · exact hk

theorem setOpener_inFlight (ho : (s.openers i).inFlight = false → o.inFlight = false) (k : Nat)
    (hk : (s.openers k).inFlight = false) : (update s.openers i o k).inFlight = false := by
  rw [update_apply]
  split
  next heq => subst heq; exact ho hk
  · exact hk

/-- A new view is with the opener that pinned it. -/
theorem Covered.next_of_pin (h : Covered s R) (hi : (s.openers i).view = none) (ho : o.view = some view)
    (hviews : s'.views = update s.views view (some sys))
    (hopeners : s'.openers = update s.openers i o) :
    Covered s' R := by
  refine h.next subset_rfl (fun v t' ht' => ?_) fun k v hk => .inl ?_
  · rw [hviews, update_apply] at ht'
    split at ht'
    next heq => exact .inr ⟨i, by rw [hopeners, update_self, ho, heq]⟩
    next => exact .inl ⟨t', ht', id⟩
  · rw [hopeners]
    exact setOpener_view (by simp [hi]) k v hk

/-- An opener is done with a view whose connection is back. -/
theorem Covered.next_of_released (h : Covered s R) (hi : (s.openers i).view = some view)
    (hv : s.views view = some sys) (hr : .released ∈ sys.history) (hviews : s'.views = s.views)
    (hopeners : s'.openers = update s.openers i o) : Covered s' R := by
  refine h.next subset_rfl (fun _ t' ht' => .inl ⟨t', hviews ▸ ht', id⟩) fun k v hk => ?_
  rw [hopeners, hviews, update_apply]
  split
  next heq =>
    subst heq
    rw [hi] at hk
    cases hk
    exact .inr (.inr fun t' ht' => by rw [hv] at ht'; cases ht'; exact hr)
  next => exact .inl hk

/-- The count without one of the openers. -/
theorem counts_erase {F : Finset Nat} (hi : i ∈ F) (h : r.Counts F.card) : r.Counts ((F.erase i).card + 1) := by
  rwa [Finset.card_erase_add_one hi]

theorem Inv.keeps (h : Inv s) (he : Effect s s') (hc : s.registry.snapshotClosing = true) : Keeps s s' := by
  cases he with
  | @view view a sys sys' hv hs =>
    have hreg : (s.registry.onView view a).snapshotClosing = s.registry.snapshotClosing ∧
        (s.registry.onView view a).snapshotOpenersDone = s.registry.snapshotOpenersDone := by
      cases a <;> exact ⟨rfl, rfl⟩
    exact ⟨hreg.1.trans hc, hreg.2, fun _ => id, fun R hR => hR.next_of_step hv hs rfl fun _ _ => id⟩
  | move hm =>
    obtain ⟨hflight, hview⟩ := Opener.move_keeps hm
    exact ⟨hc, rfl, setOpener_inFlight (hflight ▸ id), fun R hR => hR.next_of_eq rfl (setOpener_view hview)⟩
  | refuse hi _ =>
    exact ⟨hc, rfl, setOpener_inFlight fun _ => rfl,
      fun R hR => hR.next_of_eq rfl (setOpener_view (by simp [hi, Opener.view]))⟩
  | begin_ hi hb =>
    obtain ⟨F, -, hcounts⟩ := h.counts
    rw [(hcounts.beginSnapshotOpen hb).2.1] at hc
    cases hc
  | pin hi hv =>
    exact ⟨hc, rfl, setOpener_inFlight (by simp [hi, Opener.inFlight]),
      fun R hR => hR.next_of_pin (by rw [hi]; rfl) rfl rfl rfl⟩
  | turnAway hi _ =>
    exact ⟨hc, rfl, setOpener_inFlight (by simp [hi, Opener.inFlight]),
      fun R hR => hR.next_of_eq rfl (setOpener_view (by simp [hi, Opener.view]))⟩
  | register _ hopen _ _ =>
    rw [hopen] at hc
    cases hc
  | discard hi hv hs =>
    exact ⟨hc, rfl, setOpener_inFlight (by simp [hi, Opener.inFlight]),
      fun R hR => hR.next_of_step hv hs rfl (setOpener_view (by simp [hi, Opener.view]))⟩
  | discarded hi hv hcall =>
    exact ⟨hc, rfl, setOpener_inFlight (by simp [hi, Opener.inFlight]),
      fun R hR => hR.next_of_released (by rw [hi]; rfl) hv (Lifetime.released_of_returned (h.views _ _ hv) hcall) rfl rfl⟩
  | end_ hi =>
    obtain ⟨F, hF, hcounts⟩ := h.counts
    obtain ⟨-, hclosing, -, hdone⟩ := (counts_erase ((hF _).2 (by rw [hi]; rfl)) hcounts).endSnapshotOpen
    exact ⟨hclosing.trans hc, hdone, setOpener_inFlight fun _ => rfl,
      fun R hR => hR.next_of_eq rfl (setOpener_view (by simp [hi, Opener.view]))⟩
  | capture hj =>
    have hsame : s.registry.beginClose = s.registry := if_pos hc
    exact ⟨(congrArg (·.snapshotClosing) hsame).trans hc, congrArg (·.snapshotOpenersDone) hsame, fun _ => id, fun R hR => hR.next_of_eq rfl fun _ _ => id⟩
  | closeView hj hin hv hs => exact ⟨hc, rfl, fun _ => id, fun R hR => hR.next_of_step hv hs rfl fun _ _ => id⟩
  | _ => exact ⟨hc, rfl, fun _ => id, fun R hR => hR.next_of_eq rfl fun _ _ => id⟩

theorem Swept.keeps (h : Swept s) (hk : Keeps s s') : Swept s' :=
  ⟨hk.closing, fun i => hk.noOpener i (h.noOpener i), hk.covered ∅ h.covered⟩

theorem Waits.keeps {done opening} (h : Waits s done opening) (hk : Keeps s s') :
    Waits s' done opening :=
  ⟨hk.closing, fun hn i => hk.noOpener i (h.nobody hn i), fun channel hd ho => hk.done.trans (h.current channel hd ho)⟩

theorem Inv.closerOk (h : Inv s) (he : Effect s s') {c : Closer} (hc : CloserOk s c) : CloserOk s' c := by
  cases c with
  | draining remaining first done opening =>
    have hk := h.keeps he hc.1.closing
    exact ⟨hc.1.keeps hk, hk.covered _ hc.2⟩
  | closing view call remaining first done opening =>
    have hk := h.keeps he hc.1.closing
    exact ⟨hc.1.keeps hk, hk.covered _ hc.2⟩
  | awaiting done first =>
    have hk := h.keeps he hc.1
    exact ⟨hk.closing, hk.done.trans hc.2.1, hk.covered _ hc.2.2⟩
  | drained first => exact Swept.keeps hc (h.keeps he (Swept.closing hc))
  | _ => trivial

/-! ### The invariant, part by part -/

/-- Who is in flight, after one opener moved. -/
theorem mem_iff_setOpener {F : Finset Nat} (hF : ∀ i, i ∈ F ↔ (s.openers i).inFlight = true)
    (ho : o.inFlight = (s.openers i).inFlight) (k : Nat) :
    k ∈ F ↔ (update s.openers i o k).inFlight = true := by
  rw [hF, update_apply]
  split
  next heq => rw [heq, ho]
  · rfl

theorem Inv.counts_next (h : Inv s) (he : Effect s s') :
    ∃ F : Finset Nat, (∀ i, i ∈ F ↔ (s'.openers i).inFlight = true) ∧ s'.registry.Counts F.card := by
  obtain ⟨F, hF, hcounts⟩ := h.counts
  cases he with
  | @view view a sys sys' hv hs => exact ⟨F, hF, hcounts.onView view a⟩
  | move hm => exact ⟨F, mem_iff_setOpener hF (Opener.move_keeps hm).1, hcounts⟩
  | refuse hi _ => exact ⟨F, mem_iff_setOpener hF (by rw [hi]; rfl), hcounts⟩
  | @begin_ i registry hi hb =>
    have hnew : i ∉ F := by simp [hF, hi, Opener.inFlight]
    refine ⟨insert i F, fun k => ?_, ?_⟩
    · simp only [State.setOpener, update_apply, Finset.mem_insert, hF]
      split
      next heq => simp [heq, Opener.inFlight]
      next hne => simp [hne]
    · rw [Finset.card_insert_of_notMem hnew]
      exact (hcounts.beginSnapshotOpen hb).1
  | pin hi hv => exact ⟨F, mem_iff_setOpener hF (by rw [hi]; rfl), hcounts⟩
  | turnAway hi _ => exact ⟨F, mem_iff_setOpener hF (by rw [hi]; rfl), hcounts⟩
  | register hi _ _ _ => exact ⟨F, mem_iff_setOpener hF (by rw [hi]; rfl), hcounts.setSnapshots _⟩
  | discard hi hv hs => exact ⟨F, mem_iff_setOpener hF (by rw [hi]; rfl), hcounts⟩
  | discarded hi hv hcall =>
    exact ⟨F, mem_iff_setOpener hF (by rw [hi, Reason.next_inFlight]; rfl), hcounts⟩
  | @end_ i result given hi =>
    have hin : i ∈ F := (hF i).2 (by rw [hi]; rfl)
    refine ⟨F.erase i, fun k => ?_, (counts_erase hin hcounts).endSnapshotOpen.1⟩
    simp only [State.setOpener, update_apply, Finset.mem_erase, hF]
    split
    next heq => simp [heq, Opener.inFlight]
    next hne => simp [hne]
  | capture hj => exact ⟨F, hF, hcounts.beginClose⟩
  | _ => exact ⟨F, hF, hcounts⟩

/-- Every view runs as the snapshot does. -/
theorem reachable_update (h : ∀ view sys, s.views view = some sys → Reachable Lifetime.step (· = .start ()) sys)
    (hv : s.views view = some sys) (hs : Lifetime.step sys a = some sys') (v : Nat) (t : View)
    (ht : update s.views view (some sys') v = some t) : Reachable Lifetime.step (· = .start ()) t := by
  rw [update_apply] at ht
  split at ht
  · cases ht
    exact (h view sys hv).extend hs
  · exact h v t ht

theorem Inv.views_next (h : Inv s) (he : Effect s s') (v : Nat) (t : View) (ht : s'.views v = some t) :
    Reachable Lifetime.step (· = .start ()) t := by
  cases he with
  | view hv hs => exact reachable_update h.views hv hs v t ht
  | @pin i view second reached hi hv =>
    simp only [State.setOpener, update_apply] at ht
    split at ht
    · cases ht
      exact .start rfl
    · exact h.views v t ht
  | register _ _ hv hs => exact reachable_update h.views hv hs v t ht
  | discard _ hv hs => exact reachable_update h.views hv hs v t ht
  | closeView _ _ hv hs => exact reachable_update h.views hv hs v t ht
  | _ => exact h.views v t ht

/-- A view is taken off the list when its connection is back. -/
theorem Inv.registered_onView (h : Inv s) (hv : s.views view = some sys) (hs : Lifetime.step sys a = some sys') :
    Covered { s with views := update s.views view (some sys'), registry := s.registry.onView view a }
      (s.registry.onView view a).snapshots := by
  have hcovered : Covered { s with
      views := update s.views view (some sys'), registry := s.registry.onView view a }
      s.registry.snapshots := h.registered.next_of_step hv hs rfl fun _ _ => id
  cases a with
  | unregister k =>
    obtain ⟨closer, hk, -⟩ := Lifetime.step_unregister hs
    have hreleased := released_of_step hs (Lifetime.released_of_unregistering (h.views view sys hv) hk)
    intro v t ht
    rcases hcovered v t ht with hr | hR | hi
    · exact .inl hr
    · by_cases heq : v = view
      · subst heq
        obtain rfl : sys' = t := by simpa using ht
        exact .inl hreleased
      · exact .inr (.inl (Finset.mem_erase.2 ⟨heq, hR⟩))
    · exact .inr (.inr hi)
  | _ => exact hcovered

theorem Inv.registered_next (h : Inv s) (he : Effect s s') : Covered s' s'.registry.snapshots := by
  cases he with
  | view hv hs => exact h.registered_onView hv hs
  | move hm => exact h.registered.next_of_eq rfl (setOpener_view (Opener.move_keeps hm).2)
  | refuse hi _ => exact h.registered.next_of_eq rfl (setOpener_view (by simp [hi, Opener.view]))
  | begin_ hi hb =>
    obtain ⟨F, -, hcounts⟩ := h.counts
    have hsame := (hcounts.beginSnapshotOpen hb).2.2.2
    exact (congrArg (Covered _) hsame).mpr
      (h.registered.next_of_eq rfl (setOpener_view (by simp [hi, Opener.view])))
  | pin hi hv => exact h.registered.next_of_pin (by rw [hi]; rfl) rfl rfl rfl
  | turnAway hi _ => exact h.registered.next_of_eq rfl (setOpener_view (by simp [hi, Opener.view]))
  | @register i view second sys sys' hi _ hv hs =>
    refine h.registered.next (Finset.subset_insert _ _) (fun v t' ht' => .inl ?_) fun k v hk => ?_
    · simp only [State.setOpener, update_apply] at ht'
      split at ht'
      next heq => subst heq; cases ht'; exact ⟨sys, hv, released_of_step hs⟩
      next => exact ⟨t', ht', id⟩
    · simp only [State.setOpener, update_apply]
      split
      next heq =>
        subst heq
        rw [hi] at hk
        cases hk
        exact .inr (.inl (Finset.mem_insert_self _ _))
      next => exact .inl hk
  | discard hi hv hs => exact h.registered.next_of_step hv hs rfl (setOpener_view (by simp [hi, Opener.view]))
  | discarded hi hv hcall =>
    exact h.registered.next_of_released (by rw [hi]; rfl) hv (Lifetime.released_of_returned (h.views _ _ hv) hcall) rfl rfl
  | end_ hi =>
    obtain ⟨F, hF, hcounts⟩ := h.counts
    have hsame := (counts_erase ((hF _).2 (by rw [hi]; rfl)) hcounts).endSnapshotOpen.2.2.1
    exact (congrArg (Covered _) hsame).mpr
      (h.registered.next_of_eq rfl (setOpener_view (by simp [hi, Opener.view])))
  | capture hj =>
    have hsame : s.registry.beginClose.snapshots = s.registry.snapshots := by
      unfold Registry.beginClose
      split <;> rfl
    exact (congrArg (Covered _) hsame).mpr (h.registered.next_of_eq rfl fun _ _ => id)
  | closeView _ _ hv hs => exact h.registered.next_of_step hv hs rfl fun _ _ => id
  | _ => exact h.registered.next_of_eq rfl fun _ _ => id

theorem setCloser_ok {j c} (hs : s'.closers = update s.closers j c) (h : ∀ k, CloserOk s' (s.closers k))
    (hc : CloserOk s' c) (k : Nat) : CloserOk s' (s'.closers k) := by
  rw [hs, update_apply]
  split
  · exact hc
  · exact h k

theorem noOpener_of_counts {F : Finset Nat} (hF : ∀ i, i ∈ F ↔ (s.openers i).inFlight = true) (h : F.card = 0) (i : Nat) :
    (s.openers i).inFlight = false := by
  rw [← Bool.not_eq_true, ← hF, Finset.card_eq_zero.1 h]
  simp

/-- What a close finds when it looks: the openers in flight, and their channel. -/
theorem Inv.waits_capture (h : Inv s) (hs' : s'.registry = s.registry.beginClose) (ho : s'.openers = s.openers) :
    Waits s' s.registry.beginClose.snapshotOpenersDone s.registry.beginClose.snapshotOpeners := by
  obtain ⟨F, hF, hcounts⟩ := h.counts
  have hc := hcounts.beginClose
  refine ⟨?_, fun hn i => ?_, fun channel hd _ => hs' ▸ hd⟩
  · rw [hs']
    unfold Registry.beginClose
    split
    next h => exact h
    · rfl
  · rw [ho]
    refine noOpener_of_counts hF ?_ i
    by_contra hpos
    obtain ⟨done, hdone, -⟩ := hc.waitedFor (Nat.pos_of_ne_zero hpos)
    rcases hn with hnone | hzero
    · rw [hdone] at hnone
      cases hnone
    · rw [hc.openers] at hzero
      omega

/-- A closed channel has nobody left to wait for. -/
theorem Inv.swept_wake (h : Inv s) {done first} (hok : CloserOk s (.awaiting done first))
    (hclosed : done ∈ s.registry.closed) : Swept s := by
  obtain ⟨hclosing, hdone, hcovered⟩ := hok
  obtain ⟨F, hF, hcounts⟩ := h.counts
  refine ⟨hclosing, noOpener_of_counts hF ?_, hcovered⟩
  by_contra hpos
  obtain ⟨done', hdone', hopen⟩ := hcounts.waitedFor (Nat.pos_of_ne_zero hpos)
  rw [hdone] at hdone'
  cases hdone'
  exact hopen hclosed

theorem Inv.closers_next (h : Inv s) (he : Effect s s') (k : Nat) : CloserOk s' (s'.closers k) := by
  have hkeep (k : Nat) : CloserOk s' (s.closers k) := h.closerOk he (h.closers k)
  cases he with
  | capture hj =>
    refine setCloser_ok rfl hkeep ?_ k
    refine ⟨h.waits_capture rfl rfl, ?_⟩
    have hsame : s.registry.beginClose.snapshots = s.registry.snapshots := by
      unfold Registry.beginClose
      split <;> rfl
    exact (congrArg (Covered _) hsame).mpr (h.registered.next_of_eq rfl fun _ _ => id)
  | @closeView j view call remaining first done opening sys sys' hj hin hv hs =>
    obtain ⟨hw, hcov⟩ : CloserOk _ (.draining remaining first done opening) := hj ▸ hkeep j
    refine setCloser_ok rfl hkeep ?_ k
    exact ⟨hw, by rwa [Finset.insert_erase hin]⟩
  | @viewClosed j view call remaining first err done opening sys hj hv hcall =>
    obtain ⟨hw, hcov⟩ : CloserOk _ (.closing view call remaining first done opening) := hj ▸ hkeep j
    refine setCloser_ok rfl hkeep ?_ k
    refine ⟨hw, fun v t ht => ?_⟩
    rcases hcov v t ht with hr | hR | hi
    · exact .inl hr
    · rcases Finset.mem_insert.1 hR with rfl | hR
      · obtain rfl : sys = t := Option.some.inj (hv.symm.trans ht)
        exact .inl (Lifetime.released_of_returned (h.views _ _ hv) hcall)
      · exact .inr (.inl hR)
    · exact .inr (.inr hi)
  | @await j done first opening hj hpos =>
    obtain ⟨hw, hcov⟩ : CloserOk _ (.draining ∅ first (some done) opening) := hj ▸ hkeep j
    refine setCloser_ok rfl hkeep ?_ k
    exact ⟨hw.closing, hw.current done rfl hpos, hcov⟩
  | @pass j done first opening hj hnone =>
    obtain ⟨hw, hcov⟩ : CloserOk _ (.draining ∅ first done opening) := hj ▸ hkeep j
    refine setCloser_ok rfl hkeep ?_ k
    exact ⟨hw.closing, hw.nobody hnone, hcov⟩
  | @wake j done first hj hclosed =>
    have hswept := h.swept_wake (hj ▸ h.closers j) hclosed
    refine setCloser_ok rfl hkeep ?_ k
    exact hswept.keeps (h.keeps (.wake hj hclosed) hswept.closing)
  | enter => refine setCloser_ok rfl hkeep ?_ k; trivial
  | follow => refine setCloser_ok rfl hkeep ?_ k; trivial
  | late => refine setCloser_ok rfl hkeep ?_ k; trivial
  | closeDatabase => refine setCloser_ok rfl hkeep ?_ k; trivial
  | _ => exact hkeep k

theorem Inv.finished_next (h : Inv s) (he : Effect s s') (hf : s'.closeOnce = .finished) : Swept s' := by
  have hkeep (hf : s.closeOnce = .finished) : Swept s' := (h.finished hf).keeps (h.keeps he (h.finished hf).closing)
  cases he with
  | enter => cases hf
  | @closeDatabase j first closeErr hj =>
    have hswept : Swept s := (hj ▸ h.closers j : CloserOk s (.drained first))
    exact hswept.keeps (h.keeps (.closeDatabase hj) hswept.closing)
  | _ => exact hkeep hf

theorem Inv.next (h : Inv s) (he : Effect s s') : Inv s' where
  counts := h.counts_next he
  views := h.views_next he
  registered := h.registered_next he
  closers := h.closers_next he
  finished := h.finished_next he

theorem inv_of_reachable (h : Reachable step (· = .start) s) : Inv s :=
  h.invariant (I := Inv) (by rintro _ rfl; exact .start) fun _ _ _ hi _ hs => hi.next (effect_of_step hs)

/-- `closeOwnedSnapshots` has returned. -/
def State.Drained (s : State) : Prop :=
  s.closeOnce = .finished ∨ ∃ j first, s.closers j = .drained first

theorem Inv.swept (h : Inv s) (hd : s.Drained) : Swept s := by
  rcases hd with hf | ⟨j, first, hj⟩
  · exact h.finished hf
  · exact (hj ▸ h.closers j : CloserOk s (.drained first))

/-- With no opener left, every view has given its connection back. -/
theorem Swept.released (h : Swept s) (hv : s.views view = some sys) :
    .released ∈ sys.history := by
  rcases h.covered view sys hv with hr | hR | ⟨i, hi⟩
  · exact hr
  · exact absurd hR (Finset.notMem_empty view)
  · exact absurd (Opener.inFlight_of_view hi) (by simp [h.noOpener i])

/-! ## Late openers -/

/-- An opener that has not been let in. -/
def Outside (o : Opener) : Prop :=
  o = .idle ∨ ∃ err, o = .refused err

theorem Outside.move {shutdown o'} (h : Outside o) (hm : Opener.move shutdown dbClosed o input = some o') :
    Outside o' := by
  rcases h with rfl | ⟨err, rfl⟩
  · cases input <;> simp only [Opener.move, reduceCtorEq, Option.some.injEq] at hm
    exact .inr ⟨_, hm.symm⟩
  · cases input <;> cases hm

variable {k : Nat}

/-- Nobody is let in once the store is closing. -/
theorem Inv.outside (h : Inv s) (he : Effect s s') (hc : s.registry.snapshotClosing = true)
    (hk : Outside (s.openers k)) : Outside (s'.openers k) := by
  have update {i : Nat} {o : Opener} (ho : i = k → Outside o) : Outside (update s.openers i o k) := by
    rw [update_apply]
    split
    next heq => exact ho heq.symm
    · exact hk
  have inside {i : Nat} {o : Opener} (hi : s.openers i = o) (ho : ¬ Outside o) {o' : Opener} (heq : i = k) :
      Outside o' := by
    subst heq
    exact absurd (hi ▸ hk) ho
  cases he with
  | move hm => exact update fun heq => by subst heq; exact hk.move hm
  | refuse => exact update fun _ => .inr ⟨_, rfl⟩
  | begin_ hi hb =>
    obtain ⟨F, -, hcounts⟩ := h.counts
    rw [(hcounts.beginSnapshotOpen hb).2.1] at hc
    cases hc
  | pin hi => exact update (inside hi (by simp [Outside]))
  | turnAway hi => exact update (inside hi (by simp [Outside]))
  | register hi => exact update (inside hi (by simp [Outside]))
  | discard hi => exact update (inside hi (by simp [Outside]))
  | discarded hi => exact update (inside hi (by simp [Outside]))
  | end_ hi => exact update (inside hi (by simp [Outside]))
  | _ => exact hk

theorem outside_of_reachable {t : State} (h : Reachable step (· = .start) s) (hc : s.registry.snapshotClosing = true)
    (hi : s.openers i = .idle) (ht : Reachable step (· = s) t) :
    Outside (t.openers i) := by
  have hall : Inv t ∧ t.registry.snapshotClosing = true ∧ Outside (t.openers i) := by
    refine ht.invariant (I := fun t => Inv t ∧ t.registry.snapshotClosing = true ∧ Outside (t.openers i))
      (by rintro _ rfl; exact ⟨inv_of_reachable h, hc, .inl hi⟩) ?_
    rintro u a u' ⟨hinv, hclosing, ho⟩ - hs
    have he := effect_of_step hs
    exact ⟨hinv.next he, (hinv.keeps he hclosing).closing, hinv.outside he hclosing ho⟩
  exact hall.2.2

/-! ## Blocked openers -/

/-- The opener that takes a step. -/
def Action.opener : Action → Option Nat
  | .move i _ | .begin_ i | .pin i _ _ | .register i | .discard i _ | .discarded i _ | .end_ i => some i
  | _ => none

theorem stepView_openers (h : s.stepView view a = some s') :
    s'.openers = s.openers := by
  obtain ⟨_, _, -, -, rfl⟩ := stepView_eq_some h
  rfl

theorem stepOpener_openers {a : Action} (h : stepOpener s a = some s') (hk : a.opener ≠ some k) :
    s'.openers k = s.openers k := by
  have other {i : Nat} {o : Opener} (hi : some i ≠ some k) : update s.openers i o k = s.openers k :=
    update_of_ne (fun h => hi (congrArg some h.symm)) _ _
  cases a with
  | move i input =>
    obtain ⟨o, -, rfl⟩ := Option.map_eq_some_iff.1 h
    exact other hk
  | begin_ i =>
    simp only [stepOpener] at h
    split at h
    · split at h <;> cases h <;> exact other hk
    · cases h
  | pin i view reached =>
    simp only [stepOpener] at h
    split at h
    · cases h
      exact other hk
    · cases h
  | register i =>
    simp only [stepOpener] at h
    split at h
    · split at h
      · cases h
        exact other hk
      · obtain ⟨s₁, h₁, rfl⟩ := Option.map_eq_some_iff.1 h
        exact (update_of_ne (fun h => hk (congrArg some h.symm)) _ _).trans (congrFun (stepView_openers h₁) k)
    · cases h
  | discard i call =>
    simp only [stepOpener] at h
    split at h
    · obtain ⟨s₁, h₁, rfl⟩ := Option.map_eq_some_iff.1 h
      exact (update_of_ne (fun h => hk (congrArg some h.symm)) _ _).trans (congrFun (stepView_openers h₁) k)
    · cases h
  | discarded i err =>
    simp only [stepOpener] at h
    split at h
    · obtain ⟨_, -, rfl⟩ := Option.map_eq_some_iff.1 h
      exact other hk
    · cases h
  | end_ i =>
    simp only [stepOpener] at h
    split at h
    · cases h
      exact other hk
    · cases h
  | _ => cases h

theorem stepCloser_openers {a : Action} (h : stepCloser s a = some s') : s'.openers = s.openers := by
  cases a <;> simp only [stepCloser, reduceCtorEq] at h
  case closeView j view call =>
    split at h
    · split at h
      · obtain ⟨s₁, h₁, rfl⟩ := Option.map_eq_some_iff.1 h
        show s₁.openers = s.openers
        exact stepView_openers h₁
      · cases h
    · cases h
  case viewClosed j =>
    split at h
    · obtain ⟨_, -, rfl⟩ := Option.map_eq_some_iff.1 h
      rfl
    · cases h
  -- the rest only set fields of the close
  all_goals repeat' split at h
  all_goals cases h
  all_goals rfl

theorem step_openers {a : Action} (h : step s a = some s') (hk : a.opener ≠ some k) :
    s'.openers k = s.openers k := by
  unfold step at h
  split at h
  · split at h
    · rw [stepView_openers h]
    · cases h
  · rcases (Option.orElse_eq_some _ _ _).1 h with h | ⟨-, h⟩
    · exact stepOpener_openers h hk
    · rw [stepCloser_openers h]

theorem Opener.move_blocked {shutdown : Bool} (h : Opener.move shutdown dbClosed .blocked input = some o) :
    o = .woken := by
  cases input <;> simp only [Opener.move, reduceCtorEq, Option.ite_none_right_eq_some, Option.some.injEq] at h
  case shutdown | closed => exact h.2.symm
  all_goals exact h.symm

theorem Opener.move_woken (h : Opener.move true dbClosed .woken input = some o) : ∃ err, o = .leaving (.error err) := by
  cases input with
  | resume err => cases err <;> cases h <;> exact ⟨_, rfl⟩
  | _ => cases h

theorem stepOpener_of_step {a : Action} (h : step s a = some s') (hk : a.opener = some k) :
    stepOpener s a = some s' := by
  cases a <;> cases hk
  all_goals
    rcases (Option.orElse_eq_some _ _ _).1 h with h | ⟨-, h⟩
    · exact h
    · cases h

/-- How an opener goes on that nothing holds up. -/
theorem step_opener {a : Action} (h : step s a = some s') (hk : a.opener = some k) :
    (s.openers k = .blocked → s'.openers k = .woken) ∧
      (s.openers k = .woken → s.registry.snapshotShutdown = true → ∃ err, s'.openers k = .leaving (.error err)) ∧
      (∀ result, s.openers k = .leaving result → s'.openers k = .done result) := by
  have ho := stepOpener_of_step h hk
  cases a <;> cases hk <;> simp only [stepOpener] at ho
  case move input =>
    obtain ⟨o, hm, rfl⟩ := Option.map_eq_some_iff.1 ho
    simp only [State.setOpener, update_self]
    refine ⟨fun hb => Opener.move_blocked (hb ▸ hm), fun hw hsh => Opener.move_woken (hsh ▸ hw ▸ hm), fun result hl => ?_⟩
    rw [hl] at hm
    cases hm
  case end_ =>
    split at ho
    next result hl =>
      cases ho
      simp only [State.setOpener, update_self, hl]
      refine ⟨fun h => ?_, fun h => ?_, fun result hr => by cases hr; rfl⟩ <;> cases h
    · cases ho
  case pin view reached =>
    split at ho
    next hi _ => simp [hi]
    · cases ho
  all_goals
    split at ho
    next hi => simp [hi]
    · cases ho

/-- A state of a closing store. -/
structure Closing (s : State) : Prop where
  inv : Inv s
  closing : s.registry.snapshotClosing = true

theorem Closing.shutdown (h : Closing s) : s.registry.snapshotShutdown = true := by
  obtain ⟨F, -, hcounts⟩ := h.inv.counts
  rw [hcounts.shutdown, h.closing]

theorem Closing.step {a : Action} (h : Closing s) (hs : step s a = some s') : Closing s' :=
  ⟨h.inv.next (effect_of_step hs), (h.inv.keeps (effect_of_step hs) h.closing).closing⟩

section Liveness

variable {x : Execution step} {i n : Nat}

/-- While the store is closing, what an opener's next step brings about is brought about. -/
theorem opener_leadsTo (hfair : x.Fair (·.opener = some i)) {P Q : Opener → Prop}
    (henabled : ∀ s, Closing s → P (s.openers i) → ∃ a : Action, a.opener = some i ∧ step s a ≠ none)
    (hstep : ∀ s a s', Closing s → P (s.openers i) → a.opener = some i → step s a = some s' → Q (s'.openers i))
    (hc : Closing (x.state n)) (h : P ((x.state n).openers i)) :
    ∃ m, n ≤ m ∧ Closing (x.state m) ∧ Q ((x.state m).openers i) := by
  refine hfair.leadsTo (P := fun s => Closing s ∧ P (s.openers i)) (Q := fun s => Closing s ∧ Q (s.openers i))
    (fun m hm => henabled _ hm.1 hm.2) (fun m a hm ha => ?_) ⟨hc, h⟩
  have hs := x.moves m a ha
  by_cases hturn : a.opener = some i
  · exact .inr ⟨hm.1.step hs, hstep _ a _ hm.1 hm.2 hturn hs⟩
  · exact .inl ⟨hturn, hm.1.step hs, by rw [step_openers hs hturn]; exact hm.2⟩

/-- A blocked opener is woken and returns an error. -/
theorem blocked_returns (hfair : x.Fair (·.opener = some i)) (hc : Closing (x.state n))
    (hi : (x.state n).openers i = .blocked) : ∃ m, n ≤ m ∧ ∃ err, (x.state m).openers i = .done (.error err) := by
  obtain ⟨k, hk, hck, hwoken⟩ := opener_leadsTo hfair (P := (· = .blocked)) (Q := (· = .woken))
    (fun s hs hb => ⟨.move i .shutdown, rfl, by simp [step, stepOpener, Opener.move, hb, hs.shutdown]⟩)
    (fun s a s' _ hb ha hs => (step_opener hs ha).1 hb) hc hi
  obtain ⟨l, hl, hcl, err, hleaving⟩ := opener_leadsTo hfair (P := (· = .woken))
    (Q := fun o => ∃ err, o = .leaving (.error err))
    (fun s hs hw => ⟨.move i (.resume none), rfl, by simp [step, stepOpener, Opener.move, hw]⟩)
    (fun s a s' hcs hw ha hs => (step_opener hs ha).2.1 hw hcs.shutdown) hck hwoken
  obtain ⟨m, hm, -, hdone⟩ := opener_leadsTo hfair (P := (· = .leaving (.error err))) (Q := (· = .done (.error err)))
    (fun s _ hl => ⟨.end_ i, rfl, by simp [step, stepOpener, hl]⟩)
    (fun s a s' _ hl ha hs => (step_opener hs ha).2.2 _ hl) hcl hleaving
  exact ⟨m, hk.trans (hl.trans hm), err, hdone⟩

end Liveness

/-- `Store.Close` against `OpenSnapshot`, whatever the interleaving. When `closeOwnedSnapshots` has returned no opener
is in flight and every view has given its connection back; once it has begun nobody else gets a view, and a blocked
opener returns an error; the openers' channels are closed once each, and the one waited on is the current one. -/
theorem close_against_openSnapshot :
    (∀ s, Reachable step (· = .start) s → s.Drained →
      (∀ i, (s.openers i).inFlight = false) ∧ ∀ view sys, s.views view = some sys → .released ∈ sys.history) ∧
    (∀ s t, Reachable step (· = .start) s → s.registry.snapshotClosing = true → Reachable step (· = s) t →
      ∀ i view, s.openers i = .idle → t.openers i ≠ .done (.ok view)) ∧
    (∀ x : Execution step, x.state 0 = .start → (∀ i, x.Fair (·.opener = some i)) → ∀ n i,
      (x.state n).registry.snapshotClosing = true → (x.state n).openers i = .blocked →
      ∃ m, n ≤ m ∧ ∃ err, (x.state m).openers i = .done (.error err)) ∧
    (∀ s, Reachable step (· = .start) s → s.registry.closed.Nodup ∧
      ∀ j done first, s.closers j = .awaiting done first → s.registry.snapshotOpenersDone = some done) := by
  refine ⟨fun s hs hd => ?_, fun s t hs hc ht i view hi hdone => ?_, fun x h0 hfair n i hc hi => ?_, fun s hs => ?_⟩
  · have hswept := (inv_of_reachable hs).swept hd
    exact ⟨hswept.noOpener, fun view sys hv => hswept.released hv⟩
  · rcases outside_of_reachable hs hc hi ht with h | ⟨err, h⟩ <;> rw [h] at hdone <;> cases hdone
  · exact blocked_returns (hfair i) ⟨inv_of_reachable (x.reached (.start h0) n), hc⟩ hi
  · have hinv := inv_of_reachable hs
    obtain ⟨F, -, hcounts⟩ := hinv.counts
    exact ⟨hcounts.nodup, fun j done first hj => (hj ▸ hinv.closers j : CloserOk s (.awaiting done first)).2.1⟩

/-- A close that finds one registered view, whose opener has yet to return it, closes the view and waits for the
opener, which returns a view that is already closed. -/
example :
    (run step .start
      [.begin_ 0, .move 0 (.timestamp true), .move 0 (.acquire none), .pin 0 7 true, .register 0, .close 0, .capture 0,
        .begin_ 1, .closeView 0 7 3, .view 7 (.finish 3 none none), .view 7 (.announce 3), .view 7 (.unregister 3),
        .view 7 (.wake 3), .viewClosed 0, .await 0, .move 0 (.context none), .end_ 0, .wake 0]).map
      (fun s => (s.registry.closed, s.given, (s.openers 1).inFlight)) = some ([0], {7}, false) := by
  decide

end PolicyEngine.Sqlite.Shutdown
