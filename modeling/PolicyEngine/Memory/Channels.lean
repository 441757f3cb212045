import PolicyEngine.Memory.Answers

/-!
# Channels

Every reservation and every generation wait owns a channel. Channels are numbered as
they are made, so an open channel has one owner, and it is closed at most once: by
whoever takes its owner out of the store.
-/

open PolicyEngine.Lib Function

namespace PolicyEngine.Memory

/-- Who can own an open channel: a reservation key, or a namespace's wait. -/
abbrev ChannelOwner := CommitReservationKey ⊕ Bytes

/-- The open channel an owner has. -/
def Store.channel (s : Store) : ChannelOwner → Option Chan
  | .inl key => (s.reservations key).map (·.done)
  | .inr ns => (s.waiters ns).map (·.changed)

/-- What one step does to the channels. -/
inductive ChannelStep (s s' : Store) : Prop
  | same : s'.channel = s.channel → s'.closed = s.closed → s.nextRef ≤ s'.nextRef → ChannelStep s s'
  | create (o : ChannelOwner) : s.channel o = none → s'.channel = Function.update s.channel o (some s.nextRef) →
      s'.closed = s.closed → s.nextRef < s'.nextRef → ChannelStep s s'
  | close (o : ChannelOwner) (d : Chan) : s.channel o = some d → s'.channel = Function.update s.channel o none →
      s'.closed = d :: s.closed → s.nextRef ≤ s'.nextRef → ChannelStep s s'
  /-- The last waiter leaves; nothing waits on the channel any more. -/
  | forget (ns : Bytes) : s'.channel = Function.update s.channel (.inr ns) none → s'.closed = s.closed →
      s.nextRef ≤ s'.nextRef → ChannelStep s s'
  /-- A reservation taken and given up in one critical section. -/
  | flash : s'.channel = s.channel → s'.closed = s.nextRef :: s.closed → s.nextRef < s'.nextRef → ChannelStep s s'

/-- Open channels have one owner and are not closed; no channel is closed twice. -/
structure Channels (s : Store) : Prop where
  closed_nodup : s.closed.Nodup
  closed_lt : ∀ d ∈ s.closed, d < s.nextRef
  open_lt : ∀ {o d}, s.channel o = some d → d < s.nextRef
  open_not_closed : ∀ {o d}, s.channel o = some d → d ∉ s.closed
  owner : ∀ {o o' d}, s.channel o = some d → s.channel o' = some d → o = o'

variable {s s' : Store}

theorem ChannelStep.refl (s : Store) : ChannelStep s s := .same rfl rfl (Nat.le_refl _)

/-- Closed channels stay closed. -/
theorem ChannelStep.closed_mono (h : ChannelStep s s') {d : Chan} (hd : d ∈ s.closed) : d ∈ s'.closed := by
  cases h with
  | same _ hc | create _ _ _ hc | forget _ _ hc => rw [hc]; exact hd
  | close _ _ _ _ hc | flash _ hc => rw [hc]; exact List.mem_cons_of_mem _ hd

theorem Channels.step (hi : Channels s) (h : ChannelStep s s') : Channels s' := by
  cases h with
  | same hch hc hn =>
    refine ⟨hc ▸ hi.closed_nodup, fun d hd => ?_, fun ho => ?_, fun ho => ?_, fun ho ho' => ?_⟩
    · exact Nat.lt_of_lt_of_le (hi.closed_lt d (hc ▸ hd)) hn
    · exact Nat.lt_of_lt_of_le (hi.open_lt (hch ▸ ho)) hn
    · exact hc ▸ hi.open_not_closed (hch ▸ ho)
    · exact hi.owner (hch ▸ ho) (hch ▸ ho')
  | create o hfree hch hc hn =>
    -- an open channel is an old one or the new one, which nothing has yet
    have cases {p : ChannelOwner} {d : Chan} (hp : s'.channel p = some d) :
        p = o ∧ d = s.nextRef ∨ s.channel p = some d := by
      rw [hch] at hp
      by_cases hpo : p = o
      · subst hpo
        rw [update_self] at hp
        exact .inl ⟨rfl, (Option.some.inj hp).symm⟩
      · rw [update_of_ne hpo] at hp
        exact .inr hp
    refine ⟨hc ▸ hi.closed_nodup, fun d hd => ?_, fun hp => ?_, fun hp => ?_, fun hp hq => ?_⟩
    · exact Nat.lt_trans (hi.closed_lt d (hc ▸ hd)) hn
    · rcases cases hp with ⟨-, rfl⟩ | hp
      · exact hn
      · exact Nat.lt_trans (hi.open_lt hp) hn
    · rw [hc]
      rcases cases hp with ⟨-, rfl⟩ | hp
      · exact fun hmem => Nat.lt_irrefl _ (hi.closed_lt _ hmem)
      · exact hi.open_not_closed hp
    · rcases cases hp with ⟨rfl, rfl⟩ | hp <;> rcases cases hq with ⟨rfl, hd⟩ | hq
      · rfl
      · exact absurd (hi.open_lt hq) (Nat.lt_irrefl _)
      · exact absurd (hd ▸ hi.open_lt hp) (Nat.lt_irrefl _)
      · exact hi.owner hp hq
  | close o d ho hch hc hn =>
    have old {p : ChannelOwner} {e : Chan} (hp : s'.channel p = some e) : p ≠ o ∧ s.channel p = some e := by
      rw [hch] at hp
      by_cases hpo : p = o
      · subst hpo
        simp at hp
      · exact ⟨hpo, by rwa [update_of_ne hpo] at hp⟩
    refine ⟨?_, fun e he => ?_, fun hp => ?_, fun {p e} hp => ?_, fun hp hq => hi.owner (old hp).2 (old hq).2⟩
    · rw [hc]
      exact List.nodup_cons.2 ⟨hi.open_not_closed ho, hi.closed_nodup⟩
    · rw [hc, List.mem_cons] at he
      rcases he with rfl | he
      · exact Nat.lt_of_lt_of_le (hi.open_lt ho) hn
      · exact Nat.lt_of_lt_of_le (hi.closed_lt e he) hn
    · exact Nat.lt_of_lt_of_le (hi.open_lt (old hp).2) hn
    · rw [hc, List.mem_cons]
      rintro (rfl | he)
      · exact (old hp).1 (hi.owner (old hp).2 ho)
      · exact hi.open_not_closed (old hp).2 he
  | forget ns hch hc hn =>
    have old {p : ChannelOwner} {e : Chan} (hp : s'.channel p = some e) : s.channel p = some e := by
      rw [hch] at hp
      by_cases hpo : p = .inr ns
      · subst hpo
        simp at hp
      · rwa [update_of_ne hpo] at hp
    refine ⟨hc ▸ hi.closed_nodup, fun d hd => ?_, fun ho => ?_, fun ho => ?_, fun hp hq => hi.owner (old hp) (old hq)⟩
    · exact Nat.lt_of_lt_of_le (hi.closed_lt d (hc ▸ hd)) hn
    · exact Nat.lt_of_lt_of_le (hi.open_lt (old ho)) hn
    · exact hc ▸ hi.open_not_closed (old ho)
  | flash hch hc hn =>
    refine ⟨?_, fun d hd => ?_, fun ho => ?_, fun ho => ?_, fun ho ho' => hi.owner (hch ▸ ho) (hch ▸ ho')⟩
    · rw [hc]
      exact List.nodup_cons.2 ⟨fun hmem => Nat.lt_irrefl _ (hi.closed_lt _ hmem), hi.closed_nodup⟩
    · rw [hc, List.mem_cons] at hd
      rcases hd with rfl | hd
      · exact hn
      · exact Nat.lt_trans (hi.closed_lt d hd) hn
    · exact Nat.lt_trans (hi.open_lt (hch ▸ ho)) hn
    · rw [hc, List.mem_cons]
      rintro (rfl | hd)
      · exact Nat.lt_irrefl _ (hi.open_lt (hch ▸ ho))
      · exact hi.open_not_closed (hch ▸ ho) hd

/-- A reservation's channel is closed by the step that takes it out of the store. -/
theorem ChannelStep.closed_of_gone (h : ChannelStep s s') (key : CommitReservationKey) {d : Chan}
    (hopen : s.channel (.inl key) = some d) (hgone : s'.channel (.inl key) = none) : d ∈ s'.closed := by
  have kept : s'.channel (.inl key) ≠ s.channel (.inl key) := by rw [hopen, hgone]; exact nofun
  cases h with
  | same hch | flash hch => exact absurd (congrFun hch _) kept
  | create o hfree hch =>
    have hne : Sum.inl key ≠ o := by rintro rfl; exact nomatch hopen.symm.trans hfree
    exact absurd (by rw [hch, update_of_ne hne]) kept
  | close o e ho hch hc =>
    by_cases hko : Sum.inl key = o
    · subst hko
      obtain rfl := Option.some.inj (hopen.symm.trans ho)
      exact hc ▸ List.mem_cons_self
    · exact absurd (by rw [hch, update_of_ne hko]) kept
  | forget ns hch => exact absurd (by rw [hch, update_of_ne Sum.inl_ne_inr]) kept

/-! ## Operations under the lock -/

theorem channel_congr (hr : s'.reservations = s.reservations) (hw : s'.waiters = s.waiters) :
    s'.channel = s.channel := by
  funext o
  cases o <;> simp [Store.channel, hr, hw]

theorem channel_reservation (s : Store) (key : CommitReservationKey) (r : Option CommitReservation)
    (hr : s'.reservations = update s.reservations key r) (hw : s'.waiters = s.waiters) :
    s'.channel = update s.channel (.inl key) (r.map (·.done)) := by
  funext o
  cases o with
  | inl k =>
    by_cases hk : k = key
    · subst hk
      simp [Store.channel, hr]
    · have hne : (Sum.inl k : ChannelOwner) ≠ .inl key := fun h => hk (Sum.inl.inj h)
      simp [Store.channel, hr, update_of_ne hk, update_of_ne hne]
  | inr ns => simp [Store.channel, hw]

theorem channel_waiter (s : Store) (ns : Bytes) (w : Option GenerationWait) (hr : s'.reservations = s.reservations)
    (hw : s'.waiters = update s.waiters ns w) :
    s'.channel = update s.channel (.inr ns) (w.map (·.changed)) := by
  funext o
  cases o with
  | inl key => simp [Store.channel, hr]
  | inr n =>
    by_cases hn : n = ns
    · subst hn
      simp [Store.channel, hw]
    · have hne : (Sum.inr n : ChannelOwner) ≠ .inr ns := fun h => hn (Sum.inr.inj h)
      simp [Store.channel, hw, update_of_ne hn, update_of_ne hne]

theorem release_channels (s : Store) (r : CommitReservation) : ChannelStep s (releaseCommitReservation s r) := by
  unfold releaseCommitReservation Store.releaseCommitReservationLocked
  split
  next howns =>
    -- the channel stored under the key is the one being closed
    have hopen : s.channel (.inl r.key) = some r.done := by
      simp only [Store.ownsCommitReservationLocked, Store.lock] at howns
      cases hres : s.reservations r.key with
      | none => simp [hres] at howns
      | some held =>
        rw [hres] at howns
        simpa [Store.channel, hres] using howns
    exact .close (.inl r.key) r.done hopen (channel_reservation s r.key none rfl rfl) rfl (Nat.le_refl _)
  · exact .same rfl rfl (Nat.le_refl _)

theorem notify_channels (s : Store) (ns : Bytes) : ChannelStep s (s.notifyGenerationWaitersLocked ns) := by
  unfold Store.notifyGenerationWaitersLocked
  split
  · exact .refl s
  next wait hw =>
    exact .close (.inr ns) wait.changed (by simp [Store.channel, hw]) (channel_waiter s ns none rfl rfl) rfl
      (Nat.le_refl _)

theorem register_channels (s : Store) (ns : Bytes) : ChannelStep s (s.registerGenerationWaitLocked ns).1 := by
  unfold Store.registerGenerationWaitLocked
  split
  next wait hw =>
    refine .same (.trans (channel_waiter s ns (some { wait with refs := wait.refs + 1 }) rfl rfl) ?_) rfl (Nat.le_refl _)
    refine update_eq_self_iff.2 ?_
    simp [Store.channel, hw]
  next hw =>
    exact .create (.inr ns) (by simp [Store.channel, hw]) (channel_waiter s ns (some ⟨s.nextRef, 1⟩) rfl rfl) rfl
      (Nat.lt_succ_self _)

theorem unregister_channels (s : Store) (ns : Bytes) (changed : Chan) :
    ChannelStep s (s.unregisterGenerationWaitLocked ns changed) := by
  unfold Store.unregisterGenerationWaitLocked
  split
  · exact .refl s
  next wait hw =>
    split
    · exact .refl s
    · by_cases hz : wait.refs - 1 = 0
      · rw [if_pos hz]
        exact .forget ns (channel_waiter s ns none rfl rfl) rfl (Nat.le_refl _)
      · rw [if_neg hz]
        refine .same (.trans (channel_waiter s ns (some { wait with refs := wait.refs - 1 }) rfl rfl) ?_) rfl
          (Nat.le_refl _)
        refine update_eq_self_iff.2 ?_
        simp [Store.channel, hw]

/-- A step seen through stores with the same channels. -/
theorem ChannelStep.congr {t t' : Store} (h : ChannelStep s s') (hch : t.channel = s.channel) (hc : t.closed = s.closed)
    (hn : t.nextRef = s.nextRef) (hch' : t'.channel = s'.channel) (hc' : t'.closed = s'.closed)
    (hn' : t'.nextRef = s'.nextRef) : ChannelStep t t' := by
  cases h with
  | same h1 h2 h3 => exact .same (by rw [hch', hch, h1]) (by rw [hc', hc, h2]) (by omega)
  | create o h0 h1 h2 h3 => exact .create o (hch ▸ h0) (by rw [hch', hch, h1, hn]) (by rw [hc', hc, h2]) (by omega)
  | close o d h0 h1 h2 h3 => exact .close o d (hch ▸ h0) (by rw [hch', hch, h1]) (by rw [hc', hc, h2]) (by omega)
  | forget o h1 h2 h3 => exact .forget o (by rw [hch', hch, h1]) (by rw [hc', hc, h2]) (by omega)
  | flash h1 h2 h3 => exact .flash (by rw [hch', hch, h1]) (by rw [hc', hc, h2, hn]) (by omega)

variable [Primitives]

/-! ## Calls -/

omit [Primitives] in
theorem publishCandidate_channels (s : Store) (request : WriteDataRequest) (c : Candidate) (event : EventRecord)
    (t : Time) (state : Option DataState) :
    ChannelStep s (publishCandidate (s.lock.effectiveTimeLocked t).1 request c state event
      (s.lock.effectiveTimeLocked t).2).unlock := by
  simp only [publishCandidate]
  generalize hs₁ : ({ (s.lock.effectiveTimeLocked t).1 with data := _ } : Store) = s₁
  have hres : s₁.reservations = s.reservations := by rw [← hs₁, Store.effectiveTimeLocked_fst]; rfl
  have hwait : s₁.waiters = s.waiters := by rw [← hs₁, Store.effectiveTimeLocked_fst]; rfl
  have hclosed : s₁.closed = s.closed := by rw [← hs₁, Store.effectiveTimeLocked_fst]; rfl
  have hnext : s₁.nextRef = s.nextRef := by rw [← hs₁, Store.effectiveTimeLocked_fst]; rfl
  rw [Store.appendEventLocked_eq]
  exact (notify_channels s₁ request.namespace_).congr (channel_congr hres.symm hwait.symm) hclosed.symm hnext.symm
    (channel_congr rfl rfl) rfl rfl

theorem WriteStep.channels {request pc pc'} (h : WriteStep s request pc s' pc') :
    ChannelStep s s' := by
  cases h with
  | start | reserve | wake | refuse | check | read | recheck | abandon => exact .refl s
  | wait | contend => exact .same rfl rfl (Nat.le_refl _)
  | answer => exact .flash rfl rfl (Nat.lt_succ_self _)
  | @build f c _ _ hkey hdone hn =>
    refine .create (.inl (dataKey request.namespace_)) (by simp [Store.channel, hn]) ?_ rfl
      (Nat.lt_add_of_pos_right (by decide))
    exact .trans (channel_reservation s _ (some c.reservation) rfl rfl) (by rw [Option.map_some, hdone])
  | decline => exact .same rfl rfl (Nat.le_refl _)
  | commit => exact publishCandidate_channels s request _ _ _ _
  | @release r => exact release_channels s r

theorem ActivateStep.channels {request pc pc'} (h : ActivateStep s request pc s' pc') : ChannelStep s s' := by
  cases h with
  | start | refuse | check | read | recheck | abandon => exact .refl s
  | contend => exact .same rfl rfl (Nat.le_refl _)
  | answer => exact .flash rfl rfl (Nat.lt_succ_self _)
  | @build r g _ hkey hdone hn =>
    refine .create (.inl (slotKey request.namespace_ request.slot)) (by simp [Store.channel, hn]) ?_ rfl
      (Nat.lt_add_of_pos_right (by decide))
    exact .trans (channel_reservation s _ (some r) rfl rfl) (by rw [Option.map_some, hdone])
  | decline => exact .same rfl rfl (Nat.le_refl _)
  | commit =>
    rw [publishActivation_eq, Store.effectiveTimeLocked_fst]
    exact .same rfl rfl (Nat.le_refl _)
  | @release r => exact release_channels s r

theorem PutStep.channels {write pc pc'} (h : PutStep s write pc s' pc') :
    ChannelStep s s' := by
  cases h with
  | start | wake | refuse | reply | check | read | recheck | abandon => exact .refl s
  | wait | contend => exact .same rfl rfl (Nat.le_refl _)
  | answer | find => exact .flash rfl rfl (Nat.lt_succ_self _)
  | @build r hkey hdone hn =>
    refine .create (.inl (revisionKey write.metadata.namespace_)) (by simp [Store.channel, hn]) ?_ rfl
      (Nat.lt_add_of_pos_right (by decide))
    exact .trans (channel_reservation s _ (some r) rfl rfl) (by rw [Option.map_some, hdone])
  | decline => exact .same rfl rfl (Nat.le_refl _)
  | commit =>
    rw [publishRevision_eq, Store.effectiveTimeLocked_fst]
    exact .same rfl rfl (Nat.le_refl _)
  | @release r => exact release_channels s r

variable {ctx : Ctx} {input : Input}

theorem listEventsStep_channels {request pc pc'} (h : listEventsStep s ctx request input pc = some (s', pc')) :
    ChannelStep s s' := by
  cases pc with
  | locking position t =>
    simp only [listEventsStep] at h
    split at h
    · cases h; exact .refl s
    split at h
    · cases h
    · cases h
      rw [Store.pruneEventsLocked_eq, Store.effectiveTimeLocked_fst]
      exact .same rfl rfl (Nat.le_refl _)
  | entry | clock | listed =>
    simp only [listEventsStep] at h
    repeat' split at h
    all_goals cases h; exact .refl s
  | returned => cases h

omit [Primitives] in
theorem openSnapshotStep_channels {request pc pc'} (h : openSnapshotStep s ctx request input pc = some (s', pc')) :
    ChannelStep s s' := by
  cases pc with
  | locking =>
    simp only [openSnapshotStep, openSnapshotLocked] at h
    repeat' split at h
    · cases h; exact .refl s
    · cases h
    · cases h; exact .same rfl rfl (Nat.le_succ _)
    · cases h; exact (register_channels s.lock request.namespace_).congr rfl rfl rfl rfl rfl rfl
  | unregistering changed error =>
    have hu : ChannelStep s (s.lock.unregisterGenerationWaitLocked request.namespace_ changed).unlock :=
      (unregister_channels s.lock request.namespace_ changed).congr rfl rfl rfl rfl rfl rfl
    simp only [openSnapshotStep] at h
    split at h
    · cases h
    split at h <;> cases h <;> exact hu
  | entry | opened | waiting =>
    simp only [openSnapshotStep] at h
    repeat' split at h
    all_goals cases h; try exact .refl s
  | returned => cases h

theorem Operation.step_channels {o o' : Operation} (h : o.step s ctx input = some (s', o')) : ChannelStep s s' := by
  cases o with
  | listEvents request pc =>
    simp only [Operation.step, Option.map_eq_some_iff, Prod.exists, Prod.mk.injEq] at h
    obtain ⟨_, pc', hstep, rfl, rfl⟩ := h
    exact listEventsStep_channels hstep
  | openSnapshot request pc =>
    simp only [Operation.step, Option.map_eq_some_iff, Prod.exists, Prod.mk.injEq] at h
    obtain ⟨_, pc', hstep, rfl, rfl⟩ := h
    exact openSnapshotStep_channels hstep
  | writeData => cases Operation.step_cases h with | writeData hw => exact hw.channels
  | activate => cases Operation.step_cases h with | activate hw => exact hw.channels
  | putRevision => cases Operation.step_cases h with | putRevision hw => exact hw.channels

theorem channels_step {s s' : System} {a : Action} (h : s.step a = some s') : ChannelStep s.store s'.store := by
  rcases System.step_cases h with ⟨id, o, hn, hentry, rfl⟩ | ⟨id, reason, o, hc, rfl⟩ |
    ⟨id, input, ctx, o, o', store, hc, hstep, rfl⟩
  · exact .refl _
  · exact .refl _
  · exact Operation.step_channels hstep

theorem channels_of_reached {s : System} (h : s.Reached) : Channels s.store := by
  refine h.invariant (I := fun s => Channels s.store) ?_ fun s a s' hi _ hs => hi.step (channels_step hs)
  rintro _ ⟨key, rfl⟩
  have hnone (o : ChannelOwner) : (newStore key).channel o = none := by cases o <;> rfl
  refine ⟨.nil, nofun, fun {o d} h => ?_, fun {o d} h => ?_, fun {o _ d} h _ => ?_⟩
  all_goals exact nomatch (hnone o).symm.trans h

end PolicyEngine.Memory
