import PolicyEngine.Memory.Channels

/-!
# Failed calls leave nothing behind

A mutating call that returns an error has changed no content in any of its steps; no
critical section ends with the mutex held; and the reservation a call took is given up
by that call, once.
-/

open PolicyEngine.Lib Function

namespace PolicyEngine.Memory

variable [Primitives] {s s' : Store} {o o' : Operation}

/-! ## Results -/

/-- What a mutating call has settled on. -/
def Operation.result? : Operation → Option (Result Unit)
  | .writeData _ pc => pc.result?.map (·.map fun _ => ())
  | .activate _ pc => pc.result?.map (·.map fun _ => ())
  | .putRevision _ pc => pc.result?.map (·.map fun _ => ())
  | _ => none

/-- A mutating call that has returned an error. -/
def Operation.failed : Operation → Bool
  | .writeData _ (.returned (.error _)) | .activate _ (.returned (.error _)) | .putRevision _ (.returned (.error _)) =>
    true
  | _ => false

/-- A mutating call that has returned. -/
def Operation.finished : Operation → Bool
  | .writeData _ (.returned _) | .activate _ (.returned _) | .putRevision _ (.returned _) => true
  | _ => false

/-- A mutating call about to enter its first critical section. -/
def Operation.reserving : Operation → Bool
  | .writeData _ (.locking _) | .activate _ .locking | .putRevision _ .locking => true
  | _ => false

omit [Primitives] in
theorem Operation.result_of_failed (h : o.failed = true) :
    (∃ e, o.result? = some (.error e)) ∧ o.reservationKey ≠ none := by
  unfold Operation.failed at h
  split at h
  next e => exact ⟨⟨e, rfl⟩, by simp [Operation.reservationKey]⟩
  next e => exact ⟨⟨e, rfl⟩, by simp [Operation.reservationKey]⟩
  next e => exact ⟨⟨e, rfl⟩, by simp [Operation.reservationKey]⟩
  · cases h

omit [Primitives] in
theorem Operation.holds_of_finished (h : o.finished = true) : o.holds = none := by
  unfold Operation.finished at h
  split at h <;> first | rfl | cases h

theorem Operation.step_of_finished (h : o.finished = true) (ctx : Ctx) (input : Input) : o.step s ctx input = none := by
  unfold Operation.finished at h
  split at h <;> first | rfl | cases h

/-- A settled result stays. -/
theorem OperationStep.result_stable (h : OperationStep s s' o o') {r} (hr : o.result? = some r) :
    o'.result? = some r := by
  cases h with
  | writeData h =>
    cases h with
    | refuse e _ hn => simp [Operation.result?, hn] at hr
    | abandon e hc => simp [Operation.result?, WritePc.result_of_candidate hc] at hr
    | release => exact hr
    | _ => simp [Operation.result?, WritePc.result?] at hr
  | activate h =>
    cases h with
    | refuse e _ hn => simp [Operation.result?, hn] at hr
    | abandon e hc => simp [Operation.result?, ActivatePc.result_of_candidate hc] at hr
    | release => exact hr
    | _ => simp [Operation.result?, ActivatePc.result?] at hr
  | putRevision h =>
    cases h with
    | refuse e _ hn => simp [Operation.result?, hn] at hr
    | abandon e hc => simp [Operation.result?, PutPc.result_of_candidate hc] at hr
    | release => exact hr
    | _ => simp [Operation.result?, PutPc.result?] at hr
  | listEvents | openSnapshot => cases hr

/-- A step of a mutating call keeps the content or settles a success. -/
theorem OperationStep.content (h : OperationStep s s' o o') (hm : o.reservationKey ≠ none) :
    SameContent s s' ∨ o'.result? = some (.ok ()) := by
  have same : SameContent s s := ⟨rfl, rfl, rfl, rfl, rfl, rfl⟩
  cases h with
  | writeData h =>
    cases h with
    | commit => exact .inr rfl
    | release => exact .inl (.release _ _)
    | start | reserve | wake | refuse | check | read | recheck | abandon => exact .inl same
    | _ => exact .inl ⟨rfl, rfl, rfl, rfl, rfl, rfl⟩
  | activate h =>
    cases h with
    | commit => exact .inr rfl
    | release => exact .inl (.release _ _)
    | start | refuse | check | read | recheck | abandon => exact .inl same
    | _ => exact .inl ⟨rfl, rfl, rfl, rfl, rfl, rfl⟩
  | putRevision h =>
    cases h with
    | commit => exact .inr rfl
    | release => exact .inl (.release _ _)
    | start | wake | refuse | reply | check | read | recheck | abandon => exact .inl same
    | _ => exact .inl ⟨rfl, rfl, rfl, rfl, rfl, rfl⟩
  | listEvents | openSnapshot => exact absurd rfl hm

/-! ## The mutex -/

variable {input : Input}

/-- Every critical section unlocks on every way out. -/
theorem Operation.step_mu {ctx : Ctx} (h : o.step s ctx input = some (s', o')) (hmu : s.mu = false) :
    s'.mu = false := by
  cases o with
  | writeData =>
    cases Operation.step_cases h with
    | writeData hw =>
      cases hw with
      | start | reserve | wake | refuse | check | read | recheck | abandon => exact hmu
      | _ => rfl
  | activate =>
    cases Operation.step_cases h with
    | activate hw =>
      cases hw with
      | start | refuse | check | read | recheck | abandon => exact hmu
      | _ => rfl
  | putRevision =>
    cases Operation.step_cases h with
    | putRevision hw =>
      cases hw with
      | start | wake | refuse | reply | check | read | recheck | abandon => exact hmu
      | _ => rfl
  | listEvents request pc =>
    simp only [Operation.step, Option.map_eq_some_iff, Prod.exists, Prod.mk.injEq] at h
    obtain ⟨_, pc', hstep, rfl, rfl⟩ := h
    cases pc <;> simp only [listEventsStep] at hstep
    all_goals
      repeat' split at hstep
      all_goals cases hstep
      all_goals first | exact hmu | rfl
  | openSnapshot request pc =>
    simp only [Operation.step, Option.map_eq_some_iff, Prod.exists, Prod.mk.injEq] at h
    obtain ⟨_, pc', hstep, rfl, rfl⟩ := h
    cases pc <;> simp only [openSnapshotStep, openSnapshotLocked] at hstep
    all_goals
      repeat' split at hstep
      all_goals cases hstep
      all_goals first | exact hmu | rfl

theorem unlocked_of_reached {s : System} (h : s.Reached) : s.store.mu = false := by
  refine h.invariant (I := fun s => s.store.mu = false) ?_ fun s a s' hi _ hs => ?_
  · rintro _ ⟨key, rfl⟩
    rfl
  · rcases System.step_cases hs with ⟨id, o, _, _, rfl⟩ | ⟨id, reason, o, _, rfl⟩ |
      ⟨id, input, ctx, o, o', store, _, hstep, rfl⟩
    · exact hi
    · exact hi
    · exact Operation.step_mu hstep hi

/-! ## Taking a reservation -/

omit [Primitives] in
theorem releaseCommitReservationLocked_nextRef (s : Store) (r : CommitReservation) :
    (s.releaseCommitReservationLocked r).nextRef = s.nextRef := by
  unfold Store.releaseCommitReservationLocked
  split <;> rfl

variable {key : CommitReservationKey}

omit [Primitives] in
/-- A free key is reserved, which makes a channel. -/
theorem reserveCommitLocked_free (h : s.reservations key = none) :
    s.lock.reserveCommitLocked key =
      ({ s.lock with
          reservations := update s.reservations key (some ⟨key, s.nextRef, [], [], []⟩)
          nextRef := s.nextRef + 1 }, some ⟨key, s.nextRef, [], [], []⟩) := by
  rcases Store.reserveCommitLocked_cases s.lock key with ⟨pending, hp, -⟩ | ⟨-, he⟩
  · exact nomatch h.symm.trans hp
  · exact he

theorem nextRef_lt_of_reserving {ctx : Ctx} (hr : o.reserving = true) (hkey : o.reservationKey = some key)
    (hfree : s.reservations key = none) (h : o.step s ctx input = some (s', o')) : s.nextRef < s'.nextRef := by
  unfold Operation.reserving at hr
  split at hr
  next request fingerprint =>
    obtain rfl := Option.some.inj hkey
    simp only [Operation.step, Option.map_eq_some_iff, Prod.exists, Prod.mk.injEq, writeDataStep] at h
    obtain ⟨_, pc', hstep, rfl, rfl⟩ := h
    split at hstep
    · cases hstep
    simp only [writeDataLocked, reserveCommitLocked_free hfree] at hstep
    split at hstep
    · cases hstep
      simp [Store.unlock, releaseCommitReservationLocked_nextRef, Store.markReservation]
    · cases hstep
      simp [Store.unlock, Store.markReservation]
      omega
  next request =>
    obtain rfl := Option.some.inj hkey
    simp only [Operation.step, Option.map_eq_some_iff, Prod.exists, Prod.mk.injEq, activateStep] at h
    obtain ⟨_, pc', hstep, rfl, rfl⟩ := h
    split at hstep
    · cases hstep
    simp only [activateLocked, reserveCommitLocked_free hfree] at hstep
    split at hstep
    · cases hstep
      simp [Store.unlock, releaseCommitReservationLocked_nextRef]
    · cases hstep
      simp [Store.unlock]
  next write =>
    obtain rfl := Option.some.inj hkey
    simp only [Operation.step, Option.map_eq_some_iff, Prod.exists, Prod.mk.injEq, putRevisionStep] at h
    obtain ⟨_, pc', hstep, rfl, rfl⟩ := h
    split at hstep
    · cases hstep
    simp only [putRevisionLocked, reserveCommitLocked_free hfree] at hstep
    repeat' split at hstep
    all_goals cases hstep; simp [Store.unlock, releaseCommitReservationLocked_nextRef]
  · cases hr

/-- A call that finds its key free has the new reservation, or has given it up again already. -/
theorem reserving_step {ctx : Ctx} (hr : o.reserving = true) (hkey : o.reservationKey = some key)
    (hfree : s.reservations key = none) (h : o.step s ctx input = some (s', o')) :
    s.nextRef ∈ s'.closed ∨ ∃ r, o'.holds = some r ∧ r.done = s.nextRef := by
  have hlt := nextRef_lt_of_reserving hr hkey hfree h
  have absurd_same : s'.nextRef = s.nextRef → False := fun heq => absurd hlt (by omega)
  cases Operation.step_cases h with
  | writeData hw =>
    cases hw with
    | wait | contend => exact (absurd_same rfl).elim
    | answer => exact .inl List.mem_cons_self
    | @build f c _ _ _ hdone _ => exact .inr ⟨c.reservation, rfl, hdone⟩
    | refuse => exact (absurd_same rfl).elim
    | abandon e hc => exact (absurd_same rfl).elim
    | _ => cases hr
  | activate hw =>
    cases hw with
    | contend | refuse | abandon => exact (absurd_same rfl).elim
    | answer => exact .inl List.mem_cons_self
    | @build r g _ _ hdone _ => exact .inr ⟨r, rfl, hdone⟩
    | _ => cases hr
  | putRevision hw =>
    cases hw with
    | wait | contend | refuse | abandon => exact (absurd_same rfl).elim
    | answer | find => exact .inl List.mem_cons_self
    | @build r _ hdone _ => exact .inr ⟨r, rfl, hdone⟩
    | _ => cases hr
  | listEvents | openSnapshot => cases hr

/-! ## Runs -/

/-- Some run leads from the first state to the second. -/
abbrev System.Leads (s t : System) : Prop := Reachable System.step (· = s) t

/-- The mutating call has returned an error. -/
def System.failed (s : System) (id : CallId) : Bool := (s.calls id).any (·.operation.failed)

/-- The mutating call has returned. -/
def System.finished (s : System) (id : CallId) : Bool := (s.calls id).any (·.operation.finished)

/-- The call's next step is the critical section that reserves its key, and the key is free. The
reservation it takes is the one whose channel is numbered `s.store.nextRef`. -/
def System.reserves (s : System) (id : CallId) : Bool :=
  (s.calls id).any fun call => call.operation.reserving &&
    call.operation.reservationKey.any fun key => (s.store.reservations key).isNone

/-- A reservation with this done channel is held. -/
def Store.Reserved (s : Store) (done : Chan) : Prop := ∃ key r, s.reservations key = some r ∧ r.done = done

variable {id : CallId}

/-- Another call's step, an invocation and a cancellation leave a call's program counter alone. -/
theorem System.other_step {s s' : System} {a : Action} {call : Call} (hc : s.calls id = some call)
    (ha : ∀ input, a ≠ .step id input) (h : s.step a = some s') :
    ∃ ctx, s'.calls id = some ⟨ctx, call.operation⟩ := by
  cases a with
  | invoke id' operation =>
    simp only [System.step] at h
    split at h
    · cases h
    next hn =>
      cases h
      have hne : id ≠ id' := by rintro rfl; cases hc.symm.trans hn
      exact ⟨call.ctx, by simp [update_of_ne hne, hc]⟩
  | cancel id' reason =>
    simp only [System.step] at h
    split at h
    next operation hc' =>
      cases h
      by_cases hne : id = id'
      · subst hne
        obtain rfl := Option.some.inj (hc.symm.trans hc')
        exact ⟨reason, by simp⟩
      · exact ⟨call.ctx, by simp [update_of_ne hne, hc]⟩
    · cases h
  | step id' input =>
    have hne : id ≠ id' := by rintro rfl; exact ha input rfl
    simp only [System.step] at h
    split at h
    · cases h
    split at h
    · cases h
    · cases h
      exact ⟨call.ctx, by simp [update_of_ne hne, hc]⟩

/-- A call's own step. -/
theorem System.own_step {s s' : System} {call : Call} (hc : s.calls id = some call)
    (h : s.step (.step id input) = some s') :
    ∃ next, call.operation.step s.store call.ctx input = some (s'.store, next) ∧
      s'.calls id = some ⟨call.ctx, next⟩ := by
  simp only [System.step, hc] at h
  split at h
  · cases h
  next store next hstep =>
    cases h
    exact ⟨next, hstep, by simp⟩

/-- What a call's steps keep holds of it in every later state. -/
theorem System.Leads.stable {P : Operation → Prop}
    (hP : ∀ {s s' : Store} {ctx : Ctx} {input : Input} {o o' : Operation}, o.step s ctx input = some (s', o') → P o →
      P o') {s t : System} (h : s.Leads t) (hs : ∃ call, s.calls id = some call ∧ P call.operation) :
    ∃ call, t.calls id = some call ∧ P call.operation := by
  refine h.invariant (I := fun t => ∃ call, t.calls id = some call ∧ P call.operation)
    (by rintro _ rfl; exact hs) fun u a u' ⟨call, hc, hr⟩ _ hstep => ?_
  by_cases ha : ∃ input, a = .step id input
  · obtain ⟨input, rfl⟩ := ha
    obtain ⟨next, hn, hc'⟩ := System.own_step hc hstep
    exact ⟨_, hc', hP hn hr⟩
  · obtain ⟨ctx, hc'⟩ := System.other_step hc (fun input h => ha ⟨input, h⟩) hstep
    exact ⟨_, hc', hr⟩

/-- The channel of a reservation the call took: the call holds it still, or it is closed. -/
def Taken (id : CallId) (done : Chan) (t : System) : Prop :=
  (∃ call r, t.calls id = some call ∧ call.operation.holds = some r ∧ r.done = done) ∨ done ∈ t.store.closed

theorem Taken.step {t t' : System} {a : Action} {id : CallId} {done : Chan} (ho : Ownership t) (h : Taken id done t)
    (hs : t.step a = some t') : Taken id done t' := by
  rcases h with ⟨call, r, hc, hr, hd⟩ | hd
  · by_cases ha : ∃ input, a = .step id input
    · obtain ⟨input, rfl⟩ := ha
      obtain ⟨next, hn, hc'⟩ := System.own_step hc hs
      have hstored := (ho.held hc hr).1
      -- the call's own step keeps the reservation, or drops it and closes its channel
      obtain ⟨-, -, ⟨hsame, -⟩ | ⟨key, -, hholding⟩⟩ := (Operation.step_cases hn).holding
      · exact .inl ⟨_, r, hc', hsame.trans hr, hd⟩
      · generalize hh' : next.holds = held' at hholding
        rw [hr] at hholding
        cases hholding with
        | keep => exact .inl ⟨_, r, hc', hh', hd⟩
        | drop _ hdrop =>
          refine .inr (hd ▸ (channels_step hs).closed_of_gone r.key ?_ ?_)
          · simp [Store.channel, hstored]
          · simp [Store.channel, hdrop hstored]
    · obtain ⟨ctx, hc'⟩ := System.other_step hc (fun input h => ha ⟨input, h⟩) hs
      exact .inl ⟨_, r, hc', hr, hd⟩
  · exact .inr ((channels_step hs).closed_mono hd)

theorem Taken.of_leads {s t done} (hr : s.Reached) (h : Taken id done s) (ht : s.Leads t) :
    Taken id done t :=
  (ht.invariant (I := fun t => t.Reached ∧ Taken id done t) (by rintro _ rfl; exact ⟨hr, h⟩)
    fun _ _ _ ⟨hu, htaken⟩ _ hs => ⟨hu.extend hs, htaken.step (ownership_of_reached hu) hs⟩).2

/-- Reserving takes the next channel. -/
theorem taken_of_reserves {s s' : System} (h : s.reserves id = true) (hs : s.step (.step id input) = some s') :
    Taken id s.store.nextRef s' := by
  simp only [System.reserves, Option.any_eq_true, Bool.and_eq_true, Option.isNone_iff_eq_none] at h
  obtain ⟨call, hc, hres, key, hkey, hfree⟩ := h
  obtain ⟨next, hn, hc'⟩ := System.own_step hc hs
  rcases reserving_step hres hkey hfree hn with hd | ⟨r, hr, hd⟩
  · exact .inr hd
  · exact .inl ⟨_, r, hc', hr, hd⟩

omit [Primitives] in
theorem Channels.not_reserved_of_closed (hi : Channels s) {done : Chan} (h : done ∈ s.closed) :
    ¬ s.Reserved done := by
  rintro ⟨key, r, hr, rfl⟩
  exact hi.open_not_closed (o := .inl key) (by simp [Store.channel, hr]) h

omit [Primitives] in
theorem Channels.not_closed_of_reserved (hi : Channels s) {done : Chan} (h : s.Reserved done) :
    done ∉ s.closed :=
  fun hd => hi.not_reserved_of_closed hd h

/-- In every reachable state the mutex is free; a step of a call that goes on to return an error leaves all
content as it was; and the channel of a reservation a call takes is closed once, by a step of that call, so that
the reservation is gone when the call has returned. -/
theorem failed_calls_have_no_effect {s : System} (h : s.Reached) :
    s.store.mu = false ∧
      ∀ id input s', s.step (.step id input) = some s' → ∀ t, s'.Leads t →
        (t.failed id = true → SameContent s.store s'.store) ∧
        (s.reserves id = true →
          (t.finished id = true → ¬ t.store.Reserved s.store.nextRef ∧ t.store.closed.count s.store.nextRef = 1) ∧
          ∀ a t', t.step a = some t' → (∀ i, a ≠ .step id i) →
            (t'.store.Reserved s.store.nextRef ↔ t.store.Reserved s.store.nextRef) ∧
            (s.store.nextRef ∈ t'.store.closed ↔ s.store.nextRef ∈ t.store.closed)) := by
  refine ⟨unlocked_of_reached h, fun id input s' hs t ht => ⟨fun hfailed => ?_, fun hres => ?_⟩⟩
  · -- a step that changed content settled a success, which would still be there
    obtain ⟨call, hc, hfail⟩ := (Option.any_eq_true _ _).1 hfailed
    obtain ⟨⟨e, he⟩, hkeyed⟩ := Operation.result_of_failed hfail
    have hcall : ∃ old, s.calls id = some old := by
      cases hold : s.calls id with
      | none => simp [System.step, hold] at hs
      | some old => exact ⟨old, rfl⟩
    obtain ⟨old, hold⟩ := hcall
    obtain ⟨next, hn, hc'⟩ := System.own_step hold hs
    have hstep := Operation.step_cases hn
    have hmut : old.operation.reservationKey ≠ none := by
      intro hnone
      obtain ⟨call', hct, hkey⟩ := ht.stable (P := fun o => o.reservationKey = none)
        (fun hstep hk => (Operation.step_cases hstep).holding.1.trans hk) ⟨_, hc', hstep.holding.1.trans hnone⟩
      obtain rfl := Option.some.inj (hc.symm.trans hct)
      exact hkeyed hkey
    rcases hstep.content hmut with hsame | hok
    · exact hsame
    · obtain ⟨call', hct, hres⟩ := ht.stable (P := fun o => o.result? = some (.ok ()))
        (fun hstep hr => (Operation.step_cases hstep).result_stable hr) ⟨_, hc', hok⟩
      obtain rfl := Option.some.inj (hc.symm.trans hct)
      cases he.symm.trans hres
  · have hr' : s'.Reached := h.extend hs
    have htaken := (taken_of_reserves hres hs).of_leads hr' ht
    have hrt : t.Reached := hr'.trans ht
    have hch := channels_of_reached hrt
    constructor
    · intro hfinished
      obtain ⟨call, hc, hfin⟩ := (Option.any_eq_true _ _).1 hfinished
      rcases htaken with ⟨call', r, hc', hr, -⟩ | hd
      · obtain rfl := Option.some.inj (hc.symm.trans hc')
        cases (Operation.holds_of_finished hfin).symm.trans hr
      · exact ⟨hch.not_reserved_of_closed hd, List.count_eq_one_of_mem hch.closed_nodup hd⟩
    · intro a t' hs' hother
      have hrt' : t'.Reached := hrt.extend hs'
      have hch' := channels_of_reached hrt'
      rcases htaken with ⟨call, r, hc, hr, hd⟩ | hd
      · -- the call holds the reservation before and after
        obtain ⟨ctx, hc'⟩ := System.other_step hc hother hs'
        have before : t.store.Reserved s.store.nextRef := ⟨r.key, r, ((ownership_of_reached hrt).held hc hr).1, hd⟩
        have after : t'.store.Reserved s.store.nextRef :=
          ⟨r.key, r, ((ownership_of_reached hrt').held hc' hr).1, hd⟩
        exact ⟨iff_of_true after before,
          iff_of_false (hch'.not_closed_of_reserved after) (hch.not_closed_of_reserved before)⟩
      · have hd' := (channels_step hs').closed_mono hd
        exact ⟨iff_of_false (hch'.not_reserved_of_closed hd') (hch.not_reserved_of_closed hd), iff_of_true hd' hd⟩

/-! A publication whose clock panics, from its critical section on. -/

def panickingPublish : List Action := List.replicate 3 (.step 0 ⟨none, false⟩)

omit [Primitives] in
theorem panickingPublish_fails :
    ((run (@System.step Primitives.constant) ⟨newStore [], fun _ => none, []⟩ (samplePublish.take 2)).any fun s =>
      (@System.step Primitives.constant s (.step 0 ⟨none, false⟩)).any fun s' =>
        (run (@System.step Primitives.constant) s' panickingPublish).any fun t =>
          s.reserves 0 && t.failed 0 && t.finished 0) = true := by
  decide +kernel

omit [Primitives] in
theorem failed_calls_have_no_effect_panic :
    ∃ s s' t : System, @System.Reached Primitives.constant s ∧ s.reserves 0 = true ∧ t.failed 0 = true ∧
      SameContent s.store s'.store ∧ ¬ t.store.Reserved s.store.nextRef ∧
      t.store.closed.count s.store.nextRef = 1 := by
  obtain ⟨s, hs, h⟩ := (Option.any_eq_true _ _).1 panickingPublish_fails
  obtain ⟨s', hs', h⟩ := (Option.any_eq_true _ _).1 h
  obtain ⟨t, ht, h⟩ := (Option.any_eq_true _ _).1 h
  simp only [Bool.and_eq_true] at h
  obtain ⟨⟨hres, hfail⟩, hfin⟩ := h
  have hr : @System.Reached Primitives.constant s := Reachable.run (.start ⟨[], rfl⟩) hs
  have hleads : @System.Leads Primitives.constant s' t := Reachable.run (.start rfl) ht
  obtain ⟨hsame, htaken⟩ :=
    (@failed_calls_have_no_effect Primitives.constant s hr).2 0 ⟨none, false⟩ s' hs' t hleads
  exact ⟨s, s', t, hr, hres, hfail, hsame hfail, (htaken hres).1 hfin⟩

end PolicyEngine.Memory
