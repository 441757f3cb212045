import PolicyEngine.Lib.Fair
import PolicyEngine.Memory.DataPlane
import PolicyEngine.Memory.NoEffect

/-!
# Replays

A WriteData call that repeats a commit looks the commit's record up only once it has
the namespace's reservation. It gets the recorded answer exactly if it never finds
the reservation with a write of another key or fingerprint.
-/

open PolicyEngine.Lib Function

namespace PolicyEngine.Memory

variable [Primitives]

/-! ## Who holds a reservation -/

/-- Every stored reservation is held by a call. -/
def Holders (s : System) : Prop :=
  ∀ key r, s.store.reservations key = some r →
    r.key = key ∧ ∃ id call, s.calls id = some call ∧ call.operation.holds = some r

variable {s : System}

omit [Primitives] in
/-- Moving a call that keeps what it holds. -/
theorem Holders.update (hh : Holders s) {id call}
    (hkeep : ∀ old, s.calls id = some old → call.operation.holds = old.operation.holds) {store : Store}
    (hres : store.reservations = s.store.reservations) {log} :
    Holders ⟨store, update s.calls id (some call), log⟩ := by
  intro key r hr
  obtain ⟨hkey, i, c, hc, hold⟩ := hh key r (hres ▸ hr)
  refine ⟨hkey, i, ?_⟩
  by_cases hi : i = id
  · subst hi
    exact ⟨call, update_self .., (hkeep c hc).trans hold⟩
  · exact ⟨c, by simpa only [update_of_ne hi] using hc, hold⟩

theorem Holders.step {s s' a} (hh : Holders s) (ho : Ownership s) (h : s.step a = some s') :
    Holders s' := by
  rcases System.step_cases h with ⟨id, o, hn, hentry, rfl⟩ | ⟨id, reason, o, hc, rfl⟩ |
    ⟨id, input, ctx, o, o', store, hc, hstep, rfl⟩
  · exact hh.update (fun old hold => nomatch hn.symm.trans hold) rfl
  · exact hh.update (fun old hold => by obtain rfl := Option.some.inj (hc.symm.trans hold); rfl) rfl
  · have old {c : Call} (hold : s.calls id = some c) : c.operation.holds = o.holds := by
      obtain rfl := Option.some.inj (hc.symm.trans hold); rfl
    obtain ⟨-, -, ⟨hsame, hres⟩ | ⟨key, -, hholding⟩⟩ := (Operation.step_cases hstep).holding
    · exact hh.update (fun c hold => hsame.trans (old hold).symm) hres
    generalize hheld : o.holds = held at hholding
    generalize hheld' : o'.holds = held' at hholding
    cases hholding with
    | keep hres => exact hh.update (fun c hold => hheld'.trans (hheld.symm.trans (old hold).symm)) hres
    | take r hkey _ _ _ hres =>
      intro k q hq
      simp only [hres] at hq
      by_cases hk : k = key
      · subst hk
        rw [update_self] at hq
        obtain rfl := Option.some.inj hq
        exact ⟨hkey, id, _, update_self .., hheld'⟩
      · rw [update_of_ne hk] at hq
        obtain ⟨hqk, i, c, hcall, hold⟩ := hh k q hq
        have hi : i ≠ id := by
          rintro rfl
          exact nomatch hold.symm.trans ((old hcall).trans hheld)
        exact ⟨hqk, i, c, by simpa only [update_of_ne hi] using hcall, hold⟩
    | drop r hdrop =>
      intro k q hq
      simp only [hdrop (ho.held hc hheld).1] at hq
      by_cases hk : k = r.key
      · rw [hk, update_self] at hq
        cases hq
      · rw [update_of_ne hk] at hq
        obtain ⟨hqk, i, c, hcall, hold⟩ := hh k q hq
        have hi : i ≠ id := by
          rintro rfl
          obtain rfl := Option.some.inj (hold.symm.trans ((old hcall).trans hheld))
          exact hk hqk.symm
        exact ⟨hqk, i, c, by simpa only [update_of_ne hi] using hcall, hold⟩

theorem holders_of_reached (h : s.Reached) : Holders s := by
  refine (h.invariant (I := fun s => s.Reached ∧ Holders s) ?_ ?_).2
  · rintro s ⟨key, rfl⟩
    exact ⟨.start ⟨key, rfl⟩, nofun⟩
  · rintro s a s' ⟨hr, hh⟩ - hs
    exact ⟨hr.extend hs, hh.step (ownership_of_reached hr) hs⟩

/-! ## Whose key a reservation carries -/

variable {s' : Store}

/-- A candidate is built under the key of its request, and only if that key has no record. -/
theorem writeDataStep_built {s ctx request input pc c}
    (h : writeDataStep s ctx request input pc = some (s', .built c)) :
    c.reservation.idempotencyKey = request.idempotencyKey ∧
      idempotencyRecord (s.data request.namespace_) request.idempotencyKey = none := by
  cases pc with
  | locking fingerprint =>
    simp only [writeDataStep] at h
    split at h
    · cases h
    rcases Store.reserveCommitLocked_cases s.lock (dataKey request.namespace_) with ⟨pending, hp, he⟩ | ⟨hn, he⟩
    · simp only [writeDataLocked, he, hp] at h
      split at h <;> cases h
    · simp only [writeDataLocked, he] at h
      split at h
      · cases h
      next candidate hb =>
        cases h
        obtain ⟨-, -, hr, hnone⟩ := buildCandidate_inr hb
        exact ⟨by rw [hr], hnone⟩
  | _ =>
    simp only [writeDataStep] at h
    repeat' split at h
    all_goals cases h

/-- What a WriteData call holds after a step it held before, unless it has just built its candidate. -/
theorem WriteStep.holds_of_holds {s request pc pc'} (h : WriteStep s request pc s' pc') {r} (hr : pc'.holds = some r) :
    pc.holds = some r ∨ ∃ c, pc' = .built c ∧ r = c.reservation := by
  cases h with
  | build => exact .inr ⟨_, rfl, (Option.some.inj hr).symm⟩
  | check | read | recheck | decline | commit => exact .inl hr
  | abandon e hc => exact .inl ((WritePc.holds_of_candidate hc).trans hr)
  | _ => cases hr

/-- A held data reservation carries its call's key, and commits under that key are the call's own. -/
def DataHolders (s : System) : Prop :=
  ∀ {id ctx request pc r}, s.calls id = some ⟨ctx, .writeData request pc⟩ → pc.holds = some r →
    r.idempotencyKey = request.idempotencyKey ∧
      ∀ e ∈ writes s.log, e.request.namespace_ = request.namespace_ →
        e.request.idempotencyKey = request.idempotencyKey → e.call = id

/-- A step that logs a write is the commit of a call that holds its namespace's reservation. -/
theorem OperationStep.mem_writes {s o o'} (h : OperationStep s s' o o') {id e} (he : e ∈ writes (committed id o o')) :
    e.call = id ∧ o.reservationKey = some (dataKey e.request.namespace_) ∧ o.holds.isSome = true := by
  cases h with
  | @writeData request pc pc' hw =>
    rcases hw.quiet_or_commit id with ⟨hq, -⟩ | ⟨c, t, rfl, rfl, -, -⟩
    · simp [hq, writes] at he
    · obtain rfl : e = ⟨id, request, c.fingerprint, c.version⟩ := by
        simpa [committed, Candidate.response, writes] using he
      exact ⟨rfl, rfl, rfl⟩
  | activate | putRevision | listEvents | openSnapshot =>
    rw [writes_committed_of_not_writeData] at he
    · cases he
    · rintro _ _ ⟨⟩

theorem DataHolders.step {s s' a} (hd : DataHolders s) (hr : s.Reached) (h : s.step a = some s') : DataHolders s' := by
  rcases System.step_cases h with ⟨id, o, hn, hentry, rfl⟩ | ⟨id, reason, o, hc, rfl⟩ |
    ⟨id, input, ctx, o, o', store, hc, hstep, rfl⟩
  · intro i ctx request pc r hcall hold
    by_cases hi : i = id
    · subst hi
      obtain ⟨rfl, rfl⟩ : Ctx.alive = ctx ∧ o = .writeData request pc := by simpa using hcall
      obtain ⟨rfl, -⟩ := hentry
      cases hold
    · exact hd (by simpa only [update_of_ne hi] using hcall) hold
  · intro i ctx request pc r hcall hold
    by_cases hi : i = id
    · subst hi
      obtain ⟨rfl, rfl⟩ : reason = ctx ∧ o = .writeData request pc := by simpa using hcall
      exact hd hc hold
    · exact hd (by simpa only [update_of_ne hi] using hcall) hold
  · have hop := Operation.step_cases hstep
    have hlog : writes (s.log ++ committed id o o') = writes s.log ++ writes (committed id o o') := by simp [writes]
    intro i ctx' request pc r hcall hold
    rw [hlog]
    by_cases hi : i = id
    · subst hi
      obtain ⟨rfl, rfl⟩ : ctx = ctx' ∧ o' = .writeData request pc := by simpa using hcall
      -- its own entry has its own number
      have own (hold : ∀ e ∈ writes s.log, e.request.namespace_ = request.namespace_ →
          e.request.idempotencyKey = request.idempotencyKey → e.call = i) :
          ∀ e ∈ writes s.log ++ writes (committed i o (.writeData request pc)),
            e.request.namespace_ = request.namespace_ → e.request.idempotencyKey = request.idempotencyKey →
            e.call = i := by
        intro e he hns hkey
        rcases List.mem_append.1 he with he | he
        · exact hold e he hns hkey
        · exact (hop.mem_writes he).1
      cases hop with
      | @writeData _ pc₀ _ hw =>
        rcases hw.holds_of_holds hold with hbefore | ⟨c, rfl, rfl⟩
        · exact ⟨(hd hc hbefore).1, own (hd hc hbefore).2⟩
        · simp only [Operation.step, Option.map_eq_some_iff, Prod.exists, Prod.mk.injEq] at hstep
          obtain ⟨_, pc', hstep, rfl, heq⟩ := hstep
          obtain rfl : pc' = .built c := by simpa using heq
          obtain ⟨hkey, hnone⟩ := writeDataStep_built hstep
          refine ⟨hkey, own fun e he hns hek => ?_⟩
          rw [((dataInv_of_reached hr).state request.namespace_).record, Option.map_eq_none_iff,
            List.find?_eq_none] at hnone
          exact absurd hek (by simpa using hnone e (mem_dataLog.2 ⟨he, hns⟩))
    · simp only [update_of_ne hi] at hcall
      refine ⟨(hd hcall hold).1, fun e he hns hkey => ?_⟩
      rcases List.mem_append.1 he with he | he
      · exact (hd hcall hold).2 e he hns hkey
      · -- a commit in the namespace would need the reservation this call holds
        obtain ⟨-, hk, hsome⟩ := hop.mem_writes he
        obtain ⟨q, hq⟩ := Option.isSome_iff_exists.1 hsome
        refine absurd ((ownership_of_reached hr).exclusive hcall hc hold hq ?_) hi
        show some (dataKey request.namespace_) = o.reservationKey
        rw [hk, hns]

theorem dataHolders_of_reached (h : s.Reached) : DataHolders s := by
  refine (h.invariant (I := fun s => s.Reached ∧ DataHolders s) ?_ ?_).2
  · rintro s ⟨key, rfl⟩
    exact ⟨.start ⟨key, rfl⟩, nofun⟩
  · rintro s a s' ⟨hr, hd⟩ - hs
    exact ⟨hr.extend hs, hd.step hr hs⟩

/-! ## Repeating a commit -/

/-- The request repeats a committed one: the same namespace, idempotency key and fingerprint. -/
structure Repeats (e : DataCommit) (request : WriteDataRequest) : Prop where
  namespace_ : request.namespace_ = e.request.namespace_
  key : request.idempotencyKey = e.request.idempotencyKey
  fingerprint : fingerprintWriteData request = .ok e.fingerprint

/-- The namespace's reservation is free, or with a write of this key and fingerprint. -/
def Store.replayable (s : Store) (request : WriteDataRequest) (fingerprint : Bytes) : Bool :=
  (s.reservations (dataKey request.namespace_)).all fun pending =>
    pending.operation = ascii "data" ∧ pending.idempotencyKey = request.idempotencyKey ∧
      pending.fingerprint = fingerprint

/-- The answer a repeated write gets from the commit. -/
def DataCommit.replay (e : DataCommit) : Result WriteDataResponse := .ok ⟨e.version.generation, true⟩

section Locked

variable {s : Store} {request : WriteDataRequest} {fingerprint : Bytes} {pending : CommitReservation}

omit [Primitives] in
theorem writeDataLocked_pending (hp : s.reservations (dataKey request.namespace_) = some pending) :
    (writeDataLocked s request fingerprint).2 =
      if s.replayable request fingerprint then .waiting fingerprint pending.done else .returned (.error .conflict) := by
  have he : s.lock.reserveCommitLocked (dataKey request.namespace_) = (s.lock, none) := by
    simp [Store.reserveCommitLocked, Store.lock, hp]
  have hp' : s.lock.reservations (dataKey request.namespace_) = some pending := hp
  simp only [writeDataLocked, he, hp', Store.replayable, hp, Option.all_some, decide_eq_true_eq]
  split <;> rfl

omit [Primitives] in
theorem writeDataLocked_recorded {previous} (hfree : s.reservations (dataKey request.namespace_) = none)
    (hrec : idempotencyRecord (s.data request.namespace_) request.idempotencyKey = some previous)
    (hf : previous.fingerprint = fingerprint) (hg : previous.response.generation ≠ 0) :
    (writeDataLocked s request fingerprint).2 = .returned (.ok ⟨previous.response.generation, true⟩) := by
  have hb (r : CommitReservation) :
      buildCandidate
        (Store.markReservation { s.lock with
          reservations := update s.reservations (dataKey request.namespace_)
            (some ⟨dataKey request.namespace_, s.nextRef, [], [], []⟩)
          nextRef := s.nextRef + 1 } r) request fingerprint r =
        .inl (.ok ⟨previous.response.generation, true⟩) := by
    simp [buildCandidate, Store.markReservation, Store.lock, hrec, answerPrevious, hf, newWriteDataResponse, hg]
  simp only [writeDataLocked, reserveCommitLocked_free hfree, hb]

end Locked

/-! ## The commit and its author -/

section Author

variable {t : System} {e : DataCommit} {request : WriteDataRequest}

/-- The author of a commit is about to release its reservation, or has returned. -/
theorem author_of_logged (hr : t.Reached) (he : .data e ∈ t.log) :
    ∃ ctx pc, t.calls e.call = some ⟨ctx, .writeData e.request pc⟩ ∧
      ((∃ r, pc = .releasing r (.ok ⟨e.version.generation, false⟩)) ∨
        pc = .returned (.ok ⟨e.version.generation, false⟩)) := by
  have hplane := (dataInv_of_reached hr).dataPlane (answered_of_reached hr) e.request.namespace_
  obtain ⟨ctx, pc, hc, hres⟩ := hplane.answered e (mem_dataLog.2 ⟨mem_writes.2 he, rfl⟩)
  refine ⟨ctx, pc, hc, ?_⟩
  cases pc with
  | releasing r result => exact .inl ⟨r, by rw [Option.some.inj hres]⟩
  | returned result => exact .inr (by rw [Option.some.inj hres])
  | _ => cases hres

/-- A repeated write finds the commit's record. -/
theorem record_of_logged (hr : t.Reached) (he : .data e ∈ t.log) (hrep : Repeats e request) :
    idempotencyRecord (t.store.data request.namespace_) request.idempotencyKey = some e.record ∧
      e.version.generation ≠ 0 := by
  have hi := dataInv_of_reached hr
  have hmem : e ∈ dataLog request.namespace_ (writes t.log) :=
    mem_dataLog.2 ⟨mem_writes.2 he, hrep.namespace_.symm⟩
  constructor
  · rw [(hi.state _).record]
    have hfound : (dataLog request.namespace_ (writes t.log)).find?
        (·.request.idempotencyKey = request.idempotencyKey) ≠ none := by
      rw [ne_eq, List.find?_eq_none]
      exact fun h => absurd hrep.key.symm (by simpa using h e hmem)
    obtain ⟨x, hx⟩ := Option.ne_none_iff_exists'.1 hfound
    -- no other commit of the namespace has the key
    have hkey : x.request.idempotencyKey = request.idempotencyKey := by simpa using List.find?_some hx
    rw [hx, eq_of_key_eq (hi.log _).keys (List.mem_of_find?_eq_some hx) hmem (hkey.trans hrep.key)]
    rfl
  · obtain ⟨i, hi', rfl⟩ := List.getElem_of_mem hmem
    rw [(hi.log _).generation i _ (List.getElem?_eq_getElem hi')]
    exact Nat.succ_ne_zero i

/-- After the commit, the only holder under its key is its author. -/
theorem author_of_pending (hr : t.Reached) (he : .data e ∈ t.log) (hrep : Repeats e request) {pending}
    (hp : t.store.reservations (dataKey request.namespace_) = some pending)
    (hkey : pending.idempotencyKey = request.idempotencyKey) :
    ∃ call, t.calls e.call = some call ∧ call.operation.holds = some pending := by
  obtain ⟨hpk, id, ⟨ctx, o⟩, hc, hold⟩ := holders_of_reached hr _ _ hp
  have hok := ((ownership_of_reached hr).held hc hold).2
  rw [hpk] at hok
  cases o with
  | writeData request' pc =>
    obtain ⟨hk, hown⟩ := dataHolders_of_reached hr hc hold
    have hns : request'.namespace_ = request.namespace_ := by simpa [Operation.reservationKey, dataKey] using hok
    obtain rfl : e.call = id := hown e (mem_writes.2 he) (hrep.namespace_.symm.trans hns.symm)
      (by rw [← hk, hkey, hrep.key])
    exact ⟨_, hc, hold⟩
  | activate => simp [Operation.reservationKey, slotKey, dataKey] at hok
  | putRevision => simp [Operation.reservationKey, revisionKey, dataKey] at hok
  | listEvents | openSnapshot => cases hold

/-- While the author holds its reservation, a repeated write waits for it. -/
theorem pending_of_author (hr : t.Reached) (he : .data e ∈ t.log) (hrep : Repeats e request) {call : Call}
    (hc : t.calls e.call = some call) {r} (hold : call.operation.holds = some r) :
    t.store.reservations (dataKey request.namespace_) = some r := by
  obtain ⟨ctx, pc, hc', -⟩ := author_of_logged hr he
  obtain rfl := Option.some.inj (hc.symm.trans hc')
  obtain ⟨hstored, hkey⟩ := (ownership_of_reached hr).held hc hold
  obtain hkey : dataKey e.request.namespace_ = r.key := Option.some.inj hkey
  rw [hrep.namespace_, hkey, hstored]

end Author

/-! ## The run of a repeated write -/

/-- The call still holds its reservation. -/
def System.holding (t : System) (id : CallId) : Bool := (t.calls id).any (·.operation.holds.isSome)

/-- What a repeated write knows at its program points. -/
def Fits (t : System) (e : DataCommit) : WritePc → Prop
  | .entry => True
  | .reserve f | .locking f => f = e.fingerprint
  | .waiting f done =>
    f = e.fingerprint ∧
      ((∃ call r, t.calls e.call = some call ∧ call.operation.holds = some r ∧ r.done = done) ∨
        t.holding e.call = false ∧ done ∈ t.store.closed)
  | .returned result => result = e.replay
  | _ => False

/-- A call in the course of repeating a commit. -/
structure Replaying (id : CallId) (e : DataCommit) (request : WriteDataRequest) (pc : WritePc) (t : System) : Prop where
  reached : t.Reached
  logged : .data e ∈ t.log
  call : t.calls id = some ⟨.alive, .writeData request pc⟩
  fits : Fits t e pc

/-- What an action of the system can do to a call that repeats a commit, and to the commit's author. -/
inductive ReplayMove (id : CallId) (e : DataCommit) : Action → WritePc × Bool → WritePc × Bool → Prop
  | start {input : Input} {f : Bytes} {held : Bool} :
      ReplayMove id e (.step id input) (.entry, held) (.reserve f, held)
  | reserve {input : Input} {f : Bytes} {held : Bool} :
      ReplayMove id e (.step id input) (.reserve f, held) (.locking f, held)
  | wait {input : Input} {f : Bytes} {done : Chan} :
      ReplayMove id e (.step id input) (.locking f, true) (.waiting f done, true)
  | wake {input : Input} {f : Bytes} {done : Chan} :
      ReplayMove id e (.step id input) (.waiting f done, false) (.reserve f, false)
  | answer {input : Input} {f : Bytes} :
      ReplayMove id e (.step id input) (.locking f, false) (.returned e.replay, false)
  | release {input : Input} {pc : WritePc} : ReplayMove id e (.step e.call input) (pc, true) (pc, false)
  | other {a : Action} {p : WritePc × Bool} : (∀ input, a ≠ .step id input) → (∀ input, a ≠ .step e.call input) →
      ReplayMove id e a p p

section Steps

variable {t t' : System} {id : CallId} {e : DataCommit} {request : WriteDataRequest} {pc : WritePc}

variable {a : Action}

theorem System.mem_log_step (h : t.step a = some t') {x : Committed} (hx : x ∈ t.log) : x ∈ t'.log := by
  rcases System.step_cases h with ⟨_, _, _, _, rfl⟩ | ⟨_, _, _, _, rfl⟩ | ⟨_, _, _, _, _, _, _, _, rfl⟩
  · exact hx
  · exact hx
  · exact List.mem_append_left _ hx

omit [Primitives] in
theorem holding_eq {call : Call} (hc : t.calls id = some call) : t.holding id = call.operation.holds.isSome := by
  simp [System.holding, hc]

/-- The author is another call: it has settled on a success that is not a replay. -/
theorem Replaying.ne_author (h : Replaying id e request pc t) : id ≠ e.call := by
  rintro rfl
  obtain ⟨ctx, pc', hc, hpc⟩ := author_of_logged h.reached h.logged
  have hfits := h.fits
  obtain ⟨-, -, rfl⟩ : Ctx.alive = ctx ∧ request = e.request ∧ pc = pc' := by simpa using h.call.symm.trans hc
  rcases hpc with ⟨r, rfl⟩ | rfl
  · exact hfits
  · simp [Fits, DataCommit.replay] at hfits

/-- Unless it is cancelled, a call is as it was after a step that is not its own. -/
theorem System.other_step_alive {call : Call} (hc : t.calls id = some call) (ha : ∀ input, a ≠ .step id input)
    (hcancel : ∀ reason, a ≠ .cancel id reason) (h : t.step a = some t') :
    t'.calls id = some call := by
  cases a with
  | invoke id' operation =>
    simp only [System.step] at h
    split at h
    · cases h
    next hn =>
      cases h
      have hne : id ≠ id' := by rintro rfl; cases hc.symm.trans hn
      simpa only [update_of_ne hne] using hc
  | cancel id' reason =>
    have hne : id ≠ id' := by rintro rfl; exact hcancel reason rfl
    simp only [System.step] at h
    split at h
    · cases h
      simpa only [update_of_ne hne] using hc
    · cases h
  | step id' input =>
    have hne : id ≠ id' := by rintro rfl; exact ha input rfl
    simp only [System.step] at h
    split at h
    · cases h
    split at h
    · cases h
    · cases h
      simpa only [update_of_ne hne] using hc

/-- A step of another call than the author keeps what the repeated write knows. -/
theorem Fits.other (h : Fits t e pc) (hr : t.Reached) (he : .data e ∈ t.log) (ha : ∀ input, a ≠ .step e.call input)
    (hs : t.step a = some t') :
    Fits t' e pc ∧ t'.holding e.call = t.holding e.call := by
  obtain ⟨ctx, pc', hc, -⟩ := author_of_logged hr he
  obtain ⟨ctx', hc'⟩ := System.other_step hc ha hs
  have hhold : t'.holding e.call = t.holding e.call := by rw [holding_eq hc, holding_eq hc']
  refine ⟨?_, hhold⟩
  cases pc with
  | waiting f done =>
    obtain ⟨hf, ⟨call, r, hcall, hr, hd⟩ | ⟨hfree, hd⟩⟩ := h
    · obtain rfl := Option.some.inj (hc.symm.trans hcall)
      exact ⟨hf, .inl ⟨_, r, hc', hr, hd⟩⟩
    · exact ⟨hf, .inr ⟨hhold.trans hfree, (channels_step hs).closed_mono hd⟩⟩
  | _ => exact h

variable {input : Input}

/-- The author's step releases its reservation, which wakes whoever waits for it. -/
theorem Fits.author (h : Fits t e pc) (hr : t.Reached) (he : .data e ∈ t.log)
    (hs : t.step (.step e.call input) = some t') :
    Fits t' e pc ∧ t.holding e.call = true ∧ t'.holding e.call = false := by
  obtain ⟨ctx, pc', hc, hpc⟩ := author_of_logged hr he
  obtain ⟨next, hn, hc'⟩ := System.own_step hc hs
  simp only [Operation.step, Option.map_eq_some_iff, Prod.exists, Prod.mk.injEq] at hn
  obtain ⟨_, pc'', hstep, rfl, rfl⟩ := hn
  rcases hpc with ⟨r, rfl⟩ | rfl
  · simp only [writeDataStep, unlocked_of_reached hr] at hstep
    obtain ⟨-, rfl⟩ := Prod.mk.inj (Option.some.inj hstep)
    have hfree : t'.holding e.call = false := by rw [holding_eq hc']; rfl
    refine ⟨?_, by rw [holding_eq hc]; rfl, hfree⟩
    cases pc with
    | waiting f done =>
      obtain ⟨hf, ⟨call, q, hcall, hq, hd⟩ | ⟨hno, -⟩⟩ := h
      · have htaken : Taken e.call done t' :=
          Taken.step (ownership_of_reached hr) (.inl ⟨call, q, hcall, hq, hd⟩) hs
        rcases htaken with ⟨call', q', hcall', hq', -⟩ | hclosed
        · obtain rfl := Option.some.inj (hc'.symm.trans hcall')
          cases hq'
        · exact ⟨hf, .inr ⟨hfree, hclosed⟩⟩
      · rw [holding_eq hc] at hno
        cases hno
    | _ => exact h
  · cases hstep

/-- The repeated write's own step: it waits for the author, or gets the recorded answer. -/
theorem Replaying.own (h : Replaying id e request pc t) (hrep : Repeats e request)
    (hclear : ∀ f, pc = .locking f → t.store.replayable request f = true) (hs : t.step (.step id input) = some t') :
    ∃ pc', Replaying id e request pc' t' ∧
      ReplayMove id e (.step id input) (pc, t.holding e.call) (pc', t'.holding e.call) := by
  obtain ⟨next, hn, hc'⟩ := System.own_step h.call hs
  simp only [Operation.step, Option.map_eq_some_iff, Prod.exists, Prod.mk.injEq] at hn
  obtain ⟨_, pc', hstep, rfl, rfl⟩ := hn
  obtain ⟨hfits', hhold⟩ := h.fits.other h.reached h.logged
    (fun i heq => h.ne_author (Action.step.inj heq).1) hs
  -- it is enough to say where the call is now
  have goes (hfits : Fits t' e pc')
      (hmove : ReplayMove id e (.step id input) (pc, t.holding e.call) (pc', t.holding e.call)) :
      ∃ pc', Replaying id e request pc' t' ∧
        ReplayMove id e (.step id input) (pc, t.holding e.call) (pc', t'.holding e.call) :=
    ⟨pc', ⟨h.reached.extend hs, System.mem_log_step hs h.logged, hc', hfits⟩, hhold.symm ▸ hmove⟩
  have hfits := h.fits
  cases pc with
  | entry =>
    simp only [writeDataStep, Ctx.signaled, bne_self_eq_false, Bool.false_eq_true, if_false, hrep.fingerprint] at hstep
    obtain ⟨-, rfl⟩ := Prod.mk.inj (Option.some.inj hstep)
    exact goes rfl .start
  | reserve f =>
    simp only [writeDataStep, Ctx.signaled, bne_self_eq_false, Bool.false_eq_true, if_false] at hstep
    obtain ⟨-, rfl⟩ := Prod.mk.inj (Option.some.inj hstep)
    exact goes hfits .reserve
  | locking f =>
    simp only [writeDataStep, unlocked_of_reached h.reached, Bool.false_eq_true, if_false] at hstep
    have hpc : (writeDataLocked t.store request f).2 = pc' := by rw [Option.some.inj hstep]
    have hclear := hclear f rfl
    cases hp : t.store.reservations (dataKey request.namespace_) with
    | some pending =>
      rw [writeDataLocked_pending hp, if_pos hclear] at hpc
      have hkey : pending.idempotencyKey = request.idempotencyKey := by
        simp only [Store.replayable, hp, Option.all_some, decide_eq_true_eq] at hclear
        exact hclear.2.1
      obtain ⟨call, hc, hr⟩ := author_of_pending h.reached h.logged hrep hp hkey
      have hheld : t.holding e.call = true := by rw [holding_eq hc, hr]; rfl
      obtain ⟨ctx', hcall'⟩ := System.other_step hc (fun i heq => h.ne_author (Action.step.inj heq).1) hs
      subst hpc
      exact goes ⟨hfits, .inl ⟨_, pending, hcall', hr, rfl⟩⟩ (hheld ▸ .wait)
    | none =>
      obtain ⟨hrec, hgen⟩ := record_of_logged h.reached h.logged hrep
      rw [writeDataLocked_recorded hp hrec hfits.symm hgen] at hpc
      have hfree : t.holding e.call = false := by
        obtain ⟨ctx, pc₀, hc, ⟨r, rfl⟩ | rfl⟩ := author_of_logged h.reached h.logged
        · cases hp.symm.trans (pending_of_author h.reached h.logged hrep hc rfl)
        · rw [holding_eq hc]; rfl
      subst hpc
      exact goes rfl (hfree ▸ .answer)
  | waiting f done =>
    simp only [writeDataStep, Ctx.signaled, bne_self_eq_false, Bool.false_and, Bool.false_eq_true, if_false] at hstep
    split at hstep
    next hd =>
      obtain ⟨-, rfl⟩ := Prod.mk.inj (Option.some.inj hstep)
      obtain ⟨hf, ⟨call, r, hc, hr, rfl⟩ | ⟨hfree, -⟩⟩ := hfits
      · -- the channel of a held reservation is open
        have hstored := ((ownership_of_reached h.reached).held hc hr).1
        exact absurd (List.contains_iff_mem.1 hd)
          ((channels_of_reached h.reached).not_closed_of_reserved ⟨r.key, r, hstored, rfl⟩)
      · exact goes hf (hfree ▸ .wake)
    · cases hstep
  | returned result => cases hstep
  | _ => exact hfits.elim

theorem Replaying.step {a : Action} (h : Replaying id e request pc t) (hrep : Repeats e request)
    (hcancel : ∀ reason, a ≠ .cancel id reason)
    (hclear : ∀ input f, a = .step id input → pc = .locking f → t.store.replayable request f = true)
    (hs : t.step a = some t') :
    ∃ pc', Replaying id e request pc' t' ∧ ReplayMove id e a (pc, t.holding e.call) (pc', t'.holding e.call) := by
  by_cases hown : ∃ input, a = .step id input
  · obtain ⟨input, rfl⟩ := hown
    exact h.own hrep (fun f => hclear input f rfl) hs
  have hcall := System.other_step_alive h.call (fun input heq => hown ⟨input, heq⟩) hcancel hs
  by_cases hauthor : ∃ input, a = .step e.call input
  · obtain ⟨input, rfl⟩ := hauthor
    obtain ⟨hfits, hheld, hfree⟩ := h.fits.author h.reached h.logged hs
    refine ⟨pc, ⟨h.reached.extend hs, System.mem_log_step hs h.logged, hcall, hfits⟩, ?_⟩
    rw [hheld, hfree]
    exact .release
  · obtain ⟨hfits, hhold⟩ := h.fits.other h.reached h.logged (fun input heq => hauthor ⟨input, heq⟩) hs
    refine ⟨pc, ⟨h.reached.extend hs, System.mem_log_step hs h.logged, hcall, hfits⟩, ?_⟩
    rw [hhold]
    exact .other (fun input heq => hown ⟨input, heq⟩) fun input heq => hauthor ⟨input, heq⟩

/-! ## The answer comes -/

/-- Where the call is, and whether the author still holds its reservation. -/
def System.phase (t : System) (id author : CallId) : WritePc × Bool :=
  match t.calls id with
  | some ⟨_, .writeData _ pc⟩ => (pc, t.holding author)
  | _ => (.entry, t.holding author)

/-- A bound on the steps the call and the author still have to make. -/
def replayRank : WritePc × Bool → Nat
  | (.entry, _) => 8
  | (.reserve _, true) => 7
  | (.locking _, true) => 6
  | (.waiting .., true) => 5
  | (.waiting .., false) => 4
  | (.reserve _, false) => 3
  | (.locking _, false) => 2
  | _ => 0

/-- Whose turn it is. -/
def mover (id author : CallId) : WritePc × Bool → CallId
  | (.waiting .., true) => author
  | _ => id

omit [Primitives] in
theorem ReplayMove.ranked {p q} (h : ReplayMove id e a p q) (hne : id ≠ e.call)
    (hp : ∀ result, p.1 ≠ .returned result) :
    (∃ held, q = (.returned e.replay, held)) ∨ replayRank q < replayRank p ∨
      (∀ input, a ≠ .step (mover id e.call p) input) ∧ mover id e.call q = mover id e.call p ∧
        replayRank q = replayRank p := by
  cases h with
  | @start _ _ held => cases held <;> exact .inr (.inl (by simp [replayRank]))
  | @reserve _ _ held => cases held <;> exact .inr (.inl (by simp [replayRank]))
  | wait | wake => exact .inr (.inl (by simp [replayRank]))
  | answer => exact .inl ⟨_, rfl⟩
  | @release input pc =>
    cases pc with
    | reserve | locking | waiting => exact .inr (.inl (by simp [replayRank]))
    | returned result => exact absurd rfl (hp result)
    | _ => exact .inr (.inr ⟨fun i heq => hne (Action.step.inj heq).1.symm, rfl, rfl⟩)
  | other hid hauthor =>
    refine .inr (.inr ⟨fun input => ?_, rfl, rfl⟩)
    unfold mover
    split
    · exact hauthor input
    · exact hid input

theorem Replaying.phase (h : Replaying id e request pc t) : t.phase id e.call = (pc, t.holding e.call) := by
  simp [System.phase, h.call]

/-- The one whose turn it is can move. -/
theorem Replaying.enabled (h : Replaying id e request pc t) (hrep : Repeats e request)
    (hpc : ∀ result, pc ≠ .returned result) (input : Input) :
    t.step (.step (mover id e.call (pc, t.holding e.call)) input) ≠ none := by
  have moves (next : Store × Operation) {j : CallId} {call : Call} (hc : t.calls j = some call)
      (hn : call.operation.step t.store call.ctx input = some next) : t.step (.step j input) ≠ none := by
    simp [System.step, hc, hn]
  have hmu := unlocked_of_reached h.reached
  have hfits := h.fits
  cases pc with
  | entry =>
    refine moves (t.store, .writeData request (.reserve e.fingerprint)) h.call ?_
    simp [Operation.step, writeDataStep, Ctx.signaled, hrep.fingerprint]
  | reserve f =>
    refine moves (t.store, .writeData request (.locking f)) h.call ?_
    simp [Operation.step, writeDataStep, Ctx.signaled]
  | locking f =>
    refine moves ((writeDataLocked t.store request f).1, .writeData request (writeDataLocked t.store request f).2)
      h.call ?_
    simp [Operation.step, writeDataStep, hmu]
  | waiting f done =>
    obtain ⟨-, ⟨call, r, hc, hr, -⟩ | ⟨hfree, hd⟩⟩ := hfits
    · obtain ⟨ctx, pc', hc', ⟨r', rfl⟩ | rfl⟩ := author_of_logged h.reached h.logged
      · rw [show t.holding e.call = true by rw [holding_eq hc, hr]; rfl]
        refine moves (releaseCommitReservation t.store r',
          .writeData e.request (.returned (.ok ⟨e.version.generation, false⟩))) hc' ?_
        simp [Operation.step, writeDataStep, hmu]
      · obtain rfl := Option.some.inj (hc.symm.trans hc')
        cases hr
    · rw [hfree]
      refine moves (t.store, .writeData request (.reserve f)) h.call ?_
      simp [Operation.step, writeDataStep, Ctx.signaled, hd]
  | returned result => exact absurd rfl (hpc result)
  | _ => exact hfits.elim

/-- A call that has returned has returned for good. -/
theorem System.Leads.returned {ctx result} (h : t.Leads t')
    (hc : t.calls id = some ⟨ctx, .writeData request (.returned result)⟩) :
    ∃ ctx', t'.calls id = some ⟨ctx', .writeData request (.returned result)⟩ := by
  obtain ⟨⟨ctx', o⟩, hc', rfl⟩ := h.stable (P := fun o => o = .writeData request (.returned result))
    (by rintro s s' ctx input o o' hstep rfl; cases hstep) ⟨_, hc, rfl⟩
  exact ⟨ctx', hc'⟩

/-- Another write in flight makes the repeated write fail. -/
theorem refused_of_not_replayable {ctx f} (hr : t.Reached)
    (hc : t.calls id = some ⟨ctx, .writeData request (.locking f)⟩) (hbusy : t.store.replayable request f = false)
    (hs : t.step (.step id input) = some t') :
    t'.calls id = some ⟨ctx, .writeData request (.returned (.error .conflict))⟩ := by
  obtain ⟨next, hn, hc'⟩ := System.own_step hc hs
  simp only [Operation.step, Option.map_eq_some_iff, Prod.exists, Prod.mk.injEq] at hn
  obtain ⟨_, pc', hstep, rfl, rfl⟩ := hn
  simp only [writeDataStep, unlocked_of_reached hr, Bool.false_eq_true, if_false] at hstep
  have hpc : (writeDataLocked t.store request f).2 = pc' := by rw [Option.some.inj hstep]
  cases hp : t.store.reservations (dataKey request.namespace_) with
  | none => simp [Store.replayable, hp] at hbusy
  | some pending =>
    rw [writeDataLocked_pending hp, hbusy] at hpc
    rw [hc', ← hpc]
    rfl

end Steps

/-- A WriteData call starts after a commit with its idempotency key and fingerprint and is never cancelled. In
every execution in which the call and the commit's author get their turns, it returns the committed generation as
a replay if and only if, whenever it enters its critical section, the namespace's reservation is free or with a
write of that key and fingerprint. -/
theorem writeData_replays_iff (x : Execution System.step) {id : CallId} {e : DataCommit} {request : WriteDataRequest}
    (hr : (x.state 0).Reached) (he : .data e ∈ (x.state 0).log)
    (hc : (x.state 0).calls id = some ⟨.alive, .writeData request .entry⟩) (hrep : Repeats e request)
    (hcancel : ∀ n reason, x.action n ≠ some (.cancel id reason))
    (hfair : ∀ j, j = id ∨ j = e.call → x.Fair fun a => ∃ input, a = .step j input) :
    (∃ n, (x.state n).calls id = some ⟨.alive, .writeData request (.returned (.ok ⟨e.version.generation, true⟩))⟩) ↔
      ∀ n input f, x.action n = some (.step id input) →
        (x.state n).calls id = some ⟨.alive, .writeData request (.locking f)⟩ →
        (x.state n).store.replayable request f = true := by
  constructor
  · rintro ⟨m, hm⟩ n input f ha hn
    by_contra hbusy
    rcases Nat.lt_or_ge n m with hlt | hge
    · -- the refusal would have come first
      have hrefused := refused_of_not_replayable (x.reached hr n) hn (by simpa using hbusy) (x.moves n _ ha)
      obtain ⟨ctx, hc'⟩ := System.Leads.returned (x.leads hlt) hrefused
      simp [hm] at hc'
    · obtain ⟨ctx, hc'⟩ := System.Leads.returned (x.leads hge) hm
      simp [hn] at hc'
  · intro hclear
    have next {n : Nat} {a : Action} {pc : WritePc} (h : Replaying id e request pc (x.state n))
        (ha : x.action n = some a) : ∃ pc', Replaying id e request pc' (x.state (n + 1)) ∧
          ReplayMove id e a (pc, (x.state n).holding e.call) (pc', (x.state (n + 1)).holding e.call) := by
      refine h.step hrep ?_ ?_ (x.moves n a ha)
      · rintro reason rfl
        exact hcancel n reason ha
      · rintro input f rfl rfl
        exact hclear n input f ha h.call
    have always (n : Nat) : ∃ pc, Replaying id e request pc (x.state n) := by
      refine x.invariant (I := fun t => ∃ pc, Replaying id e request pc t) ⟨.entry, hr, he, hc, trivial⟩ ?_ n
      rintro n a ⟨pc, h⟩ ha
      obtain ⟨pc', h', -⟩ := next h ha
      exact ⟨pc', h'⟩
    -- short of the goal the call has not returned at all
    have short {n : Nat} {pc : WritePc} (h : Replaying id e request pc (x.state n))
        (hgoal : (x.state n).calls id ≠ some ⟨.alive, .writeData request (.returned e.replay)⟩) (result) :
        pc ≠ .returned result := by
      rintro rfl
      exact hgoal (h.fits ▸ h.call)
    have ranked : x.Ranked (fun t => t.calls id = some ⟨.alive, .writeData request (.returned e.replay)⟩)
        (fun t => replayRank (t.phase id e.call))
        (fun t a => ∃ input, a = .step (mover id e.call (t.phase id e.call)) input) := by
      intro n a hgoal ha
      obtain ⟨pc, h⟩ := always n
      obtain ⟨pc', h', hmove⟩ := next h ha
      simp only [h.phase, h'.phase]
      rcases hmove.ranked h.ne_author (short h hgoal) with ⟨held, hq⟩ | hlt | ⟨hno, hmover, hrank⟩
      · obtain ⟨rfl, -⟩ := Prod.mk.inj hq
        exact .inl h'.call
      · exact .inr (.inl hlt)
      · exact .inr (.inr ⟨fun ⟨input, heq⟩ => hno input heq, by rw [hmover], hrank⟩)
    have turn (p : WritePc × Bool) : mover id e.call p = id ∨ mover id e.call p = e.call := by
      unfold mover
      split
      · exact .inr rfl
      · exact .inl rfl
    obtain ⟨m, -, hm⟩ := ranked.eventually (fun n => hfair _ (turn _)) (fun n hgoal => by
      obtain ⟨pc, h⟩ := always n
      rw [h.phase]
      exact ⟨_, ⟨⟨none, false⟩, rfl⟩, h.enabled hrep (short h hgoal) _⟩) 0
    exact ⟨m, hm⟩

/-! After the sample write, the same write once more: alone, and with another write in flight. -/

def otherRequest : WriteDataRequest := { sampleRequest with idempotencyKey := ascii "k2", expectedGeneration := 1 }

omit [Primitives] in
theorem otherRequest_canonical : newWriteDataRequest otherRequest = .ok otherRequest := by decide +kernel

/-- Another write, up to its clock call. -/
def otherWrite : List Action :=
  .invoke 2 ⟨.writeData otherRequest .entry, rfl, .inl ⟨_, otherRequest_canonical⟩⟩ ::
    List.replicate 3 (.step 2 ⟨some 5, false⟩)

def repeatWrite : Action := .invoke 3 sampleEntry

def repeatSteps : List Action := List.replicate 3 (.step 3 ⟨some 5, false⟩)

/-- The answer to the repeated write. -/
def System.repeated (s : System) : Option (Result WriteDataResponse) :=
  match s.calls 3 with
  | some ⟨.alive, .writeData request (.returned result)⟩ => if request = sampleRequest then some result else none
  | _ => none

/-- The repeated write has not begun. -/
def System.unbegun (s : System) : Bool :=
  match s.calls 3 with
  | some ⟨.alive, .writeData request .entry⟩ => request = sampleRequest
  | _ => false

omit [Primitives] in
theorem System.repeated_eq_some {result} (h : s.repeated = some result) :
    s.calls 3 = some ⟨.alive, .writeData sampleRequest (.returned result)⟩ := by
  unfold System.repeated at h
  split at h
  next hc =>
    split at h
    next heq => rw [hc, heq, Option.some.inj h]
    · cases h
  · cases h

omit [Primitives] in
theorem System.calls_of_unbegun (h : s.unbegun = true) :
    s.calls 3 = some ⟨.alive, .writeData sampleRequest .entry⟩ := by
  unfold System.unbegun at h
  split at h
  next hc => rw [hc, of_decide_eq_true h]
  · cases h

/-- A run that begins with the sample write committed and the repeated write at its entry, and ends with its
answer. -/
def sampleRepeat (before : List Action) (answer : Result WriteDataResponse) : Bool :=
  (run (@System.step Primitives.constant) ⟨newStore [], fun _ => none, []⟩
      (samplePublish ++ sampleWrite ++ before ++ [repeatWrite])).any fun s =>
    s.unbegun && ((writes s.log).any fun e => e.call = 1 && e.request = sampleRequest && e.version.generation = 1) &&
      (run (@System.step Primitives.constant) s repeatSteps).any fun t =>
        t.repeated = some answer && t.finished 1

omit [Primitives] in
theorem exists_execution_of_sampleRepeat (before : List Action) (answer : Result WriteDataResponse)
    (h : sampleRepeat before answer = true) :
    ∃ (x : Execution (@System.step Primitives.constant)) (e : DataCommit),
      @System.Reached Primitives.constant (x.state 0) ∧ .data e ∈ (x.state 0).log ∧ e.version.generation = 1 ∧
      (x.state 0).calls 3 = some ⟨.alive, .writeData sampleRequest .entry⟩ ∧
      @Repeats Primitives.constant e sampleRequest ∧ (∀ n reason, x.action n ≠ some (.cancel 3 reason)) ∧
      (∀ j, j = 3 ∨ j = e.call → x.Fair fun a => ∃ input, a = .step j input) ∧
      ∃ n, (x.state n).calls 3 = some ⟨.alive, .writeData sampleRequest (.returned answer)⟩ := by
  let _ := Primitives.constant
  obtain ⟨s, hs, h⟩ := (Option.any_eq_true _ _).1 h
  simp only [Bool.and_eq_true, List.any_eq_true, decide_eq_true_eq] at h
  obtain ⟨⟨hentry, e, he, ⟨hcall, hreq⟩, hgen⟩, h⟩ := h
  obtain ⟨t, ht, h⟩ := (Option.any_eq_true _ _).1 h
  simp only [Bool.and_eq_true, decide_eq_true_eq] at h
  obtain ⟨hanswer, hfinished⟩ := h
  have hr : s.Reached := Reachable.run (.start ⟨[], rfl⟩) hs
  have hend := System.repeated_eq_some hanswer
  refine ⟨.ofRun ht, e, hr, mem_writes.1 he, hgen, System.calls_of_unbegun hentry, ⟨by rw [hreq], by rw [hreq], ?_⟩,
    ?_, ?_, repeatSteps.length, by rw [Execution.ofRun_end ht (Nat.le_refl _)]; exact hend⟩
  · rw [← hreq]
    exact ((dataInv_of_reached hr).log e.request.namespace_).fingerprint e (mem_dataLog.2 ⟨he, rfl⟩)
  · intro n reason hn
    have hmem : Action.cancel 3 reason ∈ repeatSteps := List.mem_of_getElem? hn
    simp [repeatSteps] at hmem
  · -- both have returned at the end
    have stuck {j : CallId} {call : Call} (hc : t.calls j = some call) (hfin : call.operation.finished = true) :
        (Execution.ofRun ht).Fair fun a => ∃ input, a = .step j input := by
      refine Execution.ofRun_fair ht ?_
      rintro _ ⟨input, rfl⟩
      simp [System.step, hc, Operation.step_of_finished hfin]
    rintro j (rfl | rfl)
    · exact stuck hend rfl
    · obtain ⟨call, hc, hfin⟩ := (Option.any_eq_true _ _).1 hfinished
      exact stuck (hcall ▸ hc) hfin

omit [Primitives] in
/-- Alone, the repeated write is answered from the record. -/
theorem writeData_replays_iff_alone :
    ∃ (x : Execution (@System.step Primitives.constant)) (e : DataCommit),
      .data e ∈ (x.state 0).log ∧ @Repeats Primitives.constant e sampleRequest ∧
      (∃ n, (x.state n).calls 3 = some ⟨.alive, .writeData sampleRequest (.returned (.ok ⟨1, true⟩))⟩) ∧
      ∀ n input f, x.action n = some (.step 3 input) →
        (x.state n).calls 3 = some ⟨.alive, .writeData sampleRequest (.locking f)⟩ →
        (x.state n).store.replayable sampleRequest f = true := by
  obtain ⟨x, e, hr, he, hgen, hc, hrep, hcancel, hfair, n, hn⟩ :=
    exists_execution_of_sampleRepeat [] (.ok ⟨1, true⟩) (by decide +kernel)
  exact ⟨x, e, he, hrep, ⟨n, hn⟩,
    (@writeData_replays_iff Primitives.constant x 3 e sampleRequest hr he hc hrep hcancel hfair).1 ⟨n, by rw [hn, hgen]⟩⟩

omit [Primitives] in
/-- While another write waits for its clock, the repeated write gets a conflict. -/
theorem writeData_replay_refused :
    ∃ (x : Execution (@System.step Primitives.constant)) (e : DataCommit),
      @System.Reached Primitives.constant (x.state 0) ∧ .data e ∈ (x.state 0).log ∧
      (x.state 0).calls 3 = some ⟨.alive, .writeData sampleRequest .entry⟩ ∧
      @Repeats Primitives.constant e sampleRequest ∧ (∀ n reason, x.action n ≠ some (.cancel 3 reason)) ∧
      (∀ j, j = 3 ∨ j = e.call → x.Fair fun a => ∃ input, a = .step j input) ∧
      ∃ n, (x.state n).calls 3 = some ⟨.alive, .writeData sampleRequest (.returned (.error .conflict))⟩ := by
  obtain ⟨x, e, hr, he, -, rest⟩ :=
    exists_execution_of_sampleRepeat otherWrite (.error .conflict) (by decide +kernel)
  exact ⟨x, e, hr, he, rest⟩

end PolicyEngine.Memory
