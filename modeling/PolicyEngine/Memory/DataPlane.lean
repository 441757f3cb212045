import PolicyEngine.Memory.Answers

/-!
# The data plane of the memory store is linear

The commits of a namespace form one sequence. Its generations count from one, each
version holds the replay of the requests up to it, no idempotency key occurs twice,
and every answer a WriteData call gives is the answer its entry, or the entry it
repeats, calls for. All of it follows from one invariant of the system.
-/

open PolicyEngine.Lib Function List

namespace PolicyEngine.Memory

/-! ## The commits of a namespace -/

/-- The committed writes, in commit order. -/
def writes (log : List Committed) : List DataCommit :=
  log.filterMap fun
    | .data c => some c
    | _ => none

/-- Those of one namespace. -/
def dataLog (ns : Bytes) (log : List DataCommit) : List DataCommit := log.filter (·.request.namespace_ = ns)

theorem mem_dataLog {ns log c} :
    c ∈ dataLog ns log ↔ c ∈ log ∧ c.request.namespace_ = ns := by
  simp [dataLog]

/-- What an idempotency record remembers of a commit. -/
def DataCommit.record (c : DataCommit) : IdempotencyState := ⟨c.fingerprint, ⟨c.version.generation, false⟩⟩

/-- The stored state of a namespace is the end of its commits. -/
def StateOf (l : List DataCommit) : Option DataState → Prop
  | none => l = []
  | some state =>
    state.generation = l.length ∧ l.getLast?.map (·.version) = some state.current ∧
      ∀ key, state.idempotency key = (l.find? (·.request.idempotencyKey = key)).map (·.record)

variable {l : List DataCommit} {state : Option DataState}

theorem StateOf.generation (h : StateOf l state) :
    (state.map (·.generation)).getD 0 = l.length := by
  cases state with
  | none => simp [show l = [] from h]
  | some state => exact h.1

theorem StateOf.record (h : StateOf l state) (key : Bytes) :
    idempotencyRecord state key = (l.find? (·.request.idempotencyKey = key)).map (·.record) := by
  cases state with
  | none => simp [show l = [] from h, idempotencyRecord]
  | some state => exact h.2.2 key

/-- Publishing a commit over the state it was built on. -/
theorem StateOf.publish (h : StateOf l state) {e : DataCommit} (hgen : e.version.generation = l.length + 1)
    (hkey : idempotencyRecord state e.request.idempotencyKey = none) {response}
    (hresp : response = ⟨e.version.generation, false⟩) :
    StateOf (l ++ [e]) (some ⟨e.version.generation, e.version,
      update ((state.map (·.idempotency)).getD fun _ => none) e.request.idempotencyKey
        (some ⟨e.fingerprint, response⟩)⟩) := by
  refine ⟨by simp [hgen], by simp, fun key => ?_⟩
  have hrec := h.record key
  show update _ _ _ key = _
  rw [find?_append, update_apply]
  split
  next heq =>
    rw [← heq] at hkey
    rw [hrec, Option.map_eq_none_iff] at hkey
    rw [hkey]
    simp [heq, hresp, DataCommit.record]
  next hne =>
    have hold : ((state.map (·.idempotency)).getD fun _ => none) key = idempotencyRecord state key := by
      cases state <;> rfl
    rw [hold, hrec, find?_singleton]
    simp [Ne.symm hne]

section Contract

variable [Primitives]

/-- What the commits of a namespace look like, whatever the interleaving. -/
structure CommitLog (l : List DataCommit) : Prop where
  generation : ∀ i e, l[i]? = some e → e.version.generation = i + 1
  dataset : ∀ i e, l[i]? = some e → e.version.dataset = Spec.Dataset.replay ((l.take (i + 1)).map (·.request))
  indexes : ∀ e ∈ l, RootsWf e.version.tuples e.version.attributes
  keys : (l.map (·.request.idempotencyKey)).Nodup
  canonical : ∀ e ∈ l, newWriteDataRequest e.request = .ok e.request
  fingerprint : ∀ e ∈ l, fingerprintWriteData e.request = .ok e.fingerprint

theorem CommitLog.nil : CommitLog [] := by constructor <;> simp

variable {l : List DataCommit} {e : DataCommit}

/-- Appending a commit whose version extends the last one. -/
theorem CommitLog.append (h : CommitLog l) (hgen : e.version.generation = l.length + 1)
    (hdata : e.version.dataset = Spec.Dataset.replay ((l ++ [e]).map (·.request)))
    (hwf : RootsWf e.version.tuples e.version.attributes)
    (hkey : e.request.idempotencyKey ∉ l.map (·.request.idempotencyKey))
    (hcan : newWriteDataRequest e.request = .ok e.request) (hfp : fingerprintWriteData e.request = .ok e.fingerprint) :
    CommitLog (l ++ [e]) := by
  constructor
  · intro i x hi
    rcases getElem?_append_singleton_eq_some hi with ⟨-, hi⟩ | ⟨rfl, rfl⟩
    exacts [h.generation i x hi, hgen]
  · intro i x hi
    rcases getElem?_append_singleton_eq_some hi with ⟨hlt, hi⟩ | ⟨rfl, rfl⟩
    · rw [take_append_of_le_length hlt]; exact h.dataset i x hi
    · rw [take_of_length_le (by simp)]; exact hdata
  · simp only [mem_append, mem_singleton]
    rintro x (hx | rfl)
    exacts [h.indexes x hx, hwf]
  · simp only [map_append, map_cons, map_nil]
    rw [← concat_eq_append]
    exact h.keys.concat hkey
  · simp only [mem_append, mem_singleton]
    rintro x (hx | rfl)
    exacts [h.canonical x hx, hcan]
  · simp only [mem_append, mem_singleton]
    rintro x (hx | rfl)
    exacts [h.fingerprint x hx, hfp]

/-- The version a write builds on holds the replay of all commits so far. -/
theorem StateOf.baseVersion (h : StateOf l state) (hl : CommitLog l) (ptr : Nat) :
    RootsWf (baseVersion state ptr).tuples (baseVersion state ptr).attributes ∧
      (baseVersion state ptr).dataset = Spec.Dataset.replay (l.map (·.request)) := by
  cases state with
  | none =>
    obtain rfl : l = [] := h
    exact ⟨rootsWf_nil, rootsDataset_nil⟩
  | some state =>
    obtain ⟨-, hlast, -⟩ := h
    obtain ⟨e, he, hv⟩ := Option.map_eq_some_iff.1 hlast
    rw [getLast?_eq_getElem?] at he
    have hlen : l.length - 1 + 1 = l.length := by
      have := (List.getElem?_eq_some_iff.1 he).1
      omega
    have hd := hl.dataset _ e he
    rw [hlen, take_length] at hd
    show RootsWf state.current.tuples state.current.attributes ∧ state.current.dataset = _
    rw [← hv]
    exact ⟨hl.indexes e (mem_of_getElem? he), hd⟩

/-! ## What a call knows -/

/-- A candidate extends the commits of its namespace by one. -/
structure CandidateOf (l : List DataCommit) (request : WriteDataRequest) (c : Candidate) : Prop where
  base : RootsWf c.base.tuples c.base.attributes
  dataset : c.base.dataset = Spec.Dataset.replay (l.map (·.request))
  mutations : applyMutations c.base request = some (c.version.tuples, c.version.attributes)
  generation : c.version.generation = l.length + 1

/-- The fingerprint a call computed and still carries. -/
def WritePc.fingerprint? : WritePc → Option Bytes
  | .reserve f | .locking f | .waiting f _ => some f
  | .built c | .clock c | .clocked c _ | .committing c _ => some c.fingerprint
  | _ => none

/-- A replay repeats the commit of its idempotency key, with the same fingerprint. -/
def ReplayOf (log : List DataCommit) (request : WriteDataRequest) (generation : Nat) : Prop :=
  ∃ e ∈ dataLog request.namespace_ log, e.request.idempotencyKey = request.idempotencyKey ∧
    e.version.generation = generation ∧ fingerprintWriteData request = .ok e.fingerprint

/-- What holds of a WriteData call at each of its program points. -/
structure WriteCall (log : List DataCommit) (request : WriteDataRequest) (pc : WritePc) : Prop where
  request_ok : Constructed request ∨ request = .zero
  fingerprint : ∀ f, pc.fingerprint? = some f → fingerprintWriteData request = .ok f
  candidate : ∀ c, pc.candidate? = some c → CandidateOf (dataLog request.namespace_ log) request c
  replay : ∀ g, pc.result? = some (.ok ⟨g, true⟩) → ReplayOf log request g

variable {log : List DataCommit} {request : WriteDataRequest} {pc : WritePc}

/-- The zero request has no fingerprint, so a fingerprinted request is canonical. -/
theorem WriteCall.canonical (h : WriteCall log request pc) {f : Bytes} (hf : fingerprintWriteData request = .ok f) :
    newWriteDataRequest request = .ok request := by
  rcases h.request_ok with hc | rfl
  · exact hc.fixed
  · obtain ⟨c, hc, -⟩ := fingerprintWriteData_eq_ok hf
    exact absurd rfl (newWriteDataRequest_eq_ok.1 hc).1.some_mutation

omit [Primitives] in
/-- The version a candidate would publish holds the replay with its request appended. -/
theorem CandidateOf.published {c : Candidate} (h : CandidateOf l request c) :
    RootsWf c.version.tuples c.version.attributes ∧
      c.version.dataset = Spec.Dataset.replay (l.map (·.request) ++ [request]) := by
  have href := applyMutations_refines h.base request
  rw [h.mutations] at href
  obtain ⟨hwf, hwrite⟩ := href
  refine ⟨hwf, ?_⟩
  rw [Spec.Dataset.replay_append, ← h.dataset]
  exact Spec.Dataset.write_eq_some hwrite

variable {s : Store}

/-- A candidate just built extends the commits of its namespace. -/
theorem CandidateFor.extends {c : Candidate} (h : CandidateFor s request c) (hl : CommitLog l)
    (hs : StateOf l (s.data request.namespace_)) :
    CandidateOf l request c := by
  obtain ⟨ptr, hbase⟩ := h.base
  have hb := hs.baseVersion hl ptr
  rw [← hbase] at hb
  refine ⟨hb.1, hb.2, h.mutations, ?_⟩
  rw [h.generation, ← h.expected, hs.generation]

/-- A replay answered from the stored state repeats a commit. -/
theorem EarlyAnswer.replayOf {f g} (h : EarlyAnswer s request f (.ok ⟨g, true⟩))
    (hs : StateOf (dataLog request.namespace_ log) (s.data request.namespace_))
    (hf : fingerprintWriteData request = .ok f) : ReplayOf log request g := by
  obtain - | ⟨previous, hp, hfp⟩ := h
  rw [hs.record, Option.map_eq_some_iff] at hp
  obtain ⟨e, hfind, rfl⟩ := hp
  have hkey : e.request.idempotencyKey = request.idempotencyKey := by simpa using find?_some hfind
  exact ⟨e, mem_of_find?_eq_some hfind, hkey, rfl, by rw [hf, ← hfp]; rfl⟩

/-! ## One step of a WriteData call -/

variable {s' : Store}

/-- A step that is not the commit leaves the content alone. -/
theorem WriteStep.quiet_or_commit {pc' : WritePc} (id : CallId) (h : WriteStep s request pc s' pc') :
    (committed id (.writeData request pc) (.writeData request pc') = [] ∧ SameContent s s') ∨
    (∃ c t, pc = .committing c t ∧ pc' = .releasing c.reservation (.ok c.response) ∧
      idempotencyRecord (s.data request.namespace_) request.idempotencyKey = none ∧
      s'.data = update s.data request.namespace_ (some ⟨c.version.generation, c.version,
        update (((s.data request.namespace_).map (·.idempotency)).getD fun _ => none)
          request.idempotencyKey (some ⟨c.fingerprint, c.response⟩)⟩)) := by
  cases h with
  | start | reserve | wake | wait | contend | answer | build | check | read | recheck =>
    exact .inl ⟨rfl, rfl, rfl, rfl, rfl, rfl, rfl⟩
  | refuse | abandon => cases pc <;> exact .inl ⟨rfl, rfl, rfl, rfl, rfl, rfl, rfl⟩
  | decline time he => cases he <;> exact .inl ⟨rfl, rfl, rfl, rfl, rfl, rfl, rfl⟩
  | @commit c t event hn _ =>
    refine .inr ⟨c, t, rfl, rfl, hn, ?_⟩
    rw [publishCandidate_eq, Store.effectiveTimeLocked_fst]
    rfl
  | release => exact .inl ⟨rfl, .release s _⟩

/-- What a call knows of the log stays true over its own steps. -/
theorem WriteStep.call {pc' : WritePc} (h : WriteStep s request pc s' pc')
    (hl : CommitLog (dataLog request.namespace_ log))
    (hs : StateOf (dataLog request.namespace_ log) (s.data request.namespace_)) (hcall : WriteCall log request pc) :
    WriteCall log request pc' := by
  obtain ⟨hreq, hfp, hcand, hreplay⟩ := hcall
  cases h with
  | start hf => exact ⟨hreq, by simpa [WritePc.fingerprint?] using hf, nofun, nofun⟩
  | reserve | wake | wait => exact ⟨hreq, hfp, nofun, nofun⟩
  | check | read | recheck => exact ⟨hreq, hfp, hcand, nofun⟩
  | refuse | contend | abandon => exact ⟨hreq, nofun, nofun, nofun⟩
  | answer ha =>
    refine ⟨hreq, nofun, nofun, fun g hg => ?_⟩
    obtain rfl := Option.some.inj hg
    exact ha.replayOf hs (hfp _ rfl)
  | build hc hf =>
    refine ⟨hreq, ?_, ?_, nofun⟩
    · rintro f ⟨⟩
      exact hfp _ (congrArg some hf.symm)
    · rintro c ⟨⟩
      exact hc.extends hl hs
  | decline time ha =>
    refine ⟨hreq, nofun, nofun, fun g hg => ?_⟩
    obtain rfl := Option.some.inj hg
    exact ha.replayOf hs (hfp _ rfl)
  | commit => exact ⟨hreq, nofun, nofun, nofun⟩
  | release => exact ⟨hreq, nofun, nofun, hreplay⟩

/-- An entry changes nothing for a call that has no candidate in its namespace. -/
theorem WriteCall.append (h : WriteCall log request pc)
    (hfree : ∀ c, pc.candidate? = some c → e.request.namespace_ ≠ request.namespace_) :
    WriteCall (log ++ [e]) request pc := by
  refine ⟨h.request_ok, h.fingerprint, fun c hc => ?_, fun g hg => ?_⟩
  · have : dataLog request.namespace_ (log ++ [e]) = dataLog request.namespace_ log := by
      simp [dataLog, hfree c hc]
    rw [this]
    exact h.candidate c hc
  · obtain ⟨x, hx, rest⟩ := h.replay g hg
    rw [mem_dataLog] at hx
    exact ⟨x, mem_dataLog.2 ⟨mem_append_left _ hx.1, hx.2⟩, rest⟩

/-! ## The invariant -/

/-- The data plane in every reachable state. -/
structure DataInv (s : System) : Prop where
  log : ∀ ns, CommitLog (dataLog ns (writes s.log))
  state : ∀ ns, StateOf (dataLog ns (writes s.log)) (s.store.data ns)
  call : ∀ {id : CallId} {ctx : Ctx} {request : WriteDataRequest} {pc : WritePc},
    s.calls id = some ⟨ctx, .writeData request pc⟩ → WriteCall (writes s.log) request pc

variable {id : CallId}

/-- A step that logs no write and leaves the data alone keeps the invariant if the moved call does. -/
theorem DataInv.quiet {s s' : System} (hi : DataInv s) {call : Call} (hwrites : writes s'.log = writes s.log)
    (hdata : s'.store.data = s.store.data) (hcalls : s'.calls = update s.calls id (some call))
    (hcall : ∀ request pc, call.operation = .writeData request pc → WriteCall (writes s.log) request pc) :
    DataInv s' := by
  refine ⟨?_, ?_, fun {i ctx request pc} hc => ?_⟩
  · rw [hwrites]; exact hi.log
  · rw [hwrites, hdata]; exact hi.state
  · rw [hwrites]
    by_cases h : i = id
    · subst h
      rw [hcalls, update_self] at hc
      exact hcall request pc (congrArg Call.operation (Option.some.inj hc))
    · rw [hcalls, update_of_ne h] at hc
      exact hi.call hc

theorem ActivateStep.data {request pc pc'} (h : ActivateStep s request pc s' pc') :
    s'.data = s.data := by
  cases h with
  | commit =>
    rw [publishActivation_eq, Store.effectiveTimeLocked_fst]
    rfl
  | release => exact (SameContent.release s _).data
  | _ => rfl

theorem PutStep.data {write pc pc'} (h : PutStep s write pc s' pc') :
    s'.data = s.data := by
  cases h with
  | commit =>
    rw [publishRevision_eq, Store.effectiveTimeLocked_fst]
    rfl
  | release => exact (SameContent.release s _).data
  | _ => rfl

omit [Primitives] in
/-- The calls that do not write data log no write. -/
theorem writes_committed_of_not_writeData {o o' : Operation} (ho : ∀ request pc, o ≠ .writeData request pc) :
    writes (committed id o o') = [] := by
  unfold committed
  split
  · exact absurd rfl (ho _ _)
  · rfl
  · split <;> rfl
  · rfl

/-- The commit of one call. -/
theorem DataInv.commit {s : System} (hi : DataInv s) (ho : Ownership s) {id ctx request c t store}
    (hc : s.calls id = some ⟨ctx, .writeData request (.committing c t)⟩)
    (hnone : idempotencyRecord (s.store.data request.namespace_) request.idempotencyKey = none)
    (hdata : store.data = update s.store.data request.namespace_ (some ⟨c.version.generation, c.version,
      update (((s.store.data request.namespace_).map (·.idempotency)).getD fun _ => none)
        request.idempotencyKey (some ⟨c.fingerprint, c.response⟩)⟩)) :
    DataInv ⟨store,
      update s.calls id (some ⟨ctx, .writeData request (.releasing c.reservation (.ok c.response))⟩),
      s.log ++ [.data ⟨id, request, c.fingerprint, c.version⟩]⟩ := by
  have hcall := hi.call hc
  have hcand := hcall.candidate c rfl
  have hpub := hcand.published
  have hfp := hcall.fingerprint _ rfl
  have hw : writes (s.log ++ [.data ⟨id, request, c.fingerprint, c.version⟩]) =
      writes s.log ++ [⟨id, request, c.fingerprint, c.version⟩] := by simp [writes]
  have hstate := hi.state request.namespace_
  have hkey : request.idempotencyKey ∉ (dataLog request.namespace_ (writes s.log)).map (·.request.idempotencyKey) := by
    rw [hstate.record, Option.map_eq_none_iff, find?_eq_none] at hnone
    intro hmem
    obtain ⟨x, hx, hxk⟩ := mem_map.1 hmem
    exact hnone x hx (by simpa using hxk)
  -- only the committing namespace gets a new entry
  have hlog (ns : Bytes) : dataLog ns (writes s.log ++ [⟨id, request, c.fingerprint, c.version⟩]) =
      dataLog ns (writes s.log) ++ if request.namespace_ = ns then [⟨id, request, c.fingerprint, c.version⟩] else [] := by
    by_cases hns : request.namespace_ = ns <;> simp [dataLog, hns]
  refine ⟨fun ns => ?_, fun ns => ?_, fun {i ctx' request' pc'} hcall' => ?_⟩
  · rw [hw, hlog]
    split
    next hns =>
      subst hns
      exact (hi.log _).append hcand.generation (by simpa using hpub.2) hpub.1 hkey (hcall.canonical hfp) hfp
    next => rw [append_nil]; exact hi.log ns
  · rw [hw, hlog, hdata]
    split
    next hns =>
      subst hns
      rw [update_self]
      exact hstate.publish (e := ⟨id, request, c.fingerprint, c.version⟩) hcand.generation hnone rfl
    next hns =>
      rw [append_nil, update_of_ne (Ne.symm hns)]
      exact hi.state ns
  · rw [hw]
    by_cases h : i = id
    · subst h
      obtain ⟨rfl, rfl, rfl⟩ : ctx = ctx' ∧ request = request' ∧ WritePc.releasing c.reservation (.ok c.response) = pc' := by
        simpa using hcall'
      exact ⟨hcall.request_ok, nofun, nofun, nofun⟩
    · simp only [update_of_ne h] at hcall'
      refine (hi.call hcall').append fun c' hc' hns => h ?_
      -- a second candidate of the namespace would hold the same reservation
      exact ho.exclusive hcall' hc (WritePc.holds_of_candidate hc') rfl
        (by simp only [Operation.reservationKey]; rw [hns])

theorem DataInv.step {s s' a} (hi : DataInv s) (ho : Ownership s) (h : s.step a = some s') :
    DataInv s' := by
  rcases System.step_cases h with ⟨id, o, hn, hentry, rfl⟩ | ⟨id, reason, o, hc, rfl⟩ |
    ⟨id, input, ctx, o, o', store, hc, hstep, rfl⟩
  · refine hi.quiet rfl rfl rfl ?_
    rintro request pc rfl
    obtain ⟨rfl, hreq⟩ := hentry
    exact ⟨hreq, nofun, nofun, nofun⟩
  · refine hi.quiet rfl rfl rfl fun request pc hop => ?_
    have hcall : s.calls id = some ⟨.alive, .writeData request pc⟩ :=
      hc.trans (congrArg (fun o => some (Call.mk .alive o)) hop)
    exact hi.call hcall
  · have hlog : writes (s.log ++ committed id o o') = writes s.log ++ writes (committed id o o') := by simp [writes]
    have other (hno : ∀ request pc, o ≠ .writeData request pc) (hno' : ∀ request pc, o' ≠ .writeData request pc)
        (hdata : store.data = s.store.data) : DataInv ⟨store, update s.calls id (some ⟨ctx, o'⟩),
          s.log ++ committed id o o'⟩ := by
      refine hi.quiet ?_ hdata rfl fun request pc hop => absurd hop (hno' request pc)
      rw [hlog, writes_committed_of_not_writeData hno, append_nil]
    cases Operation.step_cases hstep with
    | activate hw => exact other nofun nofun hw.data
    | putRevision hw => exact other nofun nofun hw.data
    | listEvents hw => exact other nofun nofun hw.data
    | openSnapshot hw => exact other nofun nofun hw.data
    | @writeData request pc pc' hw =>
      rcases hw.quiet_or_commit id with ⟨hq, hsame⟩ | ⟨c, t, rfl, rfl, hnone, hdata⟩
      · refine hi.quiet ?_ hsame.data rfl ?_
        · simp [hq]
        · rintro _ _ ⟨⟩
          exact hw.call (hi.log _) (hi.state _) (hi.call hc)
      · exact hi.commit ho hc hnone hdata

theorem dataInv_of_reached {s : System} (h : s.Reached) : DataInv s := by
  refine (h.invariant (I := fun s => Ownership s ∧ DataInv s) ?_ ?_).2
  · rintro s ⟨key, rfl⟩
    exact ⟨ownership_of_reached (.start ⟨key, rfl⟩), fun _ => .nil, fun _ => rfl, nofun⟩
  · rintro s a s' ⟨ho, hi⟩ - hs
    exact ⟨ho.step hs, hi.step ho hs⟩

/-! ## The contract -/

/-- What WriteData promises about one namespace, in one state. -/
structure DataPlane (s : System) (ns : Bytes) : Prop where
  /-- The committed generations are 1, 2, 3, … in commit order. -/
  generations : (dataLog ns (writes s.log)).map (·.version.generation) =
    List.range' 1 (dataLog ns (writes s.log)).length
  /-- Every committed request is canonical. -/
  canonical : ∀ e ∈ dataLog ns (writes s.log), newWriteDataRequest e.request = .ok e.request
  /-- The version of generation `g` holds the fold of the first `g` committed requests. -/
  dataset : ∀ i e, (dataLog ns (writes s.log))[i]? = some e →
    e.version.dataset = Spec.Dataset.replay (((dataLog ns (writes s.log)).take (i + 1)).map (·.request))
  /-- The stored state is the last commit, or none. -/
  current : (s.store.data ns).map (fun state => (state.generation, state.current)) =
    (dataLog ns (writes s.log)).getLast?.map fun e => (e.version.generation, e.version)
  /-- A returned success that is not a replay is the answer to exactly one commit, its own. -/
  committed : ∀ id ctx request generation, request.namespace_ = ns →
    s.calls id = some ⟨ctx, .writeData request (.returned (.ok ⟨generation, false⟩))⟩ →
    ∃ e ∈ dataLog ns (writes s.log), e.call = id ∧ e.request = request ∧ e.version.generation = generation
  /-- Each commit is the answer of one call, settled on success without replay. -/
  answered : ∀ e ∈ dataLog ns (writes s.log), ∃ ctx pc, s.calls e.call = some ⟨ctx, .writeData e.request pc⟩ ∧
    pc.result? = some (.ok ⟨e.version.generation, false⟩)
  /-- No call commits twice. -/
  calls : ((dataLog ns (writes s.log)).map (·.call)).Nodup
  /-- No idempotency key commits twice. -/
  keys : ((dataLog ns (writes s.log)).map (·.request.idempotencyKey)).Nodup
  /-- A returned replay repeats a commit of another call, and has none of its own. -/
  replayed : ∀ id ctx request generation, request.namespace_ = ns →
    s.calls id = some ⟨ctx, .writeData request (.returned (.ok ⟨generation, true⟩))⟩ →
    (∀ c ∈ writes s.log, c.call ≠ id) ∧
      ∃ e ∈ dataLog ns (writes s.log), e.request.idempotencyKey = request.idempotencyKey
  /-- A success whose key has committed is that commit or its replay: same fingerprint, same generation. -/
  idempotent : ∀ id ctx request response, request.namespace_ = ns →
    s.calls id = some ⟨ctx, .writeData request (.returned (.ok response))⟩ →
    ∀ e ∈ dataLog ns (writes s.log), e.request.idempotencyKey = request.idempotencyKey →
      fingerprintWriteData request = .ok e.fingerprint ∧ response.generation = e.version.generation ∧
        (response.replayed = false ↔ e.call = id)
  /-- A returned error has no commit. -/
  failed : ∀ id ctx request e, s.calls id = some ⟨ctx, .writeData request (.returned (.error e))⟩ →
    ∀ c ∈ writes s.log, c.call ≠ id

omit [Primitives] in
theorem mem_writes {log c} : c ∈ writes log ↔ .data c ∈ log := by
  simp only [writes, mem_filterMap]
  constructor
  · rintro ⟨x, hx, h⟩
    cases x <;> cases h
    exact hx
  · exact fun h => ⟨_, h, rfl⟩

omit [Primitives] in
theorem writes_calls_nodup {log} (h : (log.map (·.call)).Nodup) :
    ((writes log).map (·.call)).Nodup := by
  induction log with
  | nil => exact .nil
  | cons x log ih =>
    obtain ⟨hx, hlog⟩ := nodup_cons.1 h
    cases x with
    | data c =>
      refine nodup_cons.2 ⟨fun hmem => hx ?_, ih hlog⟩
      obtain ⟨e, he, heq⟩ := mem_map.1 hmem
      exact mem_map.2 ⟨_, mem_writes.1 he, heq⟩
    | slot => exact ih hlog
    | revision => exact ih hlog

omit [Primitives] in
/-- The commit behind a returned success that is not a replay. -/
theorem committed_entry {s : System} (ha : Answered s) {ctx generation ns} (hns : request.namespace_ = ns)
    (hc : s.calls id = some ⟨ctx, .writeData request (.returned (.ok ⟨generation, false⟩))⟩) :
    ∃ e ∈ dataLog ns (writes s.log), e.call = id ∧ e.request = request ∧ e.version.generation = generation := by
  obtain ⟨y, hy, hid, hans⟩ :=
    ha.settled hc (x := .data ⟨id, request, [], ⟨0, generation, .nil, .nil⟩⟩) ⟨rfl, rfl⟩
  cases y with
  | data e =>
    have hgen : generation = e.version.generation := by simpa [WritePc.result?] using hans.2
    exact ⟨e, mem_dataLog.2 ⟨mem_writes.2 hy, hans.1 ▸ hns⟩, hid, hans.1, hgen.symm⟩
  | slot | revision => exact hans.elim

omit [Primitives] in
/-- Two commits of one namespace with one idempotency key are the same. -/
theorem eq_of_key_eq (h : (l.map (·.request.idempotencyKey)).Nodup) {e' : DataCommit} (he : e ∈ l) (he' : e' ∈ l)
    (hk : e.request.idempotencyKey = e'.request.idempotencyKey) : e = e' :=
  inj_on_of_nodup_map h he he' hk

/-- The data plane's contract follows from its invariant and the correspondence of successes and commits. -/
theorem DataInv.dataPlane {s : System} (hi : DataInv s) (ha : Answered s) (ns : Bytes) : DataPlane s ns where
  generations := by
    refine ext_getElem (by simp) fun i h _ => ?_
    rw [length_map] at h
    rw [getElem_map, getElem_range', (hi.log ns).generation i _ (getElem?_eq_getElem h)]
    omega
  canonical := (hi.log ns).canonical
  dataset := (hi.log ns).dataset
  current := by
    have hs := hi.state ns
    cases hd : s.store.data ns with
    | none => rw [hd] at hs; simp [show dataLog ns (writes s.log) = [] from hs]
    | some state =>
      rw [hd] at hs
      obtain ⟨hgen, hlast, -⟩ := hs
      obtain ⟨e, he, hv⟩ := Option.map_eq_some_iff.1 hlast
      have hg : e.version.generation = state.generation := by
        rw [getLast?_eq_getElem?] at he
        rw [(hi.log ns).generation _ e he, hgen]
        have := (List.getElem?_eq_some_iff.1 he).1
        omega
      simp [he, ← hg, hv]
  committed id ctx request generation hns hc := committed_entry ha hns hc
  answered e he := by
    obtain ⟨⟨ctx, o⟩, hc, hans⟩ := ha.author _ (mem_writes.1 (mem_dataLog.1 he).1)
    cases o with
    | writeData request pc => exact ⟨ctx, pc, by rw [hans.1]; exact hc, hans.2⟩
    | _ => exact hans.elim
  calls := (writes_calls_nodup ha.once).sublist (filter_sublist.map _)
  keys := (hi.log ns).keys
  replayed id ctx request generation hns hc := by
    obtain ⟨e, he, hkey, -⟩ := (hi.call hc).replay _ rfl
    refine ⟨fun c hmem => ?_, e, hns ▸ he, hkey⟩
    exact ha.not_committed hc (fun x hx => by cases x <;> simp [Committed.answers, WritePc.result?] at hx) _
      (mem_writes.1 hmem)
  idempotent id ctx request response hns hc e he hkey := by
    obtain ⟨g, replayed⟩ := response
    cases replayed with
    | false =>
      obtain ⟨e', he', hid, hreq, hgen⟩ := committed_entry ha hns hc
      obtain rfl := eq_of_key_eq (hi.log ns).keys he' he (hreq ▸ hkey.symm)
      exact ⟨hreq ▸ (hi.log ns).fingerprint e' he, hgen.symm, fun _ => hid, fun _ => rfl⟩
    | true =>
      obtain ⟨e', he', hkey', hgen, hfp⟩ := (hi.call hc).replay _ rfl
      obtain rfl := eq_of_key_eq (hi.log ns).keys (hns ▸ he') he (hkey'.trans hkey.symm)
      have hne : e'.call ≠ id :=
        ha.not_committed hc (fun x hx => by cases x <;> simp [Committed.answers, WritePc.result?] at hx) _
          (mem_writes.1 (mem_dataLog.1 he).1)
      exact ⟨hfp, hgen.symm, (fun h => by cases h), fun hid => absurd hid hne⟩
  failed id ctx request e hc c hmem :=
    ha.not_committed hc (fun x hx => by cases x <;> simp [Committed.answers, WritePc.result?] at hx) _
      (mem_writes.1 hmem)

/-- In every reachable state the data plane of every namespace keeps its contract, and every further step of a
WriteData call either commits, once, or changes nothing. -/
theorem writeData_linearizable {s : System} (h : s.Reached) :
    (∀ ns, DataPlane s ns) ∧
      ∀ id input s' ctx request pc, s.calls id = some ⟨ctx, .writeData request pc⟩ →
        s.step (.step id input) = some s' →
        (∃ e, e.call = id ∧ s'.log = s.log ++ [.data e]) ∨ (s'.log = s.log ∧ SameContent s.store s'.store) := by
  refine ⟨(dataInv_of_reached h).dataPlane (answered_of_reached h), fun id input s' ctx request pc hc hs => ?_⟩
  simp only [System.step, hc] at hs
  split at hs
  · cases hs
  next store o' hstep =>
    cases hs
    cases Operation.step_cases hstep with
    | writeData hw =>
      rcases hw.quiet_or_commit id with ⟨hq, hsame⟩ | ⟨c, t, rfl, rfl, -, -⟩
      · exact .inr ⟨by simp [hq], hsame⟩
      · exact .inl ⟨⟨id, request, c.fingerprint, c.version⟩, rfl, rfl⟩

end Contract

/-! A run with one publication and one write. -/

def sampleRequest : WriteDataRequest :=
  { WriteDataRequest.zero with
    namespace_ := ascii "n"
    validationRevisionID := List.replicate 64 0x30
    idempotencyKey := ascii "k"
    tupleDeletes := [⟨⟨⟨ascii "doc", ascii "1"⟩, ascii "viewer", ⟨ascii "user", ascii "u", []⟩⟩⟩] }

theorem sampleRequest_canonical : newWriteDataRequest sampleRequest = .ok sampleRequest := by decide +kernel

/-- A write that has not begun. -/
def sampleEntry : { o : Operation // o.atEntry } := ⟨.writeData sampleRequest .entry, rfl, .inl ⟨_, sampleRequest_canonical⟩⟩

def sampleWrite : List Action :=
  .invoke 1 ⟨.writeData sampleRequest .entry, rfl, .inl ⟨_, sampleRequest_canonical⟩⟩ ::
    List.replicate 8 (.step 1 ⟨some 5, false⟩)

theorem sampleWrite_commits :
    (run (@System.step Primitives.constant) ⟨newStore [], fun _ => none, []⟩ (samplePublish ++ sampleWrite)).any
      (fun s => (writes s.log).length = 1) = true := by
  decide +kernel

theorem writeData_linearizable_sample :
    ∃ s, @System.Reached Primitives.constant s ∧ (writes s.log).length = 1 ∧
      ∀ ns, @DataPlane Primitives.constant s ns := by
  obtain ⟨s, hs, hlen⟩ := (Option.any_eq_true _ _).1 sampleWrite_commits
  have hr : @System.Reached Primitives.constant s := Reachable.run (.start ⟨[], rfl⟩) hs
  exact ⟨s, hr, by simpa using hlen, (@writeData_linearizable Primitives.constant s hr).1⟩

end PolicyEngine.Memory
