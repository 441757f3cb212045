import PolicyEngine.Memory.EventHistory
import PolicyEngine.Memory.NoEffect

/-!
# Listing events

A ListEvents call after a cursor goes on exactly where the cursor's event stands in
its namespace's stream, or says that the place is gone.
-/

open PolicyEngine.Lib List

namespace PolicyEngine.Memory

variable [Primitives]

/-! ## Pages -/

section Page

variable {l values : List EventRecord} {request : ListEventsRequest} {position expired : Nat} {page : Page StateEvent}

omit [Primitives] in
theorem Numbered.ascending (h : Numbered l) (position : Nat) : Ascending l fun e => e.sequence > position := by
  intro i j e e' hij he he' hp
  simp only [gt_iff_lt, decide_eq_true_eq, h i e he, h j e' he'] at hp ⊢
  omega

omit [Primitives] in
theorem Ascending.drop {after} (h : Ascending l after) (n : Nat) : Ascending (l.drop n) after := by
  intro i j e e' hij he he'
  rw [getElem?_drop] at he he'
  exact h _ _ _ _ (Nat.add_le_add_left hij n) he he'

omit [Primitives] in
/-- The search finds the place right after the position. -/
theorem drop_searchEvents (hn : Numbered l) (hv : values = l.drop expired) :
    values.drop (Store.searchEvents values fun e => e.sequence > position) = l.drop (max expired position) := by
  subst hv
  obtain ⟨hle, hspec⟩ := searchEvents_spec ((hn.ascending position).drop expired)
  generalize Store.searchEvents (l.drop expired) (fun e => e.sequence > position) = start at hle hspec
  rw [length_drop] at hle
  have hspec' (i : Nat) (hi : expired + i < l.length) : i < start ↔ expired + i + 1 ≤ position := by
    have hget : (l.drop expired)[i]? = some l[expired + i] := by rw [getElem?_drop, getElem?_eq_getElem hi]
    have hseq := hn _ _ (getElem?_eq_getElem hi)
    simpa [hseq] using hspec i _ hget
  rw [drop_drop]
  -- the search stops at the position, or at the end
  rcases Nat.lt_or_ge (expired + start) l.length with hlt | hge
  · have h1 := hspec' start hlt
    congr 1
    rcases Nat.eq_zero_or_pos start with h0 | hpos
    · omega
    · have := (hspec' (start - 1) (by omega)).1 (by omega)
      omega
  · rw [drop_eq_nil_of_le hge, drop_eq_nil_of_le]
    rcases Nat.eq_zero_or_pos start with h0 | hpos
    · omega
    · have := (hspec' (start - 1) (by omega)).1 (by omega)
      omega

omit [Primitives] in
/-- A page that is returned starts right after the position, which has not expired. -/
theorem eventPage_eq_ok (hn : Numbered l) (hv : values = l.drop expired)
    (h : eventPage request position values expired = .ok page) :
    (request.afterCursor ≠ [] → expired < position) ∧
      page.items = ((l.drop (max expired position)).take request.limit).map (·.value) := by
  unfold eventPage at h
  split at h
  · cases h
  next hno =>
    obtain ⟨rfl, -⟩ := newPage_eq_ok h
    refine ⟨fun hc => Nat.lt_of_not_le fun hle => hno ⟨hc, hle⟩, ?_⟩
    rw [drop_searchEvents hn hv]

end Page

/-! ## What a listing call knows -/

/-- The position the call's cursor stands for. -/
def Decoded (s : Store) (request : ListEventsRequest) (position : Nat) : Prop :=
  ∃ c, s.cursorStateLocked request.afterCursor .event request.namespace_ [] = .ok c ∧ c.position = position

/-- A page of the stream as it was when it had `n` events. -/
def PageOf (seen : List EventRecord) (request : ListEventsRequest) (position : Nat) (page : Page StateEvent) : Prop :=
  ∃ n expired, n ≤ seen.length ∧ (request.afterCursor ≠ [] → expired < position) ∧
    page.items = (((seen.take n).drop (max expired position)).take request.limit).map (·.value)

def ListCall (o : Observed) (request : ListEventsRequest) : ListEventsPc → Prop
  | .entry | .returned (.error _) => True
  | .clock position | .locking position _ => Decoded o.system.store request position
  | .listed position values expired =>
    Decoded o.system.store request position ∧
      ∃ n ≤ (o.seen request.namespace_).length, values = ((o.seen request.namespace_).take n).drop expired
  | .returned (.ok page) =>
    ∃ position, Decoded o.system.store request position ∧ PageOf (o.seen request.namespace_) request position page

def Listings (o : Observed) : Prop :=
  ∀ {id ctx request pc}, o.system.calls id = some ⟨ctx, .listEvents request pc⟩ → ListCall o request pc

section Calls

variable {o o' : Observed} {request : ListEventsRequest} {position : Nat}

theorem Decoded.congr {s s' : Store} (h : Decoded s request position) (hk : s'.cursorKey = s.cursorKey) :
    Decoded s' request position := by
  obtain ⟨c, hc, hp⟩ := h
  refine ⟨c, ?_, hp⟩
  rw [← hc]
  simp only [Store.cursorStateLocked, Store.cursorScope, hk]
  rfl

omit [Primitives] in
theorem PageOf.mono {seen new page} (h : PageOf seen request position page) :
    PageOf (seen ++ new) request position page := by
  obtain ⟨n, expired, hn, hlt, hitems⟩ := h
  refine ⟨n, expired, by rw [length_append]; omega, hlt, ?_⟩
  rw [take_append_of_le_length hn]
  exact hitems

/-- What a call knows stays true as the stream grows. -/
theorem ListCall.mono {pc} (h : ListCall o request pc) (hk : o'.system.store.cursorKey = o.system.store.cursorKey)
    (hseen : ∃ new, o'.seen request.namespace_ = o.seen request.namespace_ ++ new) : ListCall o' request pc := by
  obtain ⟨new, hnew⟩ := hseen
  cases pc with
  | entry => trivial
  | clock | locking => exact Decoded.congr h hk
  | listed p values expired =>
    obtain ⟨hdec, n, hn, hv⟩ := h
    refine ⟨hdec.congr hk, n, ?_, ?_⟩
    · rw [hnew, length_append]; omega
    · rw [hnew, take_append_of_le_length hn]; exact hv
  | returned result =>
    cases result with
    | error => trivial
    | ok page =>
      obtain ⟨p, hdec, hpage⟩ := h
      exact ⟨p, hdec.congr hk, by rw [hnew]; exact hpage.mono⟩

/-- The call's own step. -/
theorem ListCall.step {ctx input pc pc' store} (h : ListCall o request pc) (hstream : Stream o request.namespace_)
    (hs : listEventsStep o.system.store ctx request input pc = some (store, pc'))
    (hafter : Stream o' request.namespace_) (hstore : o'.system.store = store)
    (hkey : store.cursorKey = o.system.store.cursorKey)
    (hseen : o'.seen request.namespace_ = o.seen request.namespace_) :
    ListCall o' request pc' := by
  cases pc with
  | entry =>
    simp only [listEventsStep] at hs
    repeat' split at hs
    all_goals cases hs
    · trivial
    · trivial
    · trivial
    next cursor hc => exact Decoded.congr ⟨cursor, hc, rfl⟩ (hstore ▸ hkey)
  | clock p =>
    simp only [listEventsStep] at hs
    repeat' split at hs
    all_goals cases hs
    · trivial
    · trivial
    · exact Decoded.congr h (hstore ▸ hkey)
  | locking p t =>
    simp only [listEventsStep] at hs
    repeat' split at hs
    all_goals cases hs
    · trivial
    · -- the view taken is the end of the stream as it stands
      refine ⟨Decoded.congr h (hstore ▸ hkey), (o'.seen request.namespace_).length, Nat.le_refl _, ?_⟩
      have hv := hafter.retains.values
      rw [hstore] at hv
      rw [take_length]
      exact hv
  | listed p values expired =>
    obtain ⟨hdec, n, hn, hv⟩ := h
    have hnum : Numbered ((o.seen request.namespace_).take n) := by
      intro i e he
      rw [getElem?_take] at he
      split at he
      · exact hstream.numbered i e he
      · cases he
    simp only [listEventsStep] at hs
    repeat' split at hs
    all_goals cases hs
    · trivial
    · trivial
    · cases hpage : eventPage request p values expired with
      | error => trivial
      | ok page =>
        obtain ⟨hlt, hitems⟩ := eventPage_eq_ok hnum hv hpage
        exact ⟨p, hdec.congr (hstore ▸ hkey), n, expired, hseen ▸ hn, hlt, hseen ▸ hitems⟩
  | returned => cases hs

variable {ns : Bytes}

theorem StreamStep.seen_of_commits (h : StreamStep o o' ns)
    (hlog : commitsOf ns o'.system.log = commitsOf ns o.system.log) : o'.seen ns = o.seen ns := by
  cases h with
  | quiet _ _ hseen => exact hseen
  | prune _ _ _ _ hseen => exact hseen
  | append x event cut _ _ hnew =>
    rw [hnew] at hlog
    simp at hlog

theorem Listings.step {a : Action} (h : Listings o) (hr : o.Reached) (hs : o.step a = some o') : Listings o' := by
  intro i ctx' request pc hcall
  have hstream := stream_of_reached hr request.namespace_
  obtain ⟨hstep, hclock⟩ := hstream.action hs
  obtain ⟨hsys, hseen⟩ := Observed.step_eq_some.1 hs
  have kept (hold : ListCall o request pc) : ListCall o' request pc :=
    hold.mono hclock.cursorKey ⟨_, congrFun hseen _⟩
  rcases System.step_cases hsys with ⟨id, op, hn, hentry, hs'⟩ | ⟨id, reason, op, hc, hs'⟩ |
    ⟨id, input, ctx, op, op', store, hc, hop, hs'⟩ <;> rw [hs'] at hcall
  · by_cases hi : i = id
    · subst hi
      obtain ⟨rfl, rfl⟩ : Ctx.alive = ctx' ∧ op = .listEvents request pc := by simpa using hcall
      obtain rfl : pc = .entry := hentry
      trivial
    · exact kept (h (by simpa only [Function.update_of_ne hi] using hcall))
  · by_cases hi : i = id
    · subst hi
      obtain ⟨rfl, rfl⟩ : reason = ctx' ∧ op = .listEvents request pc := by simpa using hcall
      exact kept (h hc)
    · exact kept (h (by simpa only [Function.update_of_ne hi] using hcall))
  · by_cases hi : i = id
    · subst hi
      obtain ⟨rfl, rfl⟩ : ctx = ctx' ∧ op' = .listEvents request pc := by simpa using hcall
      cases op with
      | listEvents request' pc₀ =>
        simp only [Operation.step, Option.map_eq_some_iff, Prod.exists, Prod.mk.injEq, Operation.listEvents.injEq] at hop
        obtain ⟨_, _, hlist, rfl, rfl, rfl⟩ := hop
        have hsame : o'.seen request'.namespace_ = o.seen request'.namespace_ := by
          refine hstep.seen_of_commits ?_
          rw [hs']
          exact congrArg (commitsOf _) (append_nil _)
        refine (h hc).step hstream hlist (hstream.step hstep hclock) (by rw [hs']) ?_ hsame
        rw [← hclock.cursorKey, hs']
      | _ =>
        simp only [Operation.step, Option.map_eq_some_iff, Prod.exists, Prod.mk.injEq] at hop
        obtain ⟨_, _, _, _, hop⟩ := hop
        cases hop
    · exact kept (h (by simpa only [Function.update_of_ne hi] using hcall))

theorem listings_of_reached (h : o.Reached) : Listings o := by
  refine (h.invariant (I := fun o => o.Reached ∧ Listings o) ?_ ?_).2
  · rintro ⟨s, seen⟩ ⟨⟨key, hs⟩, hseen⟩
    obtain rfl : s = _ := hs
    exact ⟨.start ⟨⟨key, rfl⟩, hseen⟩, nofun⟩
  · rintro o a o' ⟨hr, hl⟩ - hs
    exact ⟨hr.extend hs, hl.step hr hs⟩

/-- The cursor of an event decodes to its place in the stream. -/
theorem Stream.decoded (h : Stream o ns) {e} (he : e ∈ o.seen ns) (hns : request.namespace_ = ns)
    (hcursor : request.afterCursor = e.value.cursor) :
    o.system.store.cursorStateLocked request.afterCursor .event request.namespace_ [] =
      .ok ⟨.event, ns, [], e.sequence, zeroTime, []⟩ ∧ 0 < e.sequence := by
  obtain ⟨i, hi⟩ := List.getElem?_of_mem he
  have hseq := h.numbered i e hi
  have hlt := (List.getElem?_eq_some_iff.1 hi).1
  have hbound := h.bounded
  have hpos : e.sequence < 256 ^ 8 := by
    simp only [maxUint64] at hbound
    omega
  rw [hcursor, hns]
  exact ⟨Store.cursorStateLocked_newCursorLocked (h.cursors e he) hpos nofun, by omega⟩

/-- So a call after that cursor stands at that place. -/
theorem Stream.decoded_eq (h : Stream o ns) {e} (he : e ∈ o.seen ns) (hns : request.namespace_ = ns)
    (hcursor : request.afterCursor = e.value.cursor) (hdec : Decoded o.system.store request position) :
    position = e.sequence ∧ request.afterCursor ≠ [] := by
  obtain ⟨hc, hpos⟩ := h.decoded he hns hcursor
  obtain ⟨c, hc', rfl⟩ := hdec
  obtain rfl := Except.ok.inj (hc'.symm.trans hc)
  refine ⟨rfl, fun hnil => ?_⟩
  rw [hnil] at hc
  have hzero : (0 : Nat) = e.sequence := congrArg CursorState.position (Except.ok.inj hc)
  omega

/-- The critical section of a listing: it prunes the namespace and takes what is left. -/
theorem listing_step (hr : o.Reached) {id t input}
    (hc : o.system.calls id = some ⟨.alive, .listEvents request (.locking position t)⟩)
    (hs : o.step (.step id input) = some o') :
    (∃ cut, Cut (o.system.store.eventState request.namespace_).values o'.system.store.effectiveTime cut ∧
      o'.system.store.eventState request.namespace_ =
        ⟨(o.system.store.eventState request.namespace_).values.drop cut,
          (o.system.store.eventState request.namespace_).expiredThrough + cut⟩) ∧
      o'.system.calls id = some ⟨.alive, .listEvents request (.listed position
        (o'.system.store.eventState request.namespace_).values
        (o'.system.store.eventState request.namespace_).expiredThrough)⟩ := by
  have hstream := stream_of_reached hr request.namespace_
  obtain ⟨next, hop, hc'⟩ := System.own_step hc (Observed.step_eq_some.1 hs).1
  rw [hc']
  simp only [Operation.step, Option.map_eq_some_iff, Prod.exists, Prod.mk.injEq, listEventsStep,
    unlocked_of_reached hr.system, Ctx.signaled, bne_self_eq_false, Bool.false_eq_true, if_false,
    Option.some.injEq] at hop
  obtain ⟨store, pc', ⟨hstore, rfl⟩, rfl, rfl⟩ := hop
  rw [← hstore]
  obtain ⟨cut, hcut, hstate⟩ := pruneEventsLocked_spec hstream.retains hstream.numbered hstream.timed _
  exact ⟨⟨cut, hcut, (eventState_congr (congrFun (listing_prune_events _ _ t) _)).trans hstate⟩, rfl⟩

/-- A view whose mark has passed the position ends in CURSOR_EXPIRED, whatever happens to the context. -/
theorem listed_expired {s t : System} (h : s.Leads t) {id ctx ctx' values expired result}
    (hne : request.afterCursor ≠ []) (hle : position ≤ expired)
    (hs : s.calls id = some ⟨ctx, .listEvents request (.listed position values expired)⟩)
    (ht : t.calls id = some ⟨ctx', .listEvents request (.returned result)⟩) : result = .error .cursorExpired := by
  have hpage : eventPage request position values expired = .error .cursorExpired := by
    rw [eventPage, if_pos ⟨hne, hle⟩]
  obtain ⟨call, hc, hP⟩ := h.stable (P := fun o => o = .listEvents request (.listed position values expired) ∨
      o = .listEvents request (.returned (.error .cursorExpired))) (fun {s s' ctx input o o'} hstep ho => by
    rcases ho with rfl | rfl
    · simp only [Operation.step, listEventsStep, hpage, Option.map_some, Option.some.injEq, Prod.mk.injEq] at hstep
      exact .inr hstep.2.symm
    · cases hstep) ⟨_, hs, .inl rfl⟩
  obtain rfl := Option.some.inj (ht.symm.trans hc)
  simpa using hP

theorem Observed.leads {u : Observed} (h : Reachable Observed.step (· = o) u) : o.system.Leads u.system := by
  refine h.invariant (I := fun u => o.system.Leads u.system) (by rintro _ rfl; exact .start rfl) fun u a u' hu _ hs => ?_
  exact hu.extend (Observed.step_eq_some.1 hs).1

end Calls

/-! ## The contract -/

/-- The event stream of one namespace, in one state. -/
structure EventStream (o : Observed) (ns : Bytes) : Prop where
  /-- The events seen so far are numbered 1, 2, 3, …; no number is used twice. -/
  sequences : (o.seen ns).map (·.sequence) = List.range' 1 (o.seen ns).length
  /-- Their times do not go back. -/
  times : Timed (o.seen ns)
  /-- There is one for each commit of the namespace, in commit order, and it describes that commit. -/
  commits : List.Forall₂ Describes (commitsOf ns o.system.log) (o.seen ns)
  /-- The retained ones are the last, from `expiredThrough + 1` on. -/
  retained : Retains (o.seen ns) (o.system.store.eventState ns)
  retainedSequences : (o.system.store.eventState ns).values.map (·.sequence) =
    List.range' ((o.system.store.eventState ns).expiredThrough + 1) (o.system.store.eventState ns).values.length

/-- Listing after an event's cursor. -/
structure ListsAfter (o : Observed) (ns : Bytes) (e : EventRecord) : Prop where
  /-- The cursor is accepted, and stands for the event's number. -/
  accepted : ∀ id request input o', o.system.calls id = some ⟨.alive, .listEvents request .entry⟩ →
    request.namespace_ = ns → request.afterCursor = e.value.cursor →
    (newListEventsRequest request.namespace_ request.afterCursor request.limit).isOk = true →
    o.step (.step id input) = some o' →
    o'.system.calls id = some ⟨.alive, .listEvents request (.clock e.sequence)⟩
  /-- A page returned is the events right after it, with none left out. -/
  page : ∀ id ctx request page, o.system.calls id = some ⟨ctx, .listEvents request (.returned (.ok page))⟩ →
    request.namespace_ = ns → request.afterCursor = e.value.cursor →
    ∃ n ≤ (o.seen ns).length,
      page.items = ((((o.seen ns).take n).drop e.sequence).take request.limit).map (·.value)
  /-- A call that enters its critical section when the event is gone returns CURSOR_EXPIRED. -/
  expired : ∀ id request position t input o' u ctx result,
    o.system.calls id = some ⟨.alive, .listEvents request (.locking position t)⟩ →
    request.namespace_ = ns → request.afterCursor = e.value.cursor →
    e.sequence ≤ (o.system.store.eventState ns).expiredThrough → o.step (.step id input) = some o' →
    Reachable Observed.step (· = o') u →
    u.system.calls id = some ⟨ctx, .listEvents request (.returned result)⟩ → result = .error .cursorExpired

section Contract

variable {o : Observed} {ns : Bytes}

theorem Stream.eventStream (h : Stream o ns) : EventStream o ns where
  sequences := by
    refine ext_getElem (by simp) fun i hi _ => ?_
    rw [length_map] at hi
    rw [getElem_map, getElem_range', h.numbered i _ (getElem?_eq_getElem hi)]
    omega
  times := h.timed
  commits := h.commits
  retained := h.retains
  retainedSequences := by
    refine ext_getElem (by simp) fun i hi _ => ?_
    rw [length_map] at hi
    rw [getElem_map, getElem_range', h.retains.sequence h.numbered (getElem?_eq_getElem hi)]
    omega

theorem Observed.Reached.listsAfter (hr : o.Reached) {e} (he : e ∈ o.seen ns) : ListsAfter o ns e where
  accepted id request input o' hc hns hcursor hvalid hs := by
    obtain ⟨hdec, -⟩ := (stream_of_reached hr ns).decoded he hns hcursor
    obtain ⟨next, hop, hc'⟩ := System.own_step hc (Observed.step_eq_some.1 hs).1
    obtain ⟨r, hr'⟩ := isOk_iff.1 hvalid
    simp only [Operation.step, listEventsStep, Ctx.signaled, bne_self_eq_false, Bool.false_eq_true, if_false, hr', hdec,
      Option.map_some, Option.some.injEq, Prod.mk.injEq] at hop
    rw [hc', ← hop.2]
  page id ctx request page hc hns hcursor := by
    obtain ⟨p, hdec, n, expired, hn, hlt, hitems⟩ := listings_of_reached hr hc
    obtain ⟨rfl, hne⟩ := (stream_of_reached hr ns).decoded_eq he hns hcursor hdec
    subst hns
    rw [Nat.max_eq_right (Nat.le_of_lt (hlt hne))] at hitems
    exact ⟨n, hn, hitems⟩
  expired id request position t input o' u ctx result hc hns hcursor hle hs hu hresult := by
    obtain ⟨rfl, hne⟩ := (stream_of_reached hr ns).decoded_eq he hns hcursor (listings_of_reached hr hc)
    subst hns
    obtain ⟨⟨cut, -, hstate⟩, hc'⟩ := listing_step hr hc hs
    refine listed_expired (Observed.leads hu) hne ?_ hc' hresult
    rw [hstate]
    exact Nat.le_trans hle (Nat.le_add_right _ _)

/-- The event stream, for every interleaving of calls and any clock readings: successes and commits correspond; in
each namespace there is one event for each commit, numbered and timed in order, of which the last are retained; every
step leaves a namespace alone, or prunes exactly what is due, after adding the event of its commit if it has one; a
listing always prunes; and listing after an event's cursor goes on right after it or says it has expired. -/
theorem event_stream (h : o.Reached) :
    Answered o.system ∧ (∀ ns, EventStream o ns) ∧ (∀ a o', o.step a = some o' → ∀ ns, StreamStep o o' ns) ∧
      (∀ id request position t input o',
        o.system.calls id = some ⟨.alive, .listEvents request (.locking position t)⟩ →
        o.step (.step id input) = some o' →
        ∃ cut, Cut (o.system.store.eventState request.namespace_).values o'.system.store.effectiveTime cut ∧
          o'.system.store.eventState request.namespace_ =
            ⟨(o.system.store.eventState request.namespace_).values.drop cut,
              (o.system.store.eventState request.namespace_).expiredThrough + cut⟩) ∧
      ∀ ns, ∀ e ∈ o.seen ns, ListsAfter o ns e :=
  ⟨answered_of_reached h.system, fun ns => (stream_of_reached h ns).eventStream,
    fun _ _ hs ns => ((stream_of_reached h ns).action hs).1,
    fun _ _ _ _ _ _ hc hs => (listing_step h hc hs).1, fun _ _ he => h.listsAfter he⟩

end Contract

/-! A publication, and a listing from the start that returns its event. -/

def sampleListing : List Action :=
  .invoke 1 ⟨.listEvents ⟨ascii "n", [], 10⟩ .entry, rfl⟩ :: List.replicate 4 (.step 1 ⟨some 7, false⟩)

/-- How many events the listing returned. -/
def System.listed (s : System) : Nat :=
  match s.calls 1 with
  | some ⟨_, .listEvents _ (.returned (.ok page))⟩ => page.items.length
  | _ => 0

omit [Primitives] in
theorem sampleListing_lists :
    (run (@Observed.step Primitives.constant) ⟨⟨newStore [], fun _ => none, []⟩, fun _ => []⟩
      (samplePublish ++ sampleListing)).any
      (fun o => (o.seen (ascii "n")).length = 1 && o.system.listed = 1) = true := by
  decide +kernel

omit [Primitives] in
theorem event_stream_sample :
    ∃ o, @Observed.Reached Primitives.constant o ∧ (o.seen (ascii "n")).length = 1 ∧ o.system.listed = 1 ∧
      (∀ ns, EventStream o ns) ∧ ∀ ns, ∀ e ∈ o.seen ns, @ListsAfter Primitives.constant o ns e := by
  obtain ⟨o, ho, h⟩ := (Option.any_eq_true _ _).1 sampleListing_lists
  simp only [Bool.and_eq_true, decide_eq_true_eq] at h
  have hr : @Observed.Reached Primitives.constant o := Reachable.run (.start ⟨⟨[], rfl⟩, rfl⟩) ho
  obtain ⟨-, hstream, -, -, hlists⟩ := @event_stream Primitives.constant o hr
  exact ⟨o, hr, h.1, h.2, hstream, hlists⟩

end PolicyEngine.Memory
