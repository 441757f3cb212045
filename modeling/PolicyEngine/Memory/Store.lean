import PolicyEngine.Lib.Base64
import PolicyEngine.Memory.Index
import PolicyEngine.Store.Records

/-!
# The memory store

The record behind `memory.Store` and the operations that run under its mutex
(`store.go`, `events.go`, `cursors.go`). Maps are functions to `Option`; a
reservation is identified by its done channel, which only it owns. `nextRef` hands
out channel and version identities, and `closed` lists the channels closed so far.
The hooks that only tests arm are left out.
-/

open Std PolicyEngine.Lib

namespace PolicyEngine.Memory

/-- The identity of a channel. -/
abbrev Chan := Nat

structure SlotState where
  current : Activation
  history : List Activation
  deriving DecidableEq, Repr

structure IdempotencyState where
  fingerprint : Bytes
  response : WriteDataResponse
  deriving DecidableEq, Repr

structure DataState where
  generation : Nat
  current : DataVersion
  idempotency : Bytes → Option IdempotencyState

structure GenerationWait where
  changed : Chan
  refs : Nat
  deriving DecidableEq, Repr

structure EventRecord where
  sequence : Nat
  value : StateEvent
  deriving DecidableEq, Repr

structure EventState where
  values : List EventRecord
  expiredThrough : Nat
  deriving DecidableEq, Repr

inductive ReservationDomain where
  | revision
  | slot
  | data
  deriving DecidableEq, Repr

structure CommitReservationKey where
  domain : ReservationDomain
  namespace_ : Bytes
  name : Bytes
  deriving DecidableEq, Repr

structure CommitReservation where
  key : CommitReservationKey
  done : Chan
  operation : Bytes
  idempotencyKey : Bytes
  fingerprint : Bytes
  deriving DecidableEq, Repr

structure RevisionKey where
  publishedAt : Time
  id : Bytes
  deriving DecidableEq, Repr

def compareRevisionKey (left right : RevisionKey) : Ordering :=
  (compare left.publishedAt right.publishedAt).then (compare left.id right.id)

abbrev RevisionNode := Avl RevisionKey RevisionRecord

def revisionKeyFor (record : RevisionRecord) : RevisionKey := ⟨record.metadata.publishedAt, record.metadata.id⟩

def revisionSet (node : RevisionNode) (record : RevisionRecord) : RevisionNode :=
  Avl.set compareRevisionKey node (revisionKeyFor record) record

structure Store where
  /-- Whether the mutex is held. -/
  mu : Bool
  effectiveTime : Time
  revisions : Bytes → Bytes → Option RevisionRecord
  revisionOrder : Bytes → RevisionNode
  slots : Bytes → Bytes → Option SlotState
  data : Bytes → Option DataState
  waiters : Bytes → Option GenerationWait
  events : Bytes → Option EventState
  reservations : CommitReservationKey → Option CommitReservation
  cursorKey : Bytes
  nextRef : Nat
  closed : List Chan

/-- A new store; its cursor key is drawn at random. -/
def newStore (cursorKey : Bytes) : Store where
  mu := false
  effectiveTime := zeroTime
  revisions _ _ := none
  revisionOrder _ := .nil
  slots _ _ := none
  data _ := none
  waiters _ := none
  events _ := none
  reservations _ := none
  cursorKey := cursorKey
  nextRef := 0
  closed := []

def activationHistoryRetention : Nat := 3
def eventRetentionLimit : Nat := maxAggregateWorkItems

/-- Twenty-four hours. -/
def defaultEventRetention : Time := 24 * 3600 * 1000000000

namespace Store

def lock (s : Store) : Store := { s with mu := true }

def unlock (s : Store) : Store := { s with mu := false }

/-! ## Reservations -/

def reserveCommitLocked (s : Store) (key : CommitReservationKey) : Store × Option CommitReservation :=
  match s.reservations key with
  | some _ => (s, none)
  | none =>
    let reservation : CommitReservation := ⟨key, s.nextRef, [], [], []⟩
    ({ s with reservations := Function.update s.reservations key (some reservation), nextRef := s.nextRef + 1 },
      some reservation)

/-- The fields a data writer sets on its reservation, which the map shares by pointer. -/
def markReservation (s : Store) (r : CommitReservation) : Store :=
  { s with reservations := Function.update s.reservations r.key (some r) }

def ownsCommitReservationLocked (s : Store) (r : CommitReservation) : Bool :=
  match s.reservations r.key with
  | some held => held.done = r.done
  | none => false

def releaseCommitReservationLocked (s : Store) (r : CommitReservation) : Store :=
  if s.ownsCommitReservationLocked r then
    { s with reservations := Function.update s.reservations r.key none, closed := r.done :: s.closed }
  else s

/-! ## Generation waiters -/

def registerGenerationWaitLocked (s : Store) (namespace_ : Bytes) : Store × GenerationWait :=
  match s.waiters namespace_ with
  | some wait =>
    let wait := { wait with refs := wait.refs + 1 }
    ({ s with waiters := Function.update s.waiters namespace_ (some wait) }, wait)
  | none =>
    let wait : GenerationWait := ⟨s.nextRef, 1⟩
    ({ s with waiters := Function.update s.waiters namespace_ (some wait), nextRef := s.nextRef + 1 }, wait)

/-- `wait` is compared by identity: a registration of an earlier wait is ignored. -/
def unregisterGenerationWaitLocked (s : Store) (namespace_ : Bytes) (changed : Chan) : Store :=
  match s.waiters namespace_ with
  | none => s
  | some wait =>
    if wait.changed ≠ changed then s
    else
      { s with
        waiters := Function.update s.waiters namespace_
          (if wait.refs - 1 = 0 then none else some { wait with refs := wait.refs - 1 }) }

def notifyGenerationWaitersLocked (s : Store) (namespace_ : Bytes) : Store :=
  match s.waiters namespace_ with
  | none => s
  | some wait =>
    { s with waiters := Function.update s.waiters namespace_ none, closed := wait.changed :: s.closed }

/-! ## Clock -/

def effectiveTimeLocked (s : Store) (candidate : Time) : Store × Time :=
  if candidate < s.effectiveTime then (s, s.effectiveTime) else ({ s with effectiveTime := candidate }, candidate)

end Store

/-! ## Cursors -/

inductive CursorDomain where
  | revision
  | history
  | event
  deriving DecidableEq, Repr

def CursorDomain.name : CursorDomain → Bytes
  | .revision => ascii "revision"
  | .history => ascii "history"
  | .event => ascii "event"

/-- `cursorDomainID`. -/
def CursorDomain.code : CursorDomain → UInt8
  | .revision => 1
  | .history => 2
  | .event => 3

structure CursorState where
  domain : CursorDomain
  namespace_ : Bytes
  slot : Bytes
  position : Nat
  revisionPublishedAt : Time
  revisionID : Bytes
  deriving DecidableEq, Repr

def cursorVersion : UInt8 := 1
def cursorScopeLen : Nat := 16
def cursorMACLen : Nat := 32
def cursorFixedLen : Nat := 1 + 1 + cursorScopeLen + 8 + 8 + 4 + 2 + cursorMACLen

section Cursors

variable [Primitives]

namespace Store

def cursorScope (s : Store) (domain : CursorDomain) (namespace_ slot : Bytes) : Bytes :=
  (hmac s.cursorKey (ascii "scope" ++ [0] ++ domain.name ++ [0] ++ namespace_ ++ [0] ++ slot)).take cursorScopeLen

/-- The fields each domain leaves empty. -/
def cursorFieldsValid (c : CursorState) : Bool :=
  match c.domain with
  | .revision => c.position = 0 && c.revisionPublishedAt != zeroTime && c.revisionID != []
  | .history | .event => c.position != 0 && c.revisionPublishedAt = zeroTime && c.revisionID = []

def cursorPayload (s : Store) (c : CursorState) : Bytes :=
  [cursorVersion, c.domain.code] ++ s.cursorScope c.domain c.namespace_ c.slot ++ be 8 c.position ++
    (if c.domain = .revision then be 8 (twos64 (c.revisionPublishedAt / 1000000000)) else be 8 0) ++
    (if c.domain = .revision then be 4 (c.revisionPublishedAt % 1000000000).toNat else be 4 0) ++
    be 2 c.revisionID.length ++ c.revisionID

def newCursorLocked (s : Store) (c : CursorState) : Result Bytes :=
  if c.revisionID.length > 65535 then .error .internal
  else if !cursorFieldsValid c then .error .internal
  else if Base64.encodedLength (cursorFixedLen + c.revisionID.length) > maxIdentifierBytes then .error .internal
  else .ok (Base64.encode (s.cursorPayload c ++ hmac s.cursorKey (s.cursorPayload c)))

/-- The fields of an authenticated payload after its scope. -/
def decodeCursorFields (domain : CursorDomain) (namespace_ slot : Bytes) (fields : Bytes) : Result CursorState := do
  let position := beValue (fields.take 8)
  let publishedSeconds := signed64 (beValue ((fields.drop 8).take 8))
  let publishedNanos := beValue ((fields.drop 16).take 4)
  require (publishedNanos < 1000000000) .invalidArgument
  let revisionLen := beValue ((fields.drop 20).take 2)
  let revisionID := fields.drop 22
  require (revisionLen = revisionID.length) .invalidArgument
  match domain with
  | .revision =>
    let publishedAt := publishedSeconds * 1000000000 + publishedNanos
    require (position = 0 && revisionLen != 0 && publishedAt != zeroTime) .invalidArgument
    .ok ⟨domain, namespace_, slot, position, publishedAt, revisionID⟩
  | .history | .event =>
    require (position != 0 && publishedSeconds = 0 && publishedNanos = 0 && revisionLen = 0) .invalidArgument
    .ok ⟨domain, namespace_, slot, position, zeroTime, revisionID⟩

/-- The empty cursor decodes to Go's zero state, whose position is zero. -/
def cursorStateLocked (s : Store) (value : Bytes) (domain : CursorDomain) (namespace_ slot : Bytes) :
    Result CursorState :=
  if value = [] then .ok ⟨domain, [], [], 0, zeroTime, []⟩
  else if value.length > maxIdentifierBytes then .error .invalidArgument
  else
    match Base64.decode value with
    | none => .error .invalidArgument
    | some token =>
      if token.length < cursorFixedLen then .error .invalidArgument
      else
        let payload := token.take (token.length - cursorMACLen)
        if token.drop (token.length - cursorMACLen) ≠ hmac s.cursorKey payload ∨
            payload.take 2 ≠ [cursorVersion, domain.code] then .error .invalidArgument
        else if (payload.drop 2).take cursorScopeLen ≠ s.cursorScope domain namespace_ slot then
          .error .invalidArgument
        else decodeCursorFields domain namespace_ slot (payload.drop (2 + cursorScopeLen))

/-! ## Events -/

def nextEventSequenceLocked (s : Store) (namespace_ : Bytes) : Result Nat :=
  let highWater :=
    match s.events namespace_ with
    | none => 0
    | some state =>
      match state.values.getLast? with
      | none => state.expiredThrough
      | some last => max state.expiredThrough last.sequence
  if highWater = maxUint64 then .error .resourceExhausted else .ok (highWater + 1)

/-- The input's cursor and time are filled in here. -/
def newEventLocked (s : Store) (input : StateEvent) (occurredAt : Time) : Result EventRecord := do
  let sequence ← s.nextEventSequenceLocked input.namespace_
  let cursor ← s.newCursorLocked ⟨.event, input.namespace_, [], sequence, zeroTime, []⟩
  let value ← newStateEvent { input with cursor := cursor, occurredAt := occurredAt }
  .ok ⟨sequence, value⟩

/-- `sort.Search` over the retained events: how many of the leading ones do not satisfy `after`. -/
def searchEvents (values : List EventRecord) (after : EventRecord → Bool) : Nat :=
  go values.length 0 values.length
where
  go : Nat → Nat → Nat → Nat
    | 0, low, _ => low
    | fuel + 1, low, high =>
      if low < high then
        let middle := (low + high) / 2
        if (values[middle]?.map after).getD true then go fuel low middle else go fuel (middle + 1) high
      else low

def pruneEventsLocked (s : Store) (namespace_ : Bytes) (now : Time) : Store :=
  match s.events namespace_ with
  | none => s
  | some state =>
    let cutoff := now - defaultEventRetention
    let timeCut := searchEvents state.values fun e => e.value.occurredAt > cutoff
    let countCut := state.values.length - eventRetentionLimit
    let cut := max timeCut countCut
    match state.values[cut - 1]? with
    | none => s
    | some last =>
      if cut = 0 then s
      else
        { s with
          events := Function.update s.events namespace_
            (some ⟨state.values.drop cut, max state.expiredThrough last.sequence⟩) }

def appendEventLocked (s : Store) (event : EventRecord) (now : Time) : Store :=
  let namespace_ := event.value.namespace_
  let state := (s.events namespace_).getD ⟨[], 0⟩
  let s := { s with events := Function.update s.events namespace_ (some { state with values := state.values ++ [event] }) }
  s.pruneEventsLocked namespace_ now

/-! Each operation writes the fields it is named after and nothing else. -/

omit [Primitives] in
theorem effectiveTimeLocked_fst (s : Store) (t : Time) :
    (s.effectiveTimeLocked t).1 = { s with effectiveTime := (s.effectiveTimeLocked t).2 } := by
  unfold effectiveTimeLocked
  split <;> rfl

omit [Primitives] in
theorem notifyGenerationWaitersLocked_eq (s : Store) (namespace_ : Bytes) :
    s.notifyGenerationWaitersLocked namespace_ =
      { s with
        waiters := Function.update s.waiters namespace_ none
        closed := (s.notifyGenerationWaitersLocked namespace_).closed } := by
  unfold notifyGenerationWaitersLocked
  split
  next h => rw [← h, Function.update_eq_self]
  next => rfl

omit [Primitives] in
theorem pruneEventsLocked_eq (s : Store) (namespace_ : Bytes) (t : Time) :
    s.pruneEventsLocked namespace_ t = { s with events := (s.pruneEventsLocked namespace_ t).events } := by
  unfold pruneEventsLocked
  split
  · rfl
  · dsimp only
    split
    · rfl
    · split <;> rfl

omit [Primitives] in
theorem appendEventLocked_eq (s : Store) (event : EventRecord) (t : Time) :
    s.appendEventLocked event t = { s with events := (s.appendEventLocked event t).events } := by
  simp only [appendEventLocked]
  rw [pruneEventsLocked_eq]

end Store

end Cursors

end PolicyEngine.Memory
