import PolicyEngine.Memory.Store

/-!
# The memory store's calls, step by step

Each call is a small program whose atomic steps are its critical sections under
the store's mutex, the clock call made without it, the checks of its context in
between, and its waits. Two context checks with nothing between them are one step.
A step takes what the environment decides: the clock's reading (`none` when the
clock panics) and which ready case a `select` takes.
-/

open PolicyEngine.Lib

namespace PolicyEngine.Memory

/-- The caller's context: alive, or ended for a reason that never changes. -/
inductive Ctx where
  | alive
  | canceled
  | deadline
  deriving DecidableEq, Repr

/-- `contextSignaled` on the context's done channel. -/
def Ctx.signaled (c : Ctx) : Bool := c != .alive

def contextWaitError : Ctx → ErrorCategory
  | .alive => .internal
  | .canceled => .canceled
  | .deadline => .deadlineExceeded

/-- What the environment decides at one step. -/
structure Input where
  reading : Option Time
  preferDone : Bool

/-- `Store.now`: a panic and the zero time are both INTERNAL. -/
def now (reading : Option Time) : Result Time :=
  match reading with
  | none => .error .internal
  | some t => if t = zeroTime then .error .internal else .ok t

variable [Primitives]

/-! ## WriteData -/

/-- What the first critical section leaves for the commit. -/
structure Candidate where
  fingerprint : Bytes
  reservation : CommitReservation
  base : DataVersion
  version : DataVersion

/-- The response built with the candidate. -/
def Candidate.response (c : Candidate) : WriteDataResponse := ⟨c.version.generation, false⟩

inductive WritePc where
  | entry
  | reserve (fingerprint : Bytes)
  | locking (fingerprint : Bytes)
  | waiting (fingerprint : Bytes) (completed : Chan)
  | built (c : Candidate)
  | clock (c : Candidate)
  | clocked (c : Candidate) (now : Time)
  | committing (c : Candidate) (now : Time)
  | releasing (r : CommitReservation) (result : Result WriteDataResponse)
  | returned (result : Result WriteDataResponse)

def dataKey (namespace_ : Bytes) : CommitReservationKey := ⟨.data, namespace_, []⟩

def idempotencyRecord (state : Option DataState) (key : Bytes) : Option IdempotencyState :=
  match state with
  | none => none
  | some state => state.idempotency key

/-- The answer to a call whose idempotency key has a record. -/
def answerPrevious (previous : IdempotencyState) (fingerprint : Bytes) : Result WriteDataResponse :=
  if previous.fingerprint ≠ fingerprint then .error .conflict
  else newWriteDataResponse previous.response.generation true

/-- The version a write builds on; an unwritten namespace gets an empty one. -/
def baseVersion (state : Option DataState) (ptr : Nat) : DataVersion :=
  match state with
  | none => ⟨ptr, 0, .nil, .nil⟩
  | some state => state.current

/-- The checks of the first critical section, once the reservation is held: an answer, or a candidate. -/
def buildCandidate (s : Store) (request : WriteDataRequest) (fingerprint : Bytes) (reservation : CommitReservation) :
    Result WriteDataResponse ⊕ Candidate :=
  let state := s.data request.namespace_
  match idempotencyRecord state request.idempotencyKey with
  | some previous => .inl (answerPrevious previous fingerprint)
  | none =>
    match s.revisions request.namespace_ request.validationRevisionID with
    | none => .inl (.error .notFound)
    | some _ =>
      let currentGeneration := (state.map (·.generation)).getD 0
      if currentGeneration ≠ request.expectedGeneration then .inl (.error .conflict)
      else if currentGeneration = maxUint64 then .inl (.error .resourceExhausted)
      else
        match s.nextEventSequenceLocked request.namespace_ with
        | .error e => .inl (.error e)
        | .ok _ =>
          let base := baseVersion state s.nextRef
          match applyMutations base request with
          | none => .inl (.error .conflict)
          | some (tuples, attributes) =>
            let generation := currentGeneration + 1
            match newWriteDataResponse generation false with
            | .error e => .inl (.error e)
            | .ok _ => .inr ⟨fingerprint, reservation, base, ⟨s.nextRef + 1, generation, tuples, attributes⟩⟩

/-- The first critical section. -/
def writeDataLocked (s : Store) (request : WriteDataRequest) (fingerprint : Bytes) : Store × WritePc :=
  let s := s.lock
  match s.reserveCommitLocked (dataKey request.namespace_) with
  | (s, none) =>
    match s.reservations (dataKey request.namespace_) with
    | some pending =>
      if pending.operation = ascii "data" ∧ pending.idempotencyKey = request.idempotencyKey ∧
          pending.fingerprint = fingerprint then
        (s.unlock, .waiting fingerprint pending.done)
      else (s.unlock, .returned (.error .conflict))
    | none => (s.unlock, .returned (.error .conflict))
  | (s, some reservation) =>
    let reservation :=
      { reservation with
        operation := ascii "data"
        idempotencyKey := request.idempotencyKey
        fingerprint := fingerprint }
    let s := s.markReservation reservation
    match buildCandidate s request fingerprint reservation with
    | .inl result => ((s.releaseCommitReservationLocked reservation).unlock, .returned result)
    | .inr candidate => ({ s with nextRef := s.nextRef + 2 }.unlock, .built candidate)

/-- The namespace is no longer at the version the candidate was built on. -/
def staleCandidate (request : WriteDataRequest) (c : Candidate) : Option DataState → Bool
  | none => request.expectedGeneration != 0 || c.base.generation != 0
  | some state => state.generation != request.expectedGeneration || state.current.ptr != c.base.ptr

/-- The preconditions checked again after the clock call: an answer, or the state to commit over. -/
def recheckCandidate (s : Store) (request : WriteDataRequest) (c : Candidate) :
    Result WriteDataResponse ⊕ Option DataState :=
  let state := s.data request.namespace_
  if staleCandidate request c state then .inl (.error .conflict)
  else
    match s.revisions request.namespace_ request.validationRevisionID with
    | none => .inl (.error .notFound)
    | some _ =>
      match idempotencyRecord state request.idempotencyKey with
      | some previous => .inl (answerPrevious previous c.fingerprint)
      | none =>
        match s.nextEventSequenceLocked request.namespace_ with
        | .error e => .inl (.error e)
        | .ok _ => .inr state

/-- Publishes a candidate: generation, version, idempotency record, wake-up and event. -/
def publishCandidate (s : Store) (request : WriteDataRequest) (c : Candidate) (state : Option DataState)
    (event : EventRecord) (now : Time) : Store :=
  let idempotency := (state.map (·.idempotency)).getD fun _ => none
  let state : DataState :=
    ⟨c.version.generation, c.version,
      Function.update idempotency request.idempotencyKey (some ⟨c.fingerprint, c.response⟩)⟩
  let s := { s with data := Function.update s.data request.namespace_ (some state) }
  (s.notifyGenerationWaitersLocked request.namespace_).appendEventLocked event now

def dataWrittenEvent (request : WriteDataRequest) (generation : Nat) : StateEvent :=
  ⟨request.namespace_, [], .dataWritten, [], [], 0, generation, zeroTime⟩

/-- The second critical section; its answer is returned once the reservation is released. -/
def writeDataCommit (s : Store) (ctx : Ctx) (request : WriteDataRequest) (c : Candidate) (now : Time) :
    Store × Result WriteDataResponse :=
  let s := s.lock
  if !s.ownsCommitReservationLocked c.reservation then (s.unlock, .error .internal)
  else if ctx.signaled then (s.unlock, .error (contextWaitError ctx))
  else
    match recheckCandidate s request c with
    | .inl result => (s.unlock, result)
    | .inr state =>
      let (s, now) := s.effectiveTimeLocked now
      match s.newEventLocked (dataWrittenEvent request c.version.generation) now with
      | .error e => (s.unlock, .error e)
      | .ok event => ((publishCandidate s request c state event now).unlock, .ok c.response)

/-- Releases a reservation after a commit attempt. -/
def releaseCommitReservation (s : Store) (r : CommitReservation) : Store :=
  (s.lock.releaseCommitReservationLocked r).unlock

def writeDataStep (s : Store) (ctx : Ctx) (request : WriteDataRequest) (input : Input) :
    WritePc → Option (Store × WritePc)
  | .entry =>
    if ctx.signaled then some (s, .returned (.error (contextWaitError ctx)))
    else
      match fingerprintWriteData request with
      | .error e => some (s, .returned (.error e))
      | .ok fingerprint => some (s, .reserve fingerprint)
  | .reserve fingerprint =>
    if ctx.signaled then some (s, .returned (.error (contextWaitError ctx))) else some (s, .locking fingerprint)
  | .locking fingerprint => if s.mu then none else some (writeDataLocked s request fingerprint)
  | .waiting fingerprint completed =>
    if ctx.signaled && (input.preferDone || !s.closed.contains completed) then
      some (s, .returned (.error (contextWaitError ctx)))
    else if s.closed.contains completed then some (s, .reserve fingerprint)
    else none
  | .built c =>
    if ctx.signaled then some (s, .releasing c.reservation (.error (contextWaitError ctx))) else some (s, .clock c)
  | .clock c =>
    match now input.reading with
    | .error e => some (s, .releasing c.reservation (.error e))
    | .ok t => some (s, .clocked c t)
  | .clocked c t =>
    if ctx.signaled then some (s, .releasing c.reservation (.error (contextWaitError ctx)))
    else some (s, .committing c t)
  | .committing c t =>
    if s.mu then none
    else
      let (s, result) := writeDataCommit s ctx request c t
      some (s, .releasing c.reservation result)
  | .releasing r result => if s.mu then none else some (releaseCommitReservation s r, .returned result)
  | .returned _ => none

/-! ## Activate -/

inductive ActivatePc where
  | entry
  | locking
  | built (r : CommitReservation) (generation : Nat)
  | clock (r : CommitReservation) (generation : Nat)
  | clocked (r : CommitReservation) (generation : Nat) (now : Time)
  | committing (r : CommitReservation) (generation : Nat) (now : Time)
  | releasing (r : CommitReservation) (result : Result Activation)
  | returned (result : Result Activation)

def slotKey (namespace_ slot : Bytes) : CommitReservationKey := ⟨.slot, namespace_, slot⟩

def activationExpectationMatches (expectation : SlotExpectation) (state : Option SlotState) : Bool :=
  if expectation.isUnset then state.isNone
  else
    match expectation.active?, state with
    | some (revisionID, generation), some state =>
      state.current.revisionID == revisionID && state.current.generation == generation
    | _, _ => false

/-- The checks both critical sections make: the generation the activation would get. -/
def nextSlotGeneration (s : Store) (request : ActivateRequest) : Result Nat :=
  match s.revisions request.namespace_ request.targetRevisionID with
  | none => .error .notFound
  | some _ =>
    let state := s.slots request.namespace_ request.slot
    if !activationExpectationMatches request.expectation state then .error .conflict
    else
      match state with
      | none => .ok 1
      | some state =>
        if state.current.generation = maxUint64 then .error .resourceExhausted else .ok (state.current.generation + 1)

def activateLocked (s : Store) (request : ActivateRequest) : Store × ActivatePc :=
  let s := s.lock
  match s.reserveCommitLocked (slotKey request.namespace_ request.slot) with
  | (s, none) => (s.unlock, .returned (.error .conflict))
  | (s, some reservation) =>
    let checked := do
      let generation ← nextSlotGeneration s request
      let _ ← s.nextEventSequenceLocked request.namespace_
      .ok generation
    match checked with
    | .error e => ((s.releaseCommitReservationLocked reservation).unlock, .returned (.error e))
    | .ok generation => (s.unlock, .built reservation generation)

def slotActivatedEvent (request : ActivateRequest) (generation : Nat) : StateEvent :=
  ⟨request.namespace_, [], .slotActivated, request.targetRevisionID, request.slot, generation, 0, zeroTime⟩

/-- The slot after an activation: the newest three are kept. -/
def SlotState.push (state : Option SlotState) (activation : Activation) : SlotState :=
  let history := (state.map (·.history)).getD [] ++ [activation]
  ⟨activation, history.drop (history.length - activationHistoryRetention)⟩

def publishActivation (s : Store) (activation : Activation) (event : EventRecord) (now : Time) : Store :=
  let bySlot := s.slots activation.namespace_
  let state := SlotState.push (bySlot activation.slot) activation
  let bySlot := Function.update bySlot activation.slot (some state)
  { s with slots := Function.update s.slots activation.namespace_ bySlot }.appendEventLocked event now

def activateCommit (s : Store) (ctx : Ctx) (request : ActivateRequest) (r : CommitReservation) (generation : Nat)
    (now : Time) : Store × Result Activation :=
  let s := s.lock
  if !s.ownsCommitReservationLocked r then (s.unlock, .error .internal)
  else if ctx.signaled then (s.unlock, .error (contextWaitError ctx))
  else
    let checked := do
      let currentGeneration ← nextSlotGeneration s request
      require (currentGeneration = generation) .conflict
      let _ ← s.nextEventSequenceLocked request.namespace_
      .ok ()
    match checked with
    | .error e => (s.unlock, .error e)
    | .ok _ =>
      let (s, now) := s.effectiveTimeLocked now
      let prepared := do
        let activation ← newActivation request.namespace_ request.slot request.targetRevisionID generation now
        let response ← newActivateResponse activation
        let event ← s.newEventLocked (slotActivatedEvent request generation) now
        .ok (response, event)
      match prepared with
      | .error e => (s.unlock, .error e)
      | .ok (activation, event) => ((publishActivation s activation event now).unlock, .ok activation)

def activateStep (s : Store) (ctx : Ctx) (request : ActivateRequest) (input : Input) :
    ActivatePc → Option (Store × ActivatePc)
  | .entry =>
    if ctx.signaled then some (s, .returned (.error (contextWaitError ctx)))
    else
      match newActivateRequest request.namespace_ request.slot request.targetRevisionID request.expectation with
      | .error _ => some (s, .returned (.error .invalidArgument))
      | .ok _ => some (s, .locking)
  | .locking => if s.mu then none else some (activateLocked s request)
  | .built r g =>
    if ctx.signaled then some (s, .releasing r (.error (contextWaitError ctx))) else some (s, .clock r g)
  | .clock r g =>
    match now input.reading with
    | .error e => some (s, .releasing r (.error e))
    | .ok t => some (s, .clocked r g t)
  | .clocked r g t =>
    if ctx.signaled then some (s, .releasing r (.error (contextWaitError ctx))) else some (s, .committing r g t)
  | .committing r g t =>
    if s.mu then none
    else
      let (s, result) := activateCommit s ctx request r g t
      some (s, .releasing r result)
  | .releasing r result => if s.mu then none else some (releaseCommitReservation s r, .returned result)
  | .returned _ => none

/-! ## PutRevision -/

inductive PutPc where
  | entry
  | locking
  | waiting (done : Chan)
  | found (existing : RevisionRecord)
  | built (r : CommitReservation)
  | clock (r : CommitReservation)
  | clocked (r : CommitReservation) (now : Time)
  | committing (r : CommitReservation) (now : Time)
  | releasing (r : CommitReservation) (result : Result PutRevisionResult)
  | returned (result : Result PutRevisionResult)

/-- The whole revision domain of a namespace is reserved by one publication. -/
def revisionKey (namespace_ : Bytes) : CommitReservationKey := ⟨.revision, namespace_, []⟩

def putRevisionLocked (s : Store) (write : RevisionWrite) : Store × PutPc :=
  let s := s.lock
  let namespace_ := write.metadata.namespace_
  match s.reserveCommitLocked (revisionKey namespace_) with
  | (s, none) =>
    match s.reservations (revisionKey namespace_) with
    | some current => (s.unlock, .waiting current.done)
    | none => (s.unlock, .returned (.error .internal))
  | (s, some reservation) =>
    match s.revisions namespace_ write.metadata.id with
    | some existing => ((s.releaseCommitReservationLocked reservation).unlock, .found existing)
    | none =>
      match s.nextEventSequenceLocked namespace_ with
      | .error e => ((s.releaseCommitReservationLocked reservation).unlock, .returned (.error e))
      | .ok _ => (s.unlock, .built reservation)

/-- The answer when the revision is already stored. -/
def answerExisting (existing : RevisionRecord) (write : RevisionWrite) : Result PutRevisionResult :=
  if existing.artifact ≠ write.artifact then .error .integrity else newPutRevisionResult existing false

def revisionPublishedEvent (record : RevisionRecord) : StateEvent :=
  ⟨record.metadata.namespace_, [], .revisionPublished, record.metadata.id, [], 0, 0, zeroTime⟩

def publishRevision (s : Store) (record : RevisionRecord) (event : EventRecord) (now : Time) : Store :=
  let namespace_ := record.metadata.namespace_
  let ordered := revisionSet (s.revisionOrder namespace_) record
  let byID := Function.update (s.revisions namespace_) record.metadata.id (some record)
  { s with
    revisions := Function.update s.revisions namespace_ byID
    revisionOrder := Function.update s.revisionOrder namespace_ ordered }.appendEventLocked event now

def putRevisionCommit (s : Store) (ctx : Ctx) (write : RevisionWrite) (r : CommitReservation) (now : Time) :
    Store × Result PutRevisionResult :=
  let s := s.lock
  if !s.ownsCommitReservationLocked r then (s.unlock, .error .internal)
  else if ctx.signaled then (s.unlock, .error (contextWaitError ctx))
  else
    match s.revisions write.metadata.namespace_ write.metadata.id with
    | some existing => (s.unlock, answerExisting existing write)
    | none =>
      match s.nextEventSequenceLocked write.metadata.namespace_ with
      | .error e => (s.unlock, .error e)
      | .ok _ =>
        let (s, now) := s.effectiveTimeLocked now
        match s.newEventLocked (revisionPublishedEvent write) now with
        | .error e => (s.unlock, .error e)
        | .ok event => ((publishRevision s write event now).unlock, .ok ⟨write, true⟩)

/-- The checks made before anything shared is touched. -/
def putRevisionPrepare (write : RevisionWrite) : Result Unit := do
  require write.Valid .invalidArgument
  let record ← newRevisionRecordFromWrite write
  let _ ← newPutRevisionResult record true
  .ok ()

def putRevisionStep (s : Store) (ctx : Ctx) (write : RevisionWrite) (input : Input) : PutPc → Option (Store × PutPc)
  | .entry =>
    if ctx.signaled then some (s, .returned (.error (contextWaitError ctx)))
    else
      match putRevisionPrepare write with
      | .error e => some (s, .returned (.error e))
      | .ok _ => some (s, .locking)
  | .locking => if s.mu then none else some (putRevisionLocked s write)
  | .waiting done =>
    -- both ready cases of the select look at the context next
    if ctx.signaled then some (s, .returned (.error (contextWaitError ctx)))
    else if s.closed.contains done then some (s, .locking)
    else none
  | .found existing =>
    if ctx.signaled then some (s, .returned (.error (contextWaitError ctx)))
    else some (s, .returned (answerExisting existing write))
  | .built r =>
    if ctx.signaled then some (s, .releasing r (.error (contextWaitError ctx))) else some (s, .clock r)
  | .clock r =>
    match now input.reading with
    | .error e => some (s, .releasing r (.error e))
    | .ok t => some (s, .clocked r t)
  | .clocked r t =>
    if ctx.signaled then some (s, .releasing r (.error (contextWaitError ctx))) else some (s, .committing r t)
  | .committing r t =>
    if s.mu then none
    else
      let (s, result) := putRevisionCommit s ctx write r t
      some (s, .releasing r result)
  | .releasing r result => if s.mu then none else some (releaseCommitReservation s r, .returned result)
  | .returned _ => none

/-! ## ListEvents -/

inductive ListEventsPc where
  | entry
  | clock (position : Nat)
  | locking (position : Nat) (now : Time)
  | listed (position : Nat) (values : List EventRecord) (expiredThrough : Nat)
  | returned (result : Result (Page StateEvent))

/-- The page cut out of the retained events. -/
def eventPage (request : ListEventsRequest) (position : Nat) (values : List EventRecord) (expiredThrough : Nat) :
    Result (Page StateEvent) :=
  if request.afterCursor ≠ [] ∧ position ≤ expiredThrough then .error .cursorExpired
  else
    let start := Store.searchEvents values fun e => e.sequence > position
    let rest := values.drop start
    let page := (rest.take request.limit).map (·.value)
    let next := if request.limit < rest.length then (page.getLast?.map (·.cursor)).getD [] else []
    newListEventsResponse request page next

def listEventsStep (s : Store) (ctx : Ctx) (request : ListEventsRequest) (input : Input) :
    ListEventsPc → Option (Store × ListEventsPc)
  | .entry =>
    if ctx.signaled then some (s, .returned (.error (contextWaitError ctx)))
    else
      match newListEventsRequest request.namespace_ request.afterCursor request.limit with
      | .error _ => some (s, .returned (.error .invalidArgument))
      | .ok _ =>
        match s.cursorStateLocked request.afterCursor .event request.namespace_ [] with
        | .error e => some (s, .returned (.error e))
        | .ok cursor => some (s, .clock cursor.position)
  | .clock position =>
    if ctx.signaled then some (s, .returned (.error (contextWaitError ctx)))
    else
      match now input.reading with
      | .error e => some (s, .returned (.error e))
      | .ok t => some (s, .locking position t)
  | .locking position t =>
    if ctx.signaled then some (s, .returned (.error (contextWaitError ctx)))
    else if s.mu then none
    else
      let (s, t) := s.lock.effectiveTimeLocked t
      let s := s.pruneEventsLocked request.namespace_ t
      let state := (s.events request.namespace_).getD ⟨[], 0⟩
      some (s.unlock, .listed position state.values state.expiredThrough)
  | .listed position values expiredThrough =>
    match eventPage request position values expiredThrough with
    | .error .cursorExpired => some (s, .returned (.error .cursorExpired))
    | page =>
      if ctx.signaled then some (s, .returned (.error (contextWaitError ctx))) else some (s, .returned page)
  | .returned _ => none

/-! ## OpenSnapshot -/

structure SnapshotRequest where
  namespace_ : Bytes
  minimumGeneration : Nat
  readAt : Time
  deriving DecidableEq, Repr

/-- A pinned view. -/
structure SnapshotView where
  namespace_ : Bytes
  generation : Nat
  minimum : Nat
  readAt : Time
  version : DataVersion

inductive SnapshotPc where
  | entry
  | locking
  | opened (view : SnapshotView)
  | waiting (changed : Chan)
  | unregistering (changed : Chan) (error : Option ErrorCategory)
  | returned (result : Result SnapshotView)

def SnapshotRequest.valid (r : SnapshotRequest) : Bool := validNamespace r.namespace_ && r.readAt != zeroTime

def openSnapshotLocked (s : Store) (request : SnapshotRequest) : Store × SnapshotPc :=
  let s := s.lock
  let state := s.data request.namespace_
  let generation := (state.map (·.generation)).getD 0
  if generation ≥ request.minimumGeneration then
    let version := baseVersion state s.nextRef
    ({ s with nextRef := s.nextRef + 1 }.unlock,
      .opened ⟨request.namespace_, generation, request.minimumGeneration, request.readAt, version⟩)
  else
    let (s, wait) := s.registerGenerationWaitLocked request.namespace_
    (s.unlock, .waiting wait.changed)

def openSnapshotStep (s : Store) (ctx : Ctx) (request : SnapshotRequest) (input : Input) :
    SnapshotPc → Option (Store × SnapshotPc)
  | .entry =>
    if ctx.signaled then some (s, .returned (.error (contextWaitError ctx)))
    else if !request.valid then some (s, .returned (.error .invalidArgument))
    else some (s, .locking)
  | .locking =>
    if ctx.signaled then some (s, .returned (.error (contextWaitError ctx)))
    else if s.mu then none
    else some (openSnapshotLocked s request)
  | .opened view =>
    if ctx.signaled then some (s, .returned (.error (contextWaitError ctx))) else some (s, .returned (.ok view))
  | .waiting changed =>
    if ctx.signaled && (input.preferDone || !s.closed.contains changed) then
      some (s, .unregistering changed (some (contextWaitError ctx)))
    else if s.closed.contains changed then some (s, .unregistering changed none)
    else none
  | .unregistering changed error =>
    if s.mu then none
    else
      let s := (s.lock.unregisterGenerationWaitLocked request.namespace_ changed).unlock
      match error with
      | some e => some (s, .returned (.error e))
      | none => some (s, .locking)
  | .returned _ => none

end PolicyEngine.Memory
