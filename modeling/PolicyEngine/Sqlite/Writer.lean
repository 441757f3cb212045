import PolicyEngine.Lib.Runs
import PolicyEngine.Sqlite.Listings

/-!
# A write and the writer goroutine

`database.write`, `writerLoop` and `executeWrite` (`store/sqlite/writer.go`) as one
call sees them. Its caller puts a request in the queue and waits for the result, for its
context or for the closing of the store. The writer takes the request at some time, looks
at its context and at the closing, runs the callback in a transaction, looks at the
context once more, commits and delivers the result. Between the requests it takes, the
writer serves other calls. A transaction is atomic: COMMIT replaces the whole database,
or fails and leaves it.

A caller that leaves for its context or for the closing returns an error, whatever the
writer does with its request. The request is stopped if the writer still looks at what
the caller left for, and is committed otherwise.
-/

open PolicyEngine.Lib

namespace PolicyEngine.Sqlite.Writer

/-- What a callback leaves for its caller. -/
structure Answer where
  /-- The error that the caller returns after a write that succeeded. -/
  error : Option ErrorCategory
  /-- The namespace whose generation waiters the caller notifies. -/
  notify : Option Bytes
  deriving DecidableEq

/-- A callback of `write`. A caller fails after its write only when nothing was written. -/
structure WriteFunc (σ : Type) where
  run : Clock → σ → Result (Answer × σ)
  quiet : ∀ clock db answer db', run clock db = .ok (answer, db') → answer.error ≠ none → db' = db

inductive Pc
  /-- Before the request is in the queue. -/
  | calling
  /-- In the second `select` of `write`. -/
  | waiting
  /-- `write` has returned without an error. -/
  | answered (answer : Answer)
  | returned (error : Option ErrorCategory)
  deriving DecidableEq

/-- Where the request is. -/
inductive Stage (σ : Type)
  | unsent
  | queued
  | taken
  /-- In `executeWrite`, before each of its steps. -/
  | entered
  | opened
  | beginning
  | running
  | computed (answer : Answer) (db : σ)
  | committing (answer : Answer) (db : σ)
  /-- `executeWrite` has returned. -/
  | finished (result : Result Answer)
  /-- The result is in the request's channel. -/
  | delivered (result : Result Answer)

/-- A COMMIT that succeeded. -/
structure Commit (σ : Type) where
  answer : Answer
  before : σ
  after : σ

structure State (σ : Type) where
  /-- The durable state. -/
  db : σ
  closed : Bool
  /-- Why the context is done. -/
  done : Option ErrorCategory
  pc : Pc
  stage : Stage σ
  /-- The COMMIT of the request. -/
  commit : Option (Commit σ)

/-- What decides a step of the writer from outside. -/
structure Environment where
  clock : Clock
  /-- The error of a statement. -/
  fault : Option ErrorCategory

inductive Action (σ : Type)
  /-- The context ends. -/
  | cancel (deadline : Bool)
  | close
  /-- An error before admission: the context, the request or the closing. -/
  | refuse (error : ErrorCategory)
  | send
  | receive
  | leaveClosed
  | leaveContext
  /-- What the caller does after a `write` without an error. -/
  | finish
  | writer (env : Environment)
  /-- The writer serves another request. -/
  | other (db : σ)

variable {σ : Type}

/-- The writer is busy with the request. -/
def Stage.held : Stage σ → Bool
  | .unsent | .queued | .delivered _ => false
  | _ => true

/-- The callback, unless a statement of it fails. -/
def Environment.callback (prepared : Result (WriteFunc σ)) (env : Environment) (db : σ) : Result (Answer × σ) :=
  match env.fault with
  | some e => .error e
  | none => do (← prepared).run env.clock db

/-- One step of the writer with the request, in `writerLoop` or in `executeWrite`. -/
def State.write (prepared : Result (WriteFunc σ)) (s : State σ) (env : Environment) : Option (State σ) :=
  let become (stage : Stage σ) : Option (State σ) := some { s with stage := stage }
  match s.stage with
  | .unsent => none
  | .queued => become .taken
  | .taken => if s.closed then become (.delivered (.error .unavailable)) else become .entered
  | .entered =>
    match s.done with
    | some e => become (.finished (.error e))
    | none => become .opened
  | .opened => if s.closed then become (.finished (.error .unavailable)) else become .beginning
  | .beginning =>
    match env.fault with
    | some e => become (.finished (.error e))
    | none => become .running
  | .running =>
    match env.callback prepared s.db with
    | .error e => become (.finished (.error e))
    | .ok (answer, db) => become (.computed answer db)
  | .computed answer db =>
    match s.done with
    | some e => become (.finished (.error e))
    | none => become (.committing answer db)
  | .committing answer db =>
    match env.fault with
    | some e => become (.finished (.error e))
    | none => some { s with db := db, stage := .finished (.ok answer), commit := some ⟨answer, s.db, db⟩ }
  | .finished result => become (.delivered result)
  | .delivered _ => none

def step (prepared : Result (WriteFunc σ)) (s : State σ) : Action σ → Option (State σ)
  | .cancel deadline =>
    if s.done.isSome then none else some { s with done := some (if deadline then .deadlineExceeded else .canceled) }
  | .close => some { s with closed := true }
  | .refuse e => if s.pc = .calling then some { s with pc := .returned (some e) } else none
  | .send => if s.pc = .calling ∧ prepared.isOk then some { s with pc := .waiting, stage := .queued } else none
  | .receive =>
    match s.pc, s.stage with
    | .waiting, .delivered (.error e) => some { s with pc := .returned (some e) }
    | .waiting, .delivered (.ok answer) => some { s with pc := .answered answer }
    | _, _ => none
  | .leaveClosed =>
    match s.pc, s.stage with
    | .waiting, .delivered _ => none
    | .waiting, _ => if s.closed then some { s with pc := .returned (some .unavailable) } else none
    | _, _ => none
  | .leaveContext => if s.pc = .waiting then s.done.map fun e => { s with pc := .returned (some e) } else none
  | .finish =>
    match s.pc with
    | .answered answer => some { s with pc := .returned answer.error }
    | _ => none
  | .writer env => s.write prepared env
  | .other db => if s.stage.held then none else some { s with db := db }

/-! ## The calls that write -/

/-- A callback whose caller returns what the callback left. -/
def WriteFunc.of {α : Type} (tx : Clock → σ → Result (α × σ)) (notify : α → Option Bytes) : WriteFunc σ where
  run clock db := do
    let (value, db) ← tx clock db
    .ok (⟨none, notify value⟩, db)
  quiet clock db answer db' h herror := by
    obtain ⟨⟨value, db₁⟩, -, h⟩ := bind_eq_ok.1 h
    obtain ⟨rfl, -⟩ := Prod.mk.injEq .. ▸ Except.ok.inj h
    exact absurd rfl herror

inductive Mutation
  | putRevision (write : RevisionWrite)
  | activate (request : ActivateRequest)
  | writeData (request : WriteDataRequest)

section

variable [Primitives]

/-- A revision that is there already is read and nothing is written. -/
theorem putRevisionTx_existing {s db db' clock record existing publishedAtNS provenance}
    (h : putRevisionTx s db clock record publishedAtNS provenance = .ok (some existing, db')) : db' = db := by
  rw [putRevisionTx] at h
  obtain ⟨found, -, h⟩ := bind_eq_ok.1 h
  cases found with
  | some stored =>
    dsimp only at h
    split at h
    · cases h
    · exact (Prod.mk.injEq .. ▸ Except.ok.inj h).2.symm
  | none =>
    obtain ⟨_, -, h⟩ := bind_eq_ok.1 h
    obtain ⟨_, -, h⟩ := bind_eq_ok.1 h
    obtain ⟨_, -, h⟩ := bind_eq_ok.1 h
    exact absurd (Prod.mk.injEq .. ▸ Except.ok.inj h).1 (by simp)

/-- PutRevision fails after its write when the stored record does not make a result. -/
def putRevisionFunc (s : Store) (record : RevisionRecord) (publishedAtNS : Int64) (provenance : Bytes) :
    WriteFunc Database where
  run clock db := do
    let (existing, db) ← putRevisionTx s db clock record publishedAtNS provenance
    match existing.map (newPutRevisionResult · false) with
    | some (.error e) => .ok (⟨some e, none⟩, db)
    | _ => .ok (⟨none, none⟩, db)
  quiet clock db answer db' h herror := by
    obtain ⟨⟨existing, db₁⟩, htx, h⟩ := bind_eq_ok.1 h
    dsimp only at h
    split at h
    next hresult =>
      obtain ⟨stored, rfl, -⟩ := Option.map_eq_some_iff.1 hresult
      exact (Prod.mk.injEq .. ▸ Except.ok.inj h).2.symm.trans (putRevisionTx_existing htx)
    next =>
      obtain ⟨rfl, -⟩ := Prod.mk.injEq .. ▸ Except.ok.inj h
      exact absurd rfl herror

/-- What each call does before it asks for the writer. -/
def Mutation.prepare (s : Store) : Mutation → Result (WriteFunc Database)
  | .putRevision write => do
    let (record, publishedAtNS, provenance) ← canonicalRevisionRecord write
    let _ ← orFail .internal (newPutRevisionResult record true)
    .ok (putRevisionFunc s record publishedAtNS provenance)
  | .activate request => do
    let _ ← newActivateRequest request.namespace_ request.slot request.targetRevisionID request.expectation
    .ok (.of (fun clock db => activateTx s db clock request) fun _ => none)
  | .writeData request => do
    let canonical ← newWriteDataRequest request
    let fingerprint ← fingerprintWriteData canonical
    let fingerprintEncoded ← encodeIdempotencyFingerprint fingerprint
    .ok (.of (fun clock db => writeDataTx s db clock canonical fingerprint fingerprintEncoded)
      fun response => if response.replayed then none else some canonical.namespace_)

end

/-- A call that has not started, on an open store. -/
def Started (s : State σ) : Prop := s.closed = false ∧ s.pc = .calling ∧ s.stage = .unsent ∧ s.commit = none

/-! ## A failed write -/

/-- A call that returned an error committed nothing that changed the database. -/
def NoEffect (s : State σ) : Prop :=
  ∀ e, s.pc = .returned (some e) → ∀ c, s.commit = some c → c.after = c.before

/-- A request without a caller changes nothing: the writer's remaining looks at the closing and at the context stop it, or
it is over and has changed nothing. -/
def Stage.Stops (closed done : Bool) : Stage σ → Prop
  | .queued | .taken | .entered | .opened => closed = true ∨ done = true
  | .beginning | .running | .computed _ _ => done = true
  | .committing _ _ => False
  | .finished result | .delivered result => ∀ answer, result = .ok answer → answer.error ≠ none
  | .unsent => True

/-- A caller leaves only at a stage from which its request changes nothing. -/
def Timely (s : State σ) : Action σ → Prop
  | .leaveContext | .leaveClosed => s.stage.Stops s.closed s.done.isSome
  | _ => True

/-- A transaction whose caller will fail leaves what it found. -/
def Stage.Quiet (before : σ) : Stage σ → Prop
  | .computed answer db | .committing answer db => answer.error ≠ none → db = before
  | _ => True

/-- Where the request of a caller is. -/
def Pc.Fits (stage : Stage σ) : Pc → Prop
  | .calling => stage = .unsent
  | .answered answer => stage = .delivered (.ok answer)
  | .returned none => ∃ answer, stage = .delivered (.ok answer)
  | _ => True

structure Inv (s : State σ) : Prop where
  quiet : s.stage.Quiet s.db
  committed : ∀ c, s.commit = some c → (s.stage = .finished (.ok c.answer) ∨ s.stage = .delivered (.ok c.answer)) ∧
    (c.answer.error ≠ none → c.after = c.before)
  fits : s.pc.Fits s.stage
  returned : ∀ e, s.pc = .returned (some e) → s.stage.Stops s.closed s.done.isSome

variable {s s' : State σ}

theorem Started.inv (h : Started s) : Inv s := by
  obtain ⟨-, hpc, hstage, hcommit⟩ := h
  constructor <;> simp [hpc, hstage, hcommit, Stage.Quiet, Pc.Fits]

theorem Inv.noEffect (h : Inv s) : NoEffect s := by
  intro e hpc c hc
  obtain ⟨hwhere, hquiet⟩ := h.committed c hc
  have hstops := h.returned e hpc
  rcases hwhere with hstage | hstage <;> rw [hstage] at hstops <;> exact hquiet (hstops _ rfl)

variable {prepared : Result (WriteFunc σ)} {env : Environment} {a : Action σ}

theorem callback_quiet {db db' answer} (h : env.callback prepared db = .ok (answer, db'))
    (herror : answer.error ≠ none) : db' = db := by
  unfold Environment.callback at h
  split at h
  · cases h
  · obtain ⟨fn, -, hrun⟩ := bind_eq_ok.1 h
    exact fn.quiet _ _ _ _ hrun herror

/-- While the writer may work on a request, its caller waits for it or has failed. -/
theorem Pc.Fits.active {pc : Pc} {stage : Stage σ} (h : pc.Fits stage) (hunsent : stage ≠ .unsent)
    (hdelivered : ∀ result, stage ≠ .delivered result) (next : Stage σ) : pc.Fits next := by
  cases pc with
  | calling => exact absurd h hunsent
  | waiting => trivial
  | answered answer => exact absurd h (hdelivered _)
  | returned error =>
    cases error with
    | none => exact absurd h.choose_spec (hdelivered _)
    | some e => trivial

/-- What the writer keeps: a request that is stopped stays so, up to its result. -/
theorem Inv.write (h : Inv s) (hs : s.write prepared env = some s') : Inv s' := by
  obtain ⟨hquiet, hcommitted, hfits, hreturned⟩ := h
  have hactive : ∀ next : Stage σ, s.pc.Fits next := by
    refine hfits.active ?_ fun result => ?_ <;> intro hstage <;> simp [State.write, hstage] at hs
  have hcallback : ∀ answer db, env.callback prepared s.db = .ok (answer, db) → answer.error ≠ none → db = s.db :=
    fun _ _ => callback_quiet
  unfold State.write at hs
  split at hs <;> repeat' split at hs
  all_goals cases hs
  all_goals refine ⟨?_, ?_, hactive _, ?_⟩ <;> grind [Stage.Quiet, Stage.Stops]

theorem Stage.Stops.mono {stage : Stage σ} {closed closed' done done' : Bool} (h : stage.Stops closed done)
    (hclosed : closed = true → closed' = true) (hdone : done = true → done' = true) : stage.Stops closed' done' := by
  cases stage with
  | queued | taken | entered | opened => exact Or.imp hclosed hdone h
  | beginning | running | computed => exact hdone h
  | unsent | committing | finished | delivered => exact h

theorem Inv.step (h : Inv s) (ha : Timely s a) (hs : Writer.step prepared s a = some s') : Inv s' := by
  cases a with
  | cancel deadline =>
    simp only [Writer.step] at hs
    split at hs
    · cases hs
    · cases hs
      exact ⟨h.quiet, h.committed, h.fits, fun e he => (h.returned e he).mono id fun _ => rfl⟩
  | close =>
    cases hs
    exact ⟨h.quiet, h.committed, h.fits, fun e he => (h.returned e he).mono (fun _ => rfl) id⟩
  | refuse e =>
    obtain ⟨hpc, hs⟩ := Option.ite_none_right_eq_some.1 hs
    cases hs
    have hunsent := h.fits
    rw [hpc, Pc.Fits] at hunsent
    exact ⟨h.quiet, h.committed, trivial, fun _ _ => by rw [hunsent]; trivial⟩
  | send =>
    obtain ⟨⟨hpc, -⟩, hs⟩ := Option.ite_none_right_eq_some.1 hs
    cases hs
    have hunsent := h.fits
    rw [hpc, Pc.Fits] at hunsent
    exact ⟨trivial, fun c hc => by simpa [hunsent] using (h.committed c hc).1, trivial, nofun⟩
  | receive =>
    simp only [Writer.step] at hs
    split at hs
    next hstage =>
      cases hs
      exact ⟨h.quiet, h.committed, trivial, fun _ _ => by rw [hstage]; exact nofun⟩
    next hstage =>
      cases hs
      exact ⟨h.quiet, h.committed, hstage, nofun⟩
    next => cases hs
  | leaveClosed =>
    have hs' : s' = { s with pc := .returned (some .unavailable) } := by
      simp only [Writer.step] at hs
      split at hs <;> simp_all
    exact hs' ▸ ⟨h.quiet, h.committed, trivial, fun _ _ => ha⟩
  | leaveContext =>
    obtain ⟨-, hs⟩ := Option.ite_none_right_eq_some.1 hs
    obtain ⟨e, -, rfl⟩ := Option.map_eq_some_iff.1 hs
    exact ⟨h.quiet, h.committed, trivial, fun _ _ => ha⟩
  | finish =>
    simp only [Writer.step] at hs
    split at hs
    next answer hpc =>
      cases hs
      have hstage := h.fits
      rw [hpc, Pc.Fits] at hstage
      refine ⟨h.quiet, h.committed, ?_, fun e he => ?_⟩
      · cases answer.error with
        | none => exact ⟨answer, hstage⟩
        | some e => trivial
      · rw [hstage]
        rintro _ ⟨⟩ herror
        rw [herror] at he
        cases he
    next => cases hs
  | writer env => exact h.write hs
  | other db =>
    obtain ⟨hheld, hs⟩ := Option.ite_none_left_eq_some.1 hs
    cases hs
    refine ⟨?_, h.committed, h.fits, h.returned⟩
    cases hstage : s.stage <;> simp_all [Stage.held, Stage.Quiet]

def firstWrite : WriteDataRequest :=
  { WriteDataRequest.zero with
    namespace_ := ascii "n"
    validationRevisionID := hexEncode (1 :: List.replicate 31 0)
    idempotencyKey := ascii "k"
    tupleDeletes := [⟨⟨⟨ascii "doc", ascii "1"⟩, ascii "viewer", ⟨ascii "user", ascii "u", []⟩⟩⟩] }

def firstState : State Database :=
  ⟨@Database.after padded oneEvent gapStore.cursorKey [⟨2, some (10 + eventRetentionDuration), .pruneOffline⟩],
    false, none, .calling, .unsent, none⟩

/-- The caller leaves between the writer's last look at its context and COMMIT. -/
def lateLeave : List (Action Database) :=
  let writer : Action Database := .writer ⟨some (10 + eventRetentionDuration), none⟩
  .send :: List.replicate 7 writer ++ [.cancel false, .leaveContext, writer]

end PolicyEngine.Sqlite.Writer
