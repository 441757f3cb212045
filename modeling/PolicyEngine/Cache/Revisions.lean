import PolicyEngine.Core.Basic
import PolicyEngine.Lib.Recency
import PolicyEngine.Lib.Runs

/-!
# The compiled-revision cache

`internal/cache/revisions.go` and `weight.go`: a map from exact revisions to hydrated
artifacts, bounded in entries and bytes, with one load for all who ask for the same key.
Callers, loads and the cache's mutex are parties of one system; a critical section is
one step. A loader answers when it likes: with an artifact, with an error, or by a panic.

Artifacts are opaque: of one it is known whether it can be marshalled, and to how many
bytes. Weights do not overflow.
-/

open PolicyEngine.Lib

namespace PolicyEngine.Cache

structure RevisionKey where
  namespace_ : Bytes
  revision : Bytes
  evaluatorABI : Bytes
  deriving DecidableEq, Repr

def RevisionKey.valid (k : RevisionKey) : Bool := k.namespace_ ≠ [] && k.revision ≠ [] && k.evaluatorABI ≠ []

/-- Neither limit is negative. -/
structure RevisionLimits where
  maxEntries : Nat
  maxBytes : Nat
  deriving DecidableEq, Repr

def approximateRevisionOverhead : Nat := 128

def approximateRevisionBytes (key : RevisionKey) (encodedBytes : Nat) : Nat :=
  approximateRevisionOverhead + key.namespace_.length + key.revision.length + key.evaluatorABI.length + encodedBytes

/-- The artifacts of the DSL: `MarshalBinary`, which fails on what cannot be hydrated. -/
class Artifacts where
  Artifact : Type
  marshalledBytes : Artifact → Option Nat

variable [Artifacts]

structure HydratedRevision where
  artifact : Artifacts.Artifact
  approximateBytes : Nat

inductive RevisionError where
  /-- The caller's context has ended. -/
  | context
  | invalidRevisionKey
  | nilLoader
  | invalidArtifact
  | loaderPanic
  /-- The loader's own error. -/
  | loader
  deriving DecidableEq, Repr

abbrev Hydration := Except RevisionError HydratedRevision

def hydrateRevision (key : RevisionKey) (artifact : Artifacts.Artifact) : Hydration :=
  match Artifacts.marshalledBytes artifact with
  | none => .error .invalidArtifact
  | some encoded => .ok ⟨artifact, approximateRevisionBytes key encoded⟩

inductive LoaderAnswer where
  | artifact (a : Artifacts.Artifact)
  | error
  | panic

/-- The value and error that `loadRevision` completes with. -/
def loadRevision (key : RevisionKey) : LoaderAnswer → Hydration
  | .artifact a => hydrateRevision key a
  | .error => .error .loader
  | .panic => .error .loaderPanic

/-! ## Residents -/

structure RevisionEntry where
  key : RevisionKey
  value : HydratedRevision
  active : Bool

/-- The call a key is loaded by. -/
structure Inflight where
  key : RevisionKey
  call : Nat

structure RevisionCache where
  limits : RevisionLimits
  entries : Table RevisionEntry.key
  inflight : Table Inflight.key
  /-- The key used last comes first. -/
  recency : List RevisionKey
  bytes : Int

def NewRevisionCache (limits : RevisionLimits) : RevisionCache := ⟨limits, .empty, .empty, [], 0⟩

namespace RevisionCache

/-- The entry used longest ago among the inactive ones, or among all if all are active. -/
def candidate (c : RevisionCache) : Option RevisionKey :=
  match c.recency.reverse.find? fun k => (c.entries.get? k).any (!·.active) with
  | some key => some key
  | none => c.recency.getLast?

def evictOneLocked (c : RevisionCache) : RevisionCache :=
  match c.candidate.bind c.entries.get? with
  | none => c
  | some entry =>
    { c with
      entries := c.entries.delete entry.key
      recency := c.recency.erase entry.key
      bytes := c.bytes - entry.value.approximateBytes }

/-- The condition of the eviction loop. -/
def crowded (c : RevisionCache) (value : HydratedRevision) : Bool :=
  c.entries.rows.length ≥ c.limits.maxEntries || c.bytes > c.limits.maxBytes - value.approximateBytes

/-- The eviction loop, for at most `fuel` passes. -/
def makeRoom : (fuel : Nat) → RevisionCache → HydratedRevision → Option RevisionCache
  | 0, _, _ => none
  | fuel + 1, c, value => if c.crowded value then makeRoom fuel c.evictOneLocked value else some c

/-- `none` if the eviction loop would not end. -/
def admitLocked (c : RevisionCache) (key : RevisionKey) (value : HydratedRevision) :
    Option (HydratedRevision × RevisionCache) :=
  match c.entries.get? key with
  | some existing => some (existing.value, { c with recency := touch key c.recency })
  | none =>
    if c.limits.maxEntries = 0 ∨ c.limits.maxBytes = 0 ∨ value.approximateBytes > c.limits.maxBytes then some (value, c)
    else
      match makeRoom (c.entries.rows.length + 1) c value with
      | none => none
      | some c =>
        some (value, { c with
          entries := c.entries.set ⟨key, value, false⟩
          recency := key :: c.recency
          bytes := c.bytes + value.approximateBytes })

def SetActive (c : RevisionCache) (key : RevisionKey) (active : Bool) : RevisionCache :=
  if !key.valid then c
  else
    match c.entries.get? key with
    | none => c
    | some entry => { c with entries := c.entries.set { entry with active := active } }

end RevisionCache

/-! ## Loads and callers -/

inductive LoadPc where
  | loading
  /-- The loader has answered. -/
  | loaded (result : Hydration)
  /-- The result is published; the deferred cancel is to come. -/
  | published
  | finished

structure RevisionCall where
  key : RevisionKey
  waiters : Int
  abandoned : Bool
  /-- What is there once `done` is closed. -/
  result : Option Hydration
  /-- The load's context is cancelled. -/
  canceled : Bool
  pc : LoadPc

inductive GetPc where
  | entry
  | locking
  | waiting (call : Nat)
  /-- In the branch of `ctx.Done`, before its critical section. -/
  | leaving (call : Nat)
  | returned (result : Hydration)

structure GetOrLoad where
  key : RevisionKey
  hasLoader : Bool
  /-- The caller's context has ended. -/
  done : Bool
  pc : GetPc

structure RevisionSystem where
  cache : RevisionCache
  /-- Calls are known by the order in which they were made. -/
  calls : List RevisionCall
  callers : List GetOrLoad
  /-- What loaders have produced, and for which key. -/
  produced : List (RevisionKey × HydratedRevision)

inductive RevisionAction where
  | invoke (key : RevisionKey) (hasLoader : Bool)
  | cancel (caller : Nat)
  /-- The flag is `select`'s choice when both channels are ready. -/
  | step (caller : Nat) (preferDone : Bool)
  | answer (call : Nat) (loader : LoaderAnswer)
  | complete (call : Nat)
  | release (call : Nat)
  | setActive (key : RevisionKey) (active : Bool)

namespace RevisionSystem

def setCaller (s : RevisionSystem) (i : Nat) (caller : GetOrLoad) (pc : GetPc) : RevisionSystem :=
  { s with callers := s.callers.set i { caller with pc := pc } }

/-- The first critical section of GetOrLoad. -/
def lookupLocked (s : RevisionSystem) (key : RevisionKey) : RevisionSystem × GetPc :=
  match s.cache.entries.get? key with
  | some entry =>
    ({ s with cache := { s.cache with recency := touch key s.cache.recency } }, .returned (.ok entry.value))
  | none =>
    match (s.cache.inflight.get? key).bind fun row => (s.calls[row.call]?).map fun call => (row.call, call) with
    | some (id, call) =>
      ({ s with calls := s.calls.set id { call with waiters := call.waiters + 1 } }, .waiting id)
    | none =>
      ({ s with
          cache := { s.cache with inflight := s.cache.inflight.set ⟨key, s.calls.length⟩ }
          calls := s.calls ++ [⟨key, 1, false, none, false, .loading⟩] },
        .waiting s.calls.length)

/-- The critical section of a caller whose context has ended. -/
def leaveLocked (s : RevisionSystem) (key : RevisionKey) (id : Nat) : RevisionSystem :=
  match (s.cache.inflight.get? key).filter (·.call = id), s.calls[id]? with
  | some _, some call =>
    let waiters := call.waiters - 1
    if waiters = 0 then
      { s with
        cache := { s.cache with inflight := s.cache.inflight.delete key }
        calls := s.calls.set id { call with waiters := waiters, abandoned := true, canceled := true } }
    else { s with calls := s.calls.set id { call with waiters := waiters } }
  | _, _ => s

def stepCaller (s : RevisionSystem) (i : Nat) (caller : GetOrLoad) (preferDone : Bool) : Option RevisionSystem :=
  match caller.pc with
  | .entry =>
    if caller.done then some (s.setCaller i caller (.returned (.error .context)))
    else if !caller.key.valid then some (s.setCaller i caller (.returned (.error .invalidRevisionKey)))
    else if !caller.hasLoader then some (s.setCaller i caller (.returned (.error .nilLoader)))
    else some (s.setCaller i caller .locking)
  | .locking =>
    let (s, pc) := s.lookupLocked caller.key
    some (s.setCaller i caller pc)
  | .waiting id =>
    match (s.calls[id]?).bind (·.result) with
    | some result =>
      if caller.done && preferDone then some (s.setCaller i caller (.leaving id))
      else some (s.setCaller i caller (.returned result))
    | none => if caller.done then some (s.setCaller i caller (.leaving id)) else none
  | .leaving id => some ((s.leaveLocked caller.key id).setCaller i caller (.returned (.error .context)))
  | .returned _ => none

/-- `completeRevisionLoad`, up to its deferred cancel. -/
def completeLocked (s : RevisionSystem) (id : Nat) (call : RevisionCall) (result : Hydration) : Option RevisionSystem :=
  let inflight := if ((s.cache.inflight.get? call.key).filter (·.call = id)).isSome
    then s.cache.inflight.delete call.key else s.cache.inflight
  let cache := { s.cache with inflight := inflight }
  let publish (cache : RevisionCache) (result : Hydration) : RevisionSystem :=
    { s with cache := cache, calls := s.calls.set id { call with result := some result, pc := .published } }
  match result, call.abandoned with
  | .ok value, false =>
    match cache.admitLocked call.key value with
    | none => none
    | some (value, cache) => some (publish cache (.ok value))
  | result, _ => some (publish cache result)

def step (s : RevisionSystem) : RevisionAction → Option RevisionSystem
  | .invoke key hasLoader => some { s with callers := s.callers ++ [⟨key, hasLoader, false, .entry⟩] }
  | .cancel i =>
    match s.callers[i]? with
    | none => none
    | some caller => some { s with callers := s.callers.set i { caller with done := true } }
  | .step i preferDone =>
    match s.callers[i]? with
    | none => none
    | some caller => s.stepCaller i caller preferDone
  | .answer id loader =>
    match s.calls[id]? with
    | none => none
    | some call =>
      match call.pc with
      | .loading =>
        let result := loadRevision call.key loader
        some { s with
          calls := s.calls.set id { call with pc := .loaded result }
          produced := match result with
            | .ok value => (call.key, value) :: s.produced
            | .error _ => s.produced }
      | _ => none
  | .complete id =>
    match s.calls[id]? with
    | none => none
    | some call =>
      match call.pc with
      | .loaded result => s.completeLocked id call result
      | _ => none
  | .release id =>
    match s.calls[id]? with
    | none => none
    | some call =>
      match call.pc with
      | .published => some { s with calls := s.calls.set id { call with canceled := true, pc := .finished } }
      | _ => none
  | .setActive key active => some { s with cache := s.cache.SetActive key active }

def Initial (limits : RevisionLimits) (s : RevisionSystem) : Prop :=
  s.cache = NewRevisionCache limits ∧ s.calls = [] ∧ s.callers = [] ∧ s.produced = []

abbrev Reached (limits : RevisionLimits) : RevisionSystem → Prop := Reachable step (Initial limits)

end RevisionSystem

end PolicyEngine.Cache
