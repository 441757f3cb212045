import PolicyEngine.Core.Basic
import PolicyEngine.Lib.Recency
import PolicyEngine.Lib.Runs

/-!
# The slot-pointer cache

`internal/cache/pointers.go`: a bounded map from slots to the pointers last committed
there, and the reservations of the lookups that are to fill it. Every call is one
critical section, so a run is a sequence of calls. A call is given by what it returns and
the cache it leaves.

A list element is known by the key of its entry, and a fill state by a number that is
given once.
-/

open PolicyEngine.Lib

namespace PolicyEngine.Cache

inductive CacheError where
  | invalidSlotKey
  | invalidSlotPointer
  | stalePointer
  | pointerConflict
  | pointerFillHit
  | pointerFillBusy
  | pointerFillLimit
  | pointerFillClosed
  deriving DecidableEq, Repr

structure SlotKey where
  namespace_ : Bytes
  slot : Bytes
  deriving DecidableEq, Repr

def SlotKey.valid (k : SlotKey) : Bool := k.namespace_ ≠ [] && k.slot ≠ []

structure SlotPointer where
  revision : Bytes
  generation : Nat
  deriving DecidableEq, Repr

def SlotPointer.valid (p : SlotPointer) : Bool := p.revision ≠ [] && p.generation ≠ 0

structure RevisionPin where
  namespace_ : Bytes
  slot : Bytes
  revision : Bytes
  generation : Nat
  deriving DecidableEq, Repr

structure PointerEntry where
  key : SlotKey
  pointer : SlotPointer
  deriving DecidableEq, Repr

/-- A fill state under its key; `pending` is there when `hasPending` is set. -/
structure PointerFillState where
  key : SlotKey
  state : Nat
  pending : Option SlotPointer
  conflicted : Bool
  deriving DecidableEq, Repr

/-- What BeginAuthoritativeFill hands out; the zero value has no state. -/
structure AuthoritativeFill where
  key : SlotKey
  state : Option Nat
  deriving DecidableEq, Repr

structure PointerCache where
  maxEntries : Nat
  entries : Table PointerEntry.key
  fills : Table PointerFillState.key
  /-- The key used last comes first. -/
  recency : List SlotKey
  nextState : Nat

def NewPointerCache (maxEntries : Nat) : PointerCache := ⟨maxEntries, .empty, .empty, [], 0⟩

namespace PointerCache

/-- `len(c.entries) + len(c.fills)`. -/
def reserved (c : PointerCache) : Nat := c.entries.rows.length + c.fills.rows.length

def evictOldestLocked (c : PointerCache) : PointerCache :=
  match c.recency.getLast? with
  | none => c
  | some key => { c with entries := c.entries.delete key, recency := c.recency.dropLast }

def updateResidentLocked (c : PointerCache) (existing : PointerEntry) (pointer : SlotPointer) :
    Option CacheError × PointerCache :=
  if pointer.generation < existing.pointer.generation then (some .stalePointer, c)
  else if pointer.generation = existing.pointer.generation ∧ pointer.revision ≠ existing.pointer.revision then
    (some .pointerConflict, c)
  else if pointer.generation = existing.pointer.generation then
    (none, { c with recency := touch existing.key c.recency })
  else
    (none, { c with
      entries := c.entries.set { existing with pointer := pointer }, recency := touch existing.key c.recency })

def updatePendingFill (fill : PointerFillState) (pointer : SlotPointer) : Option CacheError × PointerFillState :=
  if fill.conflicted then (some .pointerConflict, fill)
  else
    match fill.pending with
    | none => (none, { fill with pending := some pointer })
    | some pending =>
      if pointer.generation > pending.generation then (none, { fill with pending := some pointer })
      else if pointer.generation < pending.generation then (some .stalePointer, fill)
      else if pointer.revision ≠ pending.revision then (some .pointerConflict, { fill with conflicted := true })
      else (none, fill)

def UpdateCommitted (c : PointerCache) (key : SlotKey) (pointer : SlotPointer) : Option CacheError × PointerCache :=
  if !key.valid then (some .invalidSlotKey, c)
  else if !pointer.valid then (some .invalidSlotPointer, c)
  else
    match c.entries.get? key with
    | some existing => c.updateResidentLocked existing pointer
    | none =>
      match c.fills.get? key with
      | some fill =>
        let (error, fill) := updatePendingFill fill pointer
        (error, { c with fills := c.fills.set fill })
      | none => (none, c)

def BeginAuthoritativeFill (c : PointerCache) (key : SlotKey) : Except CacheError AuthoritativeFill × PointerCache :=
  if !key.valid then (.error .invalidSlotKey, c)
  else if (c.entries.get? key).isSome then (.error .pointerFillHit, c)
  else if c.maxEntries = 0 then (.error .pointerFillLimit, c)
  else if (c.fills.get? key).isSome then (.error .pointerFillBusy, c)
  else if c.reserved = c.maxEntries ∧ c.entries.rows.length = 0 then (.error .pointerFillLimit, c)
  else
    let c := if c.reserved = c.maxEntries then c.evictOldestLocked else c
    (.ok ⟨key, some c.nextState⟩,
      { c with fills := c.fills.set ⟨key, c.nextState, none, false⟩, nextState := c.nextState + 1 })

def selectNewestPointer (authoritative : SlotPointer) (fill : PointerFillState) : Except CacheError SlotPointer :=
  match fill.pending with
  | none => .ok authoritative
  | some pending =>
    if authoritative.generation > pending.generation then .ok authoritative
    else if authoritative.generation < pending.generation then .ok pending
    else if authoritative.revision ≠ pending.revision then .error .pointerConflict
    else .ok authoritative

def admitPointerLocked (c : PointerCache) (key : SlotKey) (pointer : SlotPointer) : PointerCache :=
  if c.maxEntries = 0 then c
  else
    let c := if c.reserved = c.maxEntries then c.evictOldestLocked else c
    { c with entries := c.entries.set ⟨key, pointer⟩, recency := key :: c.recency }

/-- The fill a handle still holds. -/
def held (c : PointerCache) (f : AuthoritativeFill) : Option PointerFillState :=
  (c.fills.get? f.key).filter fun current => f.state = some current.state

def Complete (c : PointerCache) (f : AuthoritativeFill) (pointer : SlotPointer) : Option CacheError × PointerCache :=
  if f.state = none ∨ !f.key.valid then (some .pointerFillClosed, c)
  else
    match c.held f with
    | none => (some .pointerFillClosed, c)
    | some fill =>
      let c := { c with fills := c.fills.delete f.key }
      if !pointer.valid then (some .invalidSlotPointer, c)
      else if fill.conflicted then (some .pointerConflict, c)
      else
        match selectNewestPointer pointer fill with
        | .error e => (some e, c)
        | .ok selected => (none, c.admitPointerLocked f.key selected)

def Cancel (c : PointerCache) (f : AuthoritativeFill) : PointerCache :=
  match c.held f with
  | none => c
  | some _ => { c with fills := c.fills.delete f.key }

def Pin (c : PointerCache) (key : SlotKey) : Option RevisionPin × PointerCache :=
  if !key.valid then (none, c)
  else
    match c.entries.get? key with
    | none => (none, c)
    | some entry =>
      (some ⟨key.namespace_, key.slot, entry.pointer.revision, entry.pointer.generation⟩,
        { c with recency := touch key c.recency })

end PointerCache

end PolicyEngine.Cache
