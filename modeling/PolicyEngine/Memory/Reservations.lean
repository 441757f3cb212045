import PolicyEngine.Memory.System

/-!
# Commit reservations

A mutating call reserves its key in its first critical section, keeps the
reservation over the clock call and gives it up in its last one. In every
reachable state a held reservation is the one stored under its key, and no two
calls hold the same one: the calls that hold reservations exclude each other per
key.
-/

open PolicyEngine.Lib

namespace PolicyEngine.Memory

/-! ## What reserving and releasing do to the rest of the store -/

namespace Store

variable {s : Store} {key : CommitReservationKey} {r : CommitReservation}

theorem reserveCommitLocked_cases (s : Store) (key : CommitReservationKey) :
    (∃ pending, s.reservations key = some pending ∧ s.reserveCommitLocked key = (s, none)) ∨
    (s.reservations key = none ∧
      s.reserveCommitLocked key =
        ({ s with
            reservations := Function.update s.reservations key (some ⟨key, s.nextRef, [], [], []⟩)
            nextRef := s.nextRef + 1 },
          some ⟨key, s.nextRef, [], [], []⟩)) := by
  unfold reserveCommitLocked
  cases h : s.reservations key with
  | none => exact .inr ⟨rfl, rfl⟩
  | some pending => exact .inl ⟨pending, rfl, rfl⟩

theorem releaseCommitReservationLocked_held (h : s.reservations r.key = some r) :
    s.releaseCommitReservationLocked r =
      { s with reservations := Function.update s.reservations r.key none, closed := r.done :: s.closed } := by
  simp [releaseCommitReservationLocked, ownsCommitReservationLocked, h]

end Store

/-- Two stores with the same content; locks, reservations, channels and the effective time may differ. -/
structure SameContent (s s' : Store) : Prop where
  revisions : s'.revisions = s.revisions
  revisionOrder : s'.revisionOrder = s.revisionOrder
  slots : s'.slots = s.slots
  data : s'.data = s.data
  waiters : s'.waiters = s.waiters
  events : s'.events = s.events

theorem SameContent.release (s : Store) (r : CommitReservation) : SameContent s (releaseCommitReservation s r) := by
  unfold releaseCommitReservation Store.releaseCommitReservationLocked
  split <;> exact ⟨rfl, rfl, rfl, rfl, rfl, rfl⟩

variable [Primitives]

/-! ## What a call holds -/

def WritePc.holds : WritePc → Option CommitReservation
  | .built c | .clock c | .clocked c _ | .committing c _ => some c.reservation
  | .releasing r _ => some r
  | _ => none

def ActivatePc.holds : ActivatePc → Option CommitReservation
  | .built r _ | .clock r _ | .clocked r _ _ | .committing r _ _ | .releasing r _ => some r
  | _ => none

def PutPc.holds : PutPc → Option CommitReservation
  | .built r | .clock r | .clocked r _ | .committing r _ | .releasing r _ => some r
  | _ => none

def Operation.holds : Operation → Option CommitReservation
  | .writeData _ pc => pc.holds
  | .activate _ pc => pc.holds
  | .putRevision _ pc => pc.holds
  | _ => none

/-- The key a call reserves, if it reserves at all. -/
def Operation.reservationKey : Operation → Option CommitReservationKey
  | .writeData request _ => some (dataKey request.namespace_)
  | .activate request _ => some (slotKey request.namespace_ request.slot)
  | .putRevision write _ => some (revisionKey write.metadata.namespace_)
  | _ => none

/-- How one step of a call treats the reservations: it keeps them, takes a new one, or gives its own up. -/
inductive Holding (s s' : Store) (key : CommitReservationKey) :
    Option CommitReservation → Option CommitReservation → Prop
  | keep {held} : s'.reservations = s.reservations → Holding s s' key held held
  | take (r : CommitReservation) : r.key = key → r.done = s.nextRef → s.nextRef < s'.nextRef →
      s.reservations key = none → s'.reservations = Function.update s.reservations key (some r) →
      Holding s s' key none (some r)
  | drop (r : CommitReservation) :
      (s.reservations r.key = some r → s'.reservations = Function.update s.reservations r.key none) →
      Holding s s' key (some r) none

omit [Primitives] in
theorem release_holding {s key} (r : CommitReservation) :
    Holding s (releaseCommitReservation s r) key (some r) none := by
  refine .drop r fun h => ?_
  simp [releaseCommitReservation, Store.lock, Store.unlock, Store.releaseCommitReservationLocked_held (s := { s with mu := true }) h]

end PolicyEngine.Memory
