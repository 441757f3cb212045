import PolicyEngine.Sqlite.DataSteps
import PolicyEngine.Sqlite.Reads
import PolicyEngine.Sqlite.RevisionSteps
import PolicyEngine.Sqlite.SlotSteps

/-!
# The integrity check is an invariant

The operations that change a database, as they run one after another: a transaction that
fails is rolled back, and ListEvents leaves what its retention left, whatever it then
answers. Each may run under a handle with another retention setting and at any clock.
-/

open PolicyEngine.Lib

namespace PolicyEngine.Sqlite

variable [Primitives]

inductive Operation where
  | putRevision (write : RevisionWrite)
  | activate (request : ActivateRequest)
  | writeData (request : WriteDataRequest)
  | listEvents (request : ListEventsRequest)
  | pruneOffline

/-- What a transaction leaves: its own database, or the one before if it fails. -/
def committed {α : Type} (db : Database) : Result (α × Database) → Database
  | .ok (_, db') => db'
  | .error _ => db

/-- The transaction of ListEvents, which comes before its reads. -/
def listEventsTx (s : Store) (db : Database) (clock : Clock) (request : ListEventsRequest) : Result (Unit × Database) := do
  let _ ← listEventsCursor s request
  let candidateNS ← canonicalClockNow clock
  let db ← pruneEventsForRead db candidateNS request.namespace_
  .ok ((), db)

/-- The transaction of the offline prune. PruneExpiredEvents also checks the database before and after, and refuses. -/
def pruneOfflineTx (db : Database) (clock : Clock) : Result (Unit × Database) := do
  let nowNS ← canonicalClockNow clock
  match pruneEveryNamespace (db.namespaceHeads.rows.length + 1) db nowNS with
  | none => .error .internal
  | some result => do
    let db ← result
    .ok ((), db)

def Operation.run (s : Store) (clock : Clock) (db : Database) : Operation → Database
  | .putRevision write => committed db (Sqlite.putRevision s db clock write)
  | .activate request => committed db (Sqlite.activate s db clock request)
  | .writeData request => committed db (Sqlite.writeData s db clock request)
  | .listEvents request => committed db (listEventsTx s db clock request)
  | .pruneOffline => committed db (pruneOfflineTx db clock)

variable {db db' : Database} {key : Bytes}

omit [Primitives] in
theorem committed_cases {α : Type} {P : Database → Prop} {result : Result (α × Database)} (h : P db)
    (hok : ∀ a db', result = .ok (a, db') → P db') : P (committed db result) := by
  cases result with
  | error e => exact h
  | ok r => exact hok r.1 r.2 rfl

/-! ## Retention -/

theorem Accepted.listEventsTx {s : Store} (h : Accepted key db) {clock request u}
    (hlist : listEventsTx s db clock request = .ok (u, db')) : Grows key db db' := by
  rw [Sqlite.listEventsTx] at hlist
  obtain ⟨cursor, -, hlist⟩ := bind_eq_ok.1 hlist
  obtain ⟨n, hclock, hlist⟩ := bind_eq_ok.1 hlist
  obtain ⟨db₁, hprune, hlist⟩ := bind_eq_ok.1 hlist
  obtain ⟨-, rfl⟩ := Prod.mk.injEq .. ▸ Except.ok.inj hlist
  exact h.pruneEventsForRead (canonicalClockNow_valid hclock) hprune

theorem Accepted.pruneNamespace (h : Accepted key db) {n : Int64} (hn : validTimestamp n = true) {ns : Bytes}
    (hprune : pruneNamespace n db ns = .ok db') : Grows key db db' := by
  by_cases hhead : HasHead db ns
  · rw [pruneNamespace_eq_forRead hhead] at hprune
    exact h.pruneEventsForRead hn hprune
  · have hnone : db.namespaceHeads.get? ns = none := Table.get?_eq_none.2 fun r hr hns => hhead ⟨r, hr, hns⟩
    rw [Sqlite.pruneNamespace, readNamespaceHead_readable, hnone] at hprune
    cases hprune

theorem Accepted.pruneFrom {n : Int64} (hn : validTimestamp n = true) {fuel last} (h : Accepted key db)
    (hprune : pruneFrom n fuel db last = some (.ok db')) : Grows key db db' := by
  induction fuel generalizing db last with
  | zero => cases hprune
  | succ fuel ih =>
    rw [Sqlite.pruneFrom] at hprune
    split at hprune
    · obtain rfl := Except.ok.inj (Option.some.inj hprune)
      exact h.grows
    · split at hprune
      · cases hprune
      next db₁ hbatch =>
        have hgrows : Grows key db db₁ :=
          foldlM_invariant (fun h hstep => h.trans (h.accepted.pruneNamespace hn hstep)) h.grows hbatch
        exact hgrows.trans (ih hgrows.accepted hprune)

theorem Accepted.pruneOfflineTx (h : Accepted key db) {clock u} (hprune : pruneOfflineTx db clock = .ok (u, db')) :
    Grows key db db' := by
  rw [Sqlite.pruneOfflineTx] at hprune
  obtain ⟨n, hclock, hprune⟩ := bind_eq_ok.1 hprune
  split at hprune
  · cases hprune
  next result hresult =>
    obtain ⟨db₁, rfl, hprune⟩ := bind_eq_ok.1 hprune
    obtain ⟨-, rfl⟩ := Prod.mk.injEq .. ▸ Except.ok.inj hprune
    exact h.pruneFrom (canonicalClockNow_valid hclock) hresult

/-! ## Every operation -/

theorem Accepted.run {s : Store} (h : Accepted s.cursorKey db) (clock : Clock) (op : Operation) :
    Grows s.cursorKey db (op.run s clock db) := by
  cases op with
  | putRevision write => exact committed_cases h.grows fun _ _ hput => h.putRevision hput
  | activate request => exact committed_cases h.grows fun _ _ hact => h.activate hact
  | writeData request => exact committed_cases h.grows fun _ _ hwrite => h.writeData hwrite
  | listEvents request => exact committed_cases h.grows fun _ _ hlist => h.listEventsTx hlist
  | pruneOffline => exact committed_cases h.grows fun _ _ hprune => h.pruneOfflineTx hprune

theorem accepted_migrated (hkey : key.length = 32) : Accepted key (.migrated key) where
  cursorKey := rfl
  cursorKey_length := hkey
  heads _ hm := absurd hm (Table.not_mem_empty _)
  revisions _ hm := absurd hm (Table.not_mem_empty _)
  slots := ⟨fun _ hm => absurd hm (Table.not_mem_empty _), fun _ hm => absurd hm (Table.not_mem_empty _),
    fun _ hm => absurd hm (Table.not_mem_empty _)⟩
  tuples _ hm := absurd hm (Table.not_mem_empty _)
  attributes := by
    refine ⟨fun _ hm => absurd hm (Table.not_mem_empty _), fun x => ⟨fun hm => absurd hm (Table.not_mem_empty _), ?_⟩⟩
    rintro ⟨r, hr, -⟩
    exact absurd hr (Table.not_mem_empty _)
  attributes_bounded _ hm := absurd hm (Table.not_mem_empty _)
  ancestors_bounded _ hm := absurd hm (Table.not_mem_empty _)
  events := ⟨fun _ hm => absurd hm (Table.not_mem_empty _), fun _ hm => absurd hm (Table.not_mem_empty _)⟩
  idempotency := ⟨fun _ hm => absurd hm (Table.not_mem_empty _), fun _ hm => absurd hm (Table.not_mem_empty _)⟩

/-- Integrity with the key that cursors are issued under. -/
theorem accepted_iff : Accepted key db ↔ fullIntegrityCheck db = .ok () ∧ readCursorKey db = .ok key := by
  rw [fullIntegrityCheck_eq_ok]
  constructor
  · exact fun h => ⟨⟨key, h⟩, readCursorKey_eq_ok.2 ⟨h.cursorKey, h.cursorKey_length⟩⟩
  · rintro ⟨⟨key', h⟩, hkey⟩
    have hrows := (readCursorKey_eq_ok.1 hkey).1
    rw [h.cursorKey] at hrows
    obtain rfl : key' = key := by simpa using hrows
    exact h

/-- **The integrity check is inductive.** It accepts a migrated database, and every operation leads from an accepted
database to an accepted one, under any handle that has read its key and at any clock. -/
theorem fullIntegrityCheck_inductive :
    (∀ cursorKey : Bytes, cursorKey.length = 32 → fullIntegrityCheck (.migrated cursorKey) = .ok ()) ∧
    ∀ (s : Store) (db : Database), fullIntegrityCheck db = .ok () → readCursorKey db = .ok s.cursorKey →
      ∀ (clock : Clock) (op : Operation),
        fullIntegrityCheck (op.run s clock db) = .ok () ∧ readCursorKey (op.run s clock db) = .ok s.cursorKey := by
  refine ⟨fun cursorKey hlength => (accepted_iff.1 (accepted_migrated hlength)).1, fun s db hcheck hkey clock op => ?_⟩
  exact accepted_iff.1 ((accepted_iff.2 ⟨hcheck, hkey⟩).run clock op).accepted

end PolicyEngine.Sqlite
