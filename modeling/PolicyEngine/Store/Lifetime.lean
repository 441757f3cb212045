import PolicyEngine.Memory.Lifetime
import PolicyEngine.Sqlite.Lifetime

/-!
# The lifetime of a snapshot, in both stores

`snapshot_lifetime`: whatever the interleaving of reads and closes, the pinned
resource is released once, after the last admitted read, and every close returns
after that.
-/

open PolicyEngine.Lib

namespace PolicyEngine.Store

variable {V C : Type}

/-- Both snapshots drain their readers: the memory snapshot of version `v`, and the SQLite one on connection `c`. -/
theorem snapshot_lifetime (v : V) (c : C) :
    Drains Memory.Lifetime.step (· = .start v) Memory.Lifetime.System.history (fun i a => a = .wake i) ∧
      Drains Sqlite.Lifetime.step (· = .start c) Sqlite.Lifetime.System.history (fun i a => a.turn = some i) :=
  ⟨Memory.Lifetime.drains v, Sqlite.Lifetime.drains c⟩

/-- A read that outlives two closes gives the connection back; the read that comes after them is refused. -/
example :
    (run Sqlite.Lifetime.step (.start ())
      [.admit_ 0, .close 1, .close 2, .admit_ 3, .use 0, .release 0, .finish 0 none none, .announce 0, .wake 2,
        .wake 1]).map (·.history) =
      some [.admitted 0, .closing 1, .closing 2, .used 0, .ended 0, .released, .announced, .returned 2, .returned 1] := by
  decide

end PolicyEngine.Store
