import PolicyEngine.Sqlite.Frame

/-!
# Backup export

`copyBackupRows` (`backup.go`) fills a freshly migrated database from a source: every
table as it is, of the events those that are young enough, and heads whose watermark
covers the events left behind. SQL statements read and write whole tables; an error
rolls the destination back, so no database goes with it.
-/

open PolicyEngine.Lib List

namespace PolicyEngine.Sqlite

structure MigrationRow where
  version : Int64
  name : Bytes
  checksum : Bytes
  appliedAt : Bytes
  deriving DecidableEq

/-- The tables of a database file: those of the store and the migration ledger. -/
structure DatabaseFile where
  tables : Database
  schemaMigrations : Table MigrationRow.version

/-- A file that the migration has just left. -/
def DatabaseFile.migrated (cursorKey : Bytes) (initial : MigrationRow) : DatabaseFile where
  tables := .migrated cursorKey
  schemaMigrations := Table.empty.set initial

/-- The last sequence of a namespace among the events created before `cutoff`. -/
def lastBefore (db : Database) (cutoff : Int64) (namespace_ : Bytes) : Option Int64 :=
  (((eventsOf db namespace_).filter fun r => r.createdAtNS.toInt < cutoff.toInt).map (·.sequence.toInt)).max?.map
    Int64.ofInt

/-- An event that stays although a later one of its namespace goes. -/
def nonPrefix (db : Database) (cutoff : Int64) : Bool :=
  db.stateEvents.rows.any fun event =>
    (lastBefore db cutoff event.namespace_).any (event.sequence.toInt ≤ ·.toInt) &&
      decide (event.createdAtNS.toInt ≥ cutoff.toInt)

def backupHead (db : Database) (cutoff : Int64) (head : HeadRow) : HeadRow :=
  { head with expiredThrough := (lastBefore db cutoff head.namespace_).getD head.expiredThrough }

/-- INSERT of the rows of a SELECT. -/
def insertRows {ρ κ : Type} {key : ρ → κ} [DecidableEq κ] (t : Table key) (rows : List ρ) : Result (Table key) :=
  rows.foldlM insertRow t

/-- The statements of the copy, in the order of the source. -/
def copyTables (source destination : DatabaseFile) (cutoff : Int64) : Result DatabaseFile := do
  let db := source.tables
  let backup := destination.tables
  let cadrenaMeta ← insertRows (backup.cadrenaMeta.deleteWhere fun _ => true) db.cadrenaMeta.rows
  let schemaMigrations ← insertRows (destination.schemaMigrations.deleteWhere fun _ => true) source.schemaMigrations.rows
  let namespaceHeads ← insertRows backup.namespaceHeads (db.namespaceHeads.rows.map (backupHead db cutoff))
  let revisions ← insertRows backup.revisions db.revisions.rows
  let slotHeads ← insertRows backup.slotHeads db.slotHeads.rows
  require (slotHeads.rows.all fun r => (revisions.get? (r.namespace_, r.revisionID)).isSome) .internal
  let activationHistory ← insertRows backup.activationHistory db.activationHistory.rows
  require (activationHistory.rows.all fun r => (revisions.get? (r.namespace_, r.revisionID)).isSome) .internal
  let tuples ← insertRows backup.tuples db.tuples.rows
  let attributes ← insertRows backup.attributes db.attributes.rows
  let attributeAncestors ← insertRows backup.attributeAncestors db.attributeAncestors.rows
  require (attributeAncestors.rows.all fun r => (attributes.get? (r.namespace_, r.attributeKey)).isSome) .internal
  let stateEvents ← insertRows backup.stateEvents
    (db.stateEvents.rows.filter fun r => r.createdAtNS.toInt ≥ cutoff.toInt)
  let idempotencyRecords ← insertRows backup.idempotencyRecords db.idempotencyRecords.rows
  return ⟨⟨cadrenaMeta, namespaceHeads, revisions, slotHeads, activationHistory, tuples, attributes, attributeAncestors,
    stateEvents, idempotencyRecords⟩, schemaMigrations⟩

/-- A constraint violation of a statement is reported as INTEGRITY. -/
def copyBackupRows (source destination : DatabaseFile) (nowNS retentionCutoff backlogCutoff : Int64) :
    Result DatabaseFile := do
  require (!source.tables.stateEvents.rows.any fun r => r.createdAtNS.toInt < backlogCutoff.toInt) .failedPrecondition
  require (!source.tables.stateEvents.rows.any fun r => r.createdAtNS.toInt > nowNS.toInt) .failedPrecondition
  require (!nonPrefix source.tables retentionCutoff) .integrity
  orFail .integrity (copyTables source destination retentionCutoff)

/-! ## What the copy leaves -/

section

variable {ρ κ : Type} {key : ρ → κ} [DecidableEq κ]

theorem insertRows_append {t rows} (h : ((t.rows ++ rows).map key).Nodup) :
    insertRows t rows = .ok ⟨t.rows ++ rows, h⟩ := by
  induction rows generalizing t with
  | nil => exact congrArg Except.ok (Table.eq_of_rows (append_nil _).symm)
  | cons r rows ih =>
    have hr : ∀ x ∈ t, key x ≠ key r := by
      intro x hx
      rw [map_append, nodup_append] at h
      exact h.2.2 _ (mem_map_of_mem hx) _ (mem_map_of_mem mem_cons_self)
    have hrows : (t.set r).rows ++ rows = t.rows ++ r :: rows := by rw [Table.rows_set hr, append_assoc]; rfl
    have hstep : insertRows t (r :: rows) = insertRows (t.set r) rows := by
      rw [insertRows, foldlM_cons, insertRow_eq hr]
      rfl
    rw [hstep, ih (by rw [hrows]; exact h)]
    exact congrArg Except.ok (Table.eq_of_rows hrows)

/-- Copying into an empty table. -/
theorem insertRows_eq {t : Table key} (ht : t.rows = []) {rows t'} (h : t'.rows = rows) :
    insertRows t rows = .ok t' := by
  subst h
  have hnodup : ((t.rows ++ t'.rows).map key).Nodup := by
    rw [ht]
    exact t'.nodup
  rw [insertRows_append hnodup]
  exact congrArg Except.ok (Table.eq_of_rows (show t.rows ++ t'.rows = t'.rows by rw [ht, nil_append]))

end

/-- The tables of a backup. -/
def Database.exported (db : Database) (cutoff : Int64) : Database :=
  { db with
    namespaceHeads := db.namespaceHeads.map (backupHead db cutoff) fun _ => rfl
    stateEvents := db.stateEvents.deleteWhere fun r => r.createdAtNS.toInt < cutoff.toInt }

theorem copyTables_eq {source cursorKey initial cutoff file}
    (h : copyTables source (.migrated cursorKey initial) cutoff = .ok file) :
    file = ⟨source.tables.exported cutoff, source.schemaMigrations⟩ := by
  have hdeleted : ∀ {ρ κ : Type} {key : ρ → κ} (t : Table key), (t.deleteWhere fun _ => true).rows = [] := by
    intro ρ κ key t
    simp [Table.deleteWhere]
  have hevents : (source.tables.exported cutoff).stateEvents.rows =
      source.tables.stateEvents.rows.filter fun r => r.createdAtNS.toInt ≥ cutoff.toInt := by
    refine filter_congr fun r _ => ?_
    rw [← decide_not]
    exact decide_eq_decide.2 Int.not_lt
  have hheads : (source.tables.exported cutoff).namespaceHeads.rows =
      source.tables.namespaceHeads.rows.map (backupHead source.tables cutoff) := rfl
  unfold copyTables at h
  dsimp only at h
  rw [insertRows_eq (hdeleted _) rfl, ok_bind, insertRows_eq (hdeleted _) rfl, ok_bind, insertRows_eq rfl hheads, ok_bind,
    insertRows_eq rfl rfl, ok_bind, insertRows_eq rfl rfl, ok_bind, check_eq_ok] at h
  obtain ⟨-, h⟩ := h
  rw [insertRows_eq rfl rfl, ok_bind, check_eq_ok] at h
  obtain ⟨-, h⟩ := h
  rw [insertRows_eq rfl rfl, ok_bind, insertRows_eq rfl rfl, ok_bind, insertRows_eq rfl rfl, ok_bind, check_eq_ok] at h
  obtain ⟨-, h⟩ := h
  rw [insertRows_eq rfl hevents, ok_bind, insertRows_eq rfl rfl, ok_bind] at h
  cases h
  rfl

/-! ## The events left behind -/

section

variable {db : Database} {cutoff : Int64} {ns : Bytes}

variable {r : EventRow}

theorem mem_exported_events :
    r ∈ (db.exported cutoff).stateEvents ↔ r ∈ db.stateEvents ∧ cutoff.toInt ≤ r.createdAtNS.toInt := by
  simp [Database.exported]

theorem lastBefore_eq_none (h : lastBefore db cutoff ns = none) (hr : r ∈ db.stateEvents) (hns : r.namespace_ = ns) :
    cutoff.toInt ≤ r.createdAtNS.toInt := by
  rw [lastBefore, Option.map_eq_none_iff, max?_eq_none_iff, map_eq_nil_iff, filter_eq_nil_iff] at h
  have hold := h r (mem_filter.2 ⟨hr, decide_eq_true hns⟩)
  rw [decide_eq_true_eq] at hold
  exact Int.not_lt.1 hold

theorem lastBefore_eq_some {m : Int64} (h : lastBefore db cutoff ns = some m) :
    (∃ r ∈ db.stateEvents, r.namespace_ = ns ∧ r.sequence = m) ∧
      ∀ r ∈ db.stateEvents, r.namespace_ = ns → r.createdAtNS.toInt < cutoff.toInt → r.sequence.toInt ≤ m.toInt := by
  rw [lastBefore, Option.map_eq_some_iff] at h
  obtain ⟨x, hmax, rfl⟩ := h
  obtain ⟨hmem, hle⟩ := max?_eq_some_iff.1 hmax
  obtain ⟨r, hr, rfl⟩ := mem_map.1 hmem
  rw [Int64.ofInt_toInt]
  obtain ⟨hr, -⟩ := mem_filter.1 hr
  obtain ⟨hr, hns⟩ := mem_filter.1 hr
  refine ⟨⟨r, hr, by simpa using hns, rfl⟩, fun r' hr' hns' hold => hle _ (mem_map.2 ⟨r', ?_, rfl⟩)⟩
  exact mem_filter.2 ⟨mem_filter.2 ⟨hr', decide_eq_true hns'⟩, decide_eq_true hold⟩

/-- When no event stays behind a later one, the events that go are those up to the last of them. -/
theorem old_iff (hpre : nonPrefix db cutoff = false) {m : Int64} (h : lastBefore db cutoff ns = some m)
    (hr : r ∈ db.stateEvents) (hns : r.namespace_ = ns) :
    cutoff.toInt ≤ r.createdAtNS.toInt ↔ m.toInt < r.sequence.toInt := by
  constructor
  · intro hyoung
    by_contra hle
    rw [nonPrefix, any_eq_false] at hpre
    refine hpre r hr ?_
    rw [hns, h, Option.any_some, Bool.and_eq_true]
    exact ⟨decide_eq_true (Int.not_lt.1 hle), decide_eq_true hyoung⟩
  · intro hlt
    by_contra hold
    exact absurd ((lastBefore_eq_some h).2 r hr hns (Int.not_le.1 hold)) (Int.not_le.2 hlt)

variable {h : HeadRow}

/-- The watermark of a backup head: not below the source's, and the events after it are
the retained ones. -/
theorem backupHead_spec (hpre : nonPrefix db cutoff = false)
    (hfill : Fills h.expiredThrough.toInt h.eventSequence.toInt (sequencesOf db h.namespace_))
    (hle : h.expiredThrough.toInt ≤ h.eventSequence.toInt) :
    h.expiredThrough.toInt ≤ (backupHead db cutoff h).expiredThrough.toInt ∧
      (backupHead db cutoff h).expiredThrough.toInt ≤ h.eventSequence.toInt ∧
      ∀ r ∈ db.stateEvents, r.namespace_ = h.namespace_ →
        (cutoff.toInt ≤ r.createdAtNS.toInt ↔ (backupHead db cutoff h).expiredThrough.toInt < r.sequence.toInt) := by
  have hmem : ∀ r ∈ db.stateEvents, r.namespace_ = h.namespace_ →
      h.expiredThrough.toInt < r.sequence.toInt ∧ r.sequence.toInt ≤ h.eventSequence.toInt :=
    fun r hr hns => (hfill.mem_iff _).1 (mem_sequencesOf.2 ⟨r, hr, hns, rfl⟩)
  cases hlast : lastBefore db cutoff h.namespace_ with
  | none =>
    have hexpired : (backupHead db cutoff h).expiredThrough = h.expiredThrough := by
      rw [backupHead, hlast, Option.getD_none]
    rw [hexpired]
    exact ⟨Int.le_refl _, hle, fun r hr hns =>
      ⟨fun _ => (hmem r hr hns).1, fun _ => lastBefore_eq_none hlast hr hns⟩⟩
  | some m =>
    have hexpired : (backupHead db cutoff h).expiredThrough = m := by rw [backupHead, hlast, Option.getD_some]
    obtain ⟨r, hr, hns, rfl⟩ := (lastBefore_eq_some hlast).1
    have hbounds := hmem r hr hns
    rw [hexpired]
    exact ⟨Int.le_of_lt hbounds.1, hbounds.2, fun r' hr' hns' => old_iff hpre hlast hr' hns'⟩

theorem mem_exported_sequences (hpre : nonPrefix db cutoff = false)
    (hfill : Fills h.expiredThrough.toInt h.eventSequence.toInt (sequencesOf db h.namespace_))
    (hle : h.expiredThrough.toInt ≤ h.eventSequence.toInt) (x : Int) :
    x ∈ sequencesOf (db.exported cutoff) h.namespace_ ↔
      (backupHead db cutoff h).expiredThrough.toInt < x ∧ x ≤ h.eventSequence.toInt := by
  obtain ⟨hlow, hhigh, hiff⟩ := backupHead_spec hpre hfill hle
  rw [mem_sequencesOf]
  constructor
  · rintro ⟨r, hr, hns, rfl⟩
    obtain ⟨hr, hyoung⟩ := mem_exported_events.1 hr
    exact ⟨(hiff r hr hns).1 hyoung, ((hfill.mem_iff _).1 (mem_sequencesOf.2 ⟨r, hr, hns, rfl⟩)).2⟩
  · rintro ⟨hlt, hx⟩
    obtain ⟨r, hr, hns, rfl⟩ := mem_sequencesOf.1 ((hfill.mem_iff x).2 ⟨by omega, hx⟩)
    exact ⟨r, mem_exported_events.2 ⟨hr, (hiff r hr hns).2 hlt⟩, hns, rfl⟩

theorem mem_exported_heads :
    h ∈ (db.exported cutoff).namespaceHeads ↔ ∃ head ∈ db.namespaceHeads, backupHead db cutoff head = h := mem_map

theorem headOf_exported (db : Database) (cutoff : Int64) (ns : Bytes) :
    (headOf (db.exported cutoff) ns).dataGeneration = (headOf db ns).dataGeneration := by
  have hget : (db.exported cutoff).namespaceHeads.get? ns = (db.namespaceHeads.get? ns).map (backupHead db cutoff) :=
    Table.get?_map db.namespaceHeads (backupHead db cutoff) (fun _ => rfl) ns
  rw [headOf, headOf, hget]
  cases db.namespaceHeads.get? ns <;> rfl

theorem moved_exported (db : Database) (cutoff : Int64) : Moved db (db.exported cutoff) where
  eq := rfl
  heads := by
    rintro ns ⟨h, hm, hns⟩
    exact ⟨backupHead db cutoff h, mem_exported_heads.2 ⟨h, hm, rfl⟩, hns⟩
  generation := headOf_exported db cutoff

theorem Accepted.exported [Primitives] {key : Bytes} (h : Accepted key db) (hpre : nonPrefix db cutoff = false) :
    Accepted key (db.exported cutoff) := by
  have hspec := fun head hm => backupHead_spec hpre (h.events.filled head hm) (h.heads head hm).expired_le
  have hext := (moved_exported db cutoff).extends
  refine h.moved (moved_exported db cutoff) ?_ ⟨?_, ?_⟩
  · intro head' hm'
    obtain ⟨head, hm, rfl⟩ := mem_exported_heads.1 hm'
    have hok := h.heads head hm
    exact { hok with
      expired := Int.le_trans hok.expired (hspec head hm).1
      expired_le := (hspec head hm).2.1 }
  · intro r hr
    obtain ⟨e, he⟩ := h.events.rows r (mem_exported_events.1 hr).1
    refine ⟨e, hext.eventOk ?_ (Nat.le_refl _) he⟩
    obtain ⟨head, hm, hns⟩ := he.head
    have hm' : backupHead db cutoff head ∈ (db.exported cutoff).namespaceHeads := mem_exported_heads.2 ⟨head, hm, rfl⟩
    rw [← hns, expiredThroughOf_mem hm, show head.namespace_ = (backupHead db cutoff head).namespace_ from rfl,
      expiredThroughOf_mem hm']
    exact Int.toNat_le_toNat (hspec head hm).1
  · intro head' hm'
    obtain ⟨head, hm, rfl⟩ := mem_exported_heads.1 hm'
    exact ⟨sequencesOf_nodup _ _,
      mem_exported_sequences hpre (h.events.filled head hm) (h.heads head hm).expired_le⟩

end

/-! ## The export -/

/-- A head without its watermark. -/
def HeadRow.unmarked (h : HeadRow) : HeadRow := { h with expiredThrough := 0 }

/-- The watermark is right before the first retained event of the namespace, or at the
head's sequence when none is retained. -/
def MarksRetained (db : Database) (h : HeadRow) : Prop :=
  (∃ first ∈ db.stateEvents, first.namespace_ = h.namespace_ ∧
    (∀ r ∈ db.stateEvents, r.namespace_ = h.namespace_ → first.sequence.toInt ≤ r.sequence.toInt) ∧
    h.expiredThrough.toInt + 1 = first.sequence.toInt) ∨
  (∀ r ∈ db.stateEvents, r.namespace_ ≠ h.namespace_) ∧ h.expiredThrough = h.eventSequence

/-- In an accepted database every watermark is where the retained events say. -/
theorem EventsOk.marksRetained [Primitives] {key bound db} (h : EventsOk key bound db) {head : HeadRow}
    (hm : head ∈ db.namespaceHeads) (hok : HeadOk head) :
    MarksRetained db head := by
  have hfill := h.filled head hm
  rcases Int.lt_or_eq_of_le hok.expired_le with hlt | heq
  · obtain ⟨first, hfirst, hns, hseq⟩ :=
      mem_sequencesOf.1 ((hfill.mem_iff (head.expiredThrough.toInt + 1)).2 ⟨by omega, by omega⟩)
    refine .inl ⟨first, hfirst, hns, fun r hr hr' => ?_, hseq.symm⟩
    have := ((hfill.mem_iff _).1 (mem_sequencesOf.2 ⟨r, hr, hr', rfl⟩)).1
    omega
  · refine .inr ⟨fun r hr hr' => ?_, Int64.toInt_inj.1 heq⟩
    have := (hfill.mem_iff _).1 (mem_sequencesOf.2 ⟨r, hr, hr', rfl⟩)
    omega

/-- A backup of an accepted database is accepted, holds every table as it was but for the
events and the watermarks, and of the events those that are young enough. -/
theorem copyBackupRows_exports [Primitives] {source file : DatabaseFile} {cursorKey : Bytes} {initial : MigrationRow}
    {nowNS retentionCutoff backlogCutoff : Int64} (hsource : fullIntegrityCheck source.tables = .ok ())
    (hcopy : copyBackupRows source (.migrated cursorKey initial) nowNS retentionCutoff backlogCutoff = .ok file) :
    fullIntegrityCheck file.tables = .ok () ∧
    file.schemaMigrations = source.schemaMigrations ∧
    file.tables = { source.tables with
      namespaceHeads := file.tables.namespaceHeads
      stateEvents := file.tables.stateEvents } ∧
    file.tables.namespaceHeads.rows.map HeadRow.unmarked = source.tables.namespaceHeads.rows.map HeadRow.unmarked ∧
    (∀ r, r ∈ file.tables.stateEvents ↔
      r ∈ source.tables.stateEvents ∧ retentionCutoff.toInt ≤ r.createdAtNS.toInt) ∧
    ∀ h ∈ file.tables.namespaceHeads, MarksRetained file.tables h := by
  simp only [copyBackupRows, check_eq_ok, require_eq_ok, Bool.not_eq_true', orFail_eq_ok] at hcopy
  obtain ⟨-, -, hpre, hcopy⟩ := hcopy
  obtain rfl := copyTables_eq hcopy
  obtain ⟨key, haccepted⟩ := fullIntegrityCheck_eq_ok.1 hsource
  have hexported := haccepted.exported hpre
  refine ⟨fullIntegrityCheck_eq_ok.2 ⟨key, hexported⟩, rfl, rfl, ?_, fun _ => mem_exported_events, fun h hm => ?_⟩
  · change ((source.tables.namespaceHeads.rows.map (backupHead source.tables retentionCutoff)).map HeadRow.unmarked) = _
    rw [List.map_map]
    rfl
  · exact hexported.events.marksRetained hm (hexported.heads h hm)

/-! A source with one written generation, whose event is older than the cutoff. -/

def backupKey : Bytes := List.replicate 32 0

def sampleEvents : Result Database :=
  @appendStateEvent .constant ⟨backupKey, 1⟩ (.migrated backupKey)
    ⟨ascii "n", [], .dataWritten, [], [], 0, 1, zeroTime⟩ 1000

def sampleSource : DatabaseFile where
  tables :=
    let db := sampleEvents.toOption.getD (.migrated backupKey)
    { updateHead db (ascii "n") fun head => { head with dataGeneration := 1 } with
      idempotencyRecords := Table.empty.set ⟨ascii "n", ascii "k", codecVersion :: List.replicate 32 0,
        codecVersion :: idempotencyCodecFingerprint :: be 8 1⟩ }
  schemaMigrations := Table.empty.set ⟨1, ascii "initial", [], []⟩

theorem copyBackupRows_exports_sample :
    ∃ file, copyBackupRows sampleSource (.migrated [] ⟨1, ascii "initial", [], []⟩) 5000 2000 500 = .ok file ∧
      @fullIntegrityCheck .constant file.tables = .ok () ∧ ∀ h ∈ file.tables.namespaceHeads, MarksRetained file.tables h := by
  have hsource : @fullIntegrityCheck .constant sampleSource.tables = .ok () := by decide +kernel
  have hok : (copyBackupRows sampleSource (.migrated [] ⟨1, ascii "initial", [], []⟩) 5000 2000 500).isOk = true := by
    decide +kernel
  obtain ⟨file, hcopy⟩ := isOk_iff.1 hok
  obtain ⟨haccepted, -, -, -, -, hmarks⟩ := @copyBackupRows_exports .constant _ _ _ _ _ _ _ hsource hcopy
  exact ⟨file, hcopy, haccepted, hmarks⟩

end PolicyEngine.Sqlite
