import PolicyEngine.Core.Order
import PolicyEngine.Lib.Batches
import PolicyEngine.Sqlite.Accepted

/-!
# Offline retention

`prune_offline.go`: retention of the events of every namespace, fetched in batches
by name. The body of the loop reads and writes one namespace, so that the whole run
leaves each namespace as a runtime prune of it alone does.
-/

open PolicyEngine.Lib List

namespace PolicyEngine.Sqlite

def offlinePruneNamespaceBatch : Nat := 256

def namespacesOf (db : Database) : List Bytes := db.namespaceHeads.rows.map (·.namespace_)

def readPruneNamespaceBatch (db : Database) (last : Bytes) : List Bytes :=
  batch compare offlinePruneNamespaceBatch (namespacesOf db) last

/-- The body of the loop of `pruneEveryNamespace`. A missing row is what `integrityResultError` reports. -/
def pruneNamespace (nowNS : Int64) (db : Database) (namespace_ : Bytes) : Result Database := do
  match ← readNamespaceHead db namespace_ with
  | none => .error .integrity
  | some head =>
    let effectiveNS := effectiveTime head nowNS
    .ok (pruneEvents (advanceEffectiveTime db head effectiveNS) namespace_ effectiveNS)

/-- The loop from a last namespace on; `none` when the fuel runs out. -/
def pruneFrom (nowNS : Int64) : Nat → Database → Bytes → Option (Result Database)
  | 0, _, _ => none
  | fuel + 1, db, last =>
    let namespaces := readPruneNamespaceBatch db last
    match namespaces.getLast? with
    | none => some (.ok db)
    | some next =>
      match namespaces.foldlM (pruneNamespace nowNS) db with
      | .error e => some (.error e)
      | .ok db => pruneFrom nowNS fuel db next

def pruneEveryNamespace (fuel : Nat) (db : Database) (nowNS : Int64) : Option (Result Database) :=
  pruneFrom nowNS fuel db []

/-! ## One namespace -/

/-- The rows that retention reads and writes: the head of a namespace and its events. -/
structure NamespaceRows where
  head : Option HeadRow
  events : List EventRow
  deriving DecidableEq

def rowsOf (db : Database) (namespace_ : Bytes) : NamespaceRows :=
  ⟨db.namespaceHeads.get? namespace_, eventsOf db namespace_⟩

/-- What a stored head must be for `readNamespaceHead` to return it. -/
def HeadRow.readable (head : HeadRow) : Bool :=
  decide (0 ≤ head.dataGeneration.toInt) && decide (0 ≤ head.eventSequence.toInt) && decide (0 ≤ head.expiredThrough.toInt) &&
    decide (head.expiredThrough.toInt ≤ head.eventSequence.toInt)

/-- The instant up to which time retention gives events up. -/
def timeThreshold (effectiveNS : Int64) : Int :=
  if effectiveNS.toInt ≥ minInt64 + eventRetentionDuration then effectiveNS.toInt - eventRetentionDuration else minInt64

/-- The last sequence that retention gives up among the events of a namespace. -/
def cutoffOf (events : List EventRow) (effectiveNS : Int64) : Int :=
  max (((events.filter fun r => r.createdAtNS.toInt ≤ timeThreshold effectiveNS).map (·.sequence.toInt)).max?.getD 0)
    (((events.map (·.sequence.toInt)).mergeSort (· ≥ ·))[eventRetentionLimit]?.getD 0)

/-- A head whose watermark is at least the cutoff. -/
def HeadRow.expire (head : HeadRow) (cutoff : Int) : HeadRow :=
  if head.expiredThrough.toInt < cutoff then { head with expiredThrough := Int64.ofInt cutoff } else head

/-- Retention on the rows of one namespace. -/
def NamespaceRows.prune (nowNS : Int64) (rows : NamespaceRows) : Result NamespaceRows :=
  match rows.head with
  | none => .error .integrity
  | some head =>
    if head.readable then
      let effectiveNS := effectiveTime head nowNS
      let head := { head with effectiveTimeNS := some effectiveNS }
      let cutoff := cutoffOf rows.events effectiveNS
      if cutoff ≤ 0 then .ok ⟨some head, rows.events⟩
      else .ok ⟨some (head.expire cutoff), rows.events.filter fun r => cutoff < r.sequence.toInt⟩
    else .error .integrity

theorem readNamespaceHead_readable (db : Database) (ns : Bytes) :
    readNamespaceHead db ns =
      match db.namespaceHeads.get? ns with
      | none => .ok none
      | some head => if head.readable then .ok (some head) else .error .integrity := by
  unfold readNamespaceHead
  cases db.namespaceHeads.get? ns with
  | none => rfl
  | some head =>
    dsimp only
    by_cases hr : head.readable = true
    · rw [if_pos hr, if_neg]
      simp only [HeadRow.readable, Bool.and_eq_true, decide_eq_true_eq] at hr
      omega
    · rw [if_neg hr, if_pos]
      simp only [HeadRow.readable, Bool.and_eq_true, decide_eq_true_eq] at hr
      omega

theorem rowsOf_updateHead {f} (hf : ∀ h, (f h).namespace_ = h.namespace_) (db : Database) (ns m : Bytes) :
    rowsOf (updateHead db ns f) m = if ns = m then ⟨(rowsOf db m).head.map f, (rowsOf db m).events⟩ else rowsOf db m := by
  simp only [rowsOf, updateHead, Table.get?_update hf, eventsOf]
  split
  next heq => rw [heq]
  next => rfl

variable {db : Database}

theorem rowsOf_advanceEffectiveTime {head : HeadRow} (hget : db.namespaceHeads.get? head.namespace_ = some head)
    (effectiveNS : Int64) (m : Bytes) :
    rowsOf (advanceEffectiveTime db head effectiveNS) m =
      if head.namespace_ = m then ⟨some { head with effectiveTimeNS := some effectiveNS }, (rowsOf db m).events⟩
      else rowsOf db m := by
  unfold advanceEffectiveTime
  split
  next heq =>
    split
    next hm =>
      subst hm
      rw [← heq]
      simp only [rowsOf, hget]
    next => rfl
  next =>
    have hkeep : ∀ h : HeadRow, { h with effectiveTimeNS := some effectiveNS }.namespace_ = h.namespace_ := fun _ => rfl
    rw [rowsOf_updateHead hkeep]
    split
    next hm =>
      subst hm
      simp only [rowsOf, hget, Option.map_some]
    next => rfl

theorem expire_namespace (head : HeadRow) (cutoff : Int) : (head.expire cutoff).namespace_ = head.namespace_ := by
  unfold HeadRow.expire
  split <;> rfl

theorem expireThrough_eq (db : Database) (ns : Bytes) (cutoff : Int) :
    expireThrough db ns cutoff =
      updateHead { db with stateEvents := db.stateEvents.deleteWhere fun r => r.namespace_ = ns ∧ r.sequence.toInt ≤ cutoff }
        ns (·.expire cutoff) := rfl

theorem rowsOf_expireThrough (db : Database) (ns : Bytes) (cutoff : Int) (m : Bytes) :
    rowsOf (expireThrough db ns cutoff) m =
      if ns = m then ⟨(rowsOf db m).head.map (·.expire cutoff), (rowsOf db m).events.filter fun r => cutoff < r.sequence.toInt⟩
      else rowsOf db m := by
  rw [expireThrough_eq, rowsOf_updateHead fun h => expire_namespace h cutoff]
  simp only [rowsOf, eventsOf, Table.deleteWhere, filter_filter]
  split
  next heq =>
    subst heq
    congr 1
    refine filter_congr fun r _ => ?_
    by_cases hc : cutoff < r.sequence.toInt
    · simp [hc]
    · simp [hc, Int.not_lt.1 hc]
  next hne =>
    congr 1
    refine filter_congr fun r _ => ?_
    by_cases hr : r.namespace_ = m
    · have : r.namespace_ ≠ ns := fun h => hne (h.symm.trans hr)
      simp [hr, Ne.symm hne]
    · simp [hr]

/-- The body of the loop, and the runtime prune, are retention on the rows of their namespace. -/
theorem rowsOf_pruneEvents {head : HeadRow} (hget : db.namespaceHeads.get? head.namespace_ = some head)
    (effectiveNS : Int64) (m : Bytes) :
    rowsOf (pruneEvents (advanceEffectiveTime db head effectiveNS) head.namespace_ effectiveNS) m =
      if head.namespace_ = m then
        let head := { head with effectiveTimeNS := some effectiveNS }
        let cutoff := cutoffOf (rowsOf db m).events effectiveNS
        if cutoff ≤ 0 then ⟨some head, (rowsOf db m).events⟩
        else ⟨some (head.expire cutoff), (rowsOf db m).events.filter fun r => cutoff < r.sequence.toInt⟩
      else rowsOf db m := by
  have hadvance := rowsOf_advanceEffectiveTime hget effectiveNS
  have hcutoff : max (timeCutoff (advanceEffectiveTime db head effectiveNS) head.namespace_ effectiveNS)
      (countCutoff (advanceEffectiveTime db head effectiveNS) head.namespace_) =
      cutoffOf (rowsOf db head.namespace_).events effectiveNS := by
    have hevents : eventsOf (advanceEffectiveTime db head effectiveNS) head.namespace_ =
        (rowsOf db head.namespace_).events := by
      have := congrArg NamespaceRows.events (hadvance head.namespace_)
      rwa [if_pos rfl] at this
    rw [timeCutoff, countCutoff, sequencesOf, hevents, cutoffOf]
    rfl
  rw [pruneEvents, hcutoff]
  by_cases hm : head.namespace_ = m
  · subst hm
    rw [if_pos rfl]
    dsimp only
    split
    · rw [hadvance, if_pos rfl]
    · rw [rowsOf_expireThrough, if_pos rfl, hadvance, if_pos rfl, Option.map_some]
  · rw [if_neg hm]
    split
    · rw [hadvance, if_neg hm]
    · rw [rowsOf_expireThrough, if_neg hm, hadvance, if_neg hm]

theorem localStep_pruneNamespace (nowNS : Int64) :
    LocalStep (pruneNamespace nowNS) rowsOf (NamespaceRows.prune nowNS) where
  run db ns := by
    unfold pruneNamespace NamespaceRows.prune
    rw [readNamespaceHead_readable]
    simp only [rowsOf]
    cases hget : db.namespaceHeads.get? ns with
    | none => rfl
    | some head =>
      obtain ⟨-, rfl⟩ := Table.get?_eq_some.1 hget
      dsimp only
      by_cases hr : head.readable = true
      · have hrows := rowsOf_pruneEvents hget (effectiveTime head nowNS) head.namespace_
        rw [if_pos rfl] at hrows
        rw [if_pos hr, if_pos hr, ok_bind]
        show Except.ok (rowsOf _ _) = _
        rw [hrows]
        exact apply_ite Except.ok _ _ _
      · rw [if_neg hr, if_neg hr]
        rfl
  frame := by
    intro db db' ns h m hne
    unfold pruneNamespace at h
    rw [readNamespaceHead_readable] at h
    cases hget : db.namespaceHeads.get? ns with
    | none => simp [hget] at h
    | some head =>
      obtain ⟨-, rfl⟩ := Table.get?_eq_some.1 hget
      by_cases hr : head.readable = true
      · simp only [hget, if_pos hr, ok_bind] at h
        obtain rfl := Except.ok.inj h
        rw [rowsOf_pruneEvents hget, if_neg (Ne.symm hne)]
      · simp [hget, hr, bind, Except.bind] at h

/-! ## Every namespace -/

theorem namespacesOf_nodup (db : Database) : (namespacesOf db).Nodup := db.namespaceHeads.nodup

variable {ns : Bytes}

theorem mem_namespacesOf : ns ∈ namespacesOf db ↔ HasHead db ns := by
  simp [namespacesOf, HasHead, Table.mem_def]

theorem namespacesOf_updateHead {f} (hf : ∀ h, (f h).namespace_ = h.namespace_) (db : Database) (ns : Bytes) :
    namespacesOf (updateHead db ns f) = namespacesOf db :=
  Table.keys_update hf _ _

theorem namespacesOf_pruneNamespace {nowNS db'} (h : pruneNamespace nowNS db ns = .ok db') :
    namespacesOf db' = namespacesOf db := by
  have hadvance (head : HeadRow) (n : Int64) : namespacesOf (advanceEffectiveTime db head n) = namespacesOf db := by
    unfold advanceEffectiveTime
    split
    · rfl
    · have hkeep : ∀ h : HeadRow, { h with effectiveTimeNS := some n }.namespace_ = h.namespace_ := fun _ => rfl
      exact namespacesOf_updateHead hkeep _ _
  rw [pruneNamespace, bind_eq_ok] at h
  obtain ⟨found, -, h⟩ := h
  cases found with
  | none => cases h
  | some head =>
    obtain rfl := Except.ok.inj h
    rw [pruneEvents]
    split
    · exact hadvance _ _
    · rw [expireThrough_eq, namespacesOf_updateHead fun h => expire_namespace h _]
      exact hadvance _ _

theorem pruneFrom_eq (nowNS : Int64) (fuel : Nat) (db : Database) (last : Bytes) :
    pruneFrom nowNS fuel db last =
      runBatches compare offlinePruneNamespaceBatch namespacesOf (pruneNamespace nowNS) fuel db last := by
  induction fuel generalizing db last with
  | zero => rfl
  | succ fuel ih =>
    rw [pruneFrom, runBatches, readPruneNamespaceBatch]
    generalize batch compare offlinePruneNamespaceBatch (namespacesOf db) last = namespaces
    cases namespaces.getLast? with
    | none => rfl
    | some next =>
      dsimp only
      cases namespaces.foldlM (pruneNamespace nowNS) db with
      | error e => rfl
      | ok db' => exact ih db' next

/-- The loop ends, and prunes every namespace once, in the order of their names. -/
theorem pruneEveryNamespace_eq (hne : ∀ h ∈ db.namespaceHeads, h.namespace_ ≠ []) {fuel : Nat}
    (hfuel : db.namespaceHeads.rows.length < fuel) (nowNS : Int64) :
    pruneEveryNamespace fuel db nowNS =
      some ((sortBy compare (namespacesOf db)).foldlM (pruneNamespace nowNS) db) := by
  rw [pruneEveryNamespace, pruneFrom_eq]
  refine runBatches_eq (by decide) namespacesOf_pruneNamespace (namespacesOf_nodup db) (nil_append _).symm
    (by simp) (fun k hk => ?_) ?_
  · obtain ⟨head, hm, rfl⟩ := mem_namespacesOf.1 (mem_sortBy.1 hk)
    have hk := hne head hm
    cases hcase : head.namespace_ with
    | nil => exact absurd hcase hk
    | cons b rest => rfl
  · rw [sortBy, length_mergeSort, namespacesOf, length_map]
    exact hfuel

/-- On a namespace that is there, the body of the loop is the runtime prune. -/
theorem pruneNamespace_eq_forRead (h : HasHead db ns) (nowNS : Int64) :
    pruneNamespace nowNS db ns = pruneEventsForRead db nowNS ns := by
  obtain ⟨head, -, -, hget⟩ := h.get?
  unfold pruneNamespace pruneEventsForRead
  rw [readNamespaceHead_readable, hget]
  dsimp only
  split <;> rfl

/-- A successful run leaves each namespace as the runtime prune of it alone does. -/
theorem rowsOf_pruneEveryNamespace {db' nowNS}
    (hrun : (sortBy compare (namespacesOf db)).foldlM (pruneNamespace nowNS) db = .ok db') (ns : Bytes) :
    (HasHead db ns → ∃ db₁, pruneEventsForRead db nowNS ns = .ok db₁ ∧ rowsOf db' ns = rowsOf db₁ ns) ∧
      (¬ HasHead db ns → rowsOf db' ns = rowsOf db ns) := by
  have hlocal := localStep_pruneNamespace nowNS
  have hnodup : (sortBy compare (namespacesOf db)).Nodup :=
    (mergeSort_perm _ _).nodup_iff.2 (namespacesOf_nodup db)
  obtain ⟨hin, hout⟩ := hlocal.foldlM_view hnodup hrun ns
  rw [mem_sortBy, mem_namespacesOf] at hin hout
  refine ⟨fun h => ?_, hout⟩
  obtain ⟨db₁, hdb₁⟩ := hlocal.ok_of_act (hin h)
  refine ⟨db₁, by rw [← pruneNamespace_eq_forRead h, hdb₁], ?_⟩
  exact Except.ok.inj ((hin h).symm.trans (hlocal.act_of_ok hdb₁))

/-! ## What retention deletes -/

section Retention

variable {events : List EventRow} {effectiveNS : Int64}

/-- A positive cutoff is the sequence of an event. -/
theorem exists_sequence_cutoffOf (h : 0 < cutoffOf events effectiveNS) :
    ∃ r ∈ events, r.sequence.toInt = cutoffOf events effectiveNS := by
  unfold cutoffOf at h ⊢
  generalize htime : ((events.filter fun r => r.createdAtNS.toInt ≤ timeThreshold effectiveNS).map
    (·.sequence.toInt)).max? = time at *
  generalize hcount : ((events.map (·.sequence.toInt)).mergeSort (· ≥ ·))[eventRetentionLimit]? = count at *
  have hmem : ∀ c : Int, time = some c ∨ count = some c → ∃ r ∈ events, r.sequence.toInt = c := by
    rintro c (rfl | rfl)
    · obtain ⟨r, hr, rfl⟩ := mem_map.1 (max?_mem htime)
      exact ⟨r, mem_of_mem_filter hr, rfl⟩
    · exact mem_map.1 (mem_mergeSort.1 (mem_of_getElem? hcount))
  rcases Int.le_total (time.getD 0) (count.getD 0) with hle | hle
  · rw [Int.max_eq_right hle] at h ⊢
    cases count with
    | none => exact absurd h (Int.lt_irrefl 0)
    | some c => exact hmem c (.inr rfl)
  · rw [Int.max_eq_left hle] at h ⊢
    cases time with
    | none => exact absurd h (Int.lt_irrefl 0)
    | some c => exact hmem c (.inl rfl)

variable {r : EventRow}

/-- The cutoff of time: the last event that is old enough, which is old with all before it when times do not
decrease. -/
theorem le_timeCutoff_iff (hpos : ∀ r ∈ events, 0 < r.sequence.toInt)
    (horder : ∀ r ∈ events, ∀ r' ∈ events, r.sequence.toInt ≤ r'.sequence.toInt →
      r.createdAtNS.toInt ≤ r'.createdAtNS.toInt) (hr : r ∈ events) (threshold : Int) :
    r.sequence.toInt ≤
        ((events.filter fun r => r.createdAtNS.toInt ≤ threshold).map (·.sequence.toInt)).max?.getD 0 ↔
      r.createdAtNS.toInt ≤ threshold := by
  cases hmax : ((events.filter fun r => r.createdAtNS.toInt ≤ threshold).map (·.sequence.toInt)).max? with
  | none =>
    have hnone : ∀ r ∈ events, ¬ r.createdAtNS.toInt ≤ threshold := by
      simpa [max?_eq_none_iff, filter_eq_nil_iff] using hmax
    have hp := hpos r hr
    simp only [Option.getD_none, hnone r hr, iff_false]
    omega
  | some c =>
    rw [Option.getD_some]
    constructor
    · intro hle
      obtain ⟨r', hr', rfl⟩ := mem_map.1 (max?_mem hmax)
      obtain ⟨hr', hold⟩ := mem_filter.1 hr'
      exact Int.le_trans (horder r hr r' hr' hle) (of_decide_eq_true hold)
    · intro hold
      refine (max?_le_iff hmax).1 (Int.le_refl c) _ (mem_map_of_mem (mem_filter.2 ⟨hr, decide_eq_true hold⟩))

/-- The cutoff of count: the newest events kept are the last ones of the filled interval. -/
theorem countCutoff_eq {a b l} (hfill : Fills a b l) (limit : Nat) :
    (l.mergeSort (· ≥ ·))[limit]?.getD 0 = if limit < (b - a).toNat then b - limit else 0 := by
  rw [hfill.mergeSort_ge]
  split
  next hlt =>
    rw [getElem?_reverse (by rwa [length_interval]), length_interval, getElem?_interval (by omega), Option.getD_some]
    omega
  next hge =>
    rw [getElem?_eq_none (by rw [length_reverse, length_interval]; omega), Option.getD_none]

/-- Events whose sequences fill the interval after a watermark. -/
def FilledBy (head : HeadRow) (events : List EventRow) : Prop :=
  Fills head.expiredThrough.toInt head.eventSequence.toInt (events.map (·.sequence.toInt))

/-- How many events are newer than a sequence. -/
def newer (events : List EventRow) (sequence : Int) : Nat :=
  (events.filter fun r => sequence < r.sequence.toInt).length

variable {head : HeadRow}

theorem newer_eq (hfill : FilledBy head events) (hr : r ∈ events) :
    (newer events r.sequence.toInt : Int) = head.eventSequence.toInt - r.sequence.toInt := by
  have hmem := (hfill.mem_iff r.sequence.toInt).1 (mem_map_of_mem hr)
  have hlen := (hfill.filter_gt r.sequence.toInt).length
  have hcount : newer events r.sequence.toInt =
      ((events.map (·.sequence.toInt)).filter (· > r.sequence.toInt)).length := by
    rw [filter_map, length_map]
    rfl
  rw [hcount, hlen]
  omega

/-- Among events in order of time, retention gives up exactly those that are a day old and those past the newest. -/
theorem le_cutoffOf_iff (h0 : 0 ≤ head.expiredThrough.toInt) (hfill : FilledBy head events)
    (horder : ∀ r ∈ events, ∀ r' ∈ events, r.sequence.toInt ≤ r'.sequence.toInt →
      r.createdAtNS.toInt ≤ r'.createdAtNS.toInt) (htime : ∀ r ∈ events, minInt64 < r.createdAtNS.toInt)
    (hr : r ∈ events) :
    r.sequence.toInt ≤ cutoffOf events effectiveNS ↔
      r.createdAtNS.toInt ≤ effectiveNS.toInt - eventRetentionDuration ∨
        eventRetentionLimit ≤ newer events r.sequence.toInt := by
  have hmem (r : EventRow) (hr : r ∈ events) := (hfill.mem_iff r.sequence.toInt).1 (mem_map_of_mem hr)
  have hpos : ∀ r ∈ events, 0 < r.sequence.toInt := fun r hr => by
    have := (hmem r hr).1
    omega
  have hthreshold : r.createdAtNS.toInt ≤ timeThreshold effectiveNS ↔
      r.createdAtNS.toInt ≤ effectiveNS.toInt - eventRetentionDuration := by
    have := htime r hr
    unfold timeThreshold
    split <;> omega
  have hcount : r.sequence.toInt ≤
      (((events.map (·.sequence.toInt)).mergeSort (· ≥ ·))[eventRetentionLimit]?.getD 0) ↔
      eventRetentionLimit ≤ newer events r.sequence.toInt := by
    have hnewer := newer_eq hfill hr
    have hin := hmem r hr
    rw [countCutoff_eq hfill]
    split <;> omega
  have hmax (x a b : Int) : x ≤ max a b ↔ x ≤ a ∨ x ≤ b := by omega
  rw [cutoffOf, hmax, le_timeCutoff_iff hpos horder hr, hthreshold, hcount]

/-- Nothing that retention keeps is given up by the same retention again. -/
theorem cutoffOf_kept (hfill : FilledBy head events) :
    cutoffOf (events.filter fun r => cutoffOf events effectiveNS < r.sequence.toInt) effectiveNS = 0 := by
  generalize hc : cutoffOf events effectiveNS = cutoff
  have hle : ((events.filter fun r => r.createdAtNS.toInt ≤ timeThreshold effectiveNS).map
      (·.sequence.toInt)).max?.getD 0 ≤ cutoff := hc ▸ Int.le_max_left _ _
  have hle' : ((events.map (·.sequence.toInt)).mergeSort (· ≥ ·))[eventRetentionLimit]?.getD 0 ≤ cutoff :=
    hc ▸ Int.le_max_right _ _
  have htime : ((events.filter fun r => cutoff < r.sequence.toInt).filter fun r =>
      r.createdAtNS.toInt ≤ timeThreshold effectiveNS) = [] := by
    refine filter_eq_nil_iff.2 fun r hr hold => ?_
    obtain ⟨hr, hlt⟩ := mem_filter.1 hr
    have hlt := of_decide_eq_true hlt
    -- an old event is at most the cutoff of time
    have hin : r.sequence.toInt ∈ (events.filter fun r => r.createdAtNS.toInt ≤ timeThreshold effectiveNS).map
        (·.sequence.toInt) := mem_map_of_mem (mem_filter.2 ⟨hr, hold⟩)
    cases hmax : ((events.filter fun r => r.createdAtNS.toInt ≤ timeThreshold effectiveNS).map (·.sequence.toInt)).max? with
    | none =>
      rw [max?_eq_none_iff.1 hmax] at hin
      cases hin
    | some m =>
      have := (max?_le_iff hmax).1 (Int.le_refl m) _ hin
      rw [hmax, Option.getD_some] at hle
      omega
  have hfill' := hfill.filter_gt cutoff
  have hmap : (events.filter fun r => cutoff < r.sequence.toInt).map (·.sequence.toInt) =
      (events.map (·.sequence.toInt)).filter (· > cutoff) := by
    rw [filter_map]
    rfl
  rw [countCutoff_eq hfill] at hle'
  rw [cutoffOf, htime, hmap, countCutoff_eq hfill', if_neg]
  · rfl
  · split at hle' <;> omega

/-- The stored effective time or the clock, whichever is later. -/
def latestTime (head : HeadRow) (nowNS : Int64) : Int :=
  match head.effectiveTimeNS with
  | none => nowNS.toInt
  | some stored => max stored.toInt nowNS.toInt

theorem toInt_effectiveTime (head : HeadRow) (nowNS : Int64) : (effectiveTime head nowNS).toInt = latestTime head nowNS := by
  unfold effectiveTime latestTime
  cases head.effectiveTimeNS with
  | none => rfl
  | some stored =>
    dsimp only
    split <;> omega

/-- The head that retention leaves. -/
def prunedHead (head : HeadRow) (events : List EventRow) (nowNS : Int64) : HeadRow :=
  { head with effectiveTimeNS := some (effectiveTime head nowNS) }.expire (cutoffOf events (effectiveTime head nowNS))

theorem HeadOk.readable (h : HeadOk head) : head.readable = true := by
  have h1 := h.generation
  have h2 := h.expired
  have h3 := h.expired_le
  simp only [HeadRow.readable, Bool.and_eq_true, decide_eq_true_eq]
  omega

/-- Retention on an accepted namespace, with no case for a cutoff of zero. -/
theorem prune_eq (hok : HeadOk head) (hfill : FilledBy head events) (nowNS : Int64) :
    NamespaceRows.prune nowNS ⟨some head, events⟩ = .ok ⟨some (prunedHead head events nowNS),
      events.filter fun r => cutoffOf events (effectiveTime head nowNS) < r.sequence.toInt⟩ := by
  have h0 := hok.expired
  simp only [NamespaceRows.prune, hok.readable, if_true, prunedHead]
  split
  next hle =>
    have hall : events.filter (fun r => cutoffOf events (effectiveTime head nowNS) < r.sequence.toInt) = events := by
      refine filter_eq_self.2 fun r hr => decide_eq_true ?_
      have := ((hfill.mem_iff r.sequence.toInt).1 (mem_map_of_mem hr)).1
      omega
    rw [hall, HeadRow.expire, if_neg]
    dsimp only
    omega
  next => rfl

/-- The watermark after retention: where it was, or the cutoff. -/
theorem expiredThrough_prunedHead (hok : HeadOk head) (hfill : FilledBy head events) (nowNS : Int64) :
    cutoffOf events (effectiveTime head nowNS) ≤ 0 ∧
        (prunedHead head events nowNS).expiredThrough = head.expiredThrough ∨
      ∃ r ∈ events, r.sequence.toInt = cutoffOf events (effectiveTime head nowNS) ∧
        (prunedHead head events nowNS).expiredThrough = r.sequence := by
  have h0 := hok.expired
  unfold prunedHead HeadRow.expire
  by_cases hc : 0 < cutoffOf events (effectiveTime head nowNS)
  · obtain ⟨r, hr, hseq⟩ := exists_sequence_cutoffOf hc
    have hlt := ((hfill.mem_iff r.sequence.toInt).1 (mem_map_of_mem hr)).1
    refine .inr ⟨r, hr, hseq, ?_⟩
    rw [if_pos (by dsimp only; omega), ← hseq]
    exact Int64.ofInt_toInt r.sequence
  · refine .inl ⟨by omega, ?_⟩
    rw [if_neg (by dsimp only; omega)]

theorem readable_prunedHead (hok : HeadOk head) (hfill : FilledBy head events) (nowNS : Int64) :
    (prunedHead head events nowNS).readable = true := by
  have h1 := hok.generation
  have h2 := hok.expired
  have h3 := hok.expired_le
  have hsame : (prunedHead head events nowNS).dataGeneration = head.dataGeneration ∧
      (prunedHead head events nowNS).eventSequence = head.eventSequence := by
    unfold prunedHead HeadRow.expire
    split <;> exact ⟨rfl, rfl⟩
  simp only [HeadRow.readable, hsame, Bool.and_eq_true, decide_eq_true_eq]
  obtain ⟨-, heq⟩ | ⟨r, hr, -, heq⟩ := expiredThrough_prunedHead hok hfill nowNS
  · rw [heq]
    omega
  · have := (hfill.mem_iff r.sequence.toInt).1 (mem_map_of_mem hr)
    rw [heq]
    omega

theorem effectiveTime_prunedHead (head : HeadRow) (events : List EventRow) (nowNS : Int64) :
    (prunedHead head events nowNS).effectiveTimeNS = some (effectiveTime head nowNS) ∧
      effectiveTime (prunedHead head events nowNS) nowNS = effectiveTime head nowNS := by
  have heff : (prunedHead head events nowNS).effectiveTimeNS = some (effectiveTime head nowNS) := by
    unfold prunedHead HeadRow.expire
    split <;> rfl
  refine ⟨heff, ?_⟩
  have hle : nowNS.toInt ≤ (effectiveTime head nowNS).toInt := by
    rw [toInt_effectiveTime, latestTime]
    split <;> omega
  rw [effectiveTime, heff]
  dsimp only
  split
  · rfl
  · exact Int64.toInt_inj.1 (by omega)

end Retention

/-! ## The run over an accepted database -/

/-- The events of a namespace are in the order of their times. -/
def EventsInOrder (db : Database) : Prop :=
  ∀ r ∈ db.stateEvents, ∀ r' ∈ db.stateEvents, r.namespace_ = r'.namespace_ → r.sequence.toInt ≤ r'.sequence.toInt →
    r.createdAtNS.toInt ≤ r'.createdAtNS.toInt

/-- A namespace after retention at the later of its effective time and the clock: gone are the events of a day
before and those past the newest, and the watermark is the last sequence that went. -/
structure Retained (db db' : Database) (nowNS : Int64) (head : HeadRow) : Prop where
  kept : ∀ r, r.namespace_ = head.namespace_ → (r ∈ db'.stateEvents ↔ r ∈ db.stateEvents ∧
    ¬ (r.createdAtNS.toInt ≤ latestTime head nowNS - eventRetentionDuration ∨
      eventRetentionLimit ≤ newer (eventsOf db head.namespace_) r.sequence.toInt))
  watermark : ∃ head' ∈ db'.namespaceHeads, head'.namespace_ = head.namespace_ ∧
    ((∀ r ∈ db.stateEvents, r.namespace_ = head.namespace_ → r ∈ db'.stateEvents) ∧
        head'.expiredThrough = head.expiredThrough ∨
      ∃ r ∈ db.stateEvents, r.namespace_ = head.namespace_ ∧ r ∉ db'.stateEvents ∧ head'.expiredThrough = r.sequence ∧
        ∀ r' ∈ db.stateEvents, r'.namespace_ = head.namespace_ → r' ∉ db'.stateEvents →
          r'.sequence.toInt ≤ r.sequence.toInt)

theorem mem_eventsOf {r : EventRow} :
    r ∈ eventsOf db ns ↔ r ∈ db.stateEvents ∧ r.namespace_ = ns := by
  simp [eventsOf, Table.mem_def]

section Run

variable [Primitives] {key : Bytes} {db db' : Database} {nowNS : Int64}

variable {head : HeadRow}

omit [Primitives] in
theorem rowsOf_mem (hm : head ∈ db.namespaceHeads) :
    rowsOf db head.namespace_ = ⟨some head, eventsOf db head.namespace_⟩ := by
  rw [rowsOf, Table.get?_key hm]

theorem Accepted.filledBy (h : Accepted key db) (hm : head ∈ db.namespaceHeads) :
    FilledBy head (eventsOf db head.namespace_) := h.events.filled head hm

/-- The rows that the run leaves of a namespace of an accepted database. -/
theorem Accepted.rowsOf_run (h : Accepted key db)
    (hrun : (sortBy compare (namespacesOf db)).foldlM (pruneNamespace nowNS) db = .ok db')
    (hm : head ∈ db.namespaceHeads) :
    rowsOf db' head.namespace_ = ⟨some (prunedHead head (eventsOf db head.namespace_) nowNS),
      (eventsOf db head.namespace_).filter fun r =>
        cutoffOf (eventsOf db head.namespace_) (effectiveTime head nowNS) < r.sequence.toInt⟩ := by
  have hnodup : (sortBy compare (namespacesOf db)).Nodup :=
    (mergeSort_perm _ _).nodup_iff.2 (namespacesOf_nodup db)
  have hact := ((localStep_pruneNamespace nowNS).foldlM_view hnodup hrun head.namespace_).1
    (mem_sortBy.2 (mem_namespacesOf.2 ⟨head, hm, rfl⟩))
  rw [rowsOf_mem hm, prune_eq (h.heads head hm) (h.filledBy hm)] at hact
  exact (Except.ok.inj hact).symm

theorem Accepted.retained (h : Accepted key db)
    (hrun : (sortBy compare (namespacesOf db)).foldlM (pruneNamespace nowNS) db = .ok db') (horder : EventsInOrder db)
    (hm : head ∈ db.namespaceHeads) : Retained db db' nowNS head := by
  have hrows := h.rowsOf_run hrun hm
  have hfill := h.filledBy hm
  have hok := h.heads head hm
  have hget : db'.namespaceHeads.get? head.namespace_ = some (prunedHead head (eventsOf db head.namespace_) nowNS) :=
    congrArg NamespaceRows.head hrows
  have hevents : ∀ r, r.namespace_ = head.namespace_ → (r ∈ db'.stateEvents ↔ r ∈ db.stateEvents ∧
      ¬ r.sequence.toInt ≤ cutoffOf (eventsOf db head.namespace_) (effectiveTime head nowNS)) := by
    intro r hr
    have hmem : r ∈ db'.stateEvents ↔ r ∈ eventsOf db' head.namespace_ := by simp [mem_eventsOf, hr]
    have hlist : eventsOf db' head.namespace_ = _ := congrArg NamespaceRows.events hrows
    rw [hmem, hlist, mem_filter, mem_eventsOf, decide_eq_true_iff, Int.not_le]
    simp [hr]
  have hcreated : ∀ r ∈ eventsOf db head.namespace_, minInt64 < r.createdAtNS.toInt := by
    intro r hr
    obtain ⟨e, he⟩ := h.events.rows r (mem_eventsOf.1 hr).1
    have := validTimestamp_iff.1 he.created
    simp only [unixTime, minTimestamp, minInt64] at *
    omega
  have hcut : ∀ r ∈ eventsOf db head.namespace_,
      (r.sequence.toInt ≤ cutoffOf (eventsOf db head.namespace_) (effectiveTime head nowNS) ↔
        r.createdAtNS.toInt ≤ latestTime head nowNS - eventRetentionDuration ∨
          eventRetentionLimit ≤ newer (eventsOf db head.namespace_) r.sequence.toInt) := by
    intro r hr
    rw [← toInt_effectiveTime]
    refine le_cutoffOf_iff hok.expired hfill (fun r hr r' hr' hle => ?_) hcreated hr
    obtain ⟨hr, hns⟩ := mem_eventsOf.1 hr
    obtain ⟨hr', hns'⟩ := mem_eventsOf.1 hr'
    exact horder r hr r' hr' (hns.trans hns'.symm) hle
  refine ⟨fun r hr => ?_, prunedHead head (eventsOf db head.namespace_) nowNS, (Table.get?_eq_some.1 hget).1,
    (Table.get?_eq_some.1 hget).2, ?_⟩
  · rw [hevents r hr]
    exact and_congr_right fun hin => not_congr (hcut r (mem_eventsOf.2 ⟨hin, hr⟩))
  · obtain ⟨hc, heq⟩ | ⟨r, hr, hseq, heq⟩ := expiredThrough_prunedHead hok hfill nowNS
    · -- nothing goes: every sequence is positive
      refine .inl ⟨fun r hr hns => (hevents r hns).2 ⟨hr, fun hle => ?_⟩, heq⟩
      have := ((hfill.mem_iff r.sequence.toInt).1 (mem_map_of_mem (mem_eventsOf.2 ⟨hr, hns⟩))).1
      have := hok.expired
      omega
    · obtain ⟨hr, hns⟩ := mem_eventsOf.1 hr
      refine .inr ⟨r, hr, hns, fun hin => ((hevents r hns).1 hin).2 (Int.le_of_eq hseq), heq, fun r' hr' hns' hout => ?_⟩
      rw [hseq]
      by_contra hlt
      exact hout ((hevents r' hns').2 ⟨hr', hlt⟩)

omit [Primitives] in
/-- A namespace whose effective time is up to date and that has nothing to give up stays as it is. -/
theorem pruneNamespace_fixed (hget : db.namespaceHeads.get? ns = some head) (hread : head.readable = true)
    (heff : head.effectiveTimeNS = some (effectiveTime head nowNS))
    (hcut : cutoffOf (eventsOf db ns) (effectiveTime head nowNS) ≤ 0) : pruneNamespace nowNS db ns = .ok db := by
  have hcutoff : max (timeCutoff db ns (effectiveTime head nowNS)) (countCutoff db ns) ≤ 0 := hcut
  rw [pruneNamespace, readNamespaceHead_readable, hget]
  dsimp only
  rw [if_pos hread, ok_bind]
  dsimp only
  rw [advanceEffectiveTime, if_pos heff, pruneEvents, if_pos hcutoff]

/-- A second run at the same clock changes nothing. -/
theorem Accepted.run_again (h : Accepted key db)
    (hrun : (sortBy compare (namespacesOf db)).foldlM (pruneNamespace nowNS) db = .ok db') :
    (sortBy compare (namespacesOf db')).foldlM (pruneNamespace nowNS) db' = .ok db' := by
  have hsame : namespacesOf db' = namespacesOf db := foldlM_kept namespacesOf_pruneNamespace hrun
  have hfixed : ∀ ns ∈ sortBy compare (namespacesOf db'), pruneNamespace nowNS db' ns = .ok db' := by
    intro ns hns
    rw [hsame, mem_sortBy, mem_namespacesOf] at hns
    obtain ⟨head, hm, rfl⟩ := hns
    have hrows := h.rowsOf_run hrun hm
    have hfill := h.filledBy hm
    obtain ⟨heff, htime⟩ := effectiveTime_prunedHead head (eventsOf db head.namespace_) nowNS
    have hget : db'.namespaceHeads.get? head.namespace_ = some (prunedHead head (eventsOf db head.namespace_) nowNS) :=
      congrArg NamespaceRows.head hrows
    have hevents : eventsOf db' head.namespace_ = _ := congrArg NamespaceRows.events hrows
    refine pruneNamespace_fixed hget (readable_prunedHead (h.heads head hm) hfill nowNS) (htime.symm ▸ heff) ?_
    rw [htime, hevents]
    exact Int.le_of_eq (cutoffOf_kept hfill)
  generalize sortBy compare (namespacesOf db') = l at hfixed
  induction l with
  | nil => rfl
  | cons ns l ih =>
    rw [foldlM_cons, hfixed ns mem_cons_self]
    exact ih fun ns hns => hfixed ns (mem_cons_of_mem _ hns)

/-- The tables that retention does not write. -/
def otherTables (db : Database) : Database := { db with namespaceHeads := .empty, stateEvents := .empty }

omit [Primitives] in
theorem otherTables_pruneNamespace (h : pruneNamespace nowNS db ns = .ok db') :
    otherTables db' = otherTables db := by
  rw [pruneNamespace, bind_eq_ok] at h
  obtain ⟨found, -, h⟩ := h
  cases found with
  | none => cases h
  | some head =>
    obtain rfl := Except.ok.inj h
    rw [pruneEvents, advanceEffectiveTime]
    split <;> split <;> rfl

end Run

/-- Two namespaces that were never written. -/
def quietDatabase : Database :=
  { Database.migrated (List.replicate 32 0) with
    namespaceHeads := (Table.empty.set (.initial (ascii "m"))).set (.initial (ascii "n")) }

end PolicyEngine.Sqlite
