import PolicyEngine.App.Reader
import PolicyEngine.Core.WriteRequests
import PolicyEngine.Memory.DataPlane
import PolicyEngine.Memory.SnapshotReads
import PolicyEngine.Sqlite.Reads

/-!
# The subjects an evaluation reads

`ReadTuples` merges the live contextual subjects of a bucket with those the snapshot
returns. The contextual tuples are sorted as whole tuples; within one bucket that is the
order of their subjects. The snapshot's are sorted by `NewTupleResult`, whichever store
it is of. So the merge walks two strictly sorted lists by one order.
-/

open PolicyEngine.Lib Std List

namespace PolicyEngine

theorem newTupleResult_eq_ok {query subjects result} (h : newTupleResult query subjects = .ok result) :
    result = sortDedup compareSubject subjects := by
  simp only [newTupleResult, bind_eq_ok] at h
  obtain ⟨_, -, _, -, _, -, _, -, h⟩ := h
  exact (Except.ok.inj h).symm

/-! ## Facts under their own tuples -/

namespace Spec.Dataset

def SelfKeyed (d : Dataset) : Prop := ∀ key value, d.tuples key = some value → value.tuple = key

variable {d : Dataset}

theorem SelfKeyed.deleteTuple (h : d.SelfKeyed) (k : Tuple) : (d.deleteTuple k).SelfKeyed := by
  intro key value hget
  simp only [Dataset.deleteTuple, Function.update_apply] at hget
  split at hget
  · cases hget
  · exact h key value hget

theorem SelfKeyed.putTuple (h : d.SelfKeyed) (t : RelationshipTuple) : (d.putTuple t).SelfKeyed := by
  intro key value hget
  simp only [Dataset.putTuple, Function.update_apply] at hget
  split at hget
  next heq => rw [← Option.some.inj hget, heq]
  next => exact h key value hget

theorem SelfKeyed.apply (h : d.SelfKeyed) (r : WriteDataRequest) : (d.apply r).SelfKeyed := by
  -- the attribute operations leave the tuples alone
  refine List.foldlRecOn _ _ (motive := SelfKeyed) ?_ fun d hd _ _ => hd
  refine List.foldlRecOn _ _ (motive := SelfKeyed) ?_ fun d hd _ _ => hd
  refine List.foldlRecOn _ _ (motive := SelfKeyed) ?_ fun d hd t _ => hd.putTuple t
  exact List.foldlRecOn _ _ (motive := SelfKeyed) h fun d hd k _ => hd.deleteTuple k.tuple

theorem selfKeyed_replay (requests : List WriteDataRequest) : (replay requests).SelfKeyed :=
  List.foldlRecOn requests _ (motive := SelfKeyed) (fun _ _ hnone => by cases hnone) fun _ hd r _ => hd.apply r

end Spec.Dataset

/-! ## The memory store -/

namespace Memory

/-- No bound was passed and no cancellation seen. -/
def QueryState.Clear (s : QueryState) : Prop :=
  s.canceled = false ∧ s.workExhausted = false ∧ s.resultExhausted = false

/-- A visit stops with a flag set, or takes the live subject. -/
theorem visitTuple_stops_or_takes (readAt : Time) (limit : Nat) (ctx : ReadCtx) (s : QueryState)
    (value : RelationshipTuple) :
    ∃ s', (visitTuple readAt limit ctx s value = (s', false) ∧ ¬ s'.Clear) ∨
      (visitTuple readAt limit ctx s value = (s', true) ∧
        s'.subjects = s.subjects ++ ([value].filter (live readAt)).map (·.tuple.subject)) := by
  unfold visitTuple
  dsimp only
  split
  · exact ⟨_, .inl ⟨rfl, by simp [QueryState.Clear]⟩⟩
  split
  · exact ⟨_, .inl ⟨rfl, by simp [QueryState.Clear]⟩⟩
  split
  next hexpired =>
    have hdead : live readAt value = false := by simp_all [live]
    exact ⟨_, .inr ⟨rfl, by simp [hdead]⟩⟩
  next hexpired =>
    have hlive : live readAt value = true := by
      simp only [live]
      revert hexpired
      cases value.hasExpiry <;> simp
    split
    · exact ⟨_, .inl ⟨rfl, by simp [QueryState.Clear]⟩⟩
    · exact ⟨_, .inr ⟨rfl, by simp [hlive]⟩⟩

variable {readAt : Time}

/-- A walk that ends with no flag set has taken every live subject. -/
theorem visitList_subjects {limit ctx l s} (hclear : (Avl.visitList (visitTuple readAt limit ctx) l s).1.Clear) :
    (Avl.visitList (visitTuple readAt limit ctx) l s).1.subjects =
      s.subjects ++ (l.filter (live readAt)).map (·.tuple.subject) := by
  induction l generalizing s with
  | nil => simp [Avl.visitList]
  | cons value l ih =>
    obtain ⟨s', ⟨hvisit, hset⟩ | ⟨hvisit, hsubjects⟩⟩ := visitTuple_stops_or_takes readAt limit ctx s value
    · rw [Avl.visitList, hvisit] at hclear
      exact absurd hclear hset
    · rw [Avl.visitList, hvisit] at hclear ⊢
      rw [ih hclear, hsubjects, append_assoc, ← map_append, ← filter_append, singleton_append]

/-- A query that returns, returns every live subject of the bucket. -/
theorem queryTuples_eq_ok {version query ctx subjects} (hordered : version.tuples.Ordered compareTuple)
    (h : queryTuples version readAt query ctx = .ok subjects) :
    subjects = sortDedup compareSubject (liveSubjects version.tuples readAt query) := by
  simp only [queryTuples, check_eq_ok, require_eq_ok, queryTupleBucket_eq hordered] at h
  obtain ⟨-, -, hcanceled, hexhausted, h⟩ := h
  obtain ⟨result, hresult, h⟩ := bind_eq_ok.1 h
  have hclear : (Avl.visitList (visitTuple readAt query.limit ctx)
      ((bucketEntries version.tuples query.resource query.relation).map (·.2)) .start).1.Clear := by
    simpa [QueryState.Clear] using And.intro hcanceled hexhausted
  simp only [check_eq_ok, require_eq_ok] at h
  rw [← Except.ok.inj h.2, newTupleResult_eq_ok hresult, visitList_subjects hclear]
  rfl

theorem mem_bucket {t : TupleNode} (h : t.Ordered compareTuple) {resource relation key value} :
    (key, value) ∈ bucketEntries t resource relation ↔
      key.resource = resource ∧ key.relation = relation ∧ Avl.get compareTuple t key = some value := by
  rw [bucketEntries, mem_filter, ← Avl.get_eq_some h, beq_iff_eq, compareTupleBucket_eq_eq]
  tauto

theorem mem_liveSubjects_iff {t : TupleNode} (h : t.Ordered compareTuple)
    (hself : ∀ key value, Avl.get compareTuple t key = some value → value.tuple = key) {query s} :
    s ∈ liveSubjects t readAt query ↔
      ∃ value, Avl.get compareTuple t value.tuple = some value ∧ value.tuple = ⟨query.resource, query.relation, s⟩ ∧
        live readAt value = true := by
  simp only [liveSubjects, mem_map, mem_filter, Prod.exists, exists_eq_right, mem_bucket h]
  constructor
  · rintro ⟨value, ⟨⟨key, hr, hrel, hget⟩, hlive⟩, rfl⟩
    obtain rfl := hself key value hget
    exact ⟨value, hget, by rw [← hr, ← hrel], hlive⟩
  · rintro ⟨value, hget, htuple, hlive⟩
    exact ⟨value, ⟨⟨value.tuple, by rw [htuple], by rw [htuple], hget⟩, hlive⟩, by rw [htuple]⟩

section

variable [Primitives]

/-- What OpenSnapshot pins in a reachable state is a search tree of facts under their own tuples. -/
theorem openSnapshotLocked_version {s : System} (hs : s.Reached) {request view}
    (hopen : (openSnapshotLocked s.store request).2 = .opened view) :
    view.version.tuples.Ordered compareTuple ∧
      ∀ key value, Avl.get compareTuple view.version.tuples key = some value → value.tuple = key := by
  have hinv := dataInv_of_reached hs
  obtain ⟨hwf, hdataset⟩ := (hinv.state request.namespace_).baseVersion (hinv.log _) s.store.lock.nextRef
  have hversion : view.version = baseVersion (s.store.data request.namespace_) s.store.lock.nextRef := by
    simp only [openSnapshotLocked] at hopen
    split at hopen
    · cases hopen; rfl
    · cases hopen
  rw [hversion]
  refine ⟨hwf.tuples_ordered, fun key value hget => ?_⟩
  have hself := Spec.Dataset.selfKeyed_replay ((dataLog request.namespace_ (writes s.log)).map (·.request))
  rw [← hdataset] at hself
  exact hself key value hget

end

end Memory

/-! ## The SQLite store -/

namespace Sqlite

/-- The facts a pinned view holds, as its rows spell them. -/
def Snapshot.facts (view : Snapshot) : Set RelationshipTuple :=
  { t | ∃ row ∈ view.db.tuples.rows, row.namespace_ = view.namespace_ ∧ t = storedTuple row.tuple row.expiresAtNS }

variable {query : TupleQuery} {subjects : List SubjectRef}

/-- A scan that returns has read all its rows, and they are at most the limit. -/
theorem scanTuples_eq_ok {count rows} (h : scanTuples query count rows = .ok subjects) :
    subjects = rows.map (·.tuple.subject) ∧ (rows ≠ [] → count + rows.length ≤ query.limit) := by
  induction rows generalizing count subjects with
  | nil =>
    obtain rfl := Except.ok.inj h
    simp
  | cons row rest ih =>
    simp only [scanTuples, bind_eq_ok] at h
    obtain ⟨t, ht, _, -, _, hcount, tail, htail, h⟩ := h
    obtain ⟨-, -, -, rfl⟩ := decodeDurableTuple_eq_ok.1 ht
    obtain rfl := Except.ok.inj h
    obtain ⟨rfl, hlength⟩ := ih htail
    have hone := require_eq_ok.1 hcount
    simp only [decide_eq_true_eq] at hone
    refine ⟨rfl, fun _ => ?_⟩
    rcases eq_or_ne rest [] with rfl | hne
    · exact hone
    · have := hlength hne
      simp only [length_cons]
      omega

theorem live_storedTuple (readAtNS : Int64) (tuple : Tuple) (expiresAtNS : Option Int64) :
    Memory.live (unixTime readAtNS) (storedTuple tuple expiresAtNS) = active readAtNS expiresAtNS := by
  cases expiresAtNS with
  | none => rfl
  | some nanos =>
    simp only [Memory.live, storedTuple, active, unixTime, Option.isSome_some, Option.map_some, Option.getD_some,
      Option.all_some, Bool.not_true, Bool.false_or]
    rfl

theorem queryTuples_eq_ok {view : Snapshot} (h : queryTuples view query = .ok subjects) :
    SortedSet compareSubject ((view.db.tuples.rows.filter fun r => r.namespace_ = view.namespace_ &&
      r.tuple.resource = query.resource && r.tuple.relation = query.relation &&
        active view.readAtNS r.expiresAtNS).map (·.tuple.subject)) subjects := by
  simp only [queryTuples, bind_eq_ok] at h
  obtain ⟨_, -, raw, hraw, h⟩ := h
  obtain ⟨rfl, hlength⟩ := scanTuples_eq_ok hraw
  rw [newTupleResult_eq_ok h]
  refine (sortedSet_sortDedup _).congr fun s => ?_
  -- one row more than the limit was asked for, and the limit was not passed
  have hall : tupleRows view query = (view.db.tuples.rows.filter fun r => r.namespace_ = view.namespace_ &&
      r.tuple.resource = query.resource && r.tuple.relation = query.relation &&
        active view.readAtNS r.expiresAtNS).mergeSort
      fun a b => compareSubject a.tuple.subject b.tuple.subject != .gt := by
    refine take_of_length_le (Nat.le_of_not_lt fun hlong => ?_)
    have htake : (tupleRows view query).length = query.limit + 1 := by
      rw [tupleRows, length_take]
      omega
    have := hlength (ne_nil_of_length_pos (by omega))
    omega
  simp only [hall, mem_map, mem_mergeSort]

theorem mem_queryTuples {view : Snapshot} (h : queryTuples view query = .ok subjects) {s : SubjectRef} :
    s ∈ subjects ↔ ∃ t ∈ view.facts,
      t.tuple = ⟨query.resource, query.relation, s⟩ ∧ Memory.live (unixTime view.readAtNS) t = true := by
  rw [(queryTuples_eq_ok h).mem_iff]
  simp only [mem_map, mem_filter, Bool.and_eq_true, decide_eq_true_eq]
  constructor
  · rintro ⟨row, ⟨hrow, ⟨⟨hns, hresource⟩, hrelation⟩, hactive⟩, rfl⟩
    refine ⟨_, ⟨row, hrow, hns, rfl⟩, ?_, (live_storedTuple _ _ _).trans hactive⟩
    rw [← hresource, ← hrelation]
    rfl
  · rintro ⟨_, ⟨row, hrow, hns, rfl⟩, htuple, hlive⟩
    rw [live_storedTuple] at hlive
    have htuple : row.tuple = ⟨query.resource, query.relation, s⟩ := htuple
    exact ⟨row, ⟨hrow, ⟨⟨hns, by rw [htuple]⟩, by rw [htuple]⟩, hlive⟩, by rw [htuple]⟩

end Sqlite

/-! ## The merge -/

namespace App

variable {canonical : List SubjectRef} {s : SubjectRef}

/-- What is collected is below what is to come. -/
theorem below {l} (h : StrictSorted compareSubject (canonical ++ s :: l)) :
    ∀ x ∈ canonical, compareSubject x s = .lt := fun x hx =>
  (pairwise_append.1 h).2.2 x hx s mem_cons_self

/-- What is above everything collected is appended. -/
theorem appendSubject_of_lt (h : ∀ x ∈ canonical, compareSubject x s = .lt) :
    appendSubject canonical s = canonical ++ [s] := by
  rw [appendSubject, if_neg]
  intro hlast
  exact compare_irrefl (h s (mem_of_getLast? hlast))

theorem foldl_appendSubject {l} (h : StrictSorted compareSubject (canonical ++ l)) :
    l.foldl appendSubject canonical = canonical ++ l := by
  induction l generalizing canonical with
  | nil => simp
  | cons s l ih =>
    rw [foldl_cons, appendSubject_of_lt (below h)]
    rw [append_cons] at h
    rw [ih h, ← append_cons]

/-- The merge of strictly sorted lists, above what is collected, is their strictly sorted union. -/
theorem mergeSubjects_spec {canonical contextual persistent}
    (hc : StrictSorted compareSubject (canonical ++ contextual))
    (hp : StrictSorted compareSubject (canonical ++ persistent)) :
    SortedSet compareSubject (canonical ++ contextual ++ persistent) (mergeSubjects canonical contextual persistent) := by
  fun_induction mergeSubjects canonical contextual persistent with
  | case1 canonical persistent =>
    rw [foldl_appendSubject hp]
    exact ⟨hp, fun x => by simp⟩
  | case2 canonical contextual =>
    rw [foldl_appendSubject hc]
    exact ⟨hc, fun x => by simp⟩
  | case3 canonical c contextual p persistent hlt ih =>
    have hc' := below hc
    rw [appendSubject_of_lt hc'] at ih ⊢
    rw [append_cons] at hc
    refine (ih hc ?_).congr fun x => by simp
    rw [← append_cons]
    exact hp.insert hc' hlt
  | case4 canonical c contextual p persistent heq ih =>
    obtain rfl := LawfulEqCmp.eq_of_compare heq
    rw [appendSubject_of_lt (below hc)] at ih ⊢
    rw [append_cons] at hc hp
    exact (ih hc hp).congr fun x => by simp; tauto
  | case5 canonical c contextual p persistent hgt ih =>
    have hp' := below hp
    rw [appendSubject_of_lt hp'] at ih ⊢
    rw [append_cons] at hp
    refine (ih ?_ hp).congr fun x => by simp; tauto
    rw [← append_cons]
    exact hc.insert hp' (OrientedCmp.gt_iff_lt.1 hgt)

theorem sortedSet_canonicalSubjects {contextual persistent} (hc : StrictSorted compareSubject contextual)
    (hp : StrictSorted compareSubject persistent) :
    SortedSet compareSubject (contextual ++ persistent) (canonicalSubjects contextual persistent) :=
  @mergeSubjects_spec [] contextual persistent hc hp

/-! ## The contextual side -/

/-- Of one bucket, the order of the tuples is that of their subjects. -/
theorem strictSorted_contextual {tuples : List RelationshipTuple}
    (h : tuples.Pairwise fun a b => compareTuple a.tuple b.tuple = .lt) (r : SnapshotReader) (resource : EntityRef)
    (relation : Bytes) :
    StrictSorted compareSubject ((tuples.filter (r.matchesBucket resource relation)).map (·.tuple.subject)) := by
  refine pairwise_map.2 ((h.filter _).imp_of_mem fun {a b} ha hb hab => ?_)
  have hbucket : Memory.compareBucket a.tuple b.tuple = .eq := by
    have ha := (mem_filter.1 ha).2
    have hb := (mem_filter.1 hb).2
    simp only [SnapshotReader.matchesBucket, Bool.and_eq_true, decide_eq_true_eq] at ha hb
    simp [Memory.compareBucket, ha.1, hb.1, ReflCmp.compare_self]
  rwa [Memory.compareTuple_eq, hbucket] at hab

theorem mem_contextual {r : SnapshotReader} {resource : EntityRef} {relation : Bytes} :
    s ∈ (r.contextual.tuples.filter (r.matchesBucket resource relation)).map (·.tuple.subject) ↔
      ∃ t ∈ r.contextual.tuples, t.tuple = ⟨resource, relation, s⟩ ∧ Memory.live r.snapshot.readAt t = true := by
  have hmatches (t : RelationshipTuple) : r.matchesBucket resource relation t = true ∧ t.tuple.subject = s ↔
      t.tuple = ⟨resource, relation, s⟩ ∧ Memory.live r.snapshot.readAt t = true := by
    obtain ⟨⟨tresource, trelation, tsubject⟩, expiresAt, hasExpiry⟩ := t
    cases hasExpiry <;> simp [SnapshotReader.matchesBucket, Memory.live] <;> tauto
  simp only [mem_map, mem_filter, and_assoc, hmatches]

/-! ## The read -/

section

variable [Primitives]

/-- A snapshot of one of the two stores, and the facts it was opened on. -/
inductive StoreSnapshot : Snapshot → Set RelationshipTuple → Prop
  | memory {snapshot : Snapshot} {s : Memory.System} {request : Memory.SnapshotRequest} {view : Memory.SnapshotView}
      {ctx : TupleQuery → Memory.ReadCtx} (hs : s.Reached)
      (hopen : (Memory.openSnapshotLocked s.store request).2 = .opened view) (hreadAt : snapshot.readAt = view.readAt)
      (hquery : ∀ query, snapshot.queryTuples query = Memory.queryTuples view.version view.readAt query (ctx query)) :
      StoreSnapshot snapshot { t | view.version.dataset.tuples t.tuple = some t }
  | sqlite {snapshot : Snapshot} {view : Sqlite.Snapshot} (hreadAt : snapshot.readAt = Sqlite.unixTime view.readAtNS)
      (hquery : ∀ query, snapshot.queryTuples query = Sqlite.queryTuples view query) : StoreSnapshot snapshot view.facts

/-- What either store's query returns. -/
theorem StoreSnapshot.queryTuples {snapshot facts} (h : StoreSnapshot snapshot facts) {query subjects}
    (hquery : snapshot.queryTuples query = .ok subjects) :
    StrictSorted compareSubject subjects ∧ ∀ s, s ∈ subjects ↔ ∃ t ∈ facts,
      t.tuple = ⟨query.resource, query.relation, s⟩ ∧ Memory.live snapshot.readAt t = true := by
  cases h with
  | memory hs hopen hreadAt hq =>
    obtain ⟨hordered, hself⟩ := Memory.openSnapshotLocked_version hs hopen
    rw [hq] at hquery
    rw [Memory.queryTuples_eq_ok hordered hquery, hreadAt]
    refine ⟨strictSorted_sortDedup _, fun s => ?_⟩
    rw [(sortedSet_sortDedup _).mem_iff, Memory.mem_liveSubjects_iff hordered hself]
    rfl
  | sqlite hreadAt hq =>
    rw [hq] at hquery
    rw [hreadAt]
    exact ⟨(Sqlite.queryTuples_eq_ok hquery).sorted, fun s => Sqlite.mem_queryTuples hquery⟩

omit [Primitives] in
theorem newTupleQuery_eq {resource relation limit query} (h : newTupleQuery resource relation limit = .ok query) :
    query = ⟨resource, relation, limit⟩ := by
  simp only [newTupleQuery, bind_eq_ok] at h
  obtain ⟨_, -, _, -, _, -, h⟩ := h
  exact (Except.ok.inj h).symm

/-- A read that returns, returns the live subjects of the bucket, persistent and contextual, each once and in order. -/
theorem readTuples_exact {snapshot : Snapshot} {facts : Set RelationshipTuple} (hsnapshot : StoreSnapshot snapshot facts)
    {tuples : List RelationshipTuple} {attributes : List Attribute} {contextual : ContextualData}
    (hcontextual : newContextualData tuples attributes = .ok contextual) {resource : EntityRef} {relation : Bytes}
    {subjects : List SubjectRef} (h : SnapshotReader.ReadTuples ⟨snapshot, contextual⟩ resource relation = .ok subjects) :
    StrictSorted compareSubject subjects ∧ subjects.Nodup ∧ ∀ s, s ∈ subjects ↔
      ∃ t, (t ∈ facts ∨ t ∈ tuples) ∧ t.tuple = ⟨resource, relation, s⟩ ∧ Memory.live snapshot.readAt t = true := by
  obtain ⟨-, -, -, -, -, hcanonical, -⟩ := newContextualData_eq_ok.1 hcontextual
  simp only [SnapshotReader.ReadTuples, bind_eq_ok] at h
  obtain ⟨query, hquery, persistent, hpersistent, _, -, _, -, h⟩ := h
  obtain rfl := newTupleQuery_eq (orFail_eq_ok.1 hquery)
  obtain ⟨hsorted, hmem⟩ := hsnapshot.queryTuples hpersistent
  have hmerge := sortedSet_canonicalSubjects
    (strictSorted_contextual (strictSorted_tuples hcanonical) ⟨snapshot, contextual⟩ resource relation) hsorted
  rw [← Except.ok.inj h]
  refine ⟨hmerge.sorted, hmerge.sorted.nodup, fun s => ?_⟩
  have hinput := (sortedSet_canonicalRelationshipTuples hcanonical).mem_iff
  rw [hmerge.mem_iff, List.mem_append, hmem, mem_contextual (r := ⟨snapshot, contextual⟩)]
  simp only [hinput, or_and_right, exists_or]
  exact or_comm

end

/-! One stored and one contextual viewer, read from a SQLite snapshot. -/

def viewerTuple (id : String) : Tuple := ⟨⟨ascii "doc", ascii "1"⟩, ascii "viewer", ⟨ascii "user", ascii id, []⟩⟩

def viewerSnapshot : Sqlite.Snapshot where
  db := { Sqlite.Database.migrated (List.replicate 32 0) with
    tuples := Table.empty.set ⟨ascii "n", Sqlite.tupleKeyBytes (viewerTuple "u"), viewerTuple "u", none⟩ }
  namespace_ := ascii "n"
  generation := 1
  readAtNS := 5

def viewerReader : SnapshotReader where
  snapshot :=
    { namespace_ := ascii "n"
      generation := 1
      readAt := Sqlite.unixTime 5
      queryTuples := Sqlite.queryTuples viewerSnapshot
      getAttribute := fun _ => .error .unavailable
      hasAttributeDescendant := fun _ => .error .unavailable
      close := .ok () }
  contextual := ⟨[⟨viewerTuple "v", zeroTime, false⟩], []⟩

theorem readTuples_exact_sample :
    ∃ subjects, viewerReader.ReadTuples ⟨ascii "doc", ascii "1"⟩ (ascii "viewer") = .ok subjects ∧
      StrictSorted compareSubject subjects ∧ subjects = [(viewerTuple "u").subject, (viewerTuple "v").subject] := by
  have hread : viewerReader.ReadTuples ⟨ascii "doc", ascii "1"⟩ (ascii "viewer") =
      .ok [(viewerTuple "u").subject, (viewerTuple "v").subject] := by decide +kernel
  have hcontextual : newContextualData [⟨viewerTuple "v", zeroTime, false⟩] [] = .ok viewerReader.contextual := by
    decide +kernel
  have hstore := @StoreSnapshot.sqlite .constant viewerReader.snapshot viewerSnapshot rfl fun _ => rfl
  exact ⟨_, hread, (@readTuples_exact .constant _ _ hstore _ _ _ hcontextual _ _ _ hread).1, rfl⟩

end App

end PolicyEngine
