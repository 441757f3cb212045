import PolicyEngine.Memory.Calls
import PolicyEngine.Memory.TupleIndex
import PolicyEngine.Store.Snapshot

/-!
# Reads of a memory snapshot

`QueryTuples`, `GetAttribute` and `HasAttributeDescendant` of `store/memory/data.go`,
once the read is admitted. A query walks one bucket of the pinned tuples, looks at the
context now and then, and gives up as soon as one of its bounds is passed; it never
returns part of the answer.
-/

open Std PolicyEngine.Lib List

namespace PolicyEngine.Memory

/-- The context as a read sees it: on entry, at its visits and at the end. -/
structure ReadCtx where
  entry : Ctx
  visit : Nat → Ctx
  last : Ctx

structure ReadCtx.Alive (ctx : ReadCtx) : Prop where
  entry : ctx.entry = .alive
  visit : ∀ n, ctx.visit n = .alive
  last : ctx.last = .alive

/-! ## Tuples -/

structure QueryState where
  visited : Nat
  subjects : List SubjectRef
  resultExhausted : Bool
  workExhausted : Bool
  canceled : Bool

def QueryState.start : QueryState := ⟨0, [], false, false, false⟩

/-- The visitor of `QueryTuples`. -/
def visitTuple (readAt : Time) (limit : Nat) (ctx : ReadCtx) (s : QueryState) (value : RelationshipTuple) :
    QueryState × Bool :=
  let s := { s with visited := s.visited + 1 }
  if s.visited > maxAggregateWorkItems then ({ s with workExhausted := true }, false)
  else if s.visited % 64 == 0 && (ctx.visit s.visited).signaled then ({ s with canceled := true }, false)
  else if value.hasExpiry && !(readAt < value.expiresAt) then (s, true)
  else
    let s := { s with subjects := s.subjects ++ [value.tuple.subject] }
    if s.subjects.length > limit then ({ s with resultExhausted := true }, false) else (s, true)

def queryTuples (version : DataVersion) (readAt : Time) (query : TupleQuery) (ctx : ReadCtx) :
    Result (List SubjectRef) := do
  require (!ctx.entry.signaled) (contextWaitError ctx.entry)
  require query.valid .invalidArgument
  let s := (queryTupleBucket version.tuples query.resource query.relation (visitTuple readAt query.limit ctx) .start).1
  require (!s.canceled) (contextWaitError (ctx.visit s.visited))
  require (!(s.workExhausted || s.resultExhausted)) .resourceExhausted
  let result ← newTupleResult query s.subjects
  require (!ctx.last.signaled) (contextWaitError ctx.last)
  .ok result

/-! ## Attributes -/

/-- The key of a point read, which must be canonical already. -/
def readKey (ctx : ReadCtx) (key : AttributeKey) : Result AttributeKey := do
  require (!ctx.entry.signaled) (contextWaitError ctx.entry)
  let canonical ← orFail .invalidArgument (newAttributeKeyPath key.entity key.path)
  require (canonical.path = key.path) .invalidArgument
  .ok canonical

def getAttribute (version : DataVersion) (key : AttributeKey) (ctx : ReadCtx) : Result (Option Value) := do
  let _ ← readKey ctx key
  let result ←
    match attributeGet version.attributes key with
    | some a => newAttributeResult key a.value true
    | none => newAttributeResult key .zero false
  require (!ctx.last.signaled) (contextWaitError ctx.last)
  .ok result

def hasAttributeDescendant (version : DataVersion) (key : AttributeKey) (ctx : ReadCtx) : Result Bool := do
  let canonical ← readKey ctx key
  let found := attributeHasDescendant version.attributes canonical
  require (!ctx.last.signaled) (contextWaitError ctx.last)
  .ok found

/-! ## What a query returns -/

/-- A tuple is live while it has no expiry, or one after the read. -/
def live (readAt : Time) (value : RelationshipTuple) : Bool := !value.hasExpiry || readAt < value.expiresAt

/-- What the visits have come to while nothing was passed. -/
structure QueryState.Going (s : QueryState) (limit : Nat) : Prop where
  resultExhausted : s.resultExhausted = false
  workExhausted : s.workExhausted = false
  canceled : s.canceled = false
  within : s.subjects.length ≤ limit

/-- One visit of an uncancelled query: a bound is passed, or the live subject is taken. -/
theorem visitTuple_cases (readAt : Time) (limit : Nat) {ctx : ReadCtx} (hctx : ctx.Alive) {s : QueryState}
    (hs : s.Going limit) (value : RelationshipTuple) :
    ∃ s', (visitTuple readAt limit ctx s value = (s', false) ∧ s'.canceled = false ∧
          (s'.workExhausted || s'.resultExhausted) = true) ∨
        (visitTuple readAt limit ctx s value = (s', true) ∧ s'.Going limit ∧
          s'.subjects = s.subjects ++ ([value].filter (live readAt)).map (·.tuple.subject)) := by
  obtain ⟨hres, hwork, hcan, hlen⟩ := hs
  have halive : (ctx.visit (s.visited + 1)).signaled = false := by rw [hctx.visit]; rfl
  unfold visitTuple
  dsimp only
  rw [halive, Bool.and_false]
  split
  next => exact ⟨_, .inl ⟨rfl, hcan, rfl⟩⟩
  next =>
    simp only [Bool.false_eq_true, if_false]
    split
    next hexpired =>
      refine ⟨_, .inr ⟨rfl, ⟨hres, hwork, hcan, hlen⟩, ?_⟩⟩
      have : live readAt value = false := by simp_all [live]
      simp [this]
    next hlive =>
      have hl : live readAt value = true := by
        simp only [live]
        cases he : value.hasExpiry <;> simp_all
      split
      next => exact ⟨_, .inl ⟨rfl, hcan, by simp⟩⟩
      next hle => exact ⟨_, .inr ⟨rfl, ⟨hres, hwork, hcan, Nat.le_of_not_gt hle⟩, by simp [hl]⟩⟩

/-- All the visits of an uncancelled query. -/
theorem visitTuples_cases (readAt : Time) (limit : Nat) {ctx : ReadCtx} (hctx : ctx.Alive)
    (l : List RelationshipTuple) {s : QueryState} (hs : s.Going limit) :
    ∃ s', (Avl.visitList (visitTuple readAt limit ctx) l s).1 = s' ∧ s'.canceled = false ∧
      ((s'.workExhausted || s'.resultExhausted) = true ∨
        s'.Going limit ∧ s'.subjects = s.subjects ++ (l.filter (live readAt)).map (·.tuple.subject)) := by
  induction l generalizing s with
  | nil => exact ⟨s, rfl, hs.canceled, .inr ⟨hs, by simp⟩⟩
  | cons value l ih =>
    obtain ⟨s₁, ⟨hv, hc, hx⟩ | ⟨hv, hg, hsub⟩⟩ := visitTuple_cases readAt limit hctx hs value
    · exact ⟨s₁, by simp [Avl.visitList, hv], hc, .inl hx⟩
    · obtain ⟨s', he, hc, hx | ⟨hg', hsub'⟩⟩ := ih hg
      · exact ⟨s', by simp [Avl.visitList, hv, he], hc, .inl hx⟩
      · refine ⟨s', by simp [Avl.visitList, hv, he], hc, .inr ⟨hg', ?_⟩⟩
        rw [hsub', hsub, append_assoc, ← map_append, ← filter_append, singleton_append]

/-- Valid subjects make a result, unless it is too large. -/
theorem newTupleResult_eq {query subjects} (hq : query.valid = true)
    (hs : ∀ s ∈ subjects, validateDSLRelationship ⟨query.resource, query.relation, s⟩ = .ok ()) :
    Outcome (· = .resourceExhausted) (fun r => r = sortDedup compareSubject subjects) (newTupleResult query subjects) := by
  unfold newTupleResult
  rw [require_eq_ok.2 hq, ok_bind]
  refine .bind (require_outcome rfl) fun _ _ => ?_
  refine .bind ((charges_tupleResult query subjects).outcome (E := (· = .resourceExhausted)) rfl _) fun _ _ => ?_
  rw [forM_eq_ok.2 fun s hmem => ?_]
  · exact .ok rfl
  · rw [newRelationshipTuple_none (hs s hmem)]
    rfl

/-- The store sets a valid tuple under its own key. -/
def TupleOp.Stored : TupleOp → Prop
  | set key value => value.tuple = key ∧ validateDSLRelationship key = .ok ()
  | delete _ => True

/-- The tuple operations of a write, in the order it makes them. -/
def mutationOps (r : WriteDataRequest) : List TupleOp :=
  r.tupleDeletes.map (.delete ·.tuple) ++ r.tupleWrites.map fun t => .set t.tuple t

/-- A write extends the operations of its base by its own. -/
theorem applyMutations_tuples {base r t a} (h : applyMutations base r = some (t, a)) {ops}
    (hb : base.tuples = tupleTree ops) :
    t = tupleTree (ops ++ mutationOps r) := by
  unfold applyMutations at h
  dsimp only at h
  split at h
  next => cases h
  next =>
    cases h
    rw [tupleTree, foldl_append, ← tupleTree, ← hb, mutationOps, foldl_append, foldl_map, foldl_map]
    rfl

theorem mutationOps_stored {r} (h : Constructed r) : ∀ op ∈ mutationOps r, op.Stored := by
  have hw := newWriteDataRequest_wellFormed h.fixed
  intro op hop
  rw [mutationOps, mem_append, mem_map, mem_map] at hop
  rcases hop with ⟨k, -, rfl⟩ | ⟨t, ht, rfl⟩
  · trivial
  · have hv := hw.tupleWrites t ht
    simp only [RelationshipTuple.valid, Bool.and_eq_true] at hv
    exact ⟨rfl, isOk_unit.1 hv.1.1⟩

theorem tupleMap_stored {ops} (h : ∀ op ∈ ops, op.Stored) {key value} (hv : tupleMap ops key = some value) :
    value.tuple = key ∧ validateDSLRelationship key = .ok () := by
  induction ops using List.reverseRecOn generalizing value with
  | nil => cases hv
  | append_singleton ops op ih =>
    have hop := h op (by simp)
    have hrest {value : RelationshipTuple} := @ih (fun o ho => h o (by simp [ho])) value
    rw [tupleMap, foldl_append, ← tupleMap, foldl_cons, foldl_nil] at hv
    cases op with
    | set k v =>
      rw [TupleOp.onMap, Function.update_apply] at hv
      split at hv
      next heq => cases hv; exact heq ▸ hop
      next => exact hrest hv
    | delete k =>
      rw [TupleOp.onMap, Function.update_apply] at hv
      split at hv
      · cases hv
      · exact hrest hv

/-- The live subjects of a bucket, in order. -/
def liveSubjects (t : TupleNode) (readAt : Time) (query : TupleQuery) : List SubjectRef :=
  (((bucketEntries t query.resource query.relation).map (·.2)).filter (live readAt)).map (·.tuple.subject)

section Query

variable {ops : List TupleOp} (hops : ∀ op ∈ ops, op.Stored) (readAt : Time) (query : TupleQuery)
include hops

theorem mem_liveSubjects {subject : SubjectRef} :
    subject ∈ liveSubjects (tupleTree ops) readAt query ↔
      ∃ value, tupleMap ops ⟨query.resource, query.relation, subject⟩ = some value ∧ live readAt value = true := by
  have hindex := isTupleIndex_tupleTree ops
  simp only [liveSubjects, mem_map, mem_filter, Prod.exists, exists_eq_right]
  constructor
  · rintro ⟨value, ⟨⟨key, hkey⟩, hlive⟩, rfl⟩
    obtain ⟨hr, hrel, hmap⟩ := (mem_bucketEntries hindex).1 hkey
    have hself := (tupleMap_stored hops hmap).1
    refine ⟨value, ?_, hlive⟩
    rw [← hmap, ← hr, ← hrel, ← hself]
  · rintro ⟨value, hmap, hlive⟩
    refine ⟨value, ⟨⟨_, (mem_bucketEntries hindex).2 ⟨rfl, rfl, hmap⟩⟩, hlive⟩, ?_⟩
    rw [(tupleMap_stored hops hmap).1]

theorem strictSorted_liveSubjects : StrictSorted compareSubject (liveSubjects (tupleTree ops) readAt query) := by
  have hindex := isTupleIndex_tupleTree ops
  have hself : ∀ p ∈ bucketEntries (tupleTree ops) query.resource query.relation, p.2.tuple = p.1 := fun p hp =>
    (tupleMap_stored hops ((mem_bucketEntries hindex).1 hp).2.2).1
  refine List.Pairwise.map _ (fun _ _ h => h) (List.Pairwise.filter _ (List.Pairwise.map _ (fun _ _ h => h) ?_))
  refine (pairwise_bucketEntries hindex.ordered query.resource query.relation).imp_of_mem fun {a b} ha hb hab => ?_
  rwa [hself a ha, hself b hb]

/-- An uncancelled query returns the live subjects, all of them, or a bound was passed. -/
theorem queryTuples_outcome {version} (hv : version.tuples = tupleTree ops) {ctx : ReadCtx} (hctx : ctx.Alive)
    (hq : query.valid = true) :
    Outcome (· = .resourceExhausted) (fun r => r = liveSubjects (tupleTree ops) readAt query)
      (queryTuples version readAt query ctx) := by
  have hindex := isTupleIndex_tupleTree ops
  have halive : Ctx.alive.signaled = false := rfl
  obtain ⟨s, hs, hcan, hcases⟩ := visitTuples_cases readAt query.limit hctx
    ((bucketEntries (tupleTree ops) query.resource query.relation).map (·.2)) (s := .start)
    ⟨rfl, rfl, rfl, Nat.zero_le _⟩
  rw [← queryTupleBucket_eq hindex.ordered] at hs
  simp only [queryTuples, hv, hs, hctx.entry, hctx.last, halive, hcan, hq, Bool.not_false, require_true, ok_bind]
  rcases hcases with hx | ⟨hgoing, hsubjects⟩
  · rw [hx]
    exact .error rfl
  · have hall : s.subjects = liveSubjects (tupleTree ops) readAt query := hsubjects
    rw [hgoing.workExhausted, hgoing.resultExhausted, hall, Bool.or_false, Bool.not_false, require_true, ok_bind]
    refine .bind (newTupleResult_eq hq fun subject hmem => ?_) fun r hr => .ok ?_
    · obtain ⟨value, hmap, -⟩ := (mem_liveSubjects hops readAt query).1 hmem
      exact (tupleMap_stored hops hmap).2
    · rw [hr, sortDedup_of_strictSorted (strictSorted_liveSubjects hops readAt query)]

end Query

/-- The tuple index after any operations: a balanced search tree of the map they leave; the roots of all versions
still stand in memory; a bucket query visits its bucket in subject order until a visit says no; and an uncancelled
`QueryTuples` returns every live subject or RESOURCE_EXHAUSTED. -/
theorem tuple_index (ops : List TupleOp) :
    (tupleTree ops).Ordered compareTuple ∧ (tupleTree ops).Balanced ∧
    (∀ key value, (key, value) ∈ (tupleTree ops).toList ↔ tupleMap ops key = some value) ∧
    (∀ fuel, ops.length ≤ fuel →
      ∃ roots m, tupleRoots fuel ops = some (roots, m) ∧ List.Forall₂ m.Rep roots (tupleVersions ops)) ∧
    (∀ resource relation, ∃ entries : List (Tuple × RelationshipTuple),
      (entries.Pairwise fun a b => compareSubject a.1.subject b.1.subject = .lt) ∧
      (∀ key value, (key, value) ∈ entries ↔
        key.resource = resource ∧ key.relation = relation ∧ tupleMap ops key = some value) ∧
      ∀ (σ : Type) (visit : σ → RelationshipTuple → σ × Bool) (s : σ),
        queryTupleBucket (tupleTree ops) resource relation visit s = Avl.visitList visit (entries.map (·.2)) s) ∧
    ((∀ op ∈ ops, op.Stored) → ∀ (version : DataVersion) (readAt : Time) (query : TupleQuery) (ctx : ReadCtx),
      version.tuples = tupleTree ops → ctx.Alive → query.valid = true →
      queryTuples version readAt query ctx = .error .resourceExhausted ∨
        ∃ subjects, queryTuples version readAt query ctx = .ok subjects ∧ StrictSorted compareSubject subjects ∧
          ∀ subject, subject ∈ subjects ↔
            ∃ value, tupleMap ops ⟨query.resource, query.relation, subject⟩ = some value ∧ live readAt value = true) := by
  have hindex := isTupleIndex_tupleTree ops
  refine ⟨hindex.ordered, hindex.balanced, fun _ _ => hindex.mem_iff, fun fuel => tupleRoots_eq fuel ops,
    fun resource relation => ?_, fun hops version readAt query ctx hv hctx hq => ?_⟩
  · exact ⟨bucketEntries (tupleTree ops) resource relation, pairwise_bucketEntries hindex.ordered resource relation,
      fun _ _ => mem_bucketEntries hindex, fun _ visit s => queryTupleBucket_eq hindex.ordered resource relation visit s⟩
  · have hout := queryTuples_outcome hops readAt query hv hctx hq
    cases hr : queryTuples version readAt query ctx with
    | error e => exact .inl (hout.of_error hr ▸ rfl)
    | ok subjects =>
      rw [hout.of_ok hr]
      exact .inr ⟨_, rfl, strictSorted_liveSubjects hops readAt query, fun _ => mem_liveSubjects hops readAt query⟩

/-! A query of two tuples, one of them expired. -/

def sampleTuple (id : String) (expiresAt : Option Time) : RelationshipTuple :=
  ⟨⟨⟨ascii "doc", ascii "1"⟩, ascii "viewer", ⟨ascii "user", ascii id, []⟩⟩, expiresAt.getD zeroTime, expiresAt.isSome⟩

def sampleOps : List TupleOp :=
  [.set (sampleTuple "u" none).tuple (sampleTuple "u" none),
   .set (sampleTuple "v" (some 5)).tuple (sampleTuple "v" (some 5)), .delete (sampleTuple "w" none).tuple]

def sampleQuery : TupleQuery := ⟨⟨ascii "doc", ascii "1"⟩, ascii "viewer", 4⟩

theorem tuple_index_sample :
    ∃ subjects, queryTuples ⟨0, 1, tupleTree sampleOps, .nil⟩ 9 sampleQuery ⟨.alive, fun _ => .alive, .alive⟩ =
        .ok subjects ∧
      ∀ subject, subject ∈ subjects ↔ ∃ value,
        tupleMap sampleOps ⟨sampleQuery.resource, sampleQuery.relation, subject⟩ = some value ∧ live 9 value = true := by
  have hops : ∀ op ∈ sampleOps, op.Stored := by
    simp only [sampleOps, List.forall_mem_cons]
    exact ⟨⟨rfl, by decide +kernel⟩, ⟨rfl, by decide +kernel⟩, trivial, List.forall_mem_nil _⟩
  rcases (tuple_index sampleOps).2.2.2.2.2 hops ⟨0, 1, tupleTree sampleOps, .nil⟩ 9 sampleQuery
    ⟨.alive, fun _ => .alive, .alive⟩ rfl ⟨rfl, fun _ => rfl, rfl⟩ (by decide +kernel) with herr | ⟨subjects, hok, -, hmem⟩
  · exact absurd herr (by decide +kernel)
  · exact ⟨subjects, hok, hmem⟩

end PolicyEngine.Memory
