import PolicyEngine.App.Session

/-!
# What opening a session fixes

The inversion of `openEvaluationSession`: which calls answered what, and where each field
of the session comes from. The facts of a session went through the canonical form of
`newContextualData` last, so they are sorted, without repeats, and valid.
-/

open PolicyEngine.Lib

namespace PolicyEngine.App

/-! ## Normalized facts -/

/-- The attribute is new to the stored ones and overrides none. -/
def DataSchema.adds (s : DataSchema) (snapshot : Snapshot) (a : Attribute) : Bool :=
  match s.additive snapshot a with
  | .ok adds => adds
  | .error _ => false

variable {s : DataSchema} {snapshot : Snapshot}

/-- The loop accepts every attribute and keeps those that add. -/
theorem additive_foldlM_eq_ok {attributes : List Attribute} {kept out : List Attribute} :
    attributes.foldlM (fun additive a => do
        let adds ← s.additive snapshot a
        .ok (if adds then additive ++ [a] else additive)) kept = (.ok out : Result (List Attribute)) ↔
      (∀ a ∈ attributes, (s.additive snapshot a).isOk = true) ∧ out = kept ++ attributes.filter (s.adds snapshot) := by
  induction attributes generalizing kept with
  | nil =>
    rw [List.foldlM_nil, List.filter_nil, List.append_nil]
    exact ⟨fun h => ⟨by simp, (Except.ok.inj h).symm⟩, fun h => congrArg _ h.2.symm⟩
  | cons a attributes ih =>
    simp only [List.foldlM_cons, List.mem_cons, forall_eq_or_imp]
    cases ha : s.additive snapshot a with
    | error e => simp [bind, Except.bind, Except.isOk, Except.toBool]
    | ok adds =>
      have hadds : s.adds snapshot a = adds := by simp [DataSchema.adds, ha]
      have hstep := @ih (if adds then kept ++ [a] else kept)
      refine hstep.trans (and_congr (by simp [Except.isOk, Except.toBool]) ?_)
      cases adds <;> simp [hadds]

variable {d : ContextualData}

theorem normalizeContextualData_eq_ok {out : ContextualData} :
    s.NormalizeContextualData snapshot d = .ok out ↔
      ∃ validated, newContextualData d.tuples d.attributes = .ok validated ∧
        (∀ a ∈ validated.attributes, (s.additive snapshot a).isOk = true) ∧
        newContextualData validated.tuples (validated.attributes.filter (s.adds snapshot)) = .ok out := by
  constructor
  · intro h
    obtain ⟨validated, hvalidated, h⟩ := bind_eq_ok.1 h
    obtain ⟨additive, hadditive, h⟩ := bind_eq_ok.1 h
    obtain ⟨hall, rfl⟩ := additive_foldlM_eq_ok.1 hadditive
    exact ⟨validated, hvalidated, hall, h⟩
  · rintro ⟨validated, hvalidated, hall, h⟩
    exact bind_eq_ok.2 ⟨validated, hvalidated, bind_eq_ok.2 ⟨_, additive_foldlM_eq_ok.2 ⟨hall, rfl⟩, h⟩⟩

/-- Normalizing keeps the tuples and drops attributes. -/
theorem mem_of_normalizeContextualData {out} (h : s.NormalizeContextualData snapshot d = .ok out) :
    (∀ t, t ∈ out.tuples ↔ t ∈ d.tuples) ∧ ∀ a ∈ out.attributes, a ∈ d.attributes := by
  obtain ⟨validated, hvalidated, -, hout⟩ := normalizeContextualData_eq_ok.1 h
  obtain ⟨-, -, -, -, -, hts, has⟩ := newContextualData_eq_ok.1 hvalidated
  obtain ⟨-, -, -, -, -, hts', has'⟩ := newContextualData_eq_ok.1 hout
  refine ⟨fun t => ?_, fun a ha => ?_⟩
  · rw [(sortedSet_canonicalRelationshipTuples hts').mem_iff, (sortedSet_canonicalRelationshipTuples hts).mem_iff]
  · rw [(sortedSet_canonicalAttributes has').mem_iff, List.mem_filter, (sortedSet_canonicalAttributes has).mem_iff] at ha
    exact ha.1

/-! ## Sessions -/

variable [Dsl]

/-- How a session comes by its facts: its own, and those that delegation evidence yields. -/
inductive Gathered (ports : Ports) (schema : DataSchema) (snapshot : Snapshot) (request : SharedRequest) :
    ContextualData → Prop
  | own {d : ContextualData} (hevidence : request.delegationEvidence = [])
      (h : schema.NormalizeContextualData snapshot request.contextualData = .ok d) :
      Gathered ports schema snapshot request d
  | delegated {own delegated merged d : ContextualData} {verification : DelegationVerificationRequest}
      (hevidence : request.delegationEvidence ≠ [])
      (hown : schema.NormalizeContextualData snapshot request.contextualData = .ok own)
      (hverify : ports.verifyDelegation verification = .ok delegated)
      (hvalid : validDelegationVerificationResult delegated = true)
      (hmerged : newContextualData (own.tuples ++ delegated.tuples) (own.attributes ++ delegated.attributes) = .ok merged)
      (h : schema.NormalizeContextualData snapshot merged = .ok d) : Gathered ports schema snapshot request d

/-- Where the fields of a session come from. -/
structure Opened (ports : Ports) (caller : Caller) (request : SharedRequest) (fingerprint : Bytes) (s : Session) :
    Prop where
  snapshot : openExactSnapshot ports request s.evaluatedAt = .ok s.reader.snapshot
  schema : newDataSchema s.artifact = .ok s.schema
  binding : sessionBinding caller request ⟨request.namespace_, s.revisionID, s.slotGeneration⟩ s.reader.snapshot
    s.evaluatedAt fingerprint = .ok s.binding
  dataGeneration : s.dataGeneration = s.reader.snapshot.generation
  facts : Gathered ports s.schema s.reader.snapshot request s.reader.contextual
  effectiveContext : s.effectiveContextFingerprint = fingerprintEffectiveContext s.reader.contextual

variable {ports : Ports} {request : SharedRequest}

theorem gathered_of_addDelegation {schema binding own b b'} (hevidence : request.delegationEvidence ≠ [])
    (hown : schema.NormalizeContextualData snapshot request.contextualData = .ok own)
    (h : addDelegation ports schema snapshot binding request.delegationEvidence own b = .ok (d, b')) :
    Gathered ports schema snapshot request d := by
  obtain ⟨verification, _, -, h⟩ := bind_run_eq_ok.1 h
  obtain ⟨delegated, _, hinvoke, h⟩ := bind_run_eq_ok.1 h
  obtain ⟨_, _, -, h⟩ := bind_run_eq_ok.1 h
  obtain ⟨_, _, -, h⟩ := bind_run_eq_ok.1 h
  obtain ⟨merged, _, hmerged, hnormalized⟩ := bind_run_eq_ok.1 h
  obtain ⟨hinvoke, -⟩ := lift_run_eq_ok.1 hinvoke
  simp only [invokeDelegationVerifier, check_eq_ok] at hinvoke
  obtain ⟨answer, hverify, hanswer⟩ := bind_eq_ok.1 hinvoke.2
  simp only [check_eq_ok, require_eq_ok] at hanswer
  obtain ⟨hvalid, hanswer⟩ := hanswer
  obtain rfl := Except.ok.inj hanswer
  exact .delegated hevidence hown hverify hvalid (lift_run_eq_ok.1 hmerged).1 (lift_run_eq_ok.1 hnormalized).1

theorem opened_of_openEvaluationSession {caller fingerprint s b b'}
    (h : openEvaluationSession ports caller request fingerprint b = .ok (s, b')) :
    Opened ports caller request fingerprint s := by
  obtain ⟨pin, _, hpin, h⟩ := bind_run_eq_ok.1 h
  obtain ⟨artifact, _, -, h⟩ := bind_run_eq_ok.1 h
  obtain ⟨evaluatedAt, _, -, h⟩ := bind_run_eq_ok.1 h
  obtain ⟨snapshot, _, hsnapshot, h⟩ := bind_run_eq_ok.1 h
  obtain ⟨binding, _, hbinding, h⟩ := bind_run_eq_ok.1 h
  obtain ⟨schema, _, hschema, h⟩ := bind_run_eq_ok.1 h
  obtain ⟨_, _, -, h⟩ := bind_run_eq_ok.1 h
  obtain ⟨own, c, hown, h⟩ := bind_run_eq_ok.1 h
  obtain ⟨contextual, c', hcontextual, h⟩ := bind_run_eq_ok.1 h
  obtain ⟨rfl, -⟩ := Prod.mk.inj (Except.ok.inj h)
  have hown := (lift_run_eq_ok.1 hown).1
  have hfacts : Gathered ports schema snapshot request contextual := by
    split at hcontextual
    next hused => exact gathered_of_addDelegation (by simpa using hused) hown hcontextual
    next hused =>
      obtain ⟨rfl, -⟩ := Prod.mk.inj (Except.ok.inj hcontextual)
      exact .own (by simpa using hused) hown
  exact ⟨(lift_run_eq_ok.1 hsnapshot).1, (lift_run_eq_ok.1 hschema).1, (lift_run_eq_ok.1 hbinding).1, rfl, hfacts, rfl⟩

/-- The facts of a session are the canonical form of valid facts. -/
theorem Gathered.canonical {schema : DataSchema} (h : Gathered ports schema snapshot request d) :
    ∃ tuples attributes, newContextualData tuples attributes = .ok d := by
  have hnormal (e : ContextualData) (he : schema.NormalizeContextualData snapshot e = .ok d) :
      ∃ tuples attributes, newContextualData tuples attributes = .ok d := by
    obtain ⟨_, -, -, hd⟩ := normalizeContextualData_eq_ok.1 he
    exact ⟨_, _, hd⟩
  cases h with
  | own _ h => exact hnormal _ h
  | delegated _ _ _ _ _ h => exact hnormal _ h

end PolicyEngine.App
