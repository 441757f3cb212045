import PolicyEngine.Sqlite.AttributeRule
import PolicyEngine.Sqlite.Intact
import PolicyEngine.Sqlite.RecordCodecs

/-!
# The integrity check is sound for every operation

The snapshot queries and WriteData on a database that the integrity check accepts.
They too find every row as they expect it, with one exception: a key that the
public constructor accepts but the key codec does not store is answered INTEGRITY
by any call that has to encode it. `fullIntegrityCheck_sound_iff` says that this is
the only exception.
-/

open PolicyEngine.Lib

namespace PolicyEngine.Sqlite

variable {db db' : Database} {ns : Bytes}

/-! ## Snapshots -/

theorem openPinnedSnapshot_eq (hh : ∀ h ∈ db.namespaceHeads, HeadOk h) (ns : Bytes) (readAtNS : Int64) :
    openPinnedSnapshot db ns readAtNS =
      .ok ⟨db, ns, ((db.namespaceHeads.get? ns).map (·.dataGeneration.toInt.toNat)).getD 0, readAtNS⟩ := by
  rw [openPinnedSnapshot, readNamespaceHead_eq hh, ok_bind]

/-- Stored rows of the queried bucket decode, up to the limit. -/
theorem scanTuples_intact {query rows}
    (hrows : ∀ r ∈ rows, TupleOk db r ∧ r.tuple.resource = query.resource ∧ r.tuple.relation = query.relation)
    (count : Nat) :
    Intact (fun subjects => ∀ s ∈ subjects, validateDSLRelationship ⟨query.resource, query.relation, s⟩ = .ok ())
      (scanTuples query count rows) := by
  induction rows generalizing count with
  | nil => exact .ok (by simp)
  | cons r rows ih =>
    obtain ⟨hr, hresource, hrelation⟩ := hrows r List.mem_cons_self
    have hdecode : decodeDurableTuple r.tupleKey r.tuple r.expiresAtNS = .ok (storedTuple r.tuple r.expiresAtNS) :=
      decodeDurableTuple_eq_ok.2 ⟨hr.valid, hr.key, hr.expiry, rfl⟩
    simp only [scanTuples, hdecode, ok_bind, storedTuple, hresource, hrelation, decide_true, Bool.and_self, require_true]
    refine .bind (require_outcome (by decide)) fun _ _ => ?_
    refine .bind (ih (fun x hx => hrows x (List.mem_cons_of_mem _ hx)) (count + 1)) fun subjects hsubjects => ?_
    refine .ok (List.forall_mem_cons.2 ⟨?_, hsubjects⟩)
    rw [← hresource, ← hrelation]
    exact hr.valid

variable {snapshot : Snapshot}

theorem queryTuples_intact (h : ∀ r ∈ snapshot.db.tuples, TupleOk snapshot.db r) (query : TupleQuery) :
    Intact (fun _ => True) (queryTuples snapshot query) := by
  refine .bind (require_outcome (by decide)) fun _ _ => .bind (@scanTuples_intact snapshot.db query _ (fun r hr => ?_) 0) ?_
  · have hmem := List.mem_filter.1 (List.mem_mergeSort.1 (List.mem_of_mem_take hr))
    have hfilter := hmem.2
    simp only [Bool.and_eq_true, decide_eq_true_eq] at hfilter
    exact ⟨h r hmem.1, hfilter.1.1.2, hfilter.1.2⟩
  · exact fun subjects hsubjects => (newTupleResult_outcome hsubjects).mono fun _ _ => trivial

variable {k : AttributeKey}

theorem canonicalAttributeKey_eq (hk : newAttributeKeyPath k.entity k.path = .ok k) :
    canonicalAttributeKey k = .ok k := by
  simp only [canonicalAttributeKey, hk, orFail_ok, ok_bind, decide_true, require_true]

theorem canonicalAttributeKey_intact (k : AttributeKey) :
    Intact (fun canonical => canonical = k ∧ newAttributeKeyPath k.entity k.path = .ok k) (canonicalAttributeKey k) := by
  refine .bind (orFail_outcome (by decide) _) fun canonical hcanonical => .bind (require_outcome (by decide)) fun _ _ => ?_
  obtain ⟨rfl, -⟩ := newAttributeKeyPath_eq_ok.1 hcanonical
  exact .ok ⟨rfl, hcanonical⟩

theorem getAttribute_intact (h : AttributesOk snapshot.db)
    (hfits : newAttributeKeyPath k.entity k.path = .ok k → EncodableKey k) :
    Intact (fun _ => True) (getAttribute snapshot k) := by
  refine .bind (canonicalAttributeKey_intact k) ?_
  rintro k ⟨rfl, hk⟩
  rw [encodeAttributeKey_eq (hfits hk), ok_bind]
  split
  · exact (newAttributeResult_outcome (by simp [Value.zero])).mono fun _ _ => trivial
  next row hrow =>
    obtain ⟨hget, -⟩ := Option.filter_eq_some_iff.1 hrow
    obtain ⟨hmem, hkey⟩ := Table.get?_eq_some.1 hget
    obtain ⟨-, ⟨a, ha⟩, -⟩ := h.rows row hmem
    -- the row found under the key holds the attribute of that key
    have hbytes : row.attributeKey = attributeKeyBytes k := (Prod.mk.injEq .. ▸ hkey).2
    have hdecode := decodeDurableAttribute_eq_ok.2 ha
    obtain rfl : a.key = k := attributeKeyBytes_inj ha.encodableKey (hfits hk) (ha.key.symm.trans hbytes)
    rw [← hbytes, hdecode, ok_bind]
    simp only [Attribute.key, decide_true, Bool.and_self, require_true, ok_bind]
    have hresult : ∃ b, newAttributePath a.entity a.path a.value = .ok b := ⟨a, ha.wellFormed⟩
    exact (newAttributeResult_outcome (by simpa using hresult)).mono fun _ _ => trivial

/-- A stored attribute that has not expired strictly extends the key. -/
def HasDescendant (db : Database) (ns : Bytes) (readAtNS : Int64) (k : AttributeKey) : Prop :=
  ∃ r ∈ db.attributes, r.namespace_ = ns ∧ active readAtNS r.expiresAtNS = true ∧
    ∃ a, r.decode = .ok a ∧ a.entity = k.entity ∧ k.path <+: a.path ∧ k.path ≠ a.path

/-- The join finds a row exactly when a stored attribute extends the key. -/
theorem joinAttribute_eq_some {snapshot : Snapshot} (h : AttributesOk snapshot.db) {k} (hk : EncodableKey k) {r} :
    (∃ x ∈ snapshot.db.attributeAncestors, joinAttribute snapshot (attributeKeyBytes k) x = some r) ↔
      r ∈ snapshot.db.attributes ∧ r.namespace_ = snapshot.namespace_ ∧ active snapshot.readAtNS r.expiresAtNS = true ∧
        ∃ a, r.Holds a ∧ a.entity = k.entity ∧ k.path <+: a.path ∧ k.path ≠ a.path := by
  constructor
  · rintro ⟨x, hx, hjoin⟩
    unfold joinAttribute at hjoin
    split at hjoin
    next hmatch =>
      obtain ⟨hns, hpath⟩ := hmatch
      obtain ⟨r', hr', a, ha, b, hb, rfl⟩ := (h.ancestors x).1 hx
      obtain ⟨hget, hactive⟩ := Option.filter_eq_some_iff.1 hjoin
      obtain rfl : r' = r := Option.some.inj ((Table.get?_key hr').symm.trans hget)
      obtain ⟨path, hne, hstrict, hpre, rfl⟩ := mem_prefixBytes.1 hb
      obtain rfl : k = ⟨a.entity, path⟩ :=
        attributeKeyBytes_inj hk (ha.encodable_prefix hne hpre) hpath.symm
      exact ⟨hr', hns, hactive, a, ha, rfl, hpre, hstrict⟩
    next => cases hjoin
  · rintro ⟨hr, hns, hactive, a, ha, hentity, hpre, hstrict⟩
    have hne : k.path ≠ [] := (validateAttributePath_eq_ok.1 (newAttributeKeyPath_eq_ok.1 hk.1).2.2.1).1
    have hb : attributeKeyBytes k ∈ prefixBytes a.key :=
      mem_prefixBytes.2 ⟨k.path, hne, hstrict, hpre, by rw [Attribute.key, hentity]⟩
    refine ⟨⟨r.namespace_, r.attributeKey, attributeKeyBytes k⟩, (h.ancestors _).2 ⟨r, hr, a, ha, _, hb, rfl⟩, ?_⟩
    rw [joinAttribute, if_pos ⟨hns, rfl⟩]
    exact Option.filter_eq_some_iff.2 ⟨Table.get?_key hr, hactive⟩

/-- HasAttributeDescendant tells whether a stored attribute extends the key. -/
theorem hasAttributeDescendant_eq (h : AttributesOk snapshot.db) (hk : EncodableKey k) :
    ∃ value, hasAttributeDescendant snapshot k = .ok value ∧
      (value = true ↔ HasDescendant snapshot.db snapshot.namespace_ snapshot.readAtNS k) := by
  have hjoin := @joinAttribute_eq_some snapshot h k hk
  simp only [hasAttributeDescendant, canonicalAttributeKey_eq hk.1, encodeAttributeKey_eq hk, ok_bind]
  cases hfind : snapshot.db.attributeAncestors.rows.findSome? (joinAttribute snapshot (attributeKeyBytes k)) with
  | none =>
    refine ⟨false, rfl, iff_of_false (by decide) ?_⟩
    rintro ⟨r, hr, hns, hactive, a, ha, hrest⟩
    obtain ⟨x, hx, hsome⟩ := hjoin.2 ⟨hr, hns, hactive, a, AttributeRow.decode_eq_ok.1 ha, hrest⟩
    rw [List.findSome?_eq_none_iff.1 hfind x hx] at hsome
    cases hsome
  | some r =>
    obtain ⟨x, hx, hsome⟩ := List.exists_of_findSome?_eq_some hfind
    obtain ⟨hr, hns, hactive, a, ha, hentity, hpre, hstrict⟩ := hjoin.1 ⟨x, hx, hsome⟩
    have hne : k.path ≠ [] := (validateAttributePath_eq_ok.1 (newAttributeKeyPath_eq_ok.1 hk.1).2.2.1).1
    have hb : (prefixBytes a.key).contains (attributeKeyBytes k) = true := by
      rw [List.contains_iff_mem]
      exact mem_prefixBytes.2 ⟨k.path, hne, hstrict, hpre, by rw [Attribute.key, hentity]⟩
    refine ⟨true, ?_, iff_of_true rfl ⟨r, hr, hns, hactive, a, AttributeRow.decode_eq_ok.2 ha, hentity, hpre, hstrict⟩⟩
    simp only [decodeDurableAttribute_eq_ok.2 ha, attributeKeyFromAttribute_eq ha.wellFormed,
      strictAttributePrefixes_eq ha.encodableKey, hb, ok_bind, require_true]

/-! ## Writes -/

theorem deleteTuple_intact (ns : Bytes) (db : Database) (k : TupleKey) :
    Intact (fun _ => True) (deleteTuple ns db k) := by
  refine .bind (orFail_outcome (by decide) _) fun canonical hcanonical => ?_
  obtain ⟨rfl, hvalid⟩ := newTupleKey_eq_ok.1 hcanonical
  rw [encodeTupleKey_eq hvalid, ok_bind]
  exact .ok trivial

theorem upsertTuple_intact (ns : Bytes) (db : Database) {t} (ht : t.valid = true) :
    Intact (fun _ => True) (upsertTuple ns db t) := by
  rcases canonicalDurableTuple_valid ht with ⟨herror, -⟩ | ⟨_, -, hok, -⟩
  · rw [upsertTuple, herror]
    exact .error (by decide)
  · rw [upsertTuple, hok]
    exact .ok trivial

theorem deleteAttribute_intact (ns : Bytes) (db : Database)
    (hfits : newAttributeKeyPath k.entity k.path = .ok k → EncodableKey k) :
    Intact (fun _ => True) (deleteAttribute ns db k) := by
  refine .bind (orFail_outcome (by decide) _) fun canonical hcanonical => ?_
  obtain ⟨rfl, -⟩ := newAttributeKeyPath_eq_ok.1 hcanonical
  rw [encodeAttributeKey_eq (hfits hcanonical), ok_bind]
  exact .ok trivial

/-- Every prefix of a stored key is stored as well, so the conflict checks can look each of them up. -/
theorem ensureNoAttributeConflict_intact (db : Database) (ns : Bytes) {a : Attribute}
    (ha : newAttributePath a.entity a.path a.value = .ok a) (hk : EncodableKey a.key) :
    Intact (fun _ => True) (ensureNoAttributeConflict db ns a) := by
  rw [ensureNoAttributeConflict, attributeKeyFromAttribute_eq ha, ok_bind]
  refine .bind (Outcome.forM _ fun length hlength => ?_) fun _ _ => ?_
  · refine .bind (orFail_outcome (by decide) _) fun prefix_ hpre => ?_
    obtain ⟨rfl, -⟩ := newAttributeKeyPath_eq_ok.1 hpre
    have hpositive : 0 < length := (List.mem_range'_1.1 hlength).1
    rw [encodeAttributeKey_eq (hk.take hpositive), ok_bind]
    exact (require_outcome (by decide)).mono fun _ _ => trivial
  · rw [encodeAttributeKey_eq hk, ok_bind]
    exact (require_outcome (by decide)).mono fun _ _ => trivial

theorem writeAttribute_intact (ns : Bytes) (db : Database) {a : Attribute}
    (ha : newAttributePath a.entity a.path a.value = .ok a) (hk : EncodableKey a.key) :
    Intact (fun _ => True) (writeAttribute ns db a) := by
  refine .bind (ensureNoAttributeConflict_intact db ns ha hk) fun _ _ => ?_
  obtain ⟨value, hrecord, -⟩ := canonicalDurableAttribute_eq ha hk.2
  simp only [upsertAttribute, hrecord, ok_bind, attributeKeyFromAttribute_eq ha, strictAttributePrefixes_eq hk]
  exact .bind (Outcome.foldlM _ (fun _ _ _ _ => insertRow_intact _ _) trivial) fun _ _ => .ok trivial

theorem applyMutations_intact (db : Database) {request} (hwf : WellFormedWrite request)
    (hwrites : ∀ a ∈ request.attributeWrites, newAttributeKeyPath a.entity a.path = .ok a.key → EncodableKey a.key)
    (hdeletes : ∀ k ∈ request.attributeDeletes, newAttributeKeyPath k.entity k.path = .ok k → EncodableKey k) :
    Intact (fun _ => True) (applyMutations db request) := by
  refine .bind (Outcome.foldlM _ (fun db k _ _ => deleteTuple_intact _ db k) trivial) fun _ _ => ?_
  refine .bind (Outcome.foldlM _ (fun db t ht _ => upsertTuple_intact _ db (hwf.tupleWrites t ht)) trivial) fun _ _ => ?_
  refine .bind (Outcome.foldlM _ (fun db k hk _ => deleteAttribute_intact _ db (hdeletes k hk)) trivial) fun _ _ => ?_
  refine Outcome.foldlM _ (fun db a ha _ => ?_) trivial
  have hnew := hwf.newAttributePath_eq ha
  exact writeAttribute_intact _ db hnew (hwrites a ha (newAttributeKeyPath_of_attribute hnew))

theorem IdempotencyTableOk.readRecord_intact (h : IdempotencyTableOk db) (ns k : Bytes) :
    Intact (fun found => ∀ f r, found = some (f, r) → r.generation ≠ 0) (readIdempotencyRecord db ns k) := by
  unfold readIdempotencyRecord
  split
  · exact .ok (by simp)
  next row hget =>
    have hok := h.rows row (Table.get?_eq_some.1 hget).1
    obtain ⟨f, hf⟩ := hok.fingerprint
    obtain ⟨r, hr⟩ := hok.response
    rw [hf, ok_bind, hr, ok_bind]
    refine .ok fun f' r' heq => ?_
    obtain ⟨-, rfl⟩ := Prod.mk.injEq .. ▸ Option.some.inj heq
    exact (decodeIdempotencyResponse_eq_ok hr).1

section

variable [Primitives]

variable {s : Store}

theorem Accepted.commitData_intact (h : Accepted s.cursorKey db) (clock : Clock) {canonical} (fingerprint : Bytes)
    (hwf : WellFormedWrite canonical) (hmutations : ∀ db, Intact (fun _ => True) (applyMutations db canonical)) :
    Intact (fun _ => True) (Sqlite.commitData s db clock canonical fingerprint) := by
  have hns := hwf.namespace_ok
  refine .bind (h.readRevision_intact _ _) fun found _ => ?_
  cases found with
  | none => exact .error (by decide)
  | some record =>
    dsimp only
    rw [ensureNamespaceHead_eq h.heads hns, ok_bind]
    refine .bind (require_outcome (by decide)) fun _ _ => .bind (require_outcome (by decide)) fun _ _ => ?_
    refine .bind_eq (hmutations _) fun db₁ happly _ => ?_
    have h₀ : Writable s.cursorKey canonical.namespace_ _ (db.withHead (headOf db canonical.namespace_) db.stateEvents) :=
      ⟨((EventStep.ensureHead h.heads h.events hns).grows h).accepted,
        hasHead_withHead.2 (.inl (headOf_namespace db canonical.namespace_).symm), rfl, rfl⟩
    have hheads := (h₀.applyMutations happly).accepted.heads
    refine .bind (effectiveNow_intact hheads hns clock) ?_
    rintro ⟨occurredAt, db₂⟩ ⟨head, hok, hdb⟩
    obtain rfl : db₂ = _ := hdb
    refine .bind (orFail_outcome (by decide) _) fun response hresponse => ?_
    -- the next generation is positive, so its response has an encoding
    obtain rfl : (⟨_, false⟩ : WriteDataResponse) = response := Except.ok.inj hresponse
    have hencoded : encodeIdempotencyResponse ⟨(headOf db canonical.namespace_).dataGeneration.toInt.toNat + 1, false⟩ =
        .ok (codecVersion :: idempotencyCodecFingerprint ::
          be 8 ((headOf db canonical.namespace_).dataGeneration.toInt.toNat + 1)) := rfl
    rw [hencoded, ok_bind]
    refine .bind (appendStateEvent_intact s (headsOk_withHead hheads hok _) hns occurredAt) fun _ _ => ?_
    exact .bind (insertRow_intact _ _) fun _ _ => .ok trivial

theorem Accepted.writeData_intact (h : Accepted s.cursorKey db) (clock : Clock) {request canonical}
    (hrequest : newWriteDataRequest request = .ok canonical)
    (hmutations : ∀ db, Intact (fun _ => True) (applyMutations db canonical)) :
    Intact (fun _ => True) (Sqlite.writeData s db clock request) := by
  have hwf := newWriteDataRequest_wellFormed hrequest
  have hencoded : encodeIdempotencyFingerprint (sha256 (fingerprintInput canonical)) =
      .ok (codecVersion :: sha256 (fingerprintInput canonical)) := by
    rw [encodeIdempotencyFingerprint, if_neg (not_not.2 (Primitives.sha256_length _))]
  rw [Sqlite.writeData, hrequest, ok_bind, fingerprintWriteData_constructed ⟨request, hrequest⟩, ok_bind, hencoded, ok_bind]
  refine .bind (h.idempotency.readRecord_intact _ _) fun found hfound => ?_
  cases found with
  | none => exact h.commitData_intact clock _ hwf hmutations
  | some stored =>
    obtain ⟨f, r⟩ := stored
    refine .bind (require_outcome (by decide)) fun _ _ => ?_
    rw [newWriteDataResponse, if_neg (hfound f r rfl), orFail_ok, ok_bind]
    exact .ok trivial

/-! ## Soundness -/

/-- No call that names only attribute keys in `K` answers INTEGRITY, and HasAttributeDescendant is exact. -/
structure Sound (s : Store) (db : Database) (K : AttributeKey → Prop) : Prop where
  resolve : ∀ request, resolve db request ≠ .error .integrity
  getRevision : ∀ request, getRevision db request ≠ .error .integrity
  listRevisions : ∀ request, listRevisions s db request ≠ .error .integrity
  listActivationHistory : ∀ request, listActivationHistory s db request ≠ .error .integrity
  listEvents : ∀ clock request, listEvents s db clock request ≠ .error .integrity
  queryTuples : ∀ ns readAtNS query,
    (openPinnedSnapshot db ns readAtNS >>= (queryTuples · query)) ≠ .error .integrity
  getAttribute : ∀ ns readAtNS k, K k → (openPinnedSnapshot db ns readAtNS >>= (getAttribute · k)) ≠ .error .integrity
  hasAttributeDescendant : ∀ ns readAtNS k, K k → newAttributeKeyPath k.entity k.path = .ok k →
    ∃ value, (openPinnedSnapshot db ns readAtNS >>= (hasAttributeDescendant · k)) = .ok value ∧
      (value = true ↔ HasDescendant db ns readAtNS k)
  /-- The content of the write verifies, and a stored revision of its id has its artifact. -/
  putRevision : ∀ clock write, validRecord write = true →
    (∀ row ∈ db.revisions, row.key = (write.metadata.namespace_, write.metadata.id) → row.artifact = write.artifact) →
    putRevision s db clock write ≠ .error .integrity
  activate : ∀ clock request, activate s db clock request ≠ .error .integrity
  writeData : ∀ clock request canonical, newWriteDataRequest request = .ok canonical →
    (∀ a ∈ request.attributeWrites, K a.key) → (∀ k ∈ request.attributeDeletes, K k) →
    writeData s db clock request ≠ .error .integrity

theorem Accepted.sound (h : Accepted s.cursorKey db) {K}
    (hK : ∀ k, K k → newAttributeKeyPath k.entity k.path = .ok k → EncodableKey k) : Sound s db K where
  resolve request := (h.resolve_intact request).ne_integrity
  getRevision request := (h.getRevision_intact request).ne_integrity
  listRevisions request := (h.listRevisions_intact request).ne_integrity
  listActivationHistory request := (h.listActivationHistory_intact request).ne_integrity
  listEvents clock request := (h.listEvents_intact clock request).ne_integrity
  queryTuples ns readAtNS query := by
    rw [openPinnedSnapshot_eq h.heads]
    exact (queryTuples_intact h.tuples query).ne_integrity
  getAttribute ns readAtNS k hk := by
    rw [openPinnedSnapshot_eq h.heads]
    exact (getAttribute_intact h.attributes (hK k hk)).ne_integrity
  hasAttributeDescendant ns readAtNS k hk hvalid := by
    rw [openPinnedSnapshot_eq h.heads]
    exact hasAttributeDescendant_eq h.attributes (hK k hk hvalid)
  putRevision clock write hwrite hsame := (h.putRevision_intact clock hwrite hsame).ne_integrity
  activate clock request := (h.activate_intact clock request).ne_integrity
  writeData clock request canonical hrequest hwrites hdeletes := by
    have hwf := newWriteDataRequest_wellFormed hrequest
    obtain ⟨-, tw, aw, ad, -, haw, had, -, rfl⟩ := newWriteDataRequest_eq_ok.1 hrequest
    refine (h.writeData_intact clock hrequest fun db => applyMutations_intact db hwf ?_ ?_).ne_integrity
    · exact fun a ha => hK a.key (hwrites a ((canonicalAttributes_ok haw).subperm.subset ha))
    · exact fun k hk => hK k (hdeletes k ((canonicalAttributeKeys_ok had).subperm.subset hk))

omit [Primitives] in
/-- A key that is not stored is answered INTEGRITY by every point read. -/
theorem getAttribute_of_not_encodable (hk : newAttributeKeyPath k.entity k.path = .ok k) (h : ¬ EncodableKey k) :
    getAttribute snapshot k = .error .integrity := by
  rw [getAttribute, canonicalAttributeKey_eq hk, ok_bind, encodeAttributeKey_of_not h, error_bind]

end

end PolicyEngine.Sqlite
