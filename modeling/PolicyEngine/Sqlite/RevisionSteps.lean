import PolicyEngine.Sqlite.Appends

/-!
# PutRevision keeps a database accepted

A new row decodes to the record it was made of, its event refers to it, and every
other row finds what it referred to.
-/

open PolicyEngine.Lib

namespace PolicyEngine.Sqlite

variable [Primitives] {db db' : Database}

/-- The row that a record is stored in. -/
abbrev RevisionRow.of (record : RevisionRecord) (publishedAtNS : Int64) (provenance : Bytes) : RevisionRow :=
  ⟨record.metadata.namespace_, record.metadata.id, record.artifact, provenance, publishedAtNS⟩

variable {write : RevisionWrite}

theorem rebuildRevisionWrite_eq_ok {metadata artifact provenance}
    (h : rebuildRevisionWrite metadata artifact provenance = .ok write) :
    write = ⟨metadata, artifact, if provenance.Valid then provenance else .none⟩ ∧
      newRevisionWrite metadata artifact = .ok ⟨metadata, artifact, .none⟩ := by
  have hwrite {w : RevisionWrite} (hw : newRevisionWrite metadata artifact = .ok w) : w = ⟨metadata, artifact, .none⟩ := by
    simp only [newRevisionWrite, check_eq_ok] at hw
    exact (Except.ok.inj hw.2.2.2).symm
  unfold rebuildRevisionWrite at h
  split at h
  next hvalid =>
    obtain ⟨w, hw, h⟩ := bind_eq_ok.1 h
    obtain rfl := hwrite hw
    rw [check_eq_ok] at h
    exact ⟨by rw [if_pos hvalid]; exact (Except.ok.inj h.2).symm, hw⟩
  next hvalid => exact ⟨by rw [if_neg hvalid]; exact hwrite h, hwrite h ▸ h⟩

/-- A provenance that was rebuilt once is rebuilt as it is. -/
theorem rebuildRevisionWrite_again {metadata artifact provenance}
    (h : newRevisionWrite metadata artifact = .ok ⟨metadata, artifact, .none⟩)
    (hp : provenance.Valid = true ∨ provenance = .none) :
    rebuildRevisionWrite metadata artifact provenance = .ok ⟨metadata, artifact, provenance⟩ := by
  unfold rebuildRevisionWrite
  split
  next hvalid => simp only [newRevisionWriteWithProvenance, h, ok_bind, hvalid, require_true]
  next hvalid =>
    obtain rfl := hp.resolve_left hvalid
    exact h

/-- What PutRevision stores is read back as the record. -/
theorem decodeRevisionRecord_canonical {record publishedAtNS provenance}
    (h : canonicalRevisionRecord write = .ok (record, publishedAtNS, provenance)) :
    validateNamespace record.metadata.namespace_ = .ok () ∧ validRevisionIDString record.metadata.id = true ∧
      decodeRevisionRecord (.of record publishedAtNS provenance) = .ok record ∧
      revisionBounded (.of record publishedAtNS provenance) = true := by
  rw [canonicalRevisionRecord, check_eq_ok] at h
  obtain ⟨id, hid, h⟩ := bind_eq_ok.1 h.2
  obtain ⟨rfl, hidValid⟩ := parseRevisionID_eq_ok.1 (orFail_eq_ok.1 hid)
  split at h
  · cases h
  next n htime =>
    obtain ⟨metadata, hmetadata, h⟩ := bind_eq_ok.1 h
    obtain ⟨canonical, hcanonical, h⟩ := bind_eq_ok.1 h
    obtain ⟨record', hrecord, h⟩ := bind_eq_ok.1 h
    obtain ⟨encoded, hencoded, h⟩ := bind_eq_ok.1 h
    obtain ⟨rfl, rfl, rfl⟩ := Prod.mk.injEq .. ▸ Except.ok.inj h
    obtain ⟨rfl, hvalid⟩ := newRevisionRecordFromWrite_eq_ok.1 hrecord
    obtain ⟨rfl, hwrite⟩ := rebuildRevisionWrite_eq_ok (orFail_eq_ok.1 hcanonical)
    have hmetadata := orFail_eq_ok.1 hmetadata
    obtain ⟨rfl, hns, -, -⟩ := newRevisionMetadata_eq_ok.1 hmetadata
    have hp : (if write.provenance.Valid then write.provenance else .none).Valid = true ∨
        (if write.provenance.Valid then write.provenance else .none) = .none := by
      split
      next hvalid => exact .inl hvalid
      next => exact .inr rfl
    generalize (if write.provenance.Valid then write.provenance else .none) = p at *
    have hwvalid := (Bool.and_eq_true ..▸ hvalid : _ ∧ _).1
    simp only [RevisionWrite.Valid, Bool.and_eq_true, bne_iff_ne, decide_eq_true_eq] at hwvalid
    obtain ⟨b, hb, hdecode, hblen⟩ := decodeRevisionProvenance_encode hns (p := p) (hp.symm.imp (by rintro rfl; rfl) (fun h => h))
    obtain rfl := Except.ok.inj (hb.symm.trans hencoded)
    refine ⟨hns, hidValid, ?_, ?_⟩
    · have hartifact : (write.artifact != [] && decide (write.artifact.length ≤ maxPolicyArtifactBytes)) = true := by
        simp [hwvalid.1.1.2, hwvalid.1.2]
      simp only [decodeRevisionRecord, hartifact, require_true, ok_bind, parseRevisionID_eq_ok.2 ⟨rfl, hidValid⟩, hmetadata,
        orFail_ok, hdecode, rebuildRevisionWrite_again hwrite hp, newRevisionRecordFromWrite_eq_ok.2 ⟨rfl, hvalid⟩]
    · have hidLength := validRevisionIDString_length hidValid
      have hnsLength := (validateNamespace_eq_ok.1 hns).2.1
      have hprovenance : b.length ≤ maxRevisionProvenanceBytes := hblen.trans (by decide)
      simp only [revisionBounded, Bool.and_eq_true, decide_eq_true_eq]
      exact ⟨⟨⟨hnsLength, hidLength.le.trans (by decide)⟩, hwvalid.1.2⟩, hprovenance⟩

omit [Primitives] in
/-- A database with one more revision. -/
theorem extends_setRevision (db : Database) (row : RevisionRow) :
    Extends db { db with revisions := db.revisions.set row } where
  heads _ h := h
  revisions ns id := by
    rintro ⟨r, hr, hkey⟩
    by_cases hsame : r.key = row.key
    · exact ⟨row, Table.mem_set.2 (.inl rfl), hsame ▸ hkey⟩
    · exact ⟨r, Table.mem_set.2 (.inr ⟨hr, hsame⟩), hkey⟩
  slots h hm := ⟨h, hm, rfl, Int.le_refl _⟩

theorem Accepted.putRevision {s : Store} (h : Accepted s.cursorKey db) {clock result}
    (hput : putRevision s db clock write = .ok (result, db')) : Grows s.cursorKey db db' := by
  obtain ⟨⟨record, publishedAtNS, provenance⟩, hcanonical, hput⟩ := bind_eq_ok.1 (by rwa [Sqlite.putRevision] at hput)
  obtain ⟨hns, -, hdecode, hbounded⟩ := decodeRevisionRecord_canonical hcanonical
  obtain ⟨created, -, hput⟩ := bind_eq_ok.1 hput
  obtain ⟨⟨stored, db₃⟩, htx, hput⟩ := bind_eq_ok.1 hput
  obtain ⟨found, hread, htx⟩ := bind_eq_ok.1 (by rwa [putRevisionTx] at htx)
  cases found with
  | some existing =>
    dsimp only at htx
    split at htx
    · cases htx
    obtain ⟨rfl, rfl⟩ := Prod.mk.injEq .. ▸ Except.ok.inj htx
    obtain ⟨result', -, hput⟩ := bind_eq_ok.1 hput
    obtain ⟨-, rfl⟩ := Prod.mk.injEq .. ▸ Except.ok.inj hput
    exact h.grows
  | none =>
    obtain ⟨revisions, hinsert, htx⟩ := bind_eq_ok.1 htx
    obtain ⟨-, rfl⟩ := insertRow_eq_ok hinsert
    obtain ⟨⟨occurredAt, db₂⟩, hnow, htx⟩ := bind_eq_ok.1 htx
    obtain ⟨db₄, happend, htx⟩ := bind_eq_ok.1 htx
    obtain ⟨rfl, rfl⟩ := Prod.mk.injEq .. ▸ Except.ok.inj htx
    obtain ⟨-, rfl⟩ := Prod.mk.injEq .. ▸ Except.ok.inj hput
    have hext := extends_setRevision db (.of record publishedAtNS provenance)
    have hrevision : HasRevision { db with revisions := db.revisions.set (.of record publishedAtNS provenance) }
        record.metadata.namespace_ record.metadata.id := ⟨_, Table.mem_set.2 (.inl rfl), rfl⟩
    obtain ⟨hclock, -⟩ := EventStep.effectiveNow (by exact h.heads) (h.events.extends hext rfl rfl) hns hnow
    obtain ⟨hevent, hhead⟩ := EventStep.appendStateEvent hclock.heads hclock.events hns (by simp) (by simp)
      (by exact hclock.moved.extends.revisions _ _ hrevision) happend
    have hmoved := hclock.moved.trans hevent.moved
    have hext' := hext.trans hmoved.extends
    have heq := hmoved.eq
    have hgen : ∀ ns, (headOf db₄ ns).dataGeneration = (headOf db ns).dataGeneration := hmoved.generation
    have hgens : dataGenerationOf db₄ = dataGenerationOf db := funext fun ns => by
      rw [dataGenerationOf, dataGenerationOf, hgen]
    refine ⟨h.rebuild hext' (by rw [heq]) hevent.heads (fun r hr => ?_) (h.slots.extends hext' (by rw [heq]) (by rw [heq]))
      (fun r hr => .inl (by rw [heq] at hr; exact hr)) (h.attributes.extends hext' (by rw [heq]) (by rw [heq]))
      (by rw [heq]; exact h.attributes_bounded) (by rw [heq]; exact h.ancestors_bounded) (hgens ▸ hevent.events)
      (h.idempotency.extends hext' (by rw [heq]) hgen), (hclock.trans hevent).expired⟩
    rw [heq] at hr
    obtain rfl | ⟨hr, -⟩ := Table.mem_set.1 hr
    · exact .inr ⟨hbounded, hhead, record, hdecode⟩
    · exact .inl hr

end PolicyEngine.Sqlite
