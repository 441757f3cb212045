import PolicyEngine.Memory.Store

/-!
# Memory cursors read back

A cursor the store issues decodes, in the domain, namespace and slot it was issued
for, to the state it was issued with. The store keeps its key, so this holds at any
later time. The converse fails: the decoder does not look at the bits that the last
character has left over, so a cursor of a revision has aliases.
-/

open PolicyEngine.Lib List

namespace PolicyEngine.Memory

variable [Primitives] {s : Store} {c : CursorState} {value : Bytes}

namespace Store

theorem length_cursorScope (s : Store) (domain : CursorDomain) (ns slot : Bytes) :
    (s.cursorScope domain ns slot).length = cursorScopeLen :=
  length_take_of_le (by rw [Primitives.hmac_length]; decide)

/-- The fields of a payload after its scope. -/
def cursorFields (c : CursorState) : Bytes :=
  be 8 c.position ++
    (if c.domain = .revision then be 8 (twos64 (c.revisionPublishedAt / 1000000000)) else be 8 0) ++
    (if c.domain = .revision then be 4 (c.revisionPublishedAt % 1000000000).toNat else be 4 0) ++
    be 2 c.revisionID.length ++ c.revisionID

theorem cursorPayload_eq (s : Store) (c : CursorState) :
    s.cursorPayload c =
      [cursorVersion, c.domain.code] ++ (s.cursorScope c.domain c.namespace_ c.slot ++ cursorFields c) := by
  simp [cursorPayload, cursorFields]

omit [Primitives] in
theorem length_cursorFields (c : CursorState) : (cursorFields c).length = 22 + c.revisionID.length := by
  unfold cursorFields
  split <;> simp <;> omega

/-- What a cursor state must satisfy for its fields to hold it. -/
structure Encodable (c : CursorState) : Prop where
  fields : cursorFieldsValid c = true
  position : c.position < 256 ^ 8
  revisionID : c.revisionID.length < 256 ^ 2
  time : c.domain = .revision →
    -2 ^ 63 ≤ c.revisionPublishedAt / 1000000000 ∧ c.revisionPublishedAt / 1000000000 < 2 ^ 63

omit [Primitives] in
/-- The slices the decoder takes. -/
theorem cursor_slices {a b d e r : Bytes} (ha : a.length = 8) (hb : b.length = 8) (hd : d.length = 4)
    (he : e.length = 2) :
    (a ++ b ++ d ++ e ++ r).take 8 = a ∧ ((a ++ b ++ d ++ e ++ r).drop 8).take 8 = b ∧
      ((a ++ b ++ d ++ e ++ r).drop 16).take 4 = d ∧ ((a ++ b ++ d ++ e ++ r).drop 20).take 2 = e ∧
      (a ++ b ++ d ++ e ++ r).drop 22 = r := by
  have hat (x y : Bytes) : (x ++ y).drop x.length = y := drop_left
  simp only [append_assoc]
  refine ⟨?_, ?_, ?_, ?_, ?_⟩
  · rw [← ha, take_left]
  · rw [← ha, hat, ha, ← hb, take_left]
  · have h := hat (a ++ b) (d ++ (e ++ r))
    rw [length_append, ha, hb, append_assoc] at h
    rw [h, ← hd, take_left]
  · have h := hat (a ++ (b ++ d)) (e ++ r)
    rw [length_append, length_append, ha, hb, hd, append_assoc, append_assoc] at h
    rw [h, ← he, take_left]
  · have h := hat (a ++ (b ++ (d ++ e))) r
    rw [length_append, length_append, length_append, ha, hb, hd, he] at h
    simpa only [append_assoc] using h

omit [Primitives] in
theorem seconds_add_nanos (t : Int) :
    t / 1000000000 * 1000000000 + ((t % 1000000000).toNat : Int) = t ∧ (t % 1000000000).toNat < 1000000000 := by
  omega

omit [Primitives] in
theorem decodeCursorFields_cursorFields (h : Encodable c) :
    decodeCursorFields c.domain c.namespace_ c.slot (cursorFields c) = .ok c := by
  obtain ⟨hfields, hpos, hid, htime⟩ := h
  have hlen8 : (if c.domain = .revision then be 8 (twos64 (c.revisionPublishedAt / 1000000000)) else be 8 0).length = 8 := by
    split <;> simp
  have hlen4 : (if c.domain = .revision then be 4 (c.revisionPublishedAt % 1000000000).toNat else be 4 0).length = 4 := by
    split <;> simp
  obtain ⟨h1, h2, h3, h4, h5⟩ := cursor_slices (r := c.revisionID) (length_be 8 c.position) hlen8 hlen4
    (length_be 2 c.revisionID.length)
  simp only [decodeCursorFields, cursorFields, h1, h2, h3, h4, h5, beValue_be hpos, beValue_be hid]
  obtain ⟨domain, ns, slot, position, publishedAt, revisionID⟩ := c
  cases domain with
  | revision =>
    obtain ⟨hlo, hhi⟩ := htime rfl
    simp only [cursorFieldsValid, Bool.and_eq_true, decide_eq_true_eq, bne_iff_ne] at hfields hlo hhi
    obtain ⟨⟨rfl, hz⟩, hne⟩ := hfields
    obtain ⟨hback, hnanos⟩ := seconds_add_nanos publishedAt
    have h256 : (publishedAt % 1000000000).toNat < 256 ^ 4 := Nat.lt_trans hnanos (by decide)
    simp only [if_true, beValue_be (twos64_lt _), signed64_twos64 hlo hhi, beValue_be h256, hback]
    simp [hnanos, hz, hne, require]
  | history | event =>
    simp only [cursorFieldsValid, Bool.and_eq_true, decide_eq_true_eq, bne_iff_ne] at hfields
    obtain ⟨⟨hp, rfl⟩, rfl⟩ := hfields
    have h0 (w : Nat) : beValue (be w 0) = 0 := beValue_be (Nat.pos_of_ne_zero (by simp))
    simp [h0, hp, require, signed64]

theorem length_cursorPayload (s : Store) (c : CursorState) :
    (s.cursorPayload c).length = 2 + cursorScopeLen + (22 + c.revisionID.length) := by
  simp only [cursorPayload_eq, length_append, length_cursorScope, length_cursorFields, length_cons,
    length_nil]
  omega

theorem length_cursorToken (s : Store) (c : CursorState) :
    (s.cursorPayload c ++ hmac s.cursorKey (s.cursorPayload c)).length = cursorFixedLen + c.revisionID.length := by
  rw [length_append, Primitives.hmac_length, length_cursorPayload]
  simp only [cursorFixedLen, cursorScopeLen, cursorMACLen]
  omega

/-- An issued cursor decodes to the state it was issued for. -/
theorem cursorStateLocked_newCursorLocked (h : s.newCursorLocked c = .ok value) (hpos : c.position < 256 ^ 8)
    (htime : c.domain = .revision →
      -2 ^ 63 ≤ c.revisionPublishedAt / 1000000000 ∧ c.revisionPublishedAt / 1000000000 < 2 ^ 63) :
    s.cursorStateLocked value c.domain c.namespace_ c.slot = .ok c := by
  unfold newCursorLocked at h
  split at h
  · cases h
  next hid =>
  split at h
  · cases h
  next hfields =>
  split at h
  · cases h
  next hsize =>
  cases h
  have hcode : Encodable c := ⟨by simpa using hfields, hpos, by omega, htime⟩
  have htoken := length_cursorToken s c
  have hpayload : (s.cursorPayload c ++ hmac s.cursorKey (s.cursorPayload c)).length - cursorMACLen =
      (s.cursorPayload c).length := by
    rw [length_append, Primitives.hmac_length]
    exact Nat.add_sub_cancel _ _
  have htext := Base64.length_encode (s.cursorPayload c ++ hmac s.cursorKey (s.cursorPayload c))
  rw [htoken] at htext
  have hne : Base64.encode (s.cursorPayload c ++ hmac s.cursorKey (s.cursorPayload c)) ≠ [] := by
    intro hnil
    rw [hnil] at htext
    simp only [length_nil, Base64.encodedLength, cursorFixedLen, cursorScopeLen, cursorMACLen] at htext
    omega
  unfold cursorStateLocked
  rw [if_neg hne, if_neg (by rw [htext]; exact hsize), Base64.decode_encode]
  dsimp only
  rw [if_neg (by rw [htoken]; omega), hpayload, take_left, drop_left, if_neg, if_neg]
  · rw [cursorPayload_eq, ← append_assoc]
    have hskip : 2 + cursorScopeLen =
        ([cursorVersion, c.domain.code] ++ s.cursorScope c.domain c.namespace_ c.slot).length := by
      rw [length_append, length_cursorScope]
      rfl
    rw [hskip, drop_left]
    exact decodeCursorFields_cursorFields hcode
  · rw [cursorPayload_eq]
    simp [length_cursorScope]
  · rw [cursorPayload_eq]
    simp

/-! ## Accepted cursors -/

omit [Primitives] in
/-- The fields that the decoder cuts out of a payload. -/
theorem exists_cursor_slices {fields : Bytes} (h : 22 ≤ fields.length) :
    ∃ a b d e r : Bytes, fields = a ++ b ++ d ++ e ++ r ∧ a.length = 8 ∧ b.length = 8 ∧ d.length = 4 ∧ e.length = 2 := by
  refine ⟨fields.take 8, (fields.drop 8).take 8, (fields.drop 16).take 4, (fields.drop 20).take 2, fields.drop 22,
    ?_, ?_, ?_, ?_, ?_⟩
  · have hcut (m n : Nat) : (fields.drop m).take n ++ fields.drop (m + n) = fields.drop m := by
      rw [← drop_drop, take_append_drop]
    simp only [append_assoc, hcut 20 2, hcut 16 4, hcut 8 8, take_append_drop]
  all_goals simp only [length_take, length_drop]; omega

omit [Primitives] in
/-- Accepted fields are those of the state read from them. -/
theorem decodeCursorFields_eq_ok {domain ns slot fields} (hlen : 22 ≤ fields.length)
    (h : decodeCursorFields domain ns slot fields = .ok c) :
    fields = cursorFields c ∧ cursorFieldsValid c = true ∧ c.revisionID.length ≤ 65535 ∧ c.domain = domain ∧
      c.namespace_ = ns ∧ c.slot = slot := by
  obtain ⟨a, b, d, e, r, rfl, ha, hb, hd, he⟩ := exists_cursor_slices hlen
  obtain ⟨h1, h2, h3, h4, h5⟩ := cursor_slices (r := r) ha hb hd he
  have hbytes {x : Bytes} {n : Nat} (hx : x.length = n) : be n (beValue x) = x := by rw [← hx, be_beValue]
  have hbound : beValue b < 256 ^ 8 := by simpa only [hb] using beValue_lt b
  have hlength : beValue e < 256 ^ 2 := by simpa only [he] using beValue_lt e
  simp only [decodeCursorFields, h1, h2, h3, h4, h5, check_eq_ok, require_eq_ok, decide_eq_true_eq] at h
  obtain ⟨hnanos, hid, h⟩ := h
  cases domain with
  | revision =>
    simp only [check_eq_ok, require_eq_ok, Bool.and_eq_true, decide_eq_true_eq, bne_iff_ne] at h
    obtain ⟨⟨⟨hp, hr⟩, hz⟩, h⟩ := h
    obtain rfl := Except.ok.inj h
    obtain ⟨hsec, hnan⟩ : (signed64 (beValue b) * 1000000000 + (beValue d : Int)) / 1000000000 = signed64 (beValue b) ∧
        ((signed64 (beValue b) * 1000000000 + (beValue d : Int)) % 1000000000).toNat = beValue d := by omega
    refine ⟨?_, ?_, by dsimp only; omega, rfl, rfl, rfl⟩
    · simp only [cursorFields, if_true]
      rw [hsec, hnan, twos64_signed64 hbound, ← hid, hbytes ha, hbytes hb, hbytes hd, hbytes he]
    · have hne : r ≠ [] := by
        rintro rfl
        exact hr hid
      simp [cursorFieldsValid, hp, hz, hne]
  | history | event =>
    simp only [check_eq_ok, require_eq_ok, Bool.and_eq_true, decide_eq_true_eq, bne_iff_ne] at h
    obtain ⟨⟨⟨⟨hp, hs⟩, hn⟩, hr⟩, h⟩ := h
    obtain rfl := Except.ok.inj h
    have hnil : r = [] := eq_nil_of_length_eq_zero (hid.symm.trans hr)
    have hb0 : beValue b = 0 := by
      have := twos64_signed64 hbound
      rw [hs] at this
      exact this.symm
    refine ⟨?_, by simp [cursorFieldsValid, hp, hnil], by simp [hnil], rfl, rfl, rfl⟩
    simp only [cursorFields, reduceCtorEq, if_false]
    rw [← hid, ← hb0, hbytes ha, hbytes hb, hb0, ← hn, hbytes hd, hbytes he]

/-- An accepted cursor decodes to the token of the state read from it. -/
theorem cursorStateLocked_eq_ok {domain ns slot} (hne : value ≠ [])
    (h : s.cursorStateLocked value domain ns slot = .ok c) :
    Base64.decode value = some (s.cursorPayload c ++ hmac s.cursorKey (s.cursorPayload c)) ∧
      value.length ≤ maxIdentifierBytes ∧ cursorFieldsValid c = true ∧ c.revisionID.length ≤ 65535 ∧
      c.domain = domain ∧ c.namespace_ = ns ∧ c.slot = slot := by
  unfold cursorStateLocked at h
  rw [if_neg hne] at h
  split at h
  · cases h
  next hsize =>
  split at h
  · cases h
  next token htoken =>
  split at h
  · cases h
  next hlong =>
  dsimp only at h
  split at h
  · cases h
  next hmac_eq =>
  split at h
  · cases h
  next hscope =>
  simp only [not_or, not_not] at hmac_eq hscope
  generalize hpayload : token.take (token.length - cursorMACLen) = payload at *
  have hlen : 40 ≤ payload.length := by
    rw [← hpayload, length_take]
    simp only [cursorFixedLen, cursorScopeLen, cursorMACLen] at hlong ⊢
    omega
  have hfields : 22 ≤ (payload.drop (2 + cursorScopeLen)).length := by
    rw [length_drop]
    simp only [cursorScopeLen]
    omega
  obtain ⟨hcut, hvalid, hid, rfl, rfl, rfl⟩ := decodeCursorFields_eq_ok hfields h
  have heq : payload = s.cursorPayload c := by
    rw [cursorPayload_eq, ← hcut, ← hmac_eq.2, ← hscope, ← drop_drop, take_append_drop, take_append_drop]
  refine ⟨?_, Nat.not_lt.1 hsize, hvalid, hid, rfl, rfl, rfl⟩
  rw [htoken, ← heq, ← hmac_eq.1, ← hpayload, take_append_drop]

/-- **The cursor codec, as far as it is exact.** An issued cursor reads back as its state. An accepted cursor
without line breaks, which is what request validation lets through, is the one its state is issued as exactly when
the bits that its last character has left over are zero. -/
theorem cursorStateLocked_exact_iff (s : Store) :
    (∀ (c : CursorState) (value : Bytes), c.position < 256 ^ 8 → (c.domain = .revision →
        -2 ^ 63 ≤ c.revisionPublishedAt / 1000000000 ∧ c.revisionPublishedAt / 1000000000 < 2 ^ 63) →
      s.newCursorLocked c = .ok value → s.cursorStateLocked value c.domain c.namespace_ c.slot = .ok c) ∧
    ∀ (value : Bytes) (domain : CursorDomain) (ns slot : Bytes) (c : CursorState), value ≠ [] →
      (∀ b ∈ value, b ≠ 10 ∧ b ≠ 13) → s.cursorStateLocked value domain ns slot = .ok c →
      (s.newCursorLocked c = .ok value ↔ Base64.zeroTrailingBits value = true) := by
  refine ⟨fun c value hpos htime h => cursorStateLocked_newCursorLocked h hpos htime, ?_⟩
  intro value domain ns slot c hne hbreaks h
  obtain ⟨hdecode, hsize, hvalid, hid, -⟩ := cursorStateLocked_eq_ok hne h
  rw [← Base64.encode_decode_iff hbreaks hdecode]
  have hlength := Base64.length_encode (s.cursorPayload c ++ hmac s.cursorKey (s.cursorPayload c))
  have htoken := length_cursorToken s c
  unfold newCursorLocked
  rw [if_neg (by omega), if_neg (by simp [hvalid])]
  constructor
  · intro hnew
    split at hnew
    · cases hnew
    · exact Except.ok.inj hnew
  · intro hcanonical
    rw [htoken, hcanonical] at hlength
    rw [if_neg (by omega), hcanonical]

omit [Primitives] in
/-- A cursor of a revision and the text that differs from it in an unused bit of the last character are accepted as
the same state. -/
theorem cursorStateLocked_accepts_alias :
    ∃ value other : Bytes, other ≠ value ∧ (∀ b ∈ other, 0x20 ≤ b ∧ b < 0x7F) ∧
      @newCursorLocked Primitives.constant (newStore [])
        ⟨.revision, ascii "n", [], 0, 0, List.replicate 64 97⟩ = .ok value ∧
      @cursorStateLocked Primitives.constant (newStore []) other .revision (ascii "n") [] =
        .ok ⟨.revision, ascii "n", [], 0, 0, List.replicate 64 97⟩ := by
  refine ⟨(@newCursorLocked Primitives.constant (newStore [])
    ⟨.revision, ascii "n", [], 0, 0, List.replicate 64 97⟩).toOption.getD [],
    ((@newCursorLocked Primitives.constant (newStore [])
      ⟨.revision, ascii "n", [], 0, 0, List.replicate 64 97⟩).toOption.getD []).dropLast ++ [66], ?_⟩
  decide +kernel

end Store

end PolicyEngine.Memory
