import PolicyEngine.Lib.Base64
import PolicyEngine.Sqlite.Codec

/-!
# Cursors of the SQLite adapter

`cursors.go`. A cursor is a base64 token of a fixed body and its code under the
store's key; the body binds the listing, the namespace and the slot. Decoding an
issued cursor in its own scope gives back the state it was issued for, and no other
string is accepted as a cursor of that state.
-/

open PolicyEngine.Lib

namespace PolicyEngine.Sqlite

inductive CursorDomain where
  | revision
  | history
  | event
  deriving DecidableEq, Repr

def CursorDomain.code : CursorDomain → UInt8
  | .revision => 1
  | .history => 2
  | .event => 3

def cursorScopeLength : Nat := 16
def cursorMACLength : Nat := 32
def cursorFixedLength : Nat := 1 + 1 + cursorScopeLength + 8 + 8 + 8 + 4 + 2

structure CursorState where
  domain : CursorDomain
  namespace_ : Bytes
  slot : Bytes
  position : Nat
  boundary : Nat
  revisionPublishedAt : Time
  revisionID : Bytes
  deriving DecidableEq, Repr

def validCursorScope (domain : CursorDomain) (namespace_ slot : Bytes) : Bool :=
  namespace_ != [] &&
    match domain with
    | .revision | .event => slot == []
    | .history => slot != []

def validCursorState (value : CursorState) : Bool :=
  validCursorScope value.domain value.namespace_ value.slot &&
    match value.domain with
    | .revision =>
      value.position == 0 && value.boundary == 0 && value.revisionPublishedAt != zeroTime && value.revisionID != [] &&
        (parseRevisionID value.revisionID).isOk
    | .history | .event =>
      value.position > 0 && value.boundary < value.position && value.revisionPublishedAt == zeroTime &&
        value.revisionID == []

/-- The time field of a cursor: only revision cursors carry a time. -/
def cursorCodecTime (value : CursorState) : Option (Int × Nat) :=
  if value.domain ≠ .revision then some (0, 0) else codecTime value.revisionPublishedAt

variable [Primitives]

/-- The binding of a cursor to its listing. -/
def cursorScope (cursorKey : Bytes) (domain : CursorDomain) (namespace_ slot : Bytes) : Bytes :=
  (hmac cursorKey (ascii "cadrena.cursor.scope" ++ [0] ++ [domain.code, 0] ++ namespace_ ++ [0] ++ slot)).take
    cursorScopeLength

def cursorBody (cursorKey : Bytes) (value : CursorState) (seconds : Int) (nanos : Nat) : Bytes :=
  codecVersion :: value.domain.code :: (cursorScope cursorKey value.domain value.namespace_ value.slot ++
    (be 8 value.position ++ (be 8 value.boundary ++ (be 8 (twos64 seconds) ++ (be 4 nanos ++
      codecString16 value.revisionID)))))

def newCursor (cursorKey : Bytes) (value : CursorState) : Result Bytes :=
  if !validCursorState value then .error .internal
  else
    match cursorCodecTime value with
    | none => .error .internal
    | some (seconds, nanos) =>
      if value.revisionID.length > maxIdentifierBytes ∨ value.revisionID.length > 65535 then .error .internal
      else if Base64.encodedLength (cursorFixedLength + value.revisionID.length + cursorMACLength) > maxIdentifierBytes then
        .error .internal
      else
        let body := cursorBody cursorKey value seconds nanos
        .ok (Base64.encode (body ++ hmac cursorKey body))

/-- The time field read back, zero outside revision cursors. -/
def decodeCursorTime (domain : CursorDomain) (seconds : Int) (nanos : Nat) : Option Time :=
  if domain = .revision then decodeCodecTime seconds nanos
  else if seconds ≠ 0 ∨ nanos ≠ 0 then none
  else some zeroTime

def readCursorBody (cursorKey : Bytes) (domain : CursorDomain) (namespace_ slot : Bytes) (data : Bytes) :
    Option CursorState := do
  let (version, data) ← Reader.byte data
  guard (version = codecVersion)
  let (actualDomain, data) ← Reader.byte data
  guard (actualDomain = domain.code)
  let (suppliedScope, data) ← Reader.fixed cursorScopeLength data
  guard (suppliedScope = cursorScope cursorKey domain namespace_ slot)
  let (position, data) ← Reader.uint 8 data
  let (boundary, data) ← Reader.uint 8 data
  let (seconds, data) ← int64 data
  let (nanos, data) ← Reader.uint 4 data
  let (revisionID, data) ← string16 maxIdentifierBytes data
  guard (data = [])
  let revisionPublishedAt ← decodeCursorTime domain seconds nanos
  let result : CursorState := ⟨domain, namespace_, slot, position, boundary, revisionPublishedAt, revisionID⟩
  guard (validCursorState result)
  some result

/-- The empty cursor stands for the start of the listing. -/
def decodeCursor (cursorKey value : Bytes) (domain : CursorDomain) (namespace_ slot : Bytes) : Result CursorState :=
  if value = [] then .ok ⟨domain, namespace_, slot, 0, 0, zeroTime, []⟩
  else if !validCursorScope domain namespace_ slot || decide (value.length > maxIdentifierBytes) then
    .error .invalidArgument
  else
    match Base64.decode value with
    | none => .error .invalidArgument
    | some token =>
      if token.length < cursorFixedLength + cursorMACLength then .error .invalidArgument
      else if Base64.encode token ≠ value then .error .invalidArgument
      else
        let body := token.take (token.length - cursorMACLength)
        if token.drop (token.length - cursorMACLength) ≠ hmac cursorKey body then .error .invalidArgument
        else
          match readCursorBody cursorKey domain namespace_ slot body with
          | none => .error .invalidArgument
          | some state => .ok state

/-! ## Issued cursors -/

/-- The states that fit the fields of a cursor. -/
structure Issuable (value : CursorState) : Prop where
  valid : validCursorState value = true
  position : value.position < 256 ^ 8
  boundary : value.boundary < 256 ^ 8
  time : value.domain = .revision → EncodableTime value.revisionPublishedAt

variable {value : CursorState}

omit [Primitives] in
theorem Issuable.revisionID_length (h : Issuable value) : value.revisionID.length ≤ 64 := by
  have hv := h.valid
  simp only [validCursorState, Bool.and_eq_true] at hv
  have hv := hv.2
  split at hv <;> simp only [Bool.and_eq_true, beq_iff_eq, bne_iff_ne, isOk_iff, parseRevisionID_eq_ok] at hv
  · obtain ⟨-, -, -, hid⟩ := hv
    exact (validRevisionIDString_length hid).le
  · simp [hv.2]
  · simp [hv.2]

omit [Primitives] in
/-- The time field is written, fits, and reads back. -/
theorem Issuable.codecTime (h : Issuable value) :
    ∃ seconds nanos, cursorCodecTime value = some (seconds, nanos) ∧ -2 ^ 63 ≤ seconds ∧ seconds < 2 ^ 63 ∧
      nanos < 256 ^ 4 ∧ decodeCursorTime value.domain seconds nanos = some value.revisionPublishedAt := by
  by_cases hd : value.domain = .revision
  · obtain ⟨hz, hlo, hhi⟩ := h.time hd
    have hc : Sqlite.codecTime value.revisionPublishedAt =
        some (value.revisionPublishedAt / nanosPerSecond, (value.revisionPublishedAt % nanosPerSecond).toNat) := by
      rw [Sqlite.codecTime, if_neg hz]
    refine ⟨_, _, by simp only [cursorCodecTime, hd, ne_eq, not_true_eq_false, if_false]; exact hc, hlo, hhi, ?_, ?_⟩
    · simp only [nanosPerSecond]
      omega
    · rw [decodeCursorTime, if_pos hd, decodeCodecTime_codecTime hc]
  · refine ⟨0, 0, by simp [cursorCodecTime, hd], by decide, by decide, by decide, ?_⟩
    have hv := h.valid
    simp only [validCursorState, Bool.and_eq_true] at hv
    have hv := hv.2
    have ht : value.revisionPublishedAt = zeroTime := by
      split at hv
      next hr => exact absurd hr hd
      all_goals simp only [Bool.and_eq_true, beq_iff_eq] at hv; exact hv.1.2
    simp [decodeCursorTime, hd, ht]

theorem length_cursorScope (key : Bytes) (domain : CursorDomain) (ns slot : Bytes) :
    (cursorScope key domain ns slot).length = cursorScopeLength :=
  List.length_take_of_le (by rw [Primitives.hmac_length]; decide)

theorem readCursorBody_body (key : Bytes) (h : Issuable value) {seconds nanos} (hlo : -2 ^ 63 ≤ seconds)
    (hhi : seconds < 2 ^ 63) (hn : nanos < 256 ^ 4)
    (ht : decodeCursorTime value.domain seconds nanos = some value.revisionPublishedAt) :
    readCursorBody key value.domain value.namespace_ value.slot (cursorBody key value seconds nanos) = some value := by
  have hscope := fun rest => Reader.fixed_append (cursorScope key value.domain value.namespace_ value.slot) rest
  simp only [length_cursorScope] at hscope
  have hid := string16_identifier (Nat.le_trans h.revisionID_length (by decide)) []
  rw [List.append_nil] at hid
  simp [readCursorBody, cursorBody, hscope, Reader.uint_append h.position, Reader.uint_append h.boundary,
    int64_append hlo hhi, Reader.uint_append hn, hid, ht, h.valid]

theorem length_cursorBody (key : Bytes) (value : CursorState) (seconds : Int) (nanos : Nat) :
    (cursorBody key value seconds nanos).length = cursorFixedLength + value.revisionID.length := by
  simp only [cursorBody, List.length_cons, List.length_append, length_cursorScope, length_be, length_codecString16,
    cursorFixedLength]
  omega

/-- An issued cursor is a valid identifier that decodes, in its scope, to the state it was issued for. -/
theorem newCursor_issuable {key value} (h : Issuable value) :
    ∃ cursor, newCursor key value = .ok cursor ∧ validateIdentifier cursor = .ok () ∧
      decodeCursor key cursor value.domain value.namespace_ value.slot = .ok value := by
  obtain ⟨seconds, nanos, htime, hlo, hhi, hn, hback⟩ := h.codecTime
  have hid := h.revisionID_length
  generalize hbody : cursorBody key value seconds nanos = body
  have hlen : (body ++ hmac key body).length = cursorFixedLength + value.revisionID.length + cursorMACLength := by
    rw [List.length_append, Primitives.hmac_length, ← hbody, length_cursorBody]
    rfl
  have henc : Base64.encodedLength (cursorFixedLength + value.revisionID.length + cursorMACLength) ≤ 192 := by
    simp only [Base64.encodedLength, cursorFixedLength, cursorScopeLength, cursorMACLength]
    omega
  have hcursor : (Base64.encode (body ++ hmac key body)).length ≤ 192 := by
    rw [Base64.length_encode, hlen]
    exact henc
  have hne : Base64.encode (body ++ hmac key body) ≠ [] := by
    intro hnil
    have hz := Base64.length_encode (body ++ hmac key body)
    rw [hnil, hlen] at hz
    simp only [List.length_nil, Base64.encodedLength, cursorFixedLength, cursorScopeLength, cursorMACLength] at hz
    omega
  refine ⟨Base64.encode (body ++ hmac key body), ?_, ?_, ?_⟩
  · unfold newCursor
    rw [if_neg (by simp [h.valid]), htime]
    dsimp only
    rw [if_neg, if_neg, hbody] <;> simp only [maxIdentifierBytes] <;> omega
  · refine validateIdentifier_eq_ok.2 ⟨hne, Nat.le_trans hcursor (by decide), safeText_ascii (Base64.encode_printable _)⟩
  · have hmac_drop : (body ++ hmac key body).drop ((body ++ hmac key body).length - cursorMACLength) = hmac key body := by
      rw [List.length_append, Primitives.hmac_length]
      simp [cursorMACLength]
    have hmac_take : (body ++ hmac key body).take ((body ++ hmac key body).length - cursorMACLength) = body := by
      rw [List.length_append, Primitives.hmac_length]
      simp [cursorMACLength]
    have hscope : validCursorScope value.domain value.namespace_ value.slot = true := by
      have hv := h.valid
      simp only [validCursorState, Bool.and_eq_true] at hv
      exact hv.1
    have hread := readCursorBody_body key h hlo hhi hn hback
    rw [hbody] at hread
    unfold decodeCursor
    rw [if_neg hne, if_neg (by simp [hscope, maxIdentifierBytes]; omega), Base64.decode_encode]
    dsimp only
    rw [if_neg (by omega), if_neg (by simp), hmac_drop, hmac_take, if_neg (by simp), hread]

/-! ## Accepted cursors -/

variable {state : CursorState}

omit [Primitives] in
/-- The time field that a decoded state is issued with is the field it was read from. -/
theorem cursorCodecTime_of_decode {seconds nanos}
    (h : decodeCursorTime state.domain seconds nanos = some state.revisionPublishedAt) :
    cursorCodecTime state = some (seconds, nanos) := by
  unfold decodeCursorTime at h
  split at h
  next hd =>
    obtain ⟨hz, rfl, rfl⟩ := decodeCodecTime_eq_some h
    rw [cursorCodecTime, if_neg (by simp [hd]), codecTime, if_neg hz]
  next hd =>
    split at h
    · cases h
    next hzero =>
      simp only [not_or, not_not] at hzero
      rw [cursorCodecTime, if_pos hd, hzero.1, hzero.2]

variable {key ns slot : Bytes} {domain : CursorDomain}

/-- An accepted body is the body of the state read from it, which fits the fields of a cursor of the scope. -/
theorem readCursorBody_eq_some {body : Bytes} (h : readCursorBody key domain ns slot body = some state) :
    Issuable state ∧ state.domain = domain ∧ state.namespace_ = ns ∧ state.slot = slot ∧
      ∃ seconds nanos, cursorCodecTime state = some (seconds, nanos) ∧ body = cursorBody key state seconds nanos := by
  simp only [readCursorBody, Option.bind_eq_bind, Option.bind_eq_some_iff, guard_eq_some, Option.some.injEq] at h
  obtain ⟨⟨_, d₁⟩, h₁, -, rfl, ⟨_, d₂⟩, h₂, -, rfl, ⟨_, d₃⟩, h₃, -, rfl, ⟨position, d₄⟩, h₄, ⟨boundary, d₅⟩, h₅,
    ⟨seconds, d₆⟩, h₆, ⟨nanos, d₇⟩, h₇, ⟨revisionID, d₈⟩, h₈, -, rfl, publishedAt, htime, -, hvalid, rfl⟩ := h
  obtain rfl := Reader.byte_eq_some h₁
  obtain rfl := Reader.byte_eq_some h₂
  obtain ⟨rfl, -⟩ := Reader.fixed_eq_some h₃
  obtain ⟨rfl, hposition⟩ := Reader.uint_eq_some h₄
  obtain ⟨rfl, hboundary⟩ := Reader.uint_eq_some h₅
  obtain ⟨rfl, hlo, hhi⟩ := int64_eq_some h₆
  obtain ⟨rfl, -⟩ := Reader.uint_eq_some h₇
  obtain rfl := string16_eq_some h₈
  refine ⟨⟨hvalid, hposition, hboundary, fun hd => ?_⟩, rfl, rfl, rfl, seconds, nanos,
    cursorCodecTime_of_decode htime, by simp [cursorBody]⟩
  change domain = .revision at hd
  rw [decodeCursorTime, if_pos hd] at htime
  obtain ⟨hz, rfl, -⟩ := decodeCodecTime_eq_some htime
  exact ⟨hz, hlo, hhi⟩

/-- What an accepted cursor is made of. -/
theorem decodeCursor_eq_ok {v : Bytes} (hne : v ≠ []) (h : decodeCursor key v domain ns slot = .ok state) :
    ∃ body, v = Base64.encode (body ++ hmac key body) ∧ readCursorBody key domain ns slot body = some state := by
  unfold decodeCursor at h
  rw [if_neg hne] at h
  split at h
  · cases h
  · split at h
    · cases h
    next token htoken =>
      split at h
      · cases h
      · split at h
        · cases h
        next hcanonical =>
          dsimp only at h
          split at h
          · cases h
          next hmac_eq =>
            split at h
            · cases h
            next state' hread =>
              obtain rfl := Except.ok.inj h
              refine ⟨_, ?_, hread⟩
              rw [← not_not.1 hmac_eq, List.take_append_drop]
              exact (not_not.1 hcanonical).symm

/-- Only the cursor of a state is accepted for it. -/
theorem newCursor_decodeCursor {v : Bytes} (hne : v ≠ []) (h : decodeCursor key v domain ns slot = .ok state) :
    newCursor key state = .ok v ∧ Issuable state ∧ state.domain = domain ∧ state.namespace_ = ns ∧ state.slot = slot := by
  obtain ⟨body, rfl, hread⟩ := decodeCursor_eq_ok hne h
  obtain ⟨hissuable, hdomain, hns, hslot, seconds, nanos, htime, rfl⟩ := readCursorBody_eq_some hread
  have hid := hissuable.revisionID_length
  have henc : Base64.encodedLength (cursorFixedLength + state.revisionID.length + cursorMACLength) ≤ maxIdentifierBytes := by
    simp only [Base64.encodedLength, cursorFixedLength, cursorScopeLength, cursorMACLength, maxIdentifierBytes]
    omega
  refine ⟨?_, hissuable, hdomain, hns, hslot⟩
  unfold newCursor
  rw [if_neg (by simp [hissuable.valid]), htime]
  dsimp only
  rw [if_neg (by simp only [maxIdentifierBytes]; omega), if_neg (Nat.not_lt.2 henc)]

/-- **The cursor codec is exact.** Every state that fits its listing is issued as a cursor that reads back as the
state, and every accepted cursor is the one that its state is issued as. -/
theorem cursorCodec_exact (key : Bytes) :
    (∀ state, Issuable state → ∃ cursor, newCursor key state = .ok cursor ∧
      decodeCursor key cursor state.domain state.namespace_ state.slot = .ok state) ∧
    ∀ (v : Bytes) (domain : CursorDomain) (ns slot : Bytes) (state : CursorState), v ≠ [] →
      decodeCursor key v domain ns slot = .ok state → newCursor key state = .ok v := by
  refine ⟨fun state h => ?_, fun v domain ns slot state hne h => (newCursor_decodeCursor hne h).1⟩
  obtain ⟨cursor, hnew, -, hdecode⟩ := newCursor_issuable h
  exact ⟨cursor, hnew, hdecode⟩

end PolicyEngine.Sqlite
