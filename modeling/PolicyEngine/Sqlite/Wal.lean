import Mathlib
import PolicyEngine.Core.Basic
import PolicyEngine.Lib.Words

/-!
# The write-ahead log check

`validateWALFile` and `validateRuntimeWALState` (`integrity.go`) read the `-wal`
sidecar before SQLite does. A sidecar is given by its bytes; a context by what each
look at it finds. Against them stand the images of the documented format: a header,
the frames written under its salts, and the frames of an earlier generation that a
restart leaves behind.
-/

open PolicyEngine.Lib List

namespace PolicyEngine.Sqlite

/-! ## The check -/

def sqliteDatabaseHeaderBytes : Nat := 100
def sqliteWALHeaderBytes : Nat := 32
def sqliteWALFrameHeaderBytes : Nat := 24
def sqliteWALMagicLittle : UInt32 := 0x377f0682
def sqliteWALMagicBig : UInt32 := 0x377f0683
def sqliteWALFormatVersion : UInt32 := 3007000

/-- The state of the context at each of the looks a call takes at it. -/
abbrev Polls := Nat → Result Unit

/-- The file next to the database. -/
inductive Sidecar where
  | missing
  | irregular
  | regular (content : Bytes)

def sqliteDatabasePageSize (contextError : Result Unit) : Option Bytes → Result Nat
  | none => contextError >>= fun _ => .error .internal
  | some database => do
    (if database.length < sqliteDatabaseHeaderBytes then contextError >>= fun _ => .error .integrity else .ok ())
    require (slice database 0 16 == ascii "SQLite format 3\x00" && slice database 18 19 == [2] &&
      slice database 19 20 == [2]) .integrity
    let pageSize := if beValue (slice database 16 18) = 1 then 65536 else beValue (slice database 16 18)
    require (512 ≤ pageSize && pageSize ≤ 65536 && pageSize &&& (pageSize - 1) == 0) .integrity
    return pageSize

abbrev Sums := UInt32 × UInt32

/-- One round of the checksum, over eight bytes. -/
def checksumRound (order : ByteOrder) (sums : Sums) (data : Bytes) : Sums :=
  let first := sums.1 + (order.uint32 (slice data 0 4) + sums.2)
  let second := sums.2 + (order.uint32 (slice data 4 8) + first)
  (first, second)

def sqliteWALChecksum (data : Bytes) (order : ByteOrder) (sums : Sums) : Sums :=
  (blocks 8 (data.length / 8) data).foldl (checksumRound order) sums

def magicOrder (magic : UInt32) : Option ByteOrder :=
  if magic = sqliteWALMagicLittle then some .little
  else if magic = sqliteWALMagicBig then some .big
  else none

def sqliteWALHeaderByteOrder (header : Bytes) (pageSize : Nat) : Result ByteOrder := do
  require (header.length == sqliteWALHeaderBytes) .integrity
  match magicOrder (ByteOrder.big.uint32 (slice header 0 4)) with
  | none => .error .integrity
  | some order => do
    require (ByteOrder.big.uint32 (slice header 4 8) == sqliteWALFormatVersion &&
      (ByteOrder.big.uint32 (slice header 8 12)).toNat == pageSize) .integrity
    require ((ByteOrder.big.uint32 (slice header 24 28), ByteOrder.big.uint32 (slice header 28 32)) ==
      sqliteWALChecksum (slice header 0 24) order (0, 0)) .integrity
    return order

/-- The checksum after one more frame: its first eight header bytes, then its page. -/
def frameSums (order : ByteOrder) (sums : Sums) (frame : Bytes) : Sums :=
  sqliteWALChecksum (frame.drop sqliteWALFrameHeaderBytes) order (sqliteWALChecksum (slice frame 0 8) order sums)

/-- The loop over the frames. -/
def validateFrames (ctx : Polls) (order : ByteOrder) (salts : Bytes) (poll : Nat) (sums : Sums) :
    List Bytes → Result Unit
  | [] => .ok ()
  | frame :: frames => do
    ctx poll
    require (ByteOrder.big.uint32 (slice frame 0 4) != 0 && slice frame 8 16 == salts) .integrity
    require ((ByteOrder.big.uint32 (slice frame 16 20), ByteOrder.big.uint32 (slice frame 20 24)) ==
      frameSums order sums frame) .integrity
    validateFrames ctx order salts (poll + 1) (frameSums order sums frame) frames

/-- What both checks do up to the frames: `frames` is run on the header's byte order
and the content, once the header stands and the rest is whole frames. -/
def checkWAL (ctx : Polls) (database : Option Bytes) (wal : Sidecar)
    (frames : Nat → ByteOrder → Bytes → Result Unit) : Result Unit := do
  ctx 0
  match wal with
  | .missing => .ok ()
  | .irregular => .error .integrity
  | .regular content =>
    if content.length = 0 then .ok ()
    else do
      require (sqliteWALHeaderBytes ≤ content.length) .integrity
      let pageSize ← sqliteDatabasePageSize (ctx 1) database
      let order ← sqliteWALHeaderByteOrder (content.take sqliteWALHeaderBytes) pageSize
      let frameBytes := sqliteWALFrameHeaderBytes + pageSize
      require ((content.length - sqliteWALHeaderBytes) % frameBytes == 0) .integrity
      frames frameBytes order content

/-- The bounded check of a runtime that opens the database. -/
def validateRuntimeWALState (ctx : Polls) (database : Option Bytes) (wal : Sidecar) : Result Unit :=
  checkWAL ctx database wal fun _ _ _ => .ok ()

/-- The frames that follow the header. -/
def framesOf (frameBytes : Nat) (content : Bytes) : List Bytes :=
  blocks frameBytes ((content.length - sqliteWALHeaderBytes) / frameBytes) (content.drop sqliteWALHeaderBytes)

/-- The full check of the offline commands. -/
def validateWALFile (ctx : Polls) (database : Option Bytes) (wal : Sidecar) : Result Unit :=
  checkWAL ctx database wal fun frameBytes order content =>
    validateFrames ctx order (slice content 16 24) 2 (sqliteWALChecksum (slice content 0 24) order (0, 0))
      (framesOf frameBytes content)

/-! ## Images of the format -/

/-- The page sizes SQLite allows. -/
def LegalPageSize (pageSize : Nat) : Prop := ∃ k, 9 ≤ k ∧ k ≤ 16 ∧ pageSize = 2 ^ k

/-- The header of a database in WAL mode with pages of one size. -/
structure IsDatabase (database : Bytes) (pageSize : Nat) : Prop where
  length : sqliteDatabaseHeaderBytes ≤ database.length
  magic : slice database 0 16 = ascii "SQLite format 3\x00"
  writeVersion : slice database 18 19 = [2]
  readVersion : slice database 19 20 = [2]
  legal : LegalPageSize pageSize
  size : beValue (slice database 16 18) = if pageSize = 65536 then 1 else pageSize

structure WalHeader where
  order : ByteOrder
  pageSize : Nat
  sequence : UInt32
  salts : Bytes
  pageSize_lt : pageSize < 2 ^ 32
  salts_length : salts.length = 8

def orderMagic : ByteOrder → UInt32
  | .little => sqliteWALMagicLittle
  | .big => sqliteWALMagicBig

namespace WalHeader

variable (h : WalHeader)

def fields : Bytes :=
  word (orderMagic h.order) ++ (word sqliteWALFormatVersion ++ (word (.ofNat h.pageSize) ++ (word h.sequence ++ h.salts)))

def sums : Sums := sqliteWALChecksum h.fields h.order (0, 0)

def bytes : Bytes := h.fields ++ (word h.sums.1 ++ word h.sums.2)

end WalHeader

/-- A frame as a transaction writes it: a page under its number, and the size of the
database if the frame commits. -/
structure WalFrame (pageSize : Nat) where
  number : UInt32
  commit : UInt32
  page : Bytes
  number_ne : number ≠ 0
  page_length : page.length = pageSize

namespace WalFrame

variable {pageSize : Nat} (f : WalFrame pageSize) (order : ByteOrder) (salts : Bytes) (sums : Sums)

def next : Sums := sqliteWALChecksum f.page order (sqliteWALChecksum (word f.number ++ word f.commit) order sums)

def bytes : Bytes :=
  word f.number ++ (word f.commit ++ (salts ++ (word (f.next order sums).1 ++ (word (f.next order sums).2 ++ f.page))))

end WalFrame

/-- Frames appended one after the other, each under the checksum of all before it. -/
def writeFrames {pageSize : Nat} (order : ByteOrder) (salts : Bytes) : Sums → List (WalFrame pageSize) → List Bytes
  | _, [] => []
  | sums, f :: fs => f.bytes order salts sums :: writeFrames order salts (f.next order sums) fs

/-- What SQLite leaves after a restart: a new header, the frames written since, and
behind them whole frames of an earlier generation, which had other salts. -/
structure RestartedWal where
  header : WalHeader
  live : List (WalFrame header.pageSize)
  stale : List Bytes
  stale_length : ∀ b ∈ stale, b.length = sqliteWALFrameHeaderBytes + header.pageSize
  stale_salts : ∀ b ∈ stale, slice b 8 16 ≠ header.salts

namespace RestartedWal

variable (w : RestartedWal)

def frames : List Bytes := writeFrames w.header.order w.header.salts w.header.sums w.live ++ w.stale

def content : Bytes := w.header.bytes ++ w.frames.flatten

end RestartedWal

/-! ## Headers -/

/-- The error of a refusal: the image's, or the context's. -/
def Refusal (ctx : Polls) (e : ErrorCategory) : Prop := e = .integrity ∨ ∃ i, ctx i = .error e

theorem poll_outcome (ctx : Polls) (i : Nat) : Outcome (Refusal ctx) (fun _ => True) (ctx i) := by
  cases h : ctx i with
  | ok => exact .ok trivial
  | error e => exact .error (.inr ⟨i, h⟩)

theorem magicOrder_orderMagic (order : ByteOrder) : magicOrder (orderMagic order) = some order := by
  cases order <;> rfl

theorem magicOrder_eq_some {magic order} (h : magicOrder magic = some order) :
    magic = orderMagic order := by
  unfold magicOrder at h
  split at h
  · cases h
    assumption
  · split at h
    · cases h
      assumption
    · cases h

namespace WalHeader

variable (h : WalHeader)

@[simp] theorem length_fields : h.fields.length = 24 := by simp [fields, h.salts_length]

@[simp] theorem length_bytes : h.bytes.length = 32 := by simp [bytes]

theorem slice_fields (rest : Bytes) : slice (h.bytes ++ rest) 0 24 = h.fields := by
  rw [bytes, append_assoc, slice_append_of_eq h.length_fields]

theorem slice_salts (rest : Bytes) : slice (h.bytes ++ rest) 16 24 = h.salts := by
  simp [bytes, fields, slice_append_of_le, slice_append_of_eq, h.salts_length]

theorem byteOrder : sqliteWALHeaderByteOrder h.bytes h.pageSize = .ok h.order := by
  have hfields := h.slice_fields []
  rw [append_nil] at hfields
  have hmagic : slice h.bytes 0 4 = word (orderMagic h.order) := by
    simp [bytes, fields, slice_append_of_eq]
  have hversion : slice h.bytes 4 8 = word sqliteWALFormatVersion := by
    simp [bytes, fields, slice_append_of_le, slice_append_of_eq]
  have hsize : slice h.bytes 8 12 = word (.ofNat h.pageSize) := by
    simp [bytes, fields, slice_append_of_le, slice_append_of_eq]
  have hfirst : slice h.bytes 24 28 = word h.sums.1 := by
    simp [bytes, slice_append_of_le, slice_append_of_eq]
  have hsecond : slice h.bytes 28 32 = word h.sums.2 := by
    simp [bytes, slice_append_of_le, slice_of_length]
  have hpage : (UInt32.ofNat h.pageSize).toNat = h.pageSize := UInt32.toNat_ofNat_of_lt' h.pageSize_lt
  have hsums : sqliteWALChecksum h.fields h.order (0, 0) = h.sums := rfl
  simp [sqliteWALHeaderByteOrder, hmagic, hversion, hsize, hfirst, hsecond, hfields, hpage, hsums,
    magicOrder_orderMagic, sqliteWALHeaderBytes]

end WalHeader

/-- What the header check accepts is a header of the format. -/
theorem sqliteWALHeaderByteOrder_outcome (ctx : Polls) (header : Bytes) (pageSize : Nat) :
    Outcome (Refusal ctx) (fun order => ∃ w : WalHeader, w.pageSize = pageSize ∧ w.order = order ∧ w.bytes = header)
      (sqliteWALHeaderByteOrder header pageSize) := by
  refine (require_outcome (.inl rfl)).bind fun _ hlength => ?_
  replace hlength : header.length = 32 := eq_of_beq hlength
  split
  · exact .error (.inl rfl)
  rename_i order hmagic
  refine (require_outcome (.inl rfl)).bind fun _ hfields => ?_
  refine (require_outcome (.inl rfl)).bind fun _ hsums => .ok ?_
  simp only [Bool.and_eq_true, beq_iff_eq] at hfields hsums
  obtain ⟨hversion, hsize⟩ := hfields
  have hword : ∀ i, i + 4 ≤ 32 → word (ByteOrder.big.uint32 (slice header i (i + 4))) = slice header i (i + 4) := by
    intro i hi
    apply word_uint32
    rw [length_slice (by rw [hlength]; exact hi), Nat.add_sub_cancel_left]
  let w : WalHeader :=
    { order := order
      pageSize := pageSize
      sequence := ByteOrder.big.uint32 (slice header 12 16)
      salts := slice header 16 24
      pageSize_lt := hsize ▸ UInt32.toNat_lt _
      salts_length := length_slice (by rw [hlength]; decide) }
  have hfields : w.fields = slice header 0 24 := by
    have hpage : UInt32.ofNat pageSize = ByteOrder.big.uint32 (slice header 8 12) := by
      rw [← hsize, UInt32.ofNat_toNat]
    change word (orderMagic order) ++ (word _ ++ (word (.ofNat pageSize) ++ (word _ ++ slice header 16 24))) = _
    rw [← magicOrder_eq_some hmagic, ← hversion, hpage, hword 0 (by decide), hword 4 (by decide), hword 8 (by decide),
      hword 12 (by decide)]
    simp [slice_append_slice]
  have hw : w.sums = (ByteOrder.big.uint32 (slice header 24 28), ByteOrder.big.uint32 (slice header 28 32)) := by
    rw [hsums, ← hfields]
    rfl
  refine ⟨w, rfl, rfl, ?_⟩
  rw [WalHeader.bytes, hfields, hw, hword 24 (by decide), hword 28 (by decide),
    slice_append_slice _ (by decide) (by decide), slice_append_slice _ (by decide) (by decide)]
  exact slice_of_length hlength

/-! ## Frames -/

section

variable {pageSize : Nat} {order : ByteOrder} {salts : Bytes} {sums : Sums} {ctx : Polls} {poll : Nat}

theorem WalFrame.length_bytes (f : WalFrame pageSize) (hs : salts.length = 8) :
    (f.bytes order salts sums).length = sqliteWALFrameHeaderBytes + pageSize := by
  simp [bytes, hs, f.page_length, sqliteWALFrameHeaderBytes]
  omega

theorem length_of_mem_writeFrames {fs : List (WalFrame pageSize)} (hs : salts.length = 8) {b : Bytes}
    (hb : b ∈ writeFrames order salts sums fs) : b.length = sqliteWALFrameHeaderBytes + pageSize := by
  induction fs generalizing sums with
  | nil => simp [writeFrames] at hb
  | cons f fs ih =>
    rcases mem_cons.1 hb with rfl | hb
    · exact f.length_bytes hs
    · exact ih hb

/-- The fields of a written frame, where the check reads them. -/
theorem WalFrame.reads (f : WalFrame pageSize) (order : ByteOrder) (sums : Sums) (hs : salts.length = 8) :
    ByteOrder.big.uint32 (slice (f.bytes order salts sums) 0 4) = f.number ∧
      slice (f.bytes order salts sums) 8 16 = salts ∧
      (ByteOrder.big.uint32 (slice (f.bytes order salts sums) 16 20),
        ByteOrder.big.uint32 (slice (f.bytes order salts sums) 20 24)) = f.next order sums ∧
      frameSums order sums (f.bytes order salts sums) = f.next order sums := by
  have hfirst : slice (f.bytes order salts sums) 0 8 = word f.number ++ word f.commit := by
    rw [bytes, ← append_assoc, slice_append_of_eq (by simp)]
  have hpage : (f.bytes order salts sums).drop sqliteWALFrameHeaderBytes = f.page := by
    simp [bytes, sqliteWALFrameHeaderBytes, drop_append, drop_eq_nil_of_le, hs]
  refine ⟨?_, ?_, ?_, ?_⟩
  · simp [bytes, slice_append_of_eq]
  · simp [bytes, slice_append_of_le, slice_append_of_eq, hs]
  · simp [bytes, slice_append_of_le, slice_append_of_eq, hs]
  · rw [frameSums, hfirst, hpage]
    rfl

/-- A block that passes the three tests of the loop is a frame written there. -/
theorem exists_frame {b : Bytes} (hb : b.length = sqliteWALFrameHeaderBytes + pageSize)
    (hn : ByteOrder.big.uint32 (slice b 0 4) ≠ 0) (hsalts : slice b 8 16 = salts)
    (hsums : (ByteOrder.big.uint32 (slice b 16 20), ByteOrder.big.uint32 (slice b 20 24)) = frameSums order sums b) :
    ∃ f : WalFrame pageSize, f.bytes order salts sums = b ∧ f.next order sums = frameSums order sums b := by
  have hword : ∀ i, i + 4 ≤ 24 → word (ByteOrder.big.uint32 (slice b i (i + 4))) = slice b i (i + 4) := by
    intro i hi
    apply word_uint32
    rw [length_slice (by rw [hb, sqliteWALFrameHeaderBytes]; omega), Nat.add_sub_cancel_left]
  let f : WalFrame pageSize :=
    { number := ByteOrder.big.uint32 (slice b 0 4)
      commit := ByteOrder.big.uint32 (slice b 4 8)
      page := b.drop sqliteWALFrameHeaderBytes
      number_ne := hn
      page_length := by rw [length_drop, hb, Nat.add_sub_cancel_left] }
  have hnext : f.next order sums = frameSums order sums b := by
    change sqliteWALChecksum _ order (sqliteWALChecksum (word _ ++ word _) order sums) = _
    rw [hword 0 (by decide), hword 4 (by decide), slice_append_slice _ (by decide) (by decide)]
    rfl
  refine ⟨f, ?_, hnext⟩
  rw [WalFrame.bytes, hnext, ← hsums, hword 16 (by decide), hword 20 (by decide)]
  change word _ ++ (word _ ++ (salts ++ (_ ++ (_ ++ b.drop 24)))) = b
  rw [hword 0 (by decide), hword 4 (by decide), ← hsalts]
  simp only [slice_append_drop b (show 20 ≤ 24 by decide), slice_append_drop b (show 16 ≤ 20 by decide),
    slice_append_drop b (show 8 ≤ 16 by decide), slice_append_drop b (show 4 ≤ 8 by decide),
    slice_append_drop b (show 0 ≤ 4 by decide), drop_zero]

/-- The loop passes a written frame. -/
theorem validateFrames_bytes (f : WalFrame pageSize) (hs : salts.length = 8) (hctx : ctx poll = .ok ())
    (frames : List Bytes) :
    validateFrames ctx order salts poll sums (f.bytes order salts sums :: frames) =
      validateFrames ctx order salts (poll + 1) (f.next order sums) frames := by
  obtain ⟨hnumber, hsalts, hsums, hnext⟩ := f.reads order sums hs
  have hne : (f.number != 0) = true := bne_iff_ne.2 f.number_ne
  simp [validateFrames, hctx, hnumber, hsalts, hsums, hnext, hne]

/-- What the loop passes are frames written one after the other. -/
theorem validateFrames_outcome {frames : List Bytes}
    (hframes : ∀ b ∈ frames, b.length = sqliteWALFrameHeaderBytes + pageSize) :
    Outcome (Refusal ctx) (fun _ => ∃ fs : List (WalFrame pageSize), writeFrames order salts sums fs = frames)
      (validateFrames ctx order salts poll sums frames) := by
  induction frames generalizing poll sums with
  | nil => exact .ok ⟨[], rfl⟩
  | cons b frames ih =>
    obtain ⟨hb, hrest⟩ := forall_mem_cons.1 hframes
    refine (poll_outcome ctx poll).bind fun _ _ => ?_
    refine (require_outcome (.inl rfl)).bind fun _ hfields => ?_
    refine (require_outcome (.inl rfl)).bind fun _ hsums => ?_
    rw [Bool.and_eq_true, bne_iff_ne, beq_iff_eq] at hfields
    obtain ⟨f, rfl, hnext⟩ := exists_frame hb hfields.1 hfields.2 (eq_of_beq hsums)
    refine (ih hrest).mono fun _ ⟨fs, hfs⟩ => ⟨f :: fs, ?_⟩
    rw [writeFrames, hnext, hfs]

theorem validateFrames_writeFrames (hs : salts.length = 8) (hctx : ∀ i, ctx i = .ok ()) (fs : List (WalFrame pageSize))
    (rest : List Bytes) (hrest : ∀ b ∈ rest, slice b 8 16 ≠ salts) :
    validateFrames ctx order salts poll sums (writeFrames order salts sums fs ++ rest) = .ok () ↔ rest = [] := by
  induction fs generalizing poll sums with
  | cons f fs ih => rw [writeFrames, cons_append, validateFrames_bytes f hs (hctx poll), ih]
  | nil =>
    cases rest with
    | nil => simp [writeFrames, validateFrames]
    | cons b rest =>
      -- The first frame behind the live ones has the wrong salts.
      have hb : (slice b 8 16 == salts) = false := beq_eq_false_iff_ne.2 (hrest b mem_cons_self)
      simp [writeFrames, validateFrames, hctx, hb, require]

end

/-! ## Whole images -/

variable {pageSize : Nat}

theorem sqliteDatabasePageSize_eq {database : Bytes} (hd : IsDatabase database pageSize) (contextError : Result Unit) :
    sqliteDatabasePageSize contextError (some database) = .ok pageSize := by
  obtain ⟨k, hlo, hhi, rfl⟩ := hd.legal
  have hsize : (if beValue (slice database 16 18) = 1 then 65536 else beValue (slice database 16 18)) = 2 ^ k := by
    rw [hd.size]
    interval_cases k <;> rfl
  have hlegal : (decide (512 ≤ 2 ^ k) && decide (2 ^ k ≤ 65536) && 2 ^ k &&& (2 ^ k - 1) == 0) = true := by
    interval_cases k <;> rfl
  simp only [sqliteDatabasePageSize, if_neg (Nat.not_lt.2 hd.length), hd.magic, hd.writeVersion, hd.readVersion, hsize,
    hlegal, beq_self_eq_true, Bool.and_self, require_true, ok_bind, pure_eq_ok]

section

variable {ctx : Polls} {database content : Bytes} {pageSize : Nat} {h : WalHeader}

theorem framesOf_spec (h : (content.length - sqliteWALHeaderBytes) % (sqliteWALFrameHeaderBytes + pageSize) = 0) :
    (framesOf (sqliteWALFrameHeaderBytes + pageSize) content).flatten = content.drop sqliteWALHeaderBytes ∧
      ∀ b ∈ framesOf (sqliteWALFrameHeaderBytes + pageSize) content, b.length = sqliteWALFrameHeaderBytes + pageSize := by
  have hcount := Nat.div_mul_cancel (Nat.dvd_of_mod_eq_zero h)
  refine ⟨?_, fun b hb => ?_⟩
  · rw [framesOf, flatten_blocks, hcount, ← length_drop, take_length]
  · exact length_of_mem_blocks (hcount.trans length_drop.symm).le hb

/-- What the full check accepts is a header with frames written under it. -/
theorem validateWALFile_outcome (hd : IsDatabase database pageSize) (hne : content ≠ []) :
    Outcome (Refusal ctx)
      (fun _ => ∃ (h : WalHeader) (fs : List (WalFrame pageSize)), h.pageSize = pageSize ∧
        content = h.bytes ++ (writeFrames h.order h.salts h.sums fs).flatten)
      (validateWALFile ctx (some database) (.regular content)) := by
  refine (poll_outcome ctx 0).bind fun _ _ => ?_
  dsimp only
  rw [if_neg (mt length_eq_zero_iff.1 hne), sqliteDatabasePageSize_eq hd]
  refine (require_outcome (.inl rfl)).bind fun _ hlength => ?_
  refine (sqliteWALHeaderByteOrder_outcome ctx _ pageSize).bind fun order ⟨h, hsize, horder, hbytes⟩ => ?_
  refine (require_outcome (.inl rfl)).bind fun _ hmod => ?_
  obtain ⟨hflatten, hframes⟩ := framesOf_spec (eq_of_beq hmod)
  have hcontent : content = h.bytes ++ content.drop sqliteWALHeaderBytes := by rw [hbytes, take_append_drop]
  have hfields : slice content 0 24 = h.fields := by rw [hcontent, h.slice_fields]
  have hsalts : slice content 16 24 = h.salts := by rw [hcontent, h.slice_salts]
  rw [hfields, hsalts, ← horder]
  refine (validateFrames_outcome hframes).mono fun _ ⟨fs, hfs⟩ => ⟨h, fs, hsize, ?_⟩
  change writeFrames h.order h.salts h.sums fs = _ at hfs
  rw [hfs, hflatten, ← hcontent]

theorem framesOf_append (h : WalHeader) {parts : List Bytes}
    (hparts : ∀ b ∈ parts, b.length = sqliteWALFrameHeaderBytes + pageSize) :
    framesOf (sqliteWALFrameHeaderBytes + pageSize) (h.bytes ++ parts.flatten) = parts := by
  have hdrop : (h.bytes ++ parts.flatten).drop sqliteWALHeaderBytes = parts.flatten := drop_left' h.length_bytes
  rw [framesOf, ← length_drop, hdrop, length_flatten_of_length hparts,
    Nat.mul_div_cancel _ (Nat.add_pos_left (by decide) _), blocks_flatten hparts]

/-- Both checks, on an image whose header stands. -/
theorem checkWAL_header (hd : IsDatabase database h.pageSize) (hctx : ∀ i, ctx i = .ok ()) {parts : List Bytes}
    (hparts : ∀ b ∈ parts, b.length = sqliteWALFrameHeaderBytes + h.pageSize)
    (frames : Nat → ByteOrder → Bytes → Result Unit) :
    checkWAL ctx (some database) (.regular (h.bytes ++ parts.flatten)) frames =
      frames (sqliteWALFrameHeaderBytes + h.pageSize) h.order (h.bytes ++ parts.flatten) := by
  have htake : (h.bytes ++ parts.flatten).take sqliteWALHeaderBytes = h.bytes := take_left' h.length_bytes
  have hlength : (h.bytes ++ parts.flatten).length =
      sqliteWALHeaderBytes + parts.length * (sqliteWALFrameHeaderBytes + h.pageSize) := by
    rw [length_append, h.length_bytes, length_flatten_of_length hparts]
    rfl
  simp only [checkWAL, hctx, ok_bind, htake, sqliteDatabasePageSize_eq hd, h.byteOrder, hlength, Nat.add_sub_cancel_left,
    Nat.mul_mod_left, beq_self_eq_true, require_true, Nat.le_add_right, decide_true]
  rw [if_neg (by rw [sqliteWALHeaderBytes]; omega)]

end

/-! ## Restarted and malformed images -/

namespace RestartedWal

variable (w : RestartedWal)

theorem length_of_mem_frames : ∀ b ∈ w.frames, b.length = sqliteWALFrameHeaderBytes + w.header.pageSize := by
  intro b hb
  rcases mem_append.1 hb with hb | hb
  · exact length_of_mem_writeFrames w.header.salts_length hb
  · exact w.stale_length b hb

/-- A runtime opens over every restarted log. -/
theorem validateRuntimeWALState_content {ctx : Polls} (hctx : ∀ i, ctx i = .ok ()) {database : Bytes}
    (hd : IsDatabase database w.header.pageSize) :
    validateRuntimeWALState ctx (some database) (.regular w.content) = .ok () :=
  checkWAL_header hd hctx w.length_of_mem_frames _

/-- The full check does so only when the restart left nothing behind. -/
theorem validateWALFile_content {ctx : Polls} (hctx : ∀ i, ctx i = .ok ()) {database : Bytes}
    (hd : IsDatabase database w.header.pageSize) :
    validateWALFile ctx (some database) (.regular w.content) = .ok () ↔ w.stale = [] := by
  rw [validateWALFile, content, checkWAL_header hd hctx w.length_of_mem_frames, w.header.slice_salts,
    w.header.slice_fields, framesOf_append w.header w.length_of_mem_frames]
  exact validateFrames_writeFrames w.header.salts_length hctx w.live w.stale w.stale_salts

end RestartedWal

/-- A frame of this generation, with only such frames before it, that has no page
number or not the checksum of the header and all frames up to it. -/
def FrameFails (h : WalHeader) (frames : List Bytes) : Prop :=
  ∃ before b after, frames = before ++ b :: after ∧ (∀ c ∈ before ++ [b], slice c 8 16 = h.salts) ∧
    (ByteOrder.big.uint32 (slice b 0 4) = 0 ∨
      (ByteOrder.big.uint32 (slice b 16 20), ByteOrder.big.uint32 (slice b 20 24)) ≠
        (before ++ [b]).foldl (frameSums h.order) h.sums)

/-- No header, or a failing frame before the first salt mismatch. -/
def Malformed (pageSize : Nat) (content : Bytes) : Prop :=
  (∀ h : WalHeader, h.pageSize = pageSize → h.bytes ≠ content.take sqliteWALHeaderBytes) ∨
    ∃ h : WalHeader, h.pageSize = pageSize ∧ h.bytes = content.take sqliteWALHeaderBytes ∧
      FrameFails h (framesOf (sqliteWALFrameHeaderBytes + pageSize) content)

theorem writeFrames_passes {order : ByteOrder} {salts : Bytes} (hs : salts.length = 8) {sums : Sums}
    {fs : List (WalFrame pageSize)} {before after : List Bytes} {b : Bytes}
    (h : writeFrames order salts sums fs = before ++ b :: after) :
    ByteOrder.big.uint32 (slice b 0 4) ≠ 0 ∧
      (ByteOrder.big.uint32 (slice b 16 20), ByteOrder.big.uint32 (slice b 20 24)) =
        (before ++ [b]).foldl (frameSums order) sums := by
  induction before generalizing sums fs with
  | nil =>
    cases fs with
    | nil => cases h
    | cons f fs =>
      obtain ⟨rfl, -⟩ := List.cons.inj h
      obtain ⟨hnumber, -, hsums, hnext⟩ := f.reads order sums hs
      rw [hnumber, hsums, nil_append, foldl_cons, foldl_nil, hnext]
      exact ⟨f.number_ne, rfl⟩
  | cons c before ih =>
    cases fs with
    | nil => cases h
    | cons f fs =>
      obtain ⟨rfl, hrest⟩ := List.cons.inj h
      obtain ⟨-, -, -, hnext⟩ := f.reads order sums hs
      rw [cons_append, foldl_cons, hnext]
      exact ih hrest

/-- A header is read from its bytes. -/
theorem WalHeader.eq_of_bytes {h h' : WalHeader} (hsize : h.pageSize = h'.pageSize) (hbytes : h.bytes = h'.bytes) :
    h.order = h'.order ∧ h.sums = h'.sums := by
  have horder : h.order = h'.order := by
    apply Except.ok.inj (ε := ErrorCategory)
    rw [← h.byteOrder, ← h'.byteOrder, hsize, hbytes]
  have hfields : h.fields = h'.fields := by
    rw [← h.slice_fields [], ← h'.slice_fields [], hbytes]
  exact ⟨horder, by rw [sums, sums, hfields, horder]⟩

theorem not_malformed {h : WalHeader} (hsize : h.pageSize = pageSize) (fs : List (WalFrame pageSize)) :
    ¬Malformed pageSize (h.bytes ++ (writeFrames h.order h.salts h.sums fs).flatten) := by
  have htake : (h.bytes ++ (writeFrames h.order h.salts h.sums fs).flatten).take sqliteWALHeaderBytes = h.bytes :=
    take_left' h.length_bytes
  rintro (hheader | ⟨h', hsize', hbytes, before, b, after, hframes, -, hfails⟩)
  · exact hheader h hsize htake.symm
  · rw [framesOf_append h fun b hb => length_of_mem_writeFrames h.salts_length hb] at hframes
    obtain ⟨hnumber, hsums⟩ := writeFrames_passes h.salts_length hframes
    obtain ⟨horder, hstart⟩ := WalHeader.eq_of_bytes (hsize'.trans hsize.symm) (hbytes.trans htake)
    rcases hfails with hzero | hne
    · exact hnumber hzero
    · exact hne (by rw [hsums, horder, hstart])

/-- A restarted log is accepted exactly when no stale frame is left in it, and a
malformed one is refused, with an integrity error or the context's. -/
theorem validateWALFile_restarted (ctx : Polls) (database : Bytes) :
    (∀ w : RestartedWal, (∀ i, ctx i = .ok ()) → IsDatabase database w.header.pageSize →
      (validateWALFile ctx (some database) (.regular w.content) = .ok () ↔ w.stale = [])) ∧
    ∀ (content : Bytes) (pageSize : Nat), IsDatabase database pageSize → content ≠ [] → Malformed pageSize content →
      ∃ e, validateWALFile ctx (some database) (.regular content) = .error e ∧ Refusal ctx e := by
  refine ⟨fun w hctx hd => w.validateWALFile_content hctx hd, ?_⟩
  intro content pageSize hd hne hmalformed
  have houtcome : Outcome (Refusal ctx) _ (validateWALFile ctx (some database) (.regular content)) :=
    validateWALFile_outcome hd hne
  cases hresult : validateWALFile ctx (some database) (.regular content) with
  | error e => exact ⟨e, rfl, houtcome.of_error hresult⟩
  | ok =>
    obtain ⟨h, fs, hsize, rfl⟩ := houtcome.of_ok hresult
    exact absurd hmalformed (not_malformed hsize fs)

/-! A log of one frame, over one frame that an earlier generation left. -/

def walDatabase : Bytes := ascii "SQLite format 3\x00" ++ [2, 0, 2, 2] ++ List.replicate 80 0

def walHeader (salt : UInt8) : WalHeader where
  order := .big
  pageSize := 512
  sequence := 1
  salts := [0, 0, 0, salt, 0, 0, 0, 1]
  pageSize_lt := by decide
  salts_length := rfl

def walFrame : WalFrame 512 where
  number := 1
  commit := 1
  page := List.replicate 512 0
  number_ne := by decide
  page_length := List.length_replicate

def restartedWal : RestartedWal where
  header := walHeader 2
  live := [walFrame]
  stale := [walFrame.bytes .big (walHeader 1).salts (walHeader 1).sums]
  stale_length := by
    intro b hb
    rw [List.mem_singleton] at hb
    exact hb ▸ walFrame.length_bytes rfl
  stale_salts := by
    intro b hb
    rw [List.mem_singleton] at hb
    rw [hb, (walFrame.reads .big (walHeader 1).sums (walHeader 1).salts_length).2.1]
    decide

/-- The restarted log is refused. -/
theorem validateWALFile_stale_frame :
    validateWALFile (fun _ => .ok ()) (some walDatabase) (.regular restartedWal.content) = .error .integrity := by
  decide +kernel

theorem isDatabase_walDatabase : IsDatabase walDatabase 512 where
  length := by decide
  magic := by decide
  writeVersion := by decide
  readVersion := by decide
  legal := ⟨9, by decide, by decide, rfl⟩
  size := by decide

theorem validateWALFile_restarted_sample :
    (validateWALFile (fun _ => .ok ()) (some walDatabase) (.regular restartedWal.content) = .ok () ↔
      restartedWal.stale = []) ∧
    ∃ e, validateWALFile (fun _ => .ok ()) (some walDatabase) (.regular (List.replicate 32 0)) = .error e ∧
      Refusal (fun _ => .ok ()) e :=
  ⟨(validateWALFile_restarted _ _).1 restartedWal (fun _ => rfl) isDatabase_walDatabase,
    (validateWALFile_restarted _ _).2 _ 512 isDatabase_walDatabase (by decide) (.inl (by
      intro h hsize hbytes
      have horder := h.byteOrder
      rw [hsize, hbytes] at horder
      cases horder))⟩

end PolicyEngine.Sqlite
