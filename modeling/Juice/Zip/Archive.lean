import Juice.Lib.Bytes
import Juice.Lib.Prog

/-!
# The headers of an archive

An archive ends with a record that says where its central directory is. The
central directory has a record for each entry, and a record says where the
local header of the entry is; the data of the entry follows that header.

The functions of this module read these records and make the checks that
come with them. They have no effect, so they are computations in `Except`.
A read of the archive outside its bounds, and an addition of offsets that
does not fit into 64 bits, are results of their own, `Failure.undefined`:
`avoids_endRecord`, `avoids_centralAt` and `avoids_localAt` say that there
is no such read and no such addition, whatever the bytes are.
-/

namespace Juice.Zip

open ByteSeq Prog

/-- How an extraction can end without success. -/
inductive Failure where
  /-- `JZFail`. -/
  | zip (code : ℕ) (message : String)
  /-- `createDirectoryAtPath:` fails, with an error of its own. -/
  | foundation
  /-- A read outside the archive, or an offset that wraps. -/
  | undefined
  /-- The loop around `inflate` goes on. -/
  | diverges
  deriving DecidableEq, Repr

def UINT16_MAX : ℕ := 65535

def UINT32_MAX : ℕ := 4294967295

/-- A sum of type `NSUInteger`. -/
def addUnsigned (a b : ℕ) : Except Failure ℕ :=
  if a + b < 2 ^ 64 then .ok (a + b) else .error .undefined

/-- `w` bytes of the archive are read. -/
def readBytes (w : ℕ) (bytes : List UInt8) (offset : ℕ) : Except Failure (List UInt8) :=
  if offset + w ≤ bytes.length then .ok (slice bytes offset w) else .error .undefined

/-- `JZRead16`. -/
def jzRead16 (bytes : List UInt8) (offset : ℕ) : Except Failure ℕ :=
  ofLE <$> readBytes 2 bytes offset

/-- `JZRead32`. -/
def jzRead32 (bytes : List UInt8) (offset : ℕ) : Except Failure ℕ :=
  ofLE <$> readBytes 4 bytes offset

/-- `JZRangeIsValid`. -/
def jzRangeIsValid (offset size total : ℕ) : Prop := offset ≤ total ∧ size ≤ total - offset

instance (offset size total : ℕ) : Decidable (jzRangeIsValid offset size total) :=
  inferInstanceAs (Decidable (_ ∧ _))

/-! ## The end of the central directory -/

/-- The end record. -/
structure EndRecord where
  /-- `eocdOffset`. -/
  offset : ℕ
  disk : ℕ
  centralDisk : ℕ
  diskEntries : ℕ
  entryCount : ℕ
  centralSize : ℕ
  centralOffset : ℕ
  deriving DecidableEq, Repr

/-- Whether the end record is at `offset`. -/
def isEocd (bytes : List UInt8) (offset : ℕ) : Except Failure Bool := do
  let signature ← jzRead32 bytes offset
  if signature = 0x06054b50 then
    let commentLength ← jzRead16 bytes (offset + 20)
    let recordEnd ← addUnsigned offset 22
    let archiveEnd ← addUnsigned recordEnd commentLength
    pure (archiveEnd = bytes.length)
  else pure false

/-- The search for the end record, from `offset` down to `searchStart`. -/
def searchEocd (bytes : List UInt8) (searchStart : ℕ) : ℕ → Except Failure (Option ℕ)
  | 0 => do
    let found ← isEocd bytes 0
    pure (if found then some 0 else none)
  | offset + 1 => do
    let found ← isEocd bytes (offset + 1)
    if found then pure (some (offset + 1))
    else if offset + 1 = searchStart then pure none
    else searchEocd bytes searchStart offset

/-- The fields of the end record. -/
def readEocd (bytes : List UInt8) (offset : ℕ) : Except Failure EndRecord := do
  let disk ← jzRead16 bytes (offset + 4)
  let centralDisk ← jzRead16 bytes (offset + 6)
  let diskEntries ← jzRead16 bytes (offset + 8)
  let entryCount ← jzRead16 bytes (offset + 10)
  let centralSize ← jzRead32 bytes (offset + 12)
  let centralOffset ← jzRead32 bytes (offset + 16)
  pure ⟨offset, disk, centralDisk, diskEntries, entryCount, centralSize, centralOffset⟩

/-- The end record at `offset`, checked. -/
def checkEocd (bytes : List UInt8) (offset : ℕ) : Except Failure EndRecord := do
  let eocd ← readEocd bytes offset
  ensure (eocd.disk = 0 ∧ eocd.centralDisk = 0 ∧ eocd.diskEntries = eocd.entryCount)
    (Failure.zip 3 "Multi-volume ZIP archives are not supported.")
  ensure (eocd.entryCount ≠ UINT16_MAX ∧ eocd.centralSize ≠ UINT32_MAX
      ∧ eocd.centralOffset ≠ UINT32_MAX)
    (Failure.zip 4 "ZIP64 archives are not supported yet.")
  ensure (jzRangeIsValid eocd.centralOffset eocd.centralSize offset)
    (Failure.zip 5 "The ZIP central directory is outside the archive.")
  let centralEnd ← addUnsigned eocd.centralOffset eocd.centralSize
  ensure (centralEnd = offset) (Failure.zip 5 "The ZIP central directory is outside the archive.")
  pure eocd

/-- What `extractArchiveAtPath:toDirectory:error:` does before it creates the
destination. -/
def endRecord (bytes : List UInt8) : Except Failure EndRecord := do
  ensure (22 ≤ bytes.length) (Failure.zip 1 "The ZIP archive is truncated.")
  let searchStart := if bytes.length > 22 + UINT16_MAX then bytes.length - 22 - UINT16_MAX else 0
  let eocdOffset ← searchEocd bytes searchStart (bytes.length - 22)
  match eocdOffset with
  | none => .error (.zip 2 "The ZIP central directory was not found.")
  | some offset => checkEocd bytes offset

/-! ## The central directory -/

/-- A record of the central directory. -/
structure Entry where
  /-- Where the record is. -/
  offset : ℕ
  flags : ℕ
  method : ℕ
  expectedCRC : ℕ
  compressedSize : ℕ
  uncompressedSize : ℕ
  nameLength : ℕ
  extraLength : ℕ
  commentLength : ℕ
  startDisk : ℕ
  localOffset : ℕ
  deriving DecidableEq, Repr

/-- `centralEntrySize`; the sum fits, its parts being of 16 bits. -/
def Entry.size (e : Entry) : ℕ := 46 + e.nameLength + e.extraLength + e.commentLength

/-- The entry has a data descriptor. -/
def Entry.HasDescriptor (e : Entry) : Prop := e.flags &&& 8 ≠ 0

instance (e : Entry) : Decidable e.HasDescriptor := inferInstanceAs (Decidable (_ ≠ _))

/-- The name of the entry is in UTF-8. -/
def Entry.isUtf8 (e : Entry) : Bool := e.flags &&& 2048 ≠ 0

/-- The fields of a record of the central directory. -/
def readCentral (bytes : List UInt8) (cursor : ℕ) : Except Failure Entry := do
  let flags ← jzRead16 bytes (cursor + 8)
  let method ← jzRead16 bytes (cursor + 10)
  let expectedCRC ← jzRead32 bytes (cursor + 16)
  let compressedSize ← jzRead32 bytes (cursor + 20)
  let uncompressedSize ← jzRead32 bytes (cursor + 24)
  let nameLength ← jzRead16 bytes (cursor + 28)
  let extraLength ← jzRead16 bytes (cursor + 30)
  let commentLength ← jzRead16 bytes (cursor + 32)
  let startDisk ← jzRead16 bytes (cursor + 34)
  let localOffset ← jzRead32 bytes (cursor + 42)
  pure ⟨cursor, flags, method, expectedCRC, compressedSize, uncompressedSize, nameLength,
    extraLength, commentLength, startDisk, localOffset⟩

/-- **The next record of the central directory**, checked. -/
def centralAt (bytes : List UInt8) (cursor : ℕ) : Except Failure Entry := do
  ensure (jzRangeIsValid cursor 46 bytes.length)
    (Failure.zip 6 "A ZIP directory entry is invalid.")
  let signature ← jzRead32 bytes cursor
  ensure (signature = 0x02014b50) (Failure.zip 6 "A ZIP directory entry is invalid.")
  let e ← readCentral bytes cursor
  ensure (jzRangeIsValid cursor e.size bytes.length)
    (Failure.zip 7 "A ZIP filename or metadata field is truncated.")
  ensure (e.flags &&& (1 ||| 64) = 0)
    (Failure.zip 8 "Password-protected ZIP archives are not supported.")
  ensure (e.startDisk = 0) (Failure.zip 9 "Multi-volume ZIP entries are not supported.")
  ensure (e.compressedSize ≠ UINT32_MAX ∧ e.uncompressedSize ≠ UINT32_MAX
      ∧ e.localOffset ≠ UINT32_MAX) (Failure.zip 10 "ZIP64 entries are not supported yet.")
  ensure (e.method = 0 ∨ e.method = 8)
    (Failure.zip 11 ("Unsupported ZIP compression method " ++ toString e.method ++ "."))
  pure e

/-! ## Local headers -/

/-- A local header. -/
structure LocalHeader where
  flags : ℕ
  method : ℕ
  crc : ℕ
  compressedSize : ℕ
  uncompressedSize : ℕ
  nameLength : ℕ
  extraLength : ℕ
  deriving DecidableEq, Repr

/-- `localHeaderSize`. -/
def LocalHeader.size (l : LocalHeader) : ℕ := 30 + l.nameLength + l.extraLength

/-- The fields of a local header. -/
def readLocal (bytes : List UInt8) (offset : ℕ) : Except Failure LocalHeader := do
  let flags ← jzRead16 bytes (offset + 6)
  let method ← jzRead16 bytes (offset + 8)
  let crc ← jzRead32 bytes (offset + 14)
  let compressedSize ← jzRead32 bytes (offset + 18)
  let uncompressedSize ← jzRead32 bytes (offset + 22)
  let nameLength ← jzRead16 bytes (offset + 26)
  let extraLength ← jzRead16 bytes (offset + 28)
  pure ⟨flags, method, crc, compressedSize, uncompressedSize, nameLength, extraLength⟩

/-- **The local header of an entry**, checked against its record in the
central directory. The result is where the data of the entry is. -/
def localAt (bytes : List UInt8) (centralOffset : ℕ) (e : Entry) : Except Failure ℕ := do
  ensure (jzRangeIsValid e.localOffset 30 bytes.length)
    (Failure.zip 14 "A ZIP local file header is invalid.")
  let signature ← jzRead32 bytes e.localOffset
  ensure (signature = 0x04034b50) (Failure.zip 14 "A ZIP local file header is invalid.")
  let l ← readLocal bytes e.localOffset
  ensure (jzRangeIsValid e.localOffset l.size centralOffset)
    (Failure.zip 15 "A ZIP local header is truncated or overlaps the central directory.")
  ensure (l.flags &&& (1 ||| 64) = 0 ∧ l.method = e.method
      ∧ (l.flags ^^^ e.flags) &&& (8 ||| 2048) = 0)
    (Failure.zip 16 "A ZIP local header disagrees with the central directory.")
  ensure (e.HasDescriptor ∨ (l.crc = e.expectedCRC ∧ l.compressedSize = e.compressedSize
      ∧ l.uncompressedSize = e.uncompressedSize))
    (Failure.zip 16 "A ZIP local header has inconsistent CRC or sizes.")
  ensure (l.nameLength = e.nameLength)
    (Failure.zip 16 "A ZIP local filename disagrees with the central directory.")
  let localName ← readBytes e.nameLength bytes (e.localOffset + 30)
  let centralName ← readBytes e.nameLength bytes (e.offset + 46)
  ensure (localName = centralName)
    (Failure.zip 16 "A ZIP local filename disagrees with the central directory.")
  let dataOffset ← addUnsigned e.localOffset l.size
  ensure (jzRangeIsValid dataOffset e.compressedSize centralOffset)
    (Failure.zip 17 "Compressed ZIP data is truncated or overlaps the central directory.")
  ensure (¬ (e.method = 0 ∧ e.compressedSize ≠ e.uncompressedSize))
    (Failure.zip 17 "A stored ZIP entry has inconsistent sizes.")
  pure dataOffset

/-! ## Reading -/

section Reading

variable {bytes : List UInt8} {offset w : ℕ}

theorem readBytes_of_le (h : offset + w ≤ bytes.length) :
    readBytes w bytes offset = .ok (slice bytes offset w) := if_pos h

theorem jzRead16_of_le (h : offset + 2 ≤ bytes.length) :
    jzRead16 bytes offset = .ok (number 2 bytes offset) := by
  rw [jzRead16, readBytes_of_le h]
  rfl

theorem jzRead32_of_le (h : offset + 4 ≤ bytes.length) :
    jzRead32 bytes offset = .ok (number 4 bytes offset) := by
  rw [jzRead32, readBytes_of_le h]
  rfl

theorem addUnsigned_of_lt {a b : ℕ} (h : a + b < 2 ^ 64) : addUnsigned a b = .ok (a + b) :=
  if_pos h

theorem jzRangeIsValid_iff {size total : ℕ} :
    jzRangeIsValid offset size total ↔ offset + size ≤ total := by
  unfold jzRangeIsValid
  omega

end Reading

/-! ## What the end record says -/

/-- The end record at `offset`. -/
def EndRecord.of (bytes : List UInt8) (offset : ℕ) : EndRecord where
  offset := offset
  disk := number 2 bytes (offset + 4)
  centralDisk := number 2 bytes (offset + 6)
  diskEntries := number 2 bytes (offset + 8)
  entryCount := number 2 bytes (offset + 10)
  centralSize := number 4 bytes (offset + 12)
  centralOffset := number 4 bytes (offset + 16)

section EndRecord

variable {bytes : List UInt8} {offset : ℕ} {eocd : EndRecord}

/-- The end record is at `offset`, and its comment ends the archive. -/
structure IsEocd (bytes : List UInt8) (offset : ℕ) : Prop where
  signature : number 4 bytes offset = 0x06054b50
  archiveEnd : offset + 22 + number 2 bytes (offset + 20) = bytes.length

theorem isEocd_eq (hfits : offset + 22 ≤ bytes.length) (hlen : bytes.length < 2 ^ 63) :
    ∃ found, isEocd bytes offset = .ok found ∧ (found = true ↔ IsEocd bytes offset) := by
  have hlt : number 2 bytes (offset + 20) < 256 ^ 2 := number_lt
  simp (disch := omega) only [isEocd, jzRead16_of_le, jzRead32_of_le, addUnsigned_of_lt, ok_bind]
  split
  · refine ⟨_, rfl, ?_⟩
    rw [decide_eq_true_iff]
    exact ⟨fun hend => ⟨‹_›, hend⟩, fun heocd => heocd.archiveEnd⟩
  · exact ⟨false, rfl, iff_of_false nofun (fun heocd => ‹¬ _› heocd.signature)⟩

/-- **The search** stays inside the archive, and what it finds is an end
record. -/
theorem searchEocd_eq {searchStart : ℕ} (hfits : offset + 22 ≤ bytes.length)
    (hlen : bytes.length < 2 ^ 63) :
    ∃ r, searchEocd bytes searchStart offset = .ok r
      ∧ ∀ o, r = some o → o + 22 ≤ bytes.length ∧ IsEocd bytes o := by
  induction offset with
  | zero =>
    obtain ⟨found, hfound, hiff⟩ := isEocd_eq hfits hlen
    refine ⟨_, bind_eq_ok.mpr ⟨found, hfound, rfl⟩, ?_⟩
    intro o ho
    split at ho
    · obtain rfl := Option.some.inj ho
      exact ⟨hfits, hiff.mp ‹_›⟩
    · exact nomatch ho
  | succ offset ih =>
    obtain ⟨found, hfound, hiff⟩ := isEocd_eq hfits hlen
    cases found with
    | true =>
      refine ⟨some (offset + 1), bind_eq_ok.mpr ⟨true, hfound, rfl⟩, ?_⟩
      intro o ho
      obtain rfl := Option.some.inj ho
      exact ⟨hfits, hiff.mp rfl⟩
    | false =>
      by_cases hstart : offset + 1 = searchStart
      · refine ⟨none, bind_eq_ok.mpr ⟨false, hfound, ?_⟩, nofun⟩
        rw [if_neg Bool.false_ne_true, if_pos hstart]
        rfl
      · obtain ⟨r, hr, hprop⟩ := ih (by omega)
        refine ⟨r, bind_eq_ok.mpr ⟨false, hfound, ?_⟩, hprop⟩
        rw [if_neg Bool.false_ne_true, if_neg hstart]
        exact hr

/-- An end record with an empty comment is found at once. -/
theorem searchEocd_eq_some {searchStart : ℕ} (heocd : IsEocd bytes offset)
    (hlen : bytes.length < 2 ^ 63) : searchEocd bytes searchStart offset = .ok (some offset) := by
  have hfits : offset + 22 ≤ bytes.length := by
    have hend := heocd.archiveEnd
    omega
  obtain ⟨found, hfound, hiff⟩ := isEocd_eq hfits hlen
  obtain rfl := hiff.mpr heocd
  cases offset with
  | zero => exact bind_eq_ok.mpr ⟨true, hfound, rfl⟩
  | succ offset => exact bind_eq_ok.mpr ⟨true, hfound, rfl⟩

theorem readEocd_eq (hfits : offset + 22 ≤ bytes.length) :
    readEocd bytes offset = .ok (EndRecord.of bytes offset) := by
  simp (disch := omega) only [readEocd, jzRead16_of_le, jzRead32_of_le, ok_bind]
  rfl

/-- **An end record that is accepted.** -/
structure Ends (bytes : List UInt8) (eocd : EndRecord) : Prop where
  fits : eocd.offset + 22 ≤ bytes.length
  isEocd : IsEocd bytes eocd.offset
  eq_of : eocd = EndRecord.of bytes eocd.offset
  single : eocd.disk = 0 ∧ eocd.centralDisk = 0 ∧ eocd.diskEntries = eocd.entryCount
  not_zip64 : eocd.entryCount ≠ UINT16_MAX ∧ eocd.centralSize ≠ UINT32_MAX
    ∧ eocd.centralOffset ≠ UINT32_MAX
  /-- The central directory ends at the end record. -/
  centralEnd : eocd.centralOffset + eocd.centralSize = eocd.offset

theorem Ends.centralOffset_lt (h : Ends bytes eocd) : eocd.centralOffset < 2 ^ 32 := by
  have hlt : number 4 bytes (eocd.offset + 16) < 256 ^ 4 := number_lt
  have heq := congrArg EndRecord.centralOffset h.eq_of
  rw [heq]
  exact hlt

theorem checkEocd_eq_ok (hfits : offset + 22 ≤ bytes.length) :
    checkEocd bytes offset = .ok eocd ↔ eocd = EndRecord.of bytes offset
      ∧ (eocd.disk = 0 ∧ eocd.centralDisk = 0 ∧ eocd.diskEntries = eocd.entryCount)
      ∧ (eocd.entryCount ≠ UINT16_MAX ∧ eocd.centralSize ≠ UINT32_MAX
        ∧ eocd.centralOffset ≠ UINT32_MAX)
      ∧ eocd.centralOffset + eocd.centralSize = offset := by
  have hoff : (EndRecord.of bytes offset).centralOffset < 256 ^ 4 := number_lt
  have hsize : (EndRecord.of bytes offset).centralSize < 256 ^ 4 := number_lt
  simp (disch := omega) only [checkEocd, readEocd_eq hfits, addUnsigned_of_lt, ok_bind, bind_eq_ok,
    ensure_eq_ok, jzRangeIsValid_iff, exists_const]
  constructor
  · rintro ⟨hsingle, h64, -, hend, h⟩
    obtain rfl := Except.ok.inj h
    exact ⟨rfl, hsingle, h64, hend⟩
  · rintro ⟨rfl, hsingle, h64, hend⟩
    exact ⟨hsingle, h64, Nat.le_of_eq hend, hend, rfl⟩

theorem avoids_checkEocd (hfits : offset + 22 ≤ bytes.length) :
    Avoids .undefined (checkEocd bytes offset) := by
  have hoff : (EndRecord.of bytes offset).centralOffset < 256 ^ 4 := number_lt
  have hsize : (EndRecord.of bytes offset).centralSize < 256 ^ 4 := number_lt
  simp (disch := omega) only [checkEocd, readEocd_eq hfits, addUnsigned_of_lt, ok_bind]
  exact avoids_check nofun fun _ => avoids_check nofun fun _ => avoids_check nofun fun _ =>
    avoids_check nofun fun _ => avoids_pure _

/-- **What comes before the destination is created** reads the archive inside
its bounds. -/
theorem avoids_endRecord (hlen : bytes.length < 2 ^ 63) : Avoids .undefined (endRecord bytes) := by
  refine avoids_check nofun fun h22 => ?_
  have hstart : bytes.length - 22 + 22 ≤ bytes.length := by omega
  obtain ⟨r, hr, hprop⟩ := searchEocd_eq hstart hlen
  dsimp only
  rw [hr, ok_bind]
  cases r with
  | none => exact nofun
  | some o => exact avoids_checkEocd (hprop o rfl).1

/-- **The end record of an archive that is accepted.** -/
theorem endRecord_eq_ok (hlen : bytes.length < 2 ^ 63) (h : endRecord bytes = .ok eocd) :
    Ends bytes eocd := by
  obtain ⟨_, h22, h⟩ := bind_eq_ok.mp h
  have h22 := ensure_eq_ok.mp h22
  obtain ⟨r, hr, h⟩ := bind_eq_ok.mp h
  have hstart : bytes.length - 22 + 22 ≤ bytes.length := by omega
  obtain ⟨r', hr', hprop⟩ := searchEocd_eq hstart hlen
  obtain rfl := Except.ok.inj (hr.symm.trans hr')
  cases r with
  | none => exact nomatch h
  | some o =>
    obtain ⟨hfits, heocd⟩ := hprop o rfl
    obtain ⟨rfl, hsingle, h64, hend⟩ := (checkEocd_eq_ok hfits).mp h
    exact ⟨hfits, heocd, rfl, hsingle, h64, hend⟩

/-- An archive that ends with an end record without a comment is accepted. -/
theorem endRecord_of_ends (hlen : bytes.length < 2 ^ 63) (h : Ends bytes eocd)
    (hlast : eocd.offset + 22 = bytes.length) : endRecord bytes = .ok eocd := by
  have hoffset : bytes.length - 22 = eocd.offset := by omega
  refine bind_eq_ok.mpr ⟨(), ensure_eq_ok.mpr (by omega), ?_⟩
  dsimp only
  rw [hoffset]
  refine bind_eq_ok.mpr ⟨_, searchEocd_eq_some h.isEocd hlen, ?_⟩
  exact (checkEocd_eq_ok h.fits).mpr ⟨h.eq_of, h.single, h.not_zip64, h.centralEnd⟩

end EndRecord

/-! ## What the central directory says -/

/-- The record of the central directory at `cursor`. -/
def Entry.of (bytes : List UInt8) (cursor : ℕ) : Entry where
  offset := cursor
  flags := number 2 bytes (cursor + 8)
  method := number 2 bytes (cursor + 10)
  expectedCRC := number 4 bytes (cursor + 16)
  compressedSize := number 4 bytes (cursor + 20)
  uncompressedSize := number 4 bytes (cursor + 24)
  nameLength := number 2 bytes (cursor + 28)
  extraLength := number 2 bytes (cursor + 30)
  commentLength := number 2 bytes (cursor + 32)
  startDisk := number 2 bytes (cursor + 34)
  localOffset := number 4 bytes (cursor + 42)

section Central

variable {bytes : List UInt8} {cursor : ℕ} {e : Entry}

theorem readCentral_eq (hfits : cursor + 46 ≤ bytes.length) :
    readCentral bytes cursor = .ok (Entry.of bytes cursor) := by
  simp (disch := omega) only [readCentral, jzRead16_of_le, jzRead32_of_le, ok_bind]
  rfl

/-- **A record of the central directory that is accepted.** -/
structure Listed (bytes : List UInt8) (cursor : ℕ) (e : Entry) : Prop where
  signature : number 4 bytes cursor = 0x02014b50
  eq_of : e = Entry.of bytes cursor
  fits : cursor + e.size ≤ bytes.length
  unencrypted : e.flags &&& (1 ||| 64) = 0
  startDisk : e.startDisk = 0
  not_zip64 : e.compressedSize ≠ UINT32_MAX ∧ e.uncompressedSize ≠ UINT32_MAX
    ∧ e.localOffset ≠ UINT32_MAX
  method : e.method = 0 ∨ e.method = 8

theorem Listed.header_fits (h : Listed bytes cursor e) : cursor + 46 ≤ bytes.length := by
  have hfits := h.fits
  unfold Entry.size at hfits
  omega

theorem Listed.offset_eq (h : Listed bytes cursor e) : e.offset = cursor :=
  congrArg Entry.offset h.eq_of

theorem Listed.uncompressedSize_lt (h : Listed bytes cursor e) : e.uncompressedSize < 2 ^ 32 := by
  have hn : (Entry.of bytes cursor).uncompressedSize < 256 ^ 4 := number_lt
  rw [h.eq_of]
  exact hn

/-- **When a record is accepted.** -/
theorem centralAt_eq_ok : centralAt bytes cursor = .ok e ↔ Listed bytes cursor e := by
  by_cases hfits : cursor + 46 ≤ bytes.length
  · simp (disch := omega) only [centralAt, jzRead32_of_le, readCentral_eq hfits, ok_bind, bind_eq_ok,
      ensure_eq_ok, jzRangeIsValid_iff, exists_const]
    constructor
    · rintro ⟨-, hsig, hsize, hflags, hdisk, h64, hmethod, h⟩
      obtain rfl := Except.ok.inj h
      exact ⟨hsig, rfl, hsize, hflags, hdisk, h64, hmethod⟩
    · rintro ⟨hsig, rfl, hsize, hflags, hdisk, h64, hmethod⟩
      exact ⟨hfits, hsig, hsize, hflags, hdisk, h64, hmethod, rfl⟩
  · refine iff_of_false (fun h => ?_) (fun h => hfits h.header_fits)
    obtain ⟨_, hrange, -⟩ := bind_eq_ok.mp h
    exact hfits (jzRangeIsValid_iff.mp (ensure_eq_ok.mp hrange))

/-- **The central directory is read inside the bounds of the archive**, from
any offset. -/
theorem avoids_centralAt : Avoids .undefined (centralAt bytes cursor) := by
  refine avoids_check nofun fun hrange => ?_
  have hfits := jzRangeIsValid_iff.mp hrange
  simp (disch := omega) only [jzRead32_of_le, readCentral_eq hfits, ok_bind]
  exact avoids_check nofun fun _ => avoids_check nofun fun _ => avoids_check nofun fun _ =>
    avoids_check nofun fun _ => avoids_check nofun fun _ => avoids_check nofun fun _ =>
      avoids_pure _

end Central

/-! ## What a local header says -/

/-- The local header at `offset`. -/
def LocalHeader.of (bytes : List UInt8) (offset : ℕ) : LocalHeader where
  flags := number 2 bytes (offset + 6)
  method := number 2 bytes (offset + 8)
  crc := number 4 bytes (offset + 14)
  compressedSize := number 4 bytes (offset + 18)
  uncompressedSize := number 4 bytes (offset + 22)
  nameLength := number 2 bytes (offset + 26)
  extraLength := number 2 bytes (offset + 28)

section Local

variable {bytes : List UInt8} {centralOffset : ℕ} {e : Entry}

theorem readLocal_eq {offset : ℕ} (hfits : offset + 30 ≤ bytes.length) :
    readLocal bytes offset = .ok (LocalHeader.of bytes offset) := by
  simp (disch := omega) only [readLocal, jzRead16_of_le, jzRead32_of_le, ok_bind]
  rfl

/-- **A local header `l` that agrees with the record `e`** of the central
directory, before it and followed by the data of the entry. -/
structure Agrees (bytes : List UInt8) (centralOffset : ℕ) (e : Entry) (l : LocalHeader) :
    Prop where
  signature : number 4 bytes e.localOffset = 0x04034b50
  eq_of : l = LocalHeader.of bytes e.localOffset
  /-- The header and the data are before the central directory. -/
  before : e.localOffset + l.size + e.compressedSize ≤ centralOffset
  unencrypted : l.flags &&& (1 ||| 64) = 0
  method : l.method = e.method
  /-- The flags for a data descriptor and for UTF-8. -/
  flags : (l.flags ^^^ e.flags) &&& (8 ||| 2048) = 0
  sizes : e.HasDescriptor ∨ (l.crc = e.expectedCRC ∧ l.compressedSize = e.compressedSize
    ∧ l.uncompressedSize = e.uncompressedSize)
  nameLength : l.nameLength = e.nameLength
  name : slice bytes (e.localOffset + 30) e.nameLength = slice bytes (e.offset + 46) e.nameLength
  stored : e.method = 0 → e.compressedSize = e.uncompressedSize

section Checks

variable (hcentral : centralOffset ≤ bytes.length) (hlt : centralOffset < 2 ^ 32)
  (he : e.offset + 46 + e.nameLength ≤ bytes.length)

include hcentral hlt he

/-- **When a local header is accepted.** -/
theorem localAt_eq_ok {dataOffset : ℕ} :
    localAt bytes centralOffset e = .ok dataOffset
      ↔ ∃ l, Agrees bytes centralOffset e l ∧ dataOffset = e.localOffset + l.size := by
  have hl : (LocalHeader.of bytes e.localOffset).size
    = 30 + (LocalHeader.of bytes e.localOffset).nameLength
      + (LocalHeader.of bytes e.localOffset).extraLength := rfl
  -- The checks that make the reads safe are taken first.
  by_cases hread : e.localOffset + 30 ≤ bytes.length
    ∧ e.localOffset + (LocalHeader.of bytes e.localOffset).size ≤ centralOffset
    ∧ (LocalHeader.of bytes e.localOffset).nameLength = e.nameLength
  · obtain ⟨hfits, hsize, hlength⟩ := hread
    simp (disch := omega) only [localAt, jzRead32_of_le, readLocal_eq hfits, readBytes_of_le,
      addUnsigned_of_lt, ok_bind, bind_eq_ok, ensure_eq_ok, jzRangeIsValid_iff, exists_const]
    constructor
    · rintro ⟨-, hsig, -, ⟨hunencrypted, hmethod, hflags⟩, hsizes, -, hname, hdata, hstored, h⟩
      exact ⟨_, ⟨hsig, rfl, hdata, hunencrypted, hmethod, hflags, hsizes, hlength, hname,
        fun hm => Decidable.of_not_not (fun hne => hstored ⟨hm, hne⟩)⟩, (Except.ok.inj h).symm⟩
    · rintro ⟨l, hl, rfl⟩
      obtain rfl := hl.eq_of
      exact ⟨hfits, hl.signature, hsize, ⟨hl.unencrypted, hl.method, hl.flags⟩, hl.sizes, hlength,
        hl.name, hl.before, fun hbad => hbad.2 (hl.stored hbad.1), rfl⟩
  · refine iff_of_false (fun h => hread ?_) (fun ⟨l, hl, _⟩ => hread ?_)
    · simp only [localAt, bind_eq_ok, ensure_eq_ok, jzRangeIsValid_iff, exists_const] at h
      obtain ⟨hfits, _, -, -, l, hr, hsize, -, -, hlength, -⟩ := h
      obtain rfl := Except.ok.inj ((readLocal_eq hfits).symm.trans hr)
      exact ⟨hfits, hsize, hlength⟩
    · obtain rfl := hl.eq_of
      have hbefore := hl.before
      exact ⟨by omega, by omega, hl.nameLength⟩

/-- **A local header is read inside the bounds of the archive.** -/
theorem avoids_localAt : Avoids .undefined (localAt bytes centralOffset e) := by
  refine avoids_check nofun fun hrange => ?_
  have hfits := jzRangeIsValid_iff.mp hrange
  simp (disch := omega) only [jzRead32_of_le, readLocal_eq hfits, ok_bind]
  refine avoids_check nofun fun _ => avoids_check nofun fun hsize => avoids_check nofun fun _ =>
    avoids_check nofun fun _ => avoids_check nofun fun hlength => ?_
  have hsize := jzRangeIsValid_iff.mp hsize
  rw [LocalHeader.size] at hsize
  simp (disch := omega) only [readBytes_of_le, addUnsigned_of_lt, ok_bind, LocalHeader.size]
  exact avoids_check nofun fun _ => avoids_check nofun fun _ => avoids_check nofun fun _ =>
    avoids_pure _

end Checks

end Local

end Juice.Zip
