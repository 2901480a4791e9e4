import Juice.Launch.Output
import Juice.Zip.Entries

/-!
# Archives as they are written

The other side of an extraction: `archive` is the archive of a list of
items, on one volume, without the extensions of ZIP64, and with an empty
comment. An item is a directory, or a file that is stored or deflated. What
an extraction does not look at – versions, times, attributes, extra fields
and comments of entries, and a data descriptor – is arbitrary; so are the
CRC and the sizes in the local header of an item with a data descriptor.

The records are laid out field by field, so what an extraction reads is
found by the position of a field: `Item.listed` and `Item.agrees` say that
the records of an item are accepted wherever they are in an archive.
-/

namespace Juice.Zip

open List FileTree ByteSeq Prog

/-- What an item is, with the deflated data of a file. -/
inductive Content where
  | directory
  | stored (data : List UInt8)
  | deflated (data compressed : List UInt8)
  deriving DecidableEq, Repr

/-- **An item of an archive.** -/
structure Item where
  path : List Name
  content : Content
  flags : ℕ
  versionMadeBy : ℕ
  versionNeeded : ℕ
  time : ℕ
  date : ℕ
  internalAttributes : ℕ
  externalAttributes : ℕ
  localExtra : List UInt8
  centralExtra : List UInt8
  comment : List UInt8
  /-- The CRC and the sizes in the local header. -/
  localCRC : ℕ
  localCompressedSize : ℕ
  localUncompressedSize : ℕ
  descriptor : List UInt8

namespace Item

def data (item : Item) : List UInt8 := match item.content with
  | .directory => []
  | .stored data => data
  | .deflated data _ => data

def compressed (item : Item) : List UInt8 := match item.content with
  | .directory => []
  | .stored data => data
  | .deflated _ compressed => compressed

def method (item : Item) : ℕ := match item.content with
  | .deflated _ _ => 8
  | _ => 0

/-- What is extracted from the item. -/
def node (item : Item) : Node (List UInt8) := match item.content with
  | .directory => .dir
  | .stored data => .file data
  | .deflated data _ => .file data

/-- The name of a directory ends with a slash. -/
def name (item : Item) : List Char :=
  joined item.path ++ if item.content = .directory then ['/'] else []

/-- The name in UTF-8. -/
def nameBytes (item : Item) : List UInt8 := encode item.name

def crc (item : Item) : ℕ := (crc32 0 item.data).toNat

/-- The fields of the local header. -/
def localFields (item : Item) : List (ℕ × ℕ) :=
  [(4, 0x04034b50), (2, item.versionNeeded), (2, item.flags), (2, item.method), (2, item.time),
    (2, item.date), (4, item.localCRC), (4, item.localCompressedSize),
    (4, item.localUncompressedSize), (2, item.nameBytes.length), (2, item.localExtra.length)]

/-- The local header, and the data after it. -/
def localRecord (item : Item) : List UInt8 :=
  layout item.localFields
    ++ (item.nameBytes ++ (item.localExtra ++ (item.compressed ++ item.descriptor)))

/-- The fields of the record in the central directory. -/
def centralFields (item : Item) (localOffset : ℕ) : List (ℕ × ℕ) :=
  [(4, 0x02014b50), (2, item.versionMadeBy), (2, item.versionNeeded), (2, item.flags),
    (2, item.method), (2, item.time), (2, item.date), (4, item.crc),
    (4, item.compressed.length), (4, item.data.length), (2, item.nameBytes.length),
    (2, item.centralExtra.length), (2, item.comment.length), (2, 0),
    (2, item.internalAttributes), (4, item.externalAttributes), (4, localOffset)]

/-- The record in the central directory. -/
def centralRecord (item : Item) (localOffset : ℕ) : List UInt8 :=
  layout (item.centralFields localOffset)
    ++ (item.nameBytes ++ (item.centralExtra ++ item.comment))

end Item

/-- The local headers and the data. -/
def locals (items : List Item) : List UInt8 := items.flatMap Item.localRecord

/-- The central directory of items whose local headers begin at
`localOffset`. -/
def centrals : ℕ → List Item → List UInt8
  | _, [] => []
  | localOffset, item :: rest =>
    item.centralRecord localOffset ++ centrals (localOffset + item.localRecord.length) rest

/-- The fields of the end record. -/
def eocdFields (count centralSize centralOffset : ℕ) : List (ℕ × ℕ) :=
  [(4, 0x06054b50), (2, 0), (2, 0), (2, count), (2, count), (4, centralSize),
    (4, centralOffset), (2, 0)]

/-- **The archive of a list of items.** -/
def archive (items : List Item) : List UInt8 :=
  locals items ++ (centrals 0 items
    ++ layout (eocdFields items.length (centrals 0 items).length (locals items).length))

/-! ## Items that can be archived -/

/-- **The fields of the item can be written**, its name is safe, and its flags
are those of a plain entry with a name in UTF-8. -/
@[mk_iff]
structure Item.Fits (item : Item) : Prop where
  path : item.path ≠ []
  safe : ∀ c ∈ item.path, IsSafe c ∧ '\\' ∉ c
  flags : item.flags < 2 ^ 16
  unencrypted : item.flags &&& (1 ||| 64) = 0
  /-- The headers match, unless there is a data descriptor. -/
  sizes : item.flags &&& 8 ≠ 0 ∨ (item.localCRC = item.crc
    ∧ item.localCompressedSize = item.compressed.length
    ∧ item.localUncompressedSize = item.data.length)
  localCRC : item.localCRC < 2 ^ 32
  localCompressedSize : item.localCompressedSize < 2 ^ 32
  localUncompressedSize : item.localUncompressedSize < 2 ^ 32
  utf8 : item.flags &&& 2048 ≠ 0
  name : item.nameBytes.length < 2 ^ 16
  localExtra : item.localExtra.length < 2 ^ 16
  centralExtra : item.centralExtra.length < 2 ^ 16
  comment : item.comment.length < 2 ^ 16
  data : item.data.length < UINT32_MAX
  compressed : item.compressed.length < UINT32_MAX

instance (item : Item) : Decidable item.Fits := decidable_of_iff _ item.fits_iff.symm

/-! ## Names -/

section Names

variable {item : Item}

theorem Item.Fits.isSafe (h : item.Fits) : ∀ c ∈ item.path, IsSafe c :=
  fun c hc => (h.safe c hc).1

theorem mem_joined {cs : List Name} {x : Char} (h : x ∈ joined cs) : x = '/' ∨ ∃ c ∈ cs, x ∈ c := by
  induction cs with
  | nil => exact absurd h not_mem_nil
  | cons c cs ih =>
    by_cases hnil : cs = []
    · subst hnil
      rw [joined, intercalate_singleton] at h
      exact .inr ⟨c, mem_cons_self, h⟩
    · rw [joined, intercalate_cons_of_ne_nil hnil] at h
      rcases mem_append.mp h with h | h
      · rcases mem_append.mp h with h | h
        · exact .inr ⟨c, mem_cons_self, h⟩
        · exact .inl (mem_singleton.mp h)
      · rcases ih h with h | ⟨d, hd, hx⟩
        · exact .inl h
        · exact .inr ⟨d, mem_cons_of_mem _ hd, hx⟩

/-- A character of the name is a slash or in a component. -/
theorem Item.mem_name {x : Char} (h : x ∈ item.name) : x = '/' ∨ ∃ c ∈ item.path, x ∈ c := by
  rcases mem_append.mp h with h | h
  · exact mem_joined h
  · split at h
    · exact .inl (mem_singleton.mp h)
    · exact absurd h not_mem_nil

theorem Item.splitOn_name (h : item.Fits) :
    item.name.splitOn '/' = item.path ++ if item.content = .directory then [[]] else [] := by
  have hjoined : (joined item.path).splitOn '/' = item.path :=
    splitOn_joined (fun c hc => (h.isSafe c hc).slash) h.path
  unfold name
  split
  · rw [splitOn_append_cons_self, hjoined]
    rfl
  · rw [append_nil, append_nil, hjoined]

/-- **The name of an item leads to its path.** -/
theorem Item.leads (h : item.Fits) : Leads item.name item.path := by
  have hjoined : joined item.path ≠ [] := by
    intro hnil
    have hsplit := splitOn_joined (fun c hc => (h.isSafe c hc).slash) h.path
    rw [hnil] at hsplit
    exact (h.isSafe [] (hsplit ▸ mem_singleton_self _)).ne_nil rfl
  constructor
  · exact append_ne_nil_of_left_ne_nil hjoined _
  · have habs := isAbsolute_joined (fun c hc => ⟨(h.isSafe c hc).ne_nil, (h.isSafe c hc).slash⟩ :
      ∀ c ∈ item.path, c ≠ [] ∧ '/' ∉ c)
    unfold name isAbsolute at *
    rw [List.head?_append_of_ne_nil _ hjoined]
    exact habs
  · intro hnul
    rcases item.mem_name hnul with heq | ⟨c, hc, hx⟩
    · exact absurd heq (by decide)
    · exact (h.isSafe c hc).nul hx
  · have hall : item.path.filter (· ≠ []) = item.path :=
      filter_eq_self.mpr (fun c hc => by simpa using (h.isSafe c hc).ne_nil)
    rw [item.splitOn_name h, safeComponents_eq, filter_append, hall]
    · split <;> exact congrArg some (append_nil _)
    · intro c hc
      rcases mem_append.mp hc with hc | hc
      · exact .inr (h.isSafe c hc)
      · split at hc
        · exact .inl (mem_singleton.mp hc)
        · exact absurd hc not_mem_nil
  · exact h.path

theorem Item.isDirectory_name (h : item.Fits) :
    isDirectory item.name = decide (item.content = .directory) := by
  by_cases hdir : item.content = .directory
  · rw [decide_eq_true hdir, name, if_pos hdir, isDirectory, List.getLast?_concat]
    rfl
  · rw [decide_eq_false hdir]
    refine decide_eq_false (fun hlast => ?_)
    -- a slash at the end would leave an empty component
    have hsplit := item.splitOn_name h
    rw [if_neg hdir, append_nil] at hsplit
    obtain ⟨front, hfront⟩ := List.getLast?_eq_some_iff.mp hlast
    rw [hfront, splitOn_append_cons_self, splitOn_nil] at hsplit
    exact (h.isSafe [] (hsplit ▸ mem_append_right _ (mem_singleton_self _))).ne_nil rfl

/-- **The name is read back.** -/
theorem Item.jzEntryName_eq {Z : Type} {sys : Platform Z} (hutf8 : Decodes sys.utf8)
    (h : item.Fits) : jzEntryName sys item.nameBytes true = some item.name := by
  obtain ⟨text, htext⟩ := Option.isSome_iff_exists.mp (hutf8.complete item.name)
  have heq : text = item.name := eq_of_encode_eq (hutf8.sound _ _ htext)
  have hmap : item.name.map (fun c => if c = '\\' then '/' else c) = item.name := by
    refine (map_congr_left (fun c hc => ?_)).trans (map_id _)
    refine if_neg (fun hback => ?_)
    rcases item.mem_name hc with hslash | ⟨d, hd, hx⟩
    · rw [hback] at hslash
      exact absurd hslash (by decide)
    · exact (h.safe d hd).2 (hback ▸ hx)
  unfold jzEntryName
  rw [if_pos rfl, nameBytes, htext, heq]
  show some (item.name.map _) = _
  rw [hmap]

end Names

/-! ## Records -/

section Records

variable {item : Item} {front back : List UInt8}

theorem Item.centralWidths (item : Item) (localOffset : ℕ) :
    (item.centralFields localOffset).map Prod.fst
      = [4, 2, 2, 2, 2, 2, 2, 4, 4, 4, 2, 2, 2, 2, 2, 4, 4] := rfl

theorem Item.localWidths (item : Item) :
    item.localFields.map Prod.fst = [4, 2, 2, 2, 2, 2, 4, 4, 4, 2, 2] := rfl

/-- The record of an item in the central directory, as it is read. -/
def Item.entry (item : Item) (offset localOffset : ℕ) : Entry where
  offset := offset
  flags := item.flags
  method := item.method
  expectedCRC := item.crc
  compressedSize := item.compressed.length
  uncompressedSize := item.data.length
  nameLength := item.nameBytes.length
  extraLength := item.centralExtra.length
  commentLength := item.comment.length
  startDisk := 0
  localOffset := localOffset

/-- The local header of an item, as it is read. -/
def Item.localHeader (item : Item) : LocalHeader where
  flags := item.flags
  method := item.method
  crc := item.localCRC
  compressedSize := item.localCompressedSize
  uncompressedSize := item.localUncompressedSize
  nameLength := item.nameBytes.length
  extraLength := item.localExtra.length

theorem Item.method_cases (item : Item) : item.method = 0 ∨ item.method = 8 := by
  unfold method
  split
  · exact .inr rfl
  · exact .inl rfl

theorem Item.crc_lt (item : Item) : item.crc < 256 ^ 4 := (crc32 0 item.data).toNat_lt

theorem Item.length_centralFields (item : Item) (localOffset : ℕ) :
    (layout (item.centralFields localOffset)).length = 46 := by
  rw [length_layout, centralWidths]
  decide

theorem Item.length_localFields (item : Item) : (layout item.localFields).length = 30 := by
  rw [length_layout, localWidths]
  decide

theorem Item.size_entry (item : Item) (offset localOffset : ℕ) :
    (item.entry offset localOffset).size
      = 46 + item.nameBytes.length + item.centralExtra.length + item.comment.length := rfl

theorem Item.size_localHeader (item : Item) :
    item.localHeader.size = 30 + item.nameBytes.length + item.localExtra.length := rfl

theorem Item.length_centralRecord (item : Item) (offset localOffset : ℕ) :
    (item.centralRecord localOffset).length = (item.entry offset localOffset).size := by
  rw [centralRecord, length_append, length_centralFields, length_append,
    length_append, size_entry]
  omega

theorem Item.length_localRecord (item : Item) :
    item.localRecord.length
      = item.localHeader.size + item.compressed.length + item.descriptor.length := by
  rw [localRecord, length_append, length_localFields, length_append, length_append,
    length_append, size_localHeader]
  omega

/-- **The record of an item in the central directory is accepted.** -/
theorem Item.listed (h : item.Fits) {localOffset : ℕ} (hoff : localOffset < UINT32_MAX) :
    Listed (front ++ (item.centralRecord localOffset ++ back)) front.length
      (item.entry front.length localOffset) := by
  have hdata := h.data
  have hcompressed := h.compressed
  have hmethod : item.method < 256 ^ 2 := by
    rcases item.method_cases with hm | hm <;> rw [hm] <;> decide
  have hw := item.centralWidths localOffset
  unfold UINT32_MAX at hoff hdata hcompressed
  constructor
  · rw [centralRecord, append_assoc]
    exact number_layout (i := 0) (k := 0) hw rfl (by decide) rfl
  · rw [centralRecord, append_assoc]
    unfold entry Entry.of
    rw [Entry.mk.injEq]
    exact ⟨rfl, (number_layout (i := 3) hw rfl h.flags (by decide)).symm,
      (number_layout (i := 4) hw rfl hmethod (by decide)).symm,
      (number_layout (i := 7) hw rfl item.crc_lt (by decide)).symm,
      (number_layout (i := 8) hw rfl (Nat.lt_trans hcompressed (by decide)) (by decide)).symm,
      (number_layout (i := 9) hw rfl (Nat.lt_trans hdata (by decide)) (by decide)).symm,
      (number_layout (i := 10) hw rfl h.name (by decide)).symm,
      (number_layout (i := 11) hw rfl h.centralExtra (by decide)).symm,
      (number_layout (i := 12) hw rfl h.comment (by decide)).symm,
      (number_layout (i := 13) hw rfl (by decide) (by decide)).symm,
      (number_layout (i := 16) hw rfl (Nat.lt_trans hoff (by decide)) (by decide)).symm⟩
  · rw [length_append, length_append, item.length_centralRecord front.length]
    omega
  · exact h.unencrypted
  · rfl
  · exact ⟨Nat.ne_of_lt hcompressed, Nat.ne_of_lt hdata, Nat.ne_of_lt hoff⟩
  · exact item.method_cases

theorem Item.slice_centralName (item : Item) {localOffset : ℕ} :
    slice (front ++ (item.centralRecord localOffset ++ back)) (front.length + 46)
      item.nameBytes.length = item.nameBytes := by
  rw [centralRecord, append_assoc, append_assoc]
  exact slice_behind (item.length_centralFields localOffset)

theorem Item.slice_localName (item : Item) :
    slice (front ++ (item.localRecord ++ back)) (front.length + 30) item.nameBytes.length
      = item.nameBytes := by
  rw [localRecord, append_assoc, append_assoc]
  exact slice_behind item.length_localFields

/-- The data of an item is behind its local header. -/
theorem Item.slice_data (item : Item) :
    slice (front ++ (item.localRecord ++ back)) (front.length + item.localHeader.size)
      item.compressed.length = item.compressed := by
  have hmid := slice_middle (front ++ (layout item.localFields
    ++ (item.nameBytes ++ item.localExtra))) item.compressed (item.descriptor ++ back)
  have hlen : (front ++ (layout item.localFields ++ (item.nameBytes ++ item.localExtra))).length
      = front.length + item.localHeader.size := by
    rw [length_append, length_append, length_localFields, length_append,
      size_localHeader]
    omega
  rw [hlen] at hmid
  rw [localRecord]
  simp only [append_assoc] at hmid ⊢
  exact hmid

/-- **The local header of an item agrees** with its record in the central
directory. -/
theorem Item.agrees (h : item.Fits) {bytes front' back' : List UInt8} {centralOffset : ℕ}
    (hlocal : bytes = front ++ (item.localRecord ++ back))
    (hcentral : bytes = front' ++ (item.centralRecord front.length ++ back'))
    (hbefore : front.length + item.localRecord.length ≤ centralOffset) :
    Agrees bytes centralOffset (item.entry front'.length front.length) item.localHeader := by
  have hmethod : item.method < 256 ^ 2 := by
    rcases item.method_cases with hm | hm <;> rw [hm] <;> decide
  have hw := item.localWidths
  constructor
  · rw [hlocal, localRecord, append_assoc]
    exact number_layout (i := 0) (k := 0) hw rfl (by decide) rfl
  · rw [hlocal, localRecord, append_assoc]
    unfold entry localHeader LocalHeader.of
    rw [LocalHeader.mk.injEq]
    exact ⟨(number_layout (i := 2) hw rfl h.flags (by decide)).symm,
      (number_layout (i := 3) hw rfl hmethod (by decide)).symm,
      (number_layout (i := 6) hw rfl h.localCRC (by decide)).symm,
      (number_layout (i := 7) hw rfl h.localCompressedSize (by decide)).symm,
      (number_layout (i := 8) hw rfl h.localUncompressedSize (by decide)).symm,
      (number_layout (i := 9) hw rfl h.name (by decide)).symm,
      (number_layout (i := 10) hw rfl h.localExtra (by decide)).symm⟩
  · rw [length_localRecord] at hbefore
    show front.length + item.localHeader.size + item.compressed.length ≤ _
    omega
  · exact h.unencrypted
  · rfl
  · show (item.flags ^^^ item.flags) &&& _ = 0
    rw [Nat.xor_self, Nat.zero_and]
  · exact h.sizes
  · rfl
  · show slice bytes (front.length + 30) item.nameBytes.length
      = slice bytes (front'.length + 46) item.nameBytes.length
    rw [hlocal, item.slice_localName, ← hlocal, hcentral, item.slice_centralName]
  · intro hm
    show item.compressed.length = item.data.length
    have hm : item.method = 0 := hm
    unfold method at hm
    unfold compressed data
    cases hc : item.content with
    | deflated data compressed =>
      rw [hc] at hm
      exact nomatch hm
    | _ => rfl

end Records

/-! ## Archives -/

section Archives

theorem locals_append (a b : List Item) : locals (a ++ b) = locals a ++ locals b :=
  flatMap_append

theorem centrals_append (localOffset : ℕ) (a b : List Item) :
    centrals localOffset (a ++ b)
      = centrals localOffset a ++ centrals (localOffset + (locals a).length) b := by
  induction a generalizing localOffset with
  | nil => rfl
  | cons item a ih =>
    have hlen : (locals (item :: a)).length = item.localRecord.length + (locals a).length :=
      length_append
    rw [cons_append, centrals, centrals, ih, append_assoc, hlen, Nat.add_assoc]

variable (done : List Item) (item : Item) (rest : List Item)

/-- Where the local header of an item is. -/
theorem archive_eq_local : ∃ back, archive (done ++ item :: rest)
    = locals done ++ (item.localRecord ++ back) := by
  rw [archive, locals_append, append_assoc]
  exact ⟨_, congrArg _ (append_assoc item.localRecord (locals rest) _)⟩

/-- Where the record of an item in the central directory is. -/
theorem archive_eq_central : ∃ back, archive (done ++ item :: rest)
    = (locals (done ++ item :: rest) ++ centrals 0 done)
      ++ (item.centralRecord (locals done).length ++ back) := by
  rw [archive, centrals_append, Nat.zero_add, append_assoc, ← append_assoc (locals _)]
  exact ⟨_, congrArg _ (append_assoc (item.centralRecord (locals done).length)
    (centrals ((locals done).length + item.localRecord.length) rest) _)⟩

/-- The end record of an archive. -/
def eocdOf (items : List Item) : EndRecord where
  offset := (locals items).length + (centrals 0 items).length
  disk := 0
  centralDisk := 0
  diskEntries := items.length
  entryCount := items.length
  centralSize := (centrals 0 items).length
  centralOffset := (locals items).length

theorem length_archive (items : List Item) :
    (archive items).length = (eocdOf items).offset + 22 := by
  have hfields : (layout (eocdFields items.length (centrals 0 items).length
      (locals items).length)).length = 22 := length_layout _
  rw [archive, length_append, length_append, hfields]
  exact (Nat.add_assoc _ _ _).symm

/-- **The end record of an archive is accepted.** -/
theorem archive_ends {items : List Item} (hcount : items.length < UINT16_MAX)
    (hlocals : (locals items).length < UINT32_MAX)
    (hcentrals : (centrals 0 items).length < UINT32_MAX) : Ends (archive items) (eocdOf items) := by
  have hbytes : archive items = (locals items ++ centrals 0 items)
      ++ (layout (eocdFields items.length (centrals 0 items).length (locals items).length)
        ++ []) := by
    rw [append_nil, append_assoc]
    rfl
  have hfront : (locals items ++ centrals 0 items).length = (eocdOf items).offset :=
    length_append
  have hw : (eocdFields items.length (centrals 0 items).length (locals items).length).map Prod.fst
      = [4, 2, 2, 2, 2, 4, 4, 2] := rfl
  unfold UINT16_MAX at hcount
  unfold UINT32_MAX at hlocals hcentrals
  have hcount' : items.length < 256 ^ 2 := Nat.lt_trans hcount (by decide)
  constructor
  · exact Nat.le_of_eq (length_archive items).symm
  · constructor
    · rw [hbytes, ← hfront]
      exact number_layout (i := 0) (k := 0) hw rfl (by decide) rfl
    · have hcomment : number 2 (archive items) ((eocdOf items).offset + 20) = 0 := by
        rw [hbytes, ← hfront]
        exact number_layout (i := 7) hw rfl (by decide) (by decide)
      rw [hcomment, length_archive]
  · rw [hbytes]
    unfold EndRecord.of
    rw [← hfront]
    unfold eocdOf
    rw [EndRecord.mk.injEq]
    exact ⟨hfront.symm, (number_layout (i := 1) hw rfl (by decide) (by decide)).symm,
      (number_layout (i := 2) hw rfl (by decide) (by decide)).symm,
      (number_layout (i := 3) hw rfl hcount' (by decide)).symm,
      (number_layout (i := 4) hw rfl hcount' (by decide)).symm,
      (number_layout (i := 5) hw rfl (Nat.lt_trans hcentrals (by decide)) (by decide)).symm,
      (number_layout (i := 6) hw rfl (Nat.lt_trans hlocals (by decide)) (by decide)).symm⟩
  · exact ⟨rfl, rfl, rfl⟩
  · exact ⟨Nat.ne_of_lt hcount, Nat.ne_of_lt hcentrals, Nat.ne_of_lt hlocals⟩
  · rfl

end Archives

end Juice.Zip
