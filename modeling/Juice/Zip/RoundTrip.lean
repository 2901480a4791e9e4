import Juice.Zip.Writer

/-!
# What is archived is extracted

An archive of items that can be archived is extracted as it was: every
check of the extraction passes, and the tree below the destination is
spanned by the items in the end. The step is that the next item of the
archive is `Expected` in the state after those before it. That its records
are accepted is known from the writer; that nothing is in its way follows
from the tree so far, which has only what the items before it span.

What is assumed of the platform: no call fails, though a `write` may take
less than it is given; UTF-8 is decoded; and `inflate` reproduces the data
of each deflated item. The destination is not the root of the file system,
which the archive itself is in.
-/

namespace Juice.Zip

open List FileTree ByteSeq Prog

variable {Z : Type} {sys : Platform Z} {destination : List Char} {fuel : ℕ}

/-- What the items are extracted to. -/
def Item.placed (item : Item) : List Name × Node (List UInt8) := (item.path, item.node)

/-- **Items that can be archived**, for an extraction to `destination`. -/
structure Archivable (sys : Platform Z) (destination : List Char) (items : List Item) : Prop where
  count : items.length < UINT16_MAX
  fits : ∀ item ∈ items, item.Fits
  /-- The collision keys are distinct. -/
  keys : (items.map (fun item => keyOf sys destination item.path)).Nodup
  /-- No file is on the way to another item. -/
  apart : ∀ item ∈ items, item.content ≠ .directory → ∀ other ∈ items,
    item.path <+: other.path → item.path = other.path
  total : (items.map (fun item => item.data.length)).sum ≤ extractionLimit
  centralOffset : (locals items).length < UINT32_MAX
  centralSize : (centrals 0 items).length < UINT32_MAX
  inflates : ∀ item ∈ items, ∀ data compressed, item.content = .deflated data compressed →
    ∀ k z, sys.starts k = some z → Reproduces sys.zlib z compressed data

namespace Item

variable {item : Item}

theorem nodeSize_node (item : Item) : nodeSize item.node = item.data.length := by
  unfold node data
  cases item.content <;> rfl

theorem node_of_file (h : item.content ≠ .directory) : item.node = .file item.data := by
  unfold node data
  cases hc : item.content with
  | directory => exact absurd hc h
  | stored data => rfl
  | deflated data compressed => rfl

theorem ne_directory {data : List UInt8} (h : item.node = .file data) :
    item.content ≠ .directory := by
  intro hc
  unfold node at h
  rw [hc] at h
  exact nomatch h

theorem stored_of_method (h : item.method = 0) : item.compressed = item.data := by
  unfold method at h
  unfold compressed data
  cases hc : item.content with
  | directory => rfl
  | stored data => rfl
  | deflated data compressed =>
    rw [hc] at h
    exact nomatch h

theorem deflated_of_method (h : item.method ≠ 0) :
    item.content = .deflated item.data item.compressed := by
  unfold method at h
  unfold compressed data
  cases hc : item.content with
  | directory =>
    rw [hc] at h
    exact absurd rfl h
  | stored data =>
    rw [hc] at h
    exact absurd rfl h
  | deflated data compressed => rfl

end Item

section Step

variable {items done rest : List Item} {item : Item} {s : Extraction}
  {fs₀ : Files Name (List UInt8)}

theorem mem_of_split (hsplit : items = done ++ item :: rest) : item ∈ items := by
  rw [hsplit]
  exact mem_append_right _ mem_cons_self

/-- **The data of an item is as it should be.** -/
theorem Archivable.ready (h : Archivable sys destination items)
    (hsplit : items = done ++ item :: rest)
    (hfuel : ∀ item ∈ items, item.compressed.length + item.data.length < fuel) (offset : ℕ) :
    Ready fuel sys (archive items) (item.entry offset (locals done).length)
      ((locals done).length + item.localHeader.size) item.data := by
  have hmem := mem_of_split hsplit
  obtain ⟨back, hback⟩ := archive_eq_local done item rest
  rw [← hsplit] at hback
  have hslice : slice (archive items) ((locals done).length + item.localHeader.size)
      item.compressed.length = item.compressed := by
    rw [hback, item.slice_data]
  constructor
  · rfl
  · rfl
  · intro hm
    have heq := item.stored_of_method hm
    show item.data = slice _ _ item.data.length
    rw [heq] at hslice
    exact hslice.symm
  · intro hm k z hz
    show Reproduces sys.zlib z (slice _ _ item.compressed.length) _
    rw [hslice]
    exact h.inflates item hmem _ _ (item.deflated_of_method hm) k z hz
  · exact fun _ => hfuel item hmem

/-- **The headers of an item agree.** -/
theorem Archivable.agrees (h : Archivable sys destination items)
    (hsplit : items = done ++ item :: rest) :
    Agrees (archive items) (locals items).length
      (item.entry ((locals items).length + (centrals 0 done).length) (locals done).length)
      item.localHeader := by
  have hmem := mem_of_split hsplit
  obtain ⟨back, hback⟩ := archive_eq_local done item rest
  obtain ⟨back', hback'⟩ := archive_eq_central done item rest
  rw [← hsplit] at hback hback'
  have hbefore : (locals done).length + item.localRecord.length ≤ (locals items).length := by
    have hlocals : locals items = locals done ++ (item.localRecord ++ locals rest) := by
      rw [hsplit, locals_append]
      rfl
    rw [hlocals, length_append, length_append]
    omega
  rw [← length_append]
  exact item.agrees (h.fits item hmem) hback hback' hbefore

/-- The keys of the items before are other keys. -/
theorem Archivable.key_ne (h : Archivable sys destination items)
    (hsplit : items = done ++ item :: rest) {other : Item} (hother : other ∈ done) :
    keyOf sys destination other.path ≠ keyOf sys destination item.path := by
  have hkeys := h.keys
  rw [hsplit, map_append, nodup_append] at hkeys
  exact hkeys.2.2 _ (mem_map.mpr ⟨other, hother, rfl⟩) _
    (mem_map.mpr ⟨item, mem_cons_self, rfl⟩)

/-- **Nothing is in the way** of an item. -/
theorem Archivable.not_blocked (h : Archivable sys destination items)
    (hsplit : items = done ++ item :: rest)
    (hspan : Spanned s.fs (resolved destination) (done.map Item.placed)) :
    ¬ Blocked s.fs (resolved destination) item.path := by
  rintro ⟨r, hr, hne, content, hfile⟩
  obtain ⟨other, hother, heq⟩ := mem_map.mp (hspan.mem_of_file hne hfile)
  obtain ⟨rfl, hnode⟩ := Prod.mk.inj heq
  have hmem : other ∈ items := by
    rw [hsplit]
    exact mem_append_left _ hother
  have hpath := h.apart other hmem (Item.ne_directory hnode) item (mem_of_split hsplit) hr
  exact h.key_ne hsplit hother (congrArg _ hpath)

/-- No directory is in the place of a file. -/
theorem Archivable.not_dir (h : Archivable sys destination items)
    (hsplit : items = done ++ item :: rest) (hfile : item.content ≠ .directory)
    (hspan : Spanned s.fs (resolved destination) (done.map Item.placed)) (hp : item.path ≠ []) :
    s.fs (resolved destination ++ item.path) ≠ some .dir := by
  intro hdir
  obtain ⟨placed, hplaced, hpre⟩ := hspan.only item.path hp (by rw [hdir]; exact nofun)
  obtain ⟨other, hother, rfl⟩ := mem_map.mp hplaced
  have hmem : other ∈ items := by
    rw [hsplit]
    exact mem_append_left _ hother
  have hpath := h.apart item (mem_of_split hsplit) hfile other hmem hpre
  exact h.key_ne hsplit hother (congrArg _ hpath.symm)

/-- **The next item is expected.** -/
theorem Archivable.expected (h : Archivable sys destination items) (hutf8 : Decodes sys.utf8)
    (hroot : resolved destination ≠ []) (hsplit : items = done ++ item :: rest)
    (hfuel : ∀ item ∈ items, item.compressed.length + item.data.length < fuel)
    (hbuilt : Built sys (archive items) destination (locals items).length fs₀
      (done.map Item.placed) s)
    (hcursor : s.cursor = (locals items).length + (centrals 0 done).length) :
    Expected fuel sys (archive items) destination (locals items).length s
      (item.entry s.cursor (locals done).length) item.name item.path := by
  have hmem := mem_of_split hsplit
  have hfits := h.fits item hmem
  obtain ⟨back, hback⟩ := archive_eq_central done item rest
  rw [← hsplit] at hback
  have hlen : (locals items ++ centrals 0 done).length = s.cursor := by
    rw [hcursor, length_append]
  have hagrees := h.agrees hsplit
  have hbefore := hagrees.before
  have hlocals := h.centralOffset
  have hdir := item.isDirectory_name hfits
  constructor
  · rw [hback, ← hlen]
    refine item.listed hfits (Nat.lt_of_le_of_lt ?_ hlocals)
    exact (Nat.le_add_right _ _).trans ((Nat.le_add_right _ _).trans hbefore)
  · have hname : slice (archive items) (s.cursor + 46) item.nameBytes.length = item.nameBytes := by
      rw [hback, ← hlen, item.slice_centralName]
    have hflag : (item.entry s.cursor (locals done).length).isUtf8 = true :=
      decide_eq_true hfits.utf8
    show jzEntryName sys (slice _ (s.cursor + 46) item.nameBytes.length) _ = _
    rw [hname, hflag]
    exact item.jzEntryName_eq hutf8 hfits
  · exact item.leads hfits
  · exact hroot
  · rw [hbuilt.keys, mem_reverse, map_map]
    intro hkey
    obtain ⟨other, hother, heq⟩ := mem_map.mp hkey
    exact h.key_ne hsplit hother heq
  · intro hd
    rw [hdir, decide_eq_true_iff] at hd
    have hdata : item.data = [] ∧ item.compressed = [] := by
      unfold Item.data Item.compressed
      rw [hd]
      exact ⟨rfl, rfl⟩
    exact ⟨congrArg List.length hdata.2, congrArg List.length hdata.1,
      h.not_blocked hsplit hbuilt.spanned⟩
  · intro hf
    rw [hdir, decide_eq_false_iff_not] at hf
    refine ⟨?_, ⟨item.localHeader, item.data, ?_, h.ready hsplit hfuel _⟩, ?_,
      h.not_dir hsplit hf hbuilt.spanned hfits.path⟩
    · have htotal := h.total
      have hsum : (done.map Item.placed |>.map (fun placed => nodeSize placed.2)).sum
          = (done.map (fun item => item.data.length)).sum := by
        rw [map_map]
        exact congrArg List.sum (map_congr_left (fun i _ => i.nodeSize_node))
      rw [hsplit, map_append, sum_append, map_cons, sum_cons] at htotal
      rw [hbuilt.total, hsum]
      show _ + item.data.length ≤ _
      omega
    · rw [hcursor]
      exact hagrees
    · rintro ⟨r, hr, hne, hblock⟩
      exact h.not_blocked hsplit hbuilt.spanned
        ⟨r, hr.trans (List.dropLast_prefix _), hne, hblock⟩

/-- What the entry of an item delivers is the item. -/
theorem Expected.placed_eq {bytes : List UInt8} {centralOffset : ℕ} {e e' : Entry}
    {p : List Name} {node : Node (List UInt8)} (hfits : item.Fits)
    (h : Expected fuel sys bytes destination centralOffset s e item.name item.path)
    {l : LocalHeader} (hl : Agrees bytes centralOffset e l)
    (hready : Ready fuel sys bytes e (e.localOffset + l.size) item.data)
    (he' : Listed bytes s.cursor e') (hd : Delivered sys bytes centralOffset e' p node) :
    (p, node) = item.placed := by
  obtain rfl : e' = e := he'.eq_of.trans h.listed.eq_of.symm
  have hdir := item.isDirectory_name hfits
  cases hd with
  | dir hname hleads hd =>
    obtain rfl := Option.some.inj (hname.symm.trans h.named)
    rw [hdir, decide_eq_true_iff] at hd
    have hnode : item.node = .dir := by
      unfold Item.node
      rw [hd]
    rw [hleads.unique h.leads, Item.placed, hnode]
  | file hname hleads hfile hagrees hcarried hlength hcrc =>
    obtain rfl := Option.some.inj (hname.symm.trans h.named)
    rw [hdir, decide_eq_false_iff_not] at hfile
    rw [hagrees.eq_of, ← hl.eq_of] at hcarried
    rw [hleads.unique h.leads, hready.eq_of_carried hcarried, Item.placed,
      item.node_of_file hfile]

end Step

/-- **The loop over the entries of an archive** does not fail. -/
theorem Archivable.wp_extractEntries {items done todo : List Item} {s : Extraction}
    {fs₀ : Files Name (List UInt8)} (h : Archivable sys destination items) (hrel : sys.Reliable)
    (hutf8 : Decodes sys.utf8) (hroot : resolved destination ≠ [])
    (hfuel : ∀ item ∈ items, item.compressed.length + item.data.length < fuel)
    (hlen : (archive items).length < 2 ^ 63) (hsplit : items = done ++ todo)
    (hbuilt : Built sys (archive items) destination (locals items).length fs₀
      (done.map Item.placed) s)
    (hcursor : s.cursor = (locals items).length + (centrals 0 done).length) :
    (extractEntries fuel sys (archive items) destination (locals items).length todo.length).wp
      (fun _ t => Built sys (archive items) destination (locals items).length fs₀
          (items.map Item.placed) t
        ∧ t.cursor = (locals items).length + (centrals 0 items).length)
      (fun _ _ => False) s := by
  induction todo generalizing done s with
  | nil =>
    rw [append_nil] at hsplit
    subst hsplit
    exact wp_pure.mpr ⟨hbuilt, hcursor⟩
  | cons item todo ih =>
    have hexp := h.expected hutf8 hroot hsplit hfuel hbuilt hcursor
    have hmem := mem_of_split hsplit
    have hlocals := h.centralOffset
    have hle : (locals items).length ≤ (archive items).length := by
      rw [archive, length_append]
      exact Nat.le_add_right _ _
    have hlt : (locals items).length < 2 ^ 32 := Nat.lt_trans hlocals (by decide)
    refine wp_bind.mpr (wp_imp (wp_extractEntry hle hlt hlen hbuilt) ?_ ?_)
    · rintro _ t ⟨e, p, node, he, hnext, hd, hbuilt'⟩
      have hagrees := h.agrees hsplit
      rw [← hcursor] at hagrees
      have hplaced := hexp.placed_eq (h.fits item hmem) hagrees (h.ready hsplit hfuel _) he hd
      have hitem : done.map Item.placed ++ [item.placed] = (done ++ [item]).map Item.placed := by
        rw [map_append]
        rfl
      rw [hplaced, hitem] at hbuilt'
      refine ih (hsplit.trans (append_cons _ _ _)) hbuilt' ?_
      rw [hnext, he.eq_of.trans hexp.listed.eq_of.symm, hcursor, centrals_append,
        length_append, Nat.zero_add]
      show _ + _ = _ + (_ + (item.centralRecord _ ++ []).length)
      rw [append_nil, item.length_centralRecord, Nat.add_assoc]
    · rintro err t ⟨-, -, hwhy⟩
      exact hwhy hrel _ _ _ hexp

/-- **The archive of items that can be archived is extracted.** -/
theorem Archivable.wp_extractArchive {items : List Item} (h : Archivable sys destination items)
    (hrel : sys.Reliable) (hutf8 : Decodes sys.utf8) {fs : Files Name (List UInt8)}
    (hempty : EmptyDirectory fs destination) (hroot : resolved destination ≠ [])
    (hfuel : ∀ item ∈ items, item.compressed.length + item.data.length < fuel) :
    (extractArchive fuel sys (archive items) destination).wp
      (fun _ t => Spanned t.fs (resolved destination) (items.map Item.placed))
      (fun _ _ => False) (.start fs) := by
  have hoffset := h.centralOffset
  have hsize := h.centralSize
  have hends := archive_ends h.count hoffset hsize
  have hlength := length_archive items
  unfold UINT32_MAX at hoffset hsize
  have hend : (locals items).length + (centrals 0 items).length < 2 ^ 63 - 22 := by omega
  have hlen : (archive items).length < 2 ^ 63 := by
    rw [hlength]
    exact Nat.add_lt_of_lt_sub hend
  unfold extractArchive
  rw [endRecord_of_ends hlen hends hlength.symm]
  refine wp_bind.mpr (wp_ok.mpr (wp_bind.mpr (wp_imp (wp_createDestination hempty) ?_ ?_)))
  · rintro _ t ⟨hfs, hwithin⟩
    refine wp_bind.mpr (wp_modify.mpr (wp_bind.mpr ?_))
    have hbuilt : Built sys (archive items) destination (locals items).length fs
        (([] : List Item).map Item.placed) { t with cursor := (locals items).length } :=
      built_start hempty hwithin hfs
    refine wp_imp (h.wp_extractEntries hrel hutf8 hroot hfuel hlen rfl hbuilt rfl) ?_
      (fun _ _ hE => hE)
    rintro _ u ⟨hbuilt', hcursor⟩
    refine wp_bind.mpr (wp_gets.mpr (wp_bind.mpr ((wp_addUnsigned ?_).mpr
      (wp_ensure.mpr ⟨fun _ => hbuilt'.spanned, fun hno => hno hcursor⟩))))
    exact Nat.lt_trans hend (by decide)
  · rintro err t ⟨-, -, hno⟩
    exact hno hrel

/-- A decompressor that doubles a byte. -/
def doubling : Inflater Unit where
  inflate _ input := match input with
    | [] => ⟨(), .ok, 0, []⟩
    | b :: _ => ⟨(), .streamEnd, 1, [b, b]⟩
  consumed_le _ input := by
    cases input with
    | nil => exact Nat.le_refl 0
    | cons b rest => exact Nat.succ_le_succ (Nat.zero_le _)
  output_le _ input := by
    cases input with
    | nil => exact Nat.zero_le _
    | cons b rest => exact (by decide : 2 ≤ JZIOChunkSize)

theorem reproduces_doubling (b : UInt8) : Reproduces doubling () [b] [b, b] := by
  refine ⟨fun _ input data => input = [b] ∧ data = [b, b], ⟨rfl, rfl⟩, ?_⟩
  rintro _ _ _ ⟨rfl, rfl⟩ fed rest hsplit hfed
  cases fed with
  | nil => exact absurd (hsplit.trans (hfed rfl)) (cons_ne_nil _ _)
  | cons c fed =>
    obtain ⟨rfl, hnil⟩ := List.cons.inj hsplit
    obtain ⟨rfl, rfl⟩ := append_eq_nil_iff.mp hnil.symm
    exact ⟨prefix_refl _, .inr rfl, fun _ => ⟨rfl, rfl, rfl⟩, nofun, nofun, nofun⟩

/-- A platform where no call fails and a `write` takes one byte. -/
def steady (utf8 : List UInt8 → Option (List Char)) : Platform Unit where
  utf8 := utf8
  dosLatinUS _ := none
  folded := List.map Char.toLower
  strerror _ := ""
  createsDirectory _ := true
  opens _ := true
  writes _ := some 1
  closes _ := true
  unlinks _ := true
  starts _ := some ()
  allocates _ := true
  zlib := doubling

theorem reliable_steady (utf8 : List UInt8 → Option (List Char)) : (steady utf8).Reliable where
  createsDirectory _ := rfl
  opens _ := rfl
  writes _ := ⟨0, rfl⟩
  closes _ := rfl
  starts _ := ⟨(), rfl⟩
  allocates _ := rfl

/-- A file system with one empty directory. -/
def oneDirectory : Files Name (List UInt8) := fun p =>
  if p = [] ∨ p = [['t']] then some .dir else none

theorem emptyDirectory_oneDirectory : EmptyDirectory oneDirectory ['/', 't'] where
  ground b hb := by
    have hcases : b = [] ∨ b = [['t']] := by
      rcases prefix_cons_iff.mp (hb : b <+: [['t']]) with h | ⟨r, h, hr⟩
      · exact .inl h
      · rw [prefix_nil.mp hr] at h
        exact .inr h
    exact if_pos hcases
  empty q hq := by
    refine if_neg ?_
    rintro (h | h)
    · exact hq (append_eq_nil_iff.mp h).2
    · exact hq (append_right_eq_self.mp (h : [['t']] ++ q = [['t']]))

/-- An item without anything that is optional. -/
def plainItem (path : List Name) (content : Content) : Item :=
  let item : Item := ⟨path, content, 2048, 0, 0, 0, 0, 0, 0, [], [], [], 0, 0, 0, []⟩
  { item with
    localCRC := item.crc
    localCompressedSize := item.compressed.length
    localUncompressedSize := item.data.length }

/-- A directory, a stored file in it, and a deflated file. -/
def sampleItems : List Item :=
  [plainItem [['d']] .directory, plainItem [['d'], ['a']] (.stored [1, 2]),
    plainItem [['b']] (.deflated [5, 5] [5])]

theorem archivable_sampleItems (utf8 : List UInt8 → Option (List Char)) :
    Archivable (steady utf8) ['/', 't'] sampleItems where
  count := by decide
  fits := by decide +kernel
  keys := (by decide +kernel : ([['d'], ['d', '/', 'a'], ['b']].map (['/', 't', '/'] ++ ·)).Nodup)
  apart := by decide +kernel
  total := by decide +kernel
  centralOffset := by decide +kernel
  centralSize := by decide +kernel
  inflates := by
    refine forall_mem_cons.mpr ⟨nofun, forall_mem_cons.mpr ⟨nofun,
      forall_mem_singleton.mpr ?_⟩⟩
    rintro _ _ h _ _ -
    obtain ⟨rfl, rfl⟩ := Content.deflated.inj h
    exact reproduces_doubling 5

theorem fuel_sampleItems : ∀ item ∈ sampleItems, item.compressed.length + item.data.length < 5 := by
  decide +kernel

end Juice.Zip
