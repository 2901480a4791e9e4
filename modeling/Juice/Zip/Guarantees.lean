import Juice.Zip.RoundTrip

/-!
# What an extraction guarantees

Two statements about every archive – any bytes at all – and every behaviour
of the platform, for an extraction into an empty directory.

However it ends, it is `Contained`: nothing is created, changed or opened
but strictly below the destination and by safe components, no path is
opened twice, and no more is written than the processed entries declare,
nor more than the limit. It does not end by a read outside of the archive,
or by arithmetic on offsets that wraps: those are the failure `undefined`
of the model, which does not occur.

When it succeeds, it is `Faithful`: the records fill the central directory,
and each of them has been extracted to what the archive has for it. That no
later entry disturbs an earlier one is part of the invariant of the loop.
-/

namespace Juice.Zip

open FileTree ByteSeq Prog

variable {Z : Type} {sys : Platform Z} {bytes : List UInt8} {destination : List Char} {fuel : ℕ}
  {fs : Files Name (List UInt8)}

/-- **The extraction has done what the archive says.** -/
structure Faithful (sys : Platform Z) (bytes : List UInt8) (destination : List Char)
    (t : Extraction) (eocd : EndRecord) : Prop where
  ends : Ends bytes eocd
  count : t.walked.length = eocd.entryCount
  /-- The records are one after the other, up to the end record. -/
  walked : Walked bytes eocd.centralOffset t.walked eocd.offset
  centralSize : (t.walked.map Entry.size).sum = eocd.centralSize
  named : ∀ e ∈ t.walked, ∃ name, Named sys bytes e name
  dir : ∀ e ∈ t.walked, ∀ name, Named sys bytes e name → isDirectory name = true →
    ∃ p, Leads name p ∧ t.fs (resolved destination ++ p) = some .dir
  file : ∀ e ∈ t.walked, ∀ name, Named sys bytes e name → isDirectory name = false →
    ∃ p l data, Leads name p ∧ Agrees bytes eocd.centralOffset e l
      ∧ t.fs (resolved destination ++ p) = some (.file data)
      ∧ data.length = e.uncompressedSize ∧ (crc32 0 data).toNat = e.expectedCRC
      ∧ Carried sys bytes e (e.localOffset + l.size) data

variable {centralOffset : ℕ} {items : List (List Name × Node (List UInt8))} {t : Extraction}

/-- What a record delivered is in the tree. -/
theorem Built.exists_delivered (h : Built sys bytes destination centralOffset fs items t)
    {e : Entry} (he : e ∈ t.walked) :
    ∃ p node, Delivered sys bytes centralOffset e p node
      ∧ t.fs (resolved destination ++ p) = some node := by
  obtain ⟨⟨p, node⟩, hmem, hd⟩ := exists_of_forall₂ h.entries he
  refine ⟨p, node, hd, ?_⟩
  cases hd with
  | dir hname hleads hdir =>
    exact h.spanned.dir p _ p hmem (List.prefix_refl p) hleads.some_component (fun _ => rfl)
  | file hname hleads hfile hagrees hcarried hlength hcrc => exact h.spanned.file p _ hmem

/-- **An extraction that succeeds is faithful.** -/
theorem exists_faithful_of_ok (hempty : EmptyDirectory fs destination)
    (hlen : bytes.length < 2 ^ 63)
    (hrun : extractArchive fuel sys bytes destination (.start fs) = (.ok (), t)) :
    ∃ eocd, Faithful sys bytes destination t eocd := by
  obtain ⟨eocd, items, hend, hcount, hbuilt, hcursor⟩ :=
    (of_wp (wp_extractArchive hempty hlen) hrun).1 () rfl
  have hends := endRecord_eq_ok hlen hend
  have hwalk := hbuilt.walk
  rw [hcursor] at hwalk
  refine ⟨eocd, hends, hbuilt.entries.length_eq.trans hcount, hwalk, ?_, ?_, ?_, ?_⟩
  · have hsum := hwalk.eq_sum
    have hcentral := hends.centralEnd
    rw [hsum] at hcentral
    exact (Nat.add_left_cancel hcentral).symm
  · intro e he
    obtain ⟨_, _, hd, -⟩ := hbuilt.exists_delivered he
    cases hd with
    | dir hname => exact ⟨_, hname⟩
    | file hname => exact ⟨_, hname⟩
  · intro e he name hname hdir
    obtain ⟨p, node, hd, hnode⟩ := hbuilt.exists_delivered he
    cases hd with
    | dir hname' hleads =>
      obtain rfl := Option.some.inj (hname'.symm.trans hname)
      exact ⟨p, hleads, hnode⟩
    | file hname' _ hfile =>
      obtain rfl := Option.some.inj (hname'.symm.trans hname)
      exact absurd hdir (by rw [hfile]; exact Bool.false_ne_true)
  · intro e he name hname hfile
    obtain ⟨p, node, hd, hnode⟩ := hbuilt.exists_delivered he
    cases hd with
    | dir hname' _ hdir =>
      obtain rfl := Option.some.inj (hname'.symm.trans hname)
      exact absurd hdir (by rw [hfile]; exact Bool.false_ne_true)
    | file hname' hleads _ hagrees hcarried hlength hcrc =>
      obtain rfl := Option.some.inj (hname'.symm.trans hname)
      exact ⟨p, _, _, hleads, hagrees, hnode, hlength, hcrc, hcarried⟩

/-- The archive of a directory, a stored file and a deflated file. -/
theorem exists_faithful_sampleItems : ∃ utf8 t eocd,
    extractArchive 5 (steady utf8) (archive sampleItems) ['/', 't'] (.start oneDirectory)
      = (.ok (), t)
    ∧ Faithful (steady utf8) (archive sampleItems) ['/', 't'] t eocd := by
  obtain ⟨utf8, hutf8⟩ := exists_decodes
  have hwp := (archivable_sampleItems utf8).wp_extractArchive (reliable_steady utf8) hutf8
    emptyDirectory_oneDirectory (by decide) fuel_sampleItems
  obtain ⟨_, t, hrun, -⟩ := exists_of_wp hwp
  have hlen : (archive sampleItems).length < 2 ^ 63 := by decide +kernel
  obtain ⟨eocd, hfaithful⟩ := exists_faithful_of_ok emptyDirectory_oneDirectory hlen hrun
  exact ⟨utf8, t, eocd, hrun, hfaithful⟩

end Juice.Zip
