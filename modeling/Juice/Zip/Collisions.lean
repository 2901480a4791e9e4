import Juice.Zip.RoundTrip

/-!
# Names that collide

Windows does not tell names apart by case. `JZCollisionKey` folds the path
of an entry, by canonical precomposition and lowercasing, and an entry whose
key has been seen is refused. That keeps apart the entries, but not the
directories above them: an archive of `A/x` and `a/y` is extracted to two
directories that Windows cannot tell apart, since neither of them is an
entry.

The tree is unambiguous exactly when the directories of the archive are
spelled in one way. Folding is taken to work on each component of a path by
itself, which it does for a separator that neither composes with what
follows it nor has a case.
-/

namespace Juice.Zip

open List FileTree ByteSeq Prog

variable {Z : Type} {sys : Platform Z} {bytes : List UInt8} {destination : List Char} {fuel : ℕ}
  {fs : Files Name (List UInt8)} {p : List Name}

/-! ## The paths of an archive -/

/-- The records of the central directory, from `cursor` on. -/
def records (bytes : List UInt8) : ℕ → ℕ → List Entry
  | _, 0 => []
  | cursor, n + 1 =>
    Entry.of bytes cursor :: records bytes (cursor + (Entry.of bytes cursor).size) n

/-- The path of a record. -/
def recordPath (sys : Platform Z) (bytes : List UInt8) (e : Entry) : Option (List Name) :=
  (jzEntryName sys (slice bytes (e.offset + 46) e.nameLength) e.isUtf8).bind
    (fun name => safeComponents (name.splitOn '/'))

/-- **The paths of the entries of an archive.** -/
def archivePaths (sys : Platform Z) (bytes : List UInt8) : List (List Name) :=
  match endRecord bytes with
  | .error _ => []
  | .ok eocd => (records bytes eocd.centralOffset eocd.entryCount).filterMap (recordPath sys bytes)

theorem Walked.eq_records {cursor next : ℕ} {es : List Entry} (h : Walked bytes cursor es next) :
    es = records bytes cursor es.length := by
  induction es generalizing cursor with
  | nil => rfl
  | cons e es ih =>
    show e :: es = Entry.of bytes cursor
      :: records bytes (cursor + (Entry.of bytes cursor).size) es.length
    rw [← h.1.eq_of, ← ih h.2]

theorem Delivered.recordPath_eq {centralOffset : ℕ} {e : Entry} {node : Node (List UInt8)}
    (h : Delivered sys bytes centralOffset e p node) : recordPath sys bytes e = some p := by
  unfold recordPath
  cases h with
  | dir hname hleads =>
    rw [(hname : jzEntryName _ _ _ = _)]
    exact hleads.components
  | file hname hleads =>
    rw [(hname : jzEntryName _ _ _ = _)]
    exact hleads.components

theorem filterMap_of_forall₂ {α β γ : Type} {f : α → Option γ} {g : β → γ} {as : List α}
    {bs : List β} (h : List.Forall₂ (fun a b => f a = some (g b)) as bs) :
    as.filterMap f = bs.map g := by
  induction h with
  | nil => rfl
  | cons hab _ ih => rw [filterMap_cons_some hab, ih, map_cons]

variable {centralOffset : ℕ} {items : List (List Name × Node (List UInt8))} {t : Extraction}

/-- **The paths of an archive are those of the items** it is extracted to. -/
theorem Built.archivePaths_eq {eocd : EndRecord} (hend : endRecord bytes = .ok eocd)
    (h : Built sys bytes destination eocd.centralOffset fs items t)
    (hcount : items.length = eocd.entryCount) : archivePaths sys bytes = items.map Prod.fst := by
  have hrecords := h.walk.eq_records
  rw [h.entries.length_eq, hcount] at hrecords
  unfold archivePaths
  rw [hend]
  show (records _ _ _).filterMap _ = _
  rw [← hrecords]
  exact filterMap_of_forall₂ (h.entries.imp (fun _ _ hd => hd.recordPath_eq))

/-! ## Keys -/

/-- **Folding works on each component by itself.** -/
def Componentwise (folded : List Char → List Char) : Prop :=
  ∀ xs ys : List Name, xs.map folded = ys.map folded → folded (joined xs) = folded (joined ys)

/-- Where a safe path is located, as components. -/
theorem located_eq_joined {root : List Char} (hp : p ≠ []) :
    located root p = joined ((if isAbsolute root then [[]] else []) ++ (resolved root ++ p)) := by
  unfold located
  split
  · have hne : resolved root ++ p ≠ [] := append_ne_nil_of_right_ne_nil _ hp
    show _ = joined ([] :: (resolved root ++ p))
    rw [joined, joined, intercalate_cons_of_ne_nil hne]
    rfl
  · rfl

/-- **Paths that fold to the same have the same key.** -/
theorem keyOf_congr (hfold : Componentwise sys.folded) {name name' : List Char} {p' : List Name}
    (hp : Leads name p) (hp' : Leads name' p') (hmap : p.map sys.folded = p'.map sys.folded) :
    keyOf sys destination p = keyOf sys destination p' := by
  unfold keyOf jzCollisionKey
  rw [standardizingPath_located hp.isSafe, standardizingPath_located hp'.isSafe,
    located_eq_joined hp.some_component, located_eq_joined hp'.some_component]
  refine hfold _ _ ?_
  rw [map_append, map_append, map_append, map_append, hmap]

theorem Built.exists_leads (h : Built sys bytes destination centralOffset fs items t)
    {item : List Name × Node (List UInt8)} (hmem : item ∈ items) : ∃ name, Leads name item.1 := by
  obtain ⟨p, node⟩ := item
  obtain ⟨e, -, hd⟩ := exists_of_forall₂ h.entries.flip hmem
  cases hd with
  | dir _ hleads => exact ⟨_, hleads⟩
  | file _ hleads => exact ⟨_, hleads⟩

/-- **The entries are told apart.** -/
theorem Built.eq_of_map_eq (h : Built sys bytes destination centralOffset fs items t)
    (hfold : Componentwise sys.folded) {item item' : List Name × Node (List UInt8)}
    (hmem : item ∈ items) (hmem' : item' ∈ items)
    (hmap : item.1.map sys.folded = item'.1.map sys.folded) : item.1 = item'.1 := by
  obtain ⟨_, hleads⟩ := h.exists_leads hmem
  obtain ⟨_, hleads'⟩ := h.exists_leads hmem'
  have hdistinct := h.distinct
  rw [h.keys, nodup_reverse] at hdistinct
  exact congrArg Prod.fst (inj_on_of_nodup_map hdistinct hmem hmem'
    (keyOf_congr hfold hleads hleads' hmap))

/-! ## Directories -/

/-- **The directories of the paths are spelled in one way**: a directory above
a path is not, in another spelling, a path or above a path. -/
def OneSpelling (folded : Name → Name) (paths : List (List Name)) : Prop :=
  ∀ p ∈ paths, ∀ p' ∈ paths, ∀ q q', q <+: p → q ≠ p → q' <+: p' →
    q.map folded = q'.map folded → q = q'

/-- **When the tree of an archive is unambiguous.** -/
theorem unambiguous_extractArchive_iff (hfold : Componentwise sys.folded)
    (hempty : EmptyDirectory fs destination) (hlen : bytes.length < 2 ^ 63)
    (hrun : extractArchive fuel sys bytes destination (.start fs) = (.ok (), t)) :
    Unambiguous sys.folded t.fs (resolved destination)
      ↔ OneSpelling sys.folded (archivePaths sys bytes) := by
  obtain ⟨eocd, items, hend, hcount, hbuilt, -⟩ :=
    (of_wp (wp_extractArchive hempty hlen) hrun).1 () rfl
  rw [hbuilt.archivePaths_eq hend hcount, hbuilt.spanned.unambiguous_iff]
  constructor
  · intro hall p hp p' hp' q q' hq _ hq' hmap
    obtain ⟨item, hmem, rfl⟩ := mem_map.mp hp
    obtain ⟨item', hmem', rfl⟩ := mem_map.mp hp'
    exact hall item hmem item' hmem' q q' hq hq' hmap
  · intro hone item hmem item' hmem' q q' hq hq' hmap
    have hp := mem_map_of_mem (f := Prod.fst) hmem
    have hp' := mem_map_of_mem (f := Prod.fst) hmem'
    by_cases hwhole : q = item.1
    · by_cases hwhole' : q' = item'.1
      · -- both are entries, which the keys tell apart
        rw [hwhole, hwhole'] at hmap ⊢
        exact hbuilt.eq_of_map_eq hfold hmem hmem' hmap
      · exact (hone _ hp' _ hp q' q hq' hwhole' hq hmap.symm).symm
    · exact hone _ hp _ hp' q q' hq hwhole hq' hmap

theorem joined_map {xs : List Name} :
    (joined xs).map Char.toLower = joined (xs.map (List.map Char.toLower)) := by
  induction xs with
  | nil => rfl
  | cons x xs ih =>
    rw [map_cons]
    by_cases hnil : xs = []
    · rw [hnil, joined, intercalate_singleton, map_nil, joined,
        intercalate_singleton]
    · have hmap : xs.map (List.map Char.toLower) ≠ [] := fun h => hnil (map_eq_nil_iff.mp h)
      rw [joined] at ih
      rw [joined, intercalate_cons_of_ne_nil hnil, map_append, map_append, ih,
        joined, joined, intercalate_cons_of_ne_nil hmap]
      rfl

theorem componentwise_toLower : Componentwise (List.map Char.toLower) := by
  intro xs ys h
  rw [joined_map, joined_map, h]

/-- A tree whose directories are spelled in one way. -/
theorem unambiguous_sampleItems : ∃ utf8 t,
    extractArchive 5 (steady utf8) (archive sampleItems) ['/', 't'] (.start oneDirectory)
      = (.ok (), t)
    ∧ (Unambiguous (steady utf8).folded t.fs (resolved ['/', 't'])
      ↔ OneSpelling (steady utf8).folded (archivePaths (steady utf8) (archive sampleItems))) := by
  obtain ⟨utf8, hutf8⟩ := exists_decodes
  have hwp := (archivable_sampleItems utf8).wp_extractArchive (reliable_steady utf8) hutf8
    emptyDirectory_oneDirectory (by decide) fuel_sampleItems
  have hlen : (archive sampleItems).length < 2 ^ 63 := by decide +kernel
  obtain ⟨_, t, hrun, -⟩ := exists_of_wp hwp
  exact ⟨utf8, t, hrun, unambiguous_extractArchive_iff componentwise_toLower
    emptyDirectory_oneDirectory hlen hrun⟩

/-! ## Two spellings -/

/-- Two empty files, in directories that differ in case. -/
def twoSpellings : List Item :=
  [plainItem [['A'], ['x']] (.stored []), plainItem [['a'], ['y']] (.stored [])]

theorem archivable_twoSpellings (utf8 : List UInt8 → Option (List Char)) :
    Archivable (steady utf8) ['/', 't'] twoSpellings where
  count := by decide
  fits := by decide +kernel
  keys := (by decide +kernel :
    ([['a', '/', 'x'], ['a', '/', 'y']].map (['/', 't', '/'] ++ ·)).Nodup)
  apart := by decide +kernel
  total := by decide +kernel
  centralOffset := by decide +kernel
  centralSize := by decide +kernel
  inflates := forall_mem_cons.mpr ⟨nofun, forall_mem_singleton.mpr nofun⟩

/-- **Two directories that differ in case** are created above files whose
keys differ. -/
theorem ambiguous_twoSpellings : ∃ utf8 t, Decodes utf8
    ∧ extractArchive 5 (steady utf8) (archive twoSpellings) ['/', 't'] (.start oneDirectory)
      = (.ok (), t)
    ∧ t.fs [['t'], ['A']] = some .dir ∧ t.fs [['t'], ['a']] = some .dir
    ∧ ¬ Unambiguous (steady utf8).folded t.fs (resolved ['/', 't']) := by
  obtain ⟨utf8, hutf8⟩ := exists_decodes
  have hfuel : ∀ item ∈ twoSpellings, item.compressed.length + item.data.length < 5 := by
    decide +kernel
  have hwp := (archivable_twoSpellings utf8).wp_extractArchive (reliable_steady utf8) hutf8
    emptyDirectory_oneDirectory (by decide) hfuel
  obtain ⟨_, t, hrun, hspan⟩ := exists_of_wp hwp
  have hupper : t.fs [['t'], ['A']] = some .dir :=
    hspan.dir [['A'], ['x']] (.file []) [['A']] mem_cons_self (by decide) (by decide)
      (fun h => absurd h (by decide))
  have hlower : t.fs [['t'], ['a']] = some .dir :=
    hspan.dir [['a'], ['y']] (.file []) [['a']] (mem_cons_of_mem _ mem_cons_self)
      (by decide) (by decide) (fun h => absurd h (by decide))
  refine ⟨utf8, t, hutf8, hrun, hupper, hlower, fun hun => ?_⟩
  have heq : ['A'] = ['a'] := hun [] ['A'] ['a'] (fun h => nomatch hupper.symm.trans h)
    (fun h => nomatch hlower.symm.trans h) rfl
  exact absurd heq (by decide)

end Juice.Zip
