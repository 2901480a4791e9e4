import Mathlib.Data.List.Nodup
import Juice.Zip.Effects

/-!
# The loop over the entries

After some entries of an archive, the tree below the destination is spanned
by what they delivered: a directory, or a file with the data that the
archive has for it. That is the invariant of the loop, `Built`; with it go
the keys of the paths, the records of the central directory that were
walked, and what was counted. It says nothing about an entry that fails –
what it has created stays – so there is a second, weaker property, of every
state in which the extraction can end: `Contained`.

`wp_extractEntry` is the step: it keeps `Built` or ends in `Contained`, and
on a reliable platform an entry that is as it should be, `Expected`, does
not fail. `wp_extractEntries` and `wp_extractArchive` are about whole runs.
-/

namespace Juice.Zip

open List FileTree ByteSeq Prog

variable {Z : Type} {sys : Platform Z} {bytes : List UInt8} {destination : List Char}
  {centralOffset : ℕ} {fuel : ℕ} {e : Entry} {cursor : ℕ} {es : List Entry} {p base : List Name}
  {fs : Files Name (List UInt8)}

/-! ## Names -/

/-- The name of an entry. -/
def Named (sys : Platform Z) (bytes : List UInt8) (e : Entry) (name : List Char) : Prop :=
  jzEntryName sys (slice bytes (e.offset + 46) e.nameLength) e.isUtf8 = some name

theorem entryPath_eq_ok (hfits : e.offset + 46 + e.nameLength ≤ bytes.length)
    {name path : List Char} :
    entryPath sys bytes destination e = .ok (name, path)
      ↔ Named sys bytes e name ∧ jzSafeDestination destination name = some path := by
  rw [entryPath, readBytes_of_le hfits, ok_bind, Named]
  split
  · rename_i hname
    simp [hname]
  · rename_i name' hname
    split
    · rename_i hpath
      simp only [hname, Option.some.injEq, reduceCtorEq, false_iff, not_and]
      rintro rfl
      simp [hpath]
    · rename_i path' hpath
      simp only [hname, pure, Except.pure, Option.some.injEq, Except.ok.injEq, Prod.mk.injEq]
      refine and_congr_right ?_
      rintro rfl
      simp [hpath]

theorem avoids_entryPath (hfits : e.offset + 46 + e.nameLength ≤ bytes.length) :
    Avoids .undefined (entryPath sys bytes destination e) := by
  rw [entryPath, readBytes_of_le hfits, ok_bind]
  unfold Avoids
  split
  · exact nofun
  · split <;> exact nofun

/-! ## What an entry delivers -/

/-- **The entry `e` delivers `node` at the path `p`.** -/
inductive Delivered (sys : Platform Z) (bytes : List UInt8) (centralOffset : ℕ) :
    Entry → List Name → Node (List UInt8) → Prop where
  | dir {e : Entry} {name : List Char} {p : List Name} (hname : Named sys bytes e name)
      (hleads : Leads name p) (hdir : isDirectory name = true) :
      Delivered sys bytes centralOffset e p .dir
  | file {e : Entry} {name : List Char} {p : List Name} {l : LocalHeader} {data : List UInt8}
      (hname : Named sys bytes e name) (hleads : Leads name p) (hfile : isDirectory name = false)
      (hagrees : Agrees bytes centralOffset e l)
      (hcarried : Carried sys bytes e (e.localOffset + l.size) data)
      (hlength : data.length = e.uncompressedSize)
      (hcrc : (crc32 0 data).toNat = e.expectedCRC) :
      Delivered sys bytes centralOffset e p (.file data)

/-- The bytes of a node. -/
def nodeSize : Node (List UInt8) → ℕ
  | .dir => 0
  | .file data => data.length

/-- **The records of the central directory from `cursor` to `next`.** -/
def Walked (bytes : List UInt8) : ℕ → List Entry → ℕ → Prop
  | cursor, [], next => next = cursor
  | cursor, e :: rest, next => Listed bytes cursor e ∧ Walked bytes (cursor + e.size) rest next

theorem Walked.snoc {cursor' : ℕ} (h : Walked bytes cursor es cursor') (he : Listed bytes cursor' e)
    :
    Walked bytes cursor (es ++ [e]) (cursor' + e.size) := by
  induction es generalizing cursor with
  | nil =>
    obtain rfl : cursor' = cursor := h
    exact ⟨he, rfl⟩
  | cons d ds ih => exact ⟨h.1, ih h.2⟩

theorem Walked.listed {next : ℕ} (h : Walked bytes cursor es next) (he : e ∈ es) :
    Listed bytes e.offset e := by
  induction es generalizing cursor with
  | nil => exact absurd he not_mem_nil
  | cons d ds ih =>
    rcases mem_cons.mp he with rfl | he
    · rw [h.1.offset_eq]
      exact h.1
    · exact ih h.2 he

/-- The records fill what is between. -/
theorem Walked.eq_sum {next : ℕ} (h : Walked bytes cursor es next) :
    next = cursor + (es.map Entry.size).sum := by
  induction es generalizing cursor with
  | nil => exact h
  | cons d ds ih =>
    rw [ih h.2, map_cons, sum_cons, Nat.add_assoc]

/-- The key of a path. -/
def keyOf (sys : Platform Z) (destination : List Char) (p : List Name) : List Char :=
  jzCollisionKey sys.folded (located destination p)

/-- The sizes that the records declare. -/
def declared (es : List Entry) : ℕ := (es.map Entry.uncompressedSize).sum

theorem exists_of_forall₂ {α β : Type} {R : α → β → Prop} {as : List α} {bs : List β}
    (h : List.Forall₂ R as bs) {a : α} (ha : a ∈ as) : ∃ b ∈ bs, R a b := by
  induction h with
  | nil => exact absurd ha not_mem_nil
  | cons hab _ ih =>
    rcases mem_cons.mp ha with rfl | ha
    · exact ⟨_, mem_cons_self, hab⟩
    · obtain ⟨b, hb, hR⟩ := ih ha
      exact ⟨b, mem_cons_of_mem _ hb, hR⟩

/-! ## States -/

/-- **A path strictly below `base`**, with safe components. -/
def Below (base q : List Name) : Prop := ∃ r, r ≠ [] ∧ (∀ c ∈ r, IsSafe c) ∧ q = base ++ r

/-- **What holds in every state in which an extraction ends** that began with
the file system `fs₀`. -/
structure Contained (bytes : List UInt8) (base : List Name) (fs₀ : Files Name (List UInt8))
    (s : Extraction) : Prop where
  created : ∀ q ∈ s.created, Below base q
  /-- Nothing else is touched. -/
  changed : ∀ q, s.fs q ≠ fs₀ q → Below base q
  /-- No path is opened twice. -/
  opened : s.opened.Nodup
  /-- The records that were processed are records of the archive. -/
  walked : ∀ e ∈ s.walked, Listed bytes e.offset e
  declared : s.written ≤ declared s.walked
  limit : s.written ≤ extractionLimit

/-- **The invariant of the loop**: the items have been delivered. -/
structure Built (sys : Platform Z) (bytes : List UInt8) (destination : List Char)
    (centralOffset : ℕ) (fs₀ : Files Name (List UInt8))
    (items : List (List Name × Node (List UInt8))) (s : Extraction) : Prop where
  ground : ∀ b, b <+: resolved destination → s.fs b = some .dir
  spanned : Spanned s.fs (resolved destination) items
  keys : s.seenPaths = (items.map (fun item => keyOf sys destination item.1)).reverse
  distinct : s.seenPaths.Nodup
  entries : List.Forall₂ (fun e item => Delivered sys bytes centralOffset e item.1 item.2)
    s.walked items
  walk : Walked bytes centralOffset s.walked s.cursor
  created : ∀ q ∈ s.created, Below (resolved destination) q
  changed : ∀ q, s.fs q ≠ fs₀ q → Below (resolved destination) q
  opened : s.opened.Nodup
  opened_mem : ∀ q ∈ s.opened, ∃ item ∈ items, q = resolved destination ++ item.1
  written : s.written ≤ s.extractedTotal
  total : s.extractedTotal = (items.map (fun item => nodeSize item.2)).sum
  declared : s.extractedTotal ≤ declared s.walked
  limit : s.extractedTotal ≤ extractionLimit

variable {fs₀ : Files Name (List UInt8)} {items : List (List Name × Node (List UInt8))}
  {s : Extraction}

theorem Built.contained (h : Built sys bytes destination centralOffset fs₀ items s) :
    Contained bytes (resolved destination) fs₀ s :=
  ⟨h.created, h.changed, h.opened, fun _ he => h.walk.listed he, Nat.le_trans h.written h.declared,
    Nat.le_trans h.written h.limit⟩

theorem declared_append (es : List Entry) (e : Entry) :
    declared (es ++ [e]) = declared es + e.uncompressedSize := by
  unfold declared
  rw [map_append, sum_append, map_singleton, sum_singleton]

/-- A path with a new key is not the path of an item. -/
theorem Built.fresh (h : Built sys bytes destination centralOffset fs₀ items s)
    (hp : keyOf sys destination p ∉ s.seenPaths) : ∀ item ∈ items, item.1 ≠ p := by
  intro item hmem heq
  refine hp ?_
  rw [h.keys, mem_reverse, ← heq]
  exact mem_map.mpr ⟨item, hmem, rfl⟩

/-- A state of `Contained` after one more record. -/
theorem Built.contained_walked (h : Built sys bytes destination centralOffset fs₀ items s)
    (he : Listed bytes s.cursor e) {t : Extraction} (hcreated : t.created = s.created)
    (hfs : t.fs = s.fs) (hopened : t.opened = s.opened) (hwritten : t.written = s.written)
    (hwalked : t.walked = s.walked ++ [e]) : Contained bytes (resolved destination) fs₀ t := by
  have hc := h.contained
  constructor
  · rw [hcreated]
    exact hc.created
  · rw [hfs]
    exact hc.changed
  · rw [hopened]
    exact hc.opened
  · rw [hwalked]
    exact fun d hd => (h.walk.snoc he).listed hd
  · rw [hwritten, hwalked, declared_append]
    exact Nat.le_trans hc.declared (Nat.le_add_right _ _)
  · rw [hwritten]
    exact hc.limit

/-! ## An entry -/

/-- **An entry that should be extracted from the state `s`.** -/
structure Expected (fuel : ℕ) (sys : Platform Z) (bytes : List UInt8) (destination : List Char)
    (centralOffset : ℕ) (s : Extraction) (e : Entry) (name : List Char) (p : List Name) :
    Prop where
  listed : Listed bytes s.cursor e
  named : Named sys bytes e name
  leads : Leads name p
  root : resolved destination ≠ []
  fresh : keyOf sys destination p ∉ s.seenPaths
  dir : isDirectory name = true → e.compressedSize = 0 ∧ e.uncompressedSize = 0
    ∧ ¬ Blocked s.fs (resolved destination) p
  file : isDirectory name = false → s.extractedTotal + e.uncompressedSize ≤ extractionLimit
    ∧ (∃ l data, Agrees bytes centralOffset e l
      ∧ Ready fuel sys bytes e (e.localOffset + l.size) data)
    ∧ ¬ Blocked s.fs (resolved destination) p.dropLast
    ∧ s.fs (resolved destination ++ p) ≠ some .dir

/-- The paths along a safe path. -/
theorem Leads.along {name : List Char} (h : Leads name p) {q : List Name} (hq : Along base p q) :
    Below base q := by
  obtain ⟨r, hr, hne, heq⟩ := hq
  exact ⟨r, hne, fun c hc => h.isSafe c (hr.subset hc), heq⟩

/-- A node that is put in its place spans the tree with the items. -/
theorem Placed.spanned {fs' : Files Name (List UInt8)} {node : Node (List UInt8)}
    (h : Placed fs fs' base p node) (hspan : Spanned fs base items) (hp : p ≠ [])
    (hnew : ∀ item ∈ items, item.1 ≠ p) : Spanned fs' base (items ++ [(p, node)]) := by
  cases node with
  | dir => exact hspan.add_dir h
  | file data =>
    obtain ⟨fs₁, hmade, hplace, rfl⟩ := h
    exact hspan.add_file hmade hp hplace hnew data

theorem Placed.ground {fs' : Files Name (List UInt8)} {node : Node (List UInt8)}
    (h : Placed fs fs' base p node) (hp : p ≠ []) (hbase : ∀ b, b <+: base → fs b = some .dir) :
    ∀ b, b <+: base → fs' b = some .dir := by
  intro b hb
  cases node with
  | dir => rw [h.other_base hb, hbase b hb]
  | file data =>
    obtain ⟨fs₁, hmade, -, rfl⟩ := h
    rw [put_of_ne, hmade.other_base hb, hbase b hb]
    intro heq
    have hle := hb.length_le
    rw [heq, length_append] at hle
    exact hp (length_eq_zero_iff.mp (by omega))

/-- The state in which an entry is delivered: its record is read, its key is
marked, and `size` bytes of it are counted. -/
def Extraction.marked (s : Extraction) (e : Entry) (key : List Char) (size : ℕ) : Extraction :=
  { s with
    walked := s.walked ++ [e]
    seenPaths := key :: s.seenPaths
    extractedTotal := s.extractedTotal + size }

section Step

variable {e : Entry} {name : List Char} {p : List Name} {t : Extraction}
  {opens : List (List Name)} {n size : ℕ}

/-- What an entry opens has not been opened. -/
theorem Built.nodup_opens (h : Built sys bytes destination centralOffset fs₀ items s)
    (hfresh : keyOf sys destination p ∉ s.seenPaths)
    (hopens : opens = [] ∨ opens = [resolved destination ++ p]) : (s.opened ++ opens).Nodup := by
  rcases hopens with rfl | rfl
  · rw [append_nil]
    exact h.opened
  · refine nodup_append.mpr ⟨h.opened, nodup_singleton _, ?_⟩
    intro q hq q' hq' heq
    obtain ⟨item, hmem, hitem⟩ := h.opened_mem q hq
    rw [heq, mem_singleton.mp hq'] at hitem
    exact h.fresh hfresh item hmem (append_cancel_left hitem).symm

/-- What an entry creates is below the destination. -/
theorem Built.created_along (h : Built sys bytes destination centralOffset fs₀ items s)
    (hleads : Leads name p)
    (hwithin : Within (Along (resolved destination) p) opens n
      (s.marked e (keyOf sys destination p) size) t) :
    ∀ q ∈ t.created, Below (resolved destination) q := by
  obtain ⟨new, heq, hnew⟩ := hwithin.created
  rw [heq]
  exact forall_mem_append.mpr ⟨h.created, fun q hq => hleads.along (hnew q hq)⟩

/-- What an entry changes is below the destination. -/
theorem Built.changed_along (h : Built sys bytes destination centralOffset fs₀ items s)
    (hleads : Leads name p)
    (hwithin : Within (Along (resolved destination) p) opens n
      (s.marked e (keyOf sys destination p) size) t) :
    ∀ q, t.fs q ≠ fs₀ q → Below (resolved destination) q := by
  intro q hq
  by_cases hsame : t.fs q = s.fs q
  · exact h.changed q (hsame ▸ hq)
  · exact hleads.along (hwithin.changed q hsame)

/-- **Wherever an entry fails**, what it did is contained. -/
theorem Built.contained_within (h : Built sys bytes destination centralOffset fs₀ items s)
    (he : Listed bytes s.cursor e) (hleads : Leads name p)
    (hfresh : keyOf sys destination p ∉ s.seenPaths)
    (hopens : opens = [] ∨ opens = [resolved destination ++ p])
    (hwithin : Within (Along (resolved destination) p) opens n
      (s.marked e (keyOf sys destination p) size) t)
    (hn : n ≤ e.uncompressedSize) (hlimit : s.extractedTotal + n ≤ extractionLimit) :
    Contained bytes (resolved destination) fs₀ t := by
  have hwritten : t.written ≤ s.written + n := hwithin.written
  have hold := h.written
  constructor
  · exact h.created_along hleads hwithin
  · exact h.changed_along hleads hwithin
  · rw [hwithin.opened]
    exact h.nodup_opens hfresh hopens
  · rw [hwithin.walked]
    exact fun d hd => (h.walk.snoc he).listed hd
  · have hdeclared := h.declared
    rw [hwithin.walked]
    show t.written ≤ Zip.declared (s.walked ++ [e])
    rw [declared_append]
    omega
  · omega

/-- **An entry that is delivered** is one more item. -/
theorem Built.add (h : Built sys bytes destination centralOffset fs₀ items s)
    (he : Listed bytes s.cursor e) {node : Node (List UInt8)}
    (hd : Delivered sys bytes centralOffset e p node) (hleads : Leads name p)
    (hfresh : keyOf sys destination p ∉ s.seenPaths)
    (hplaced : Placed s.fs t.fs (resolved destination) p node)
    (hopens : opens = [] ∨ opens = [resolved destination ++ p])
    (hwithin : Within (Along (resolved destination) p) opens (nodeSize node)
      (s.marked e (keyOf sys destination p) (nodeSize node)) t)
    (hsize : nodeSize node ≤ e.uncompressedSize)
    (hlimit : s.extractedTotal + nodeSize node ≤ extractionLimit) :
    Built sys bytes destination centralOffset fs₀ (items ++ [(p, node)])
      { t with cursor := s.cursor + e.size } := by
  have hp : p ≠ [] := hleads.some_component
  have hseen : t.seenPaths = keyOf sys destination p :: s.seenPaths := hwithin.seenPaths
  have hwalked : t.walked = s.walked ++ [e] := hwithin.walked
  have htotal : t.extractedTotal = s.extractedTotal + nodeSize node := hwithin.extractedTotal
  have hcreated := h.created_along hleads hwithin
  have hchanged := h.changed_along hleads hwithin
  constructor
  · exact hplaced.ground hp h.ground
  · exact hplaced.spanned h.spanned hp (h.fresh hfresh)
  · show t.seenPaths = _
    rw [hseen, h.keys, map_append, reverse_append]
    rfl
  · show t.seenPaths.Nodup
    rw [hseen]
    exact nodup_cons.mpr ⟨hfresh, h.distinct⟩
  · show List.Forall₂ _ t.walked _
    rw [hwalked]
    exact rel_append h.entries (.cons hd .nil)
  · show Walked bytes centralOffset t.walked _
    rw [hwalked]
    exact h.walk.snoc he
  · exact hcreated
  · exact hchanged
  · show t.opened.Nodup
    rw [hwithin.opened]
    exact h.nodup_opens hfresh hopens
  · show ∀ q ∈ t.opened, _
    rw [hwithin.opened]
    intro q hq
    rcases mem_append.mp hq with hq | hq
    · obtain ⟨item, hmem, heq⟩ := h.opened_mem q hq
      exact ⟨item, mem_append_left _ hmem, heq⟩
    · rcases hopens with rfl | rfl
      · exact absurd hq not_mem_nil
      · exact ⟨(p, node), mem_append_right _ (mem_singleton_self _),
          mem_singleton.mp hq⟩
  · have hwritten : t.written ≤ s.written + nodeSize node := hwithin.written
    have hold := h.written
    show t.written ≤ t.extractedTotal
    omega
  · show t.extractedTotal = _
    rw [htotal, h.total, map_append, sum_append]
    rfl
  · show t.extractedTotal ≤ Zip.declared t.walked
    have hdeclared := h.declared
    rw [hwalked, declared_append]
    omega
  · show t.extractedTotal ≤ extractionLimit
    omega

end Step

section Runs

variable (hcentral : centralOffset ≤ bytes.length) (hlt : centralOffset < 2 ^ 32)
  (hlen : bytes.length < 2 ^ 63)

include hcentral hlt in
/-- **What an entry delivers**, after its record is read and its key is
marked. -/
theorem wp_deliver (h : Built sys bytes destination centralOffset fs₀ items s) {e : Entry}
    {name : List Char} {p : List Name} (he : Listed bytes s.cursor e)
    (hname : Named sys bytes e name) (hleads : Leads name p)
    (hfresh : keyOf sys destination p ∉ s.seenPaths) :
    (deliver fuel sys bytes centralOffset name (located destination p) e).wp
      (fun _ t => t.cursor = s.cursor ∧ ∃ node, Delivered sys bytes centralOffset e p node
        ∧ Built sys bytes destination centralOffset fs₀ (items ++ [(p, node)])
          { t with cursor := s.cursor + e.size })
      (fun err t => err ≠ .undefined ∧ Contained bytes (resolved destination) fs₀ t
        ∧ (sys.Reliable → ¬ Expected fuel sys bytes destination centralOffset s e name p))
      (s.marked e (keyOf sys destination p) 0) := by
  have hpath : pathComponents (located destination p) = resolved destination ++ p :=
    pathComponents_located hleads.isSafe
  have hsize := he.uncompressedSize_lt
  have hold := h.limit
  unfold deliver
  split
  · rename_i hdir
    refine wp_bind.mpr (wp_ensure.mpr ⟨fun _ => ?_, fun hno => ?_⟩)
    · rw [hpath]
      refine wp_imp (wp_createDirectory p h.ground) ?_ ?_
      · rintro _ t ⟨hmade, hwithin⟩
        have hd : Delivered sys bytes centralOffset e p .dir := .dir hname hleads hdir
        exact ⟨hwithin.cursor, .dir, hd,
          h.add he hd hleads hfresh hmade (.inl rfl) hwithin (Nat.zero_le _) hold⟩
      · rintro err t ⟨rfl, hwithin, hwhy⟩
        exact ⟨by simp, h.contained_within he hleads hfresh (.inl rfl) hwithin (Nat.zero_le _) hold,
          fun hrel hexp => (hexp.dir hdir).2.2 (hwhy hrel)⟩
    · exact ⟨by simp, h.contained_walked he rfl rfl rfl rfl rfl,
        fun _ hexp => hno ⟨(hexp.dir hdir).1, (hexp.dir hdir).2.1⟩⟩
  · rename_i hdir
    have hfile : isDirectory name = false := Bool.eq_false_iff.mpr hdir
    have hfits : e.offset + 46 + e.nameLength ≤ bytes.length := by
      have hf := he.fits
      rw [he.offset_eq]
      unfold Entry.size at hf
      omega
    unfold extractionLimit at hold
    refine wp_bind.mpr (wp_bind.mpr (wp_gets.mpr (wp_bind.mpr ?_)))
    refine (wp_addUnsigned (show s.extractedTotal + 0 + e.uncompressedSize < 2 ^ 64 by
      omega)).mpr ?_
    refine wp_bind.mpr (wp_modify.mpr (wp_ensure.mpr ⟨fun hlimit => ?_, fun hbig => ?_⟩))
    · rw [Nat.add_zero] at hlimit
      refine wp_bind.mpr (wp_lift.mpr ⟨fun dataOffset hlocal => ?_, fun err herr => ?_⟩)
      · obtain ⟨l, hl, rfl⟩ := (localAt_eq_ok hcentral hlt hfits).mp hlocal
        have hbounds : e.localOffset + l.size + e.compressedSize ≤ bytes.length :=
          Nat.le_trans hl.before hcentral
        refine wp_imp (wp_extractFile h.ground hpath hleads.some_component hbounds hsize
          hl.stored) ?_ ?_
        · rintro _ t ⟨⟨data, hcarried, hlength, hcrc, hplaced⟩, hwithin⟩
          have hd : Delivered sys bytes centralOffset e p (.file data) :=
            .file hname hleads hfile hl hcarried hlength hcrc
          refine ⟨hwithin.cursor, .file data, hd, h.add he hd hleads hfresh hplaced (.inr rfl) ?_
            (Nat.le_of_eq hlength) (by rw [nodeSize, hlength]; exact hlimit)⟩
          show Within _ _ data.length (s.marked e _ data.length) t
          rw [hlength]
          exact hwithin
        · rintro err t ⟨herr, ⟨opens, hopens, hwithin⟩, hwhy⟩
          have hwithin : Within (Along (resolved destination) p) opens e.uncompressedSize
            (s.marked e (keyOf sys destination p) e.uncompressedSize) t := hwithin
          refine ⟨herr, h.contained_within he hleads hfresh hopens hwithin (Nat.le_refl _) hlimit,
            fun hrel hexp => ?_⟩
          obtain ⟨-, ⟨l', data, hl', hready⟩, hblocked, hplace⟩ := hexp.file hfile
          have heq : l' = l := hl'.eq_of.trans hl.eq_of.symm
          rw [heq] at hready
          rcases hwhy hrel ⟨data, hready⟩ with hno | hno
          · exact hblocked hno
          · exact hplace hno
      · refine ⟨fun heq => avoids_localAt hcentral hlt hfits (heq ▸ herr),
          h.contained_walked he rfl rfl rfl rfl rfl, fun _ hexp => ?_⟩
        obtain ⟨-, ⟨l, data, hl, -⟩, -, -⟩ := hexp.file hfile
        have hok := (localAt_eq_ok hcentral hlt hfits).mpr ⟨l, hl, rfl⟩
        exact absurd (hok.symm.trans herr) (by simp)
    · refine ⟨by simp, h.contained_walked he rfl rfl rfl rfl rfl, fun _ hexp => hbig ?_⟩
      rw [Nat.add_zero]
      exact (hexp.file hfile).1

include hcentral hlt hlen in
/-- **The step of the loop.** -/
theorem wp_extractEntry (h : Built sys bytes destination centralOffset fs₀ items s) :
    (extractEntry fuel sys bytes destination centralOffset).wp
      (fun _ t => ∃ e p node, Listed bytes s.cursor e ∧ t.cursor = s.cursor + e.size
        ∧ Delivered sys bytes centralOffset e p node
        ∧ Built sys bytes destination centralOffset fs₀ (items ++ [(p, node)]) t)
      (fun err t => err ≠ .undefined ∧ Contained bytes (resolved destination) fs₀ t
        ∧ (sys.Reliable → ∀ e name p,
          ¬ Expected fuel sys bytes destination centralOffset s e name p)) s := by
  refine wp_bind.mpr (wp_gets.mpr (wp_bind.mpr (wp_lift.mpr ⟨fun e he => ?_, fun err herr => ?_⟩)))
  · have he := centralAt_eq_ok.mp he
    have hunique : ∀ {e' name p}, Expected fuel sys bytes destination centralOffset s e' name p →
        e' = e := fun hexp => hexp.listed.eq_of.trans he.eq_of.symm
    have hfits : e.offset + 46 + e.nameLength ≤ bytes.length := by
      have hf := he.fits
      rw [he.offset_eq]
      unfold Entry.size at hf
      omega
    refine wp_bind.mpr (wp_modify.mpr (wp_bind.mpr
      (wp_lift.mpr ⟨fun named hnamed => ?_, fun err herr => ?_⟩)))
    · obtain ⟨name, path⟩ := named
      obtain ⟨hname, hpath⟩ := (entryPath_eq_ok hfits).mp hnamed
      obtain ⟨p, hleads, hroot, rfl⟩ := jzSafeDestination_eq_some.mp hpath
      have hsame : ∀ {e' name' p'}, Expected fuel sys bytes destination centralOffset s e' name' p'
          → Expected fuel sys bytes destination centralOffset s e name p := by
        intro e' name' p' hexp
        obtain rfl := hunique hexp
        obtain rfl := Option.some.inj (hexp.named.symm.trans hname)
        obtain rfl := hexp.leads.unique hleads
        exact hexp
      refine wp_bind.mpr (wp_bind.mpr (wp_gets.mpr (wp_bind.mpr
        (wp_ensure.mpr ⟨fun hfresh => ?_, fun hseen => ?_⟩))))
      · refine wp_modify.mpr (wp_bind.mpr ?_)
        refine wp_imp (wp_deliver hcentral hlt h he hname hleads hfresh) ?_ ?_
        · rintro _ t ⟨hcursor, node, hd, hbuilt⟩
          have hnext : t.cursor + e.size < 2 ^ 64 := by
            have hf := he.fits
            omega
          refine wp_bind.mpr (wp_gets.mpr (wp_bind.mpr ((wp_addUnsigned hnext).mpr ?_)))
          rw [hcursor]
          exact wp_modify.mpr ⟨e, p, node, he, rfl, hd, hbuilt⟩
        · rintro err t ⟨herr, hcontained, hwhy⟩
          exact ⟨herr, hcontained, fun hrel e' name' p' hexp => hwhy hrel (hsame hexp)⟩
      · exact ⟨nofun, h.contained_walked he rfl rfl rfl rfl rfl,
          fun _ e' name' p' hexp => hseen (hsame hexp).fresh⟩
    · refine ⟨fun heq => avoids_entryPath hfits (heq ▸ herr),
        h.contained_walked he rfl rfl rfl rfl rfl, fun _ e' name p hexp => ?_⟩
      obtain rfl := hunique hexp
      have hok := (entryPath_eq_ok hfits).mpr ⟨hexp.named,
        jzSafeDestination_eq_some.mpr ⟨p, hexp.leads, hexp.root, rfl⟩⟩
      exact nomatch hok.symm.trans herr
  · exact ⟨fun heq => avoids_centralAt (heq ▸ herr), h.contained,
      fun _ e name p hexp => nomatch (centralAt_eq_ok.mpr hexp.listed).symm.trans herr⟩

include hcentral hlt hlen in
/-- **The loop over the entries.** -/
theorem wp_extractEntries (n : ℕ) (h : Built sys bytes destination centralOffset fs₀ items s) :
    (extractEntries fuel sys bytes destination centralOffset n).wp
      (fun _ t => ∃ new, new.length = n
        ∧ Built sys bytes destination centralOffset fs₀ (items ++ new) t)
      (fun err t => err ≠ .undefined ∧ Contained bytes (resolved destination) fs₀ t) s := by
  induction n generalizing items s with
  | zero => exact wp_pure.mpr ⟨[], rfl, by rw [append_nil]; exact h⟩
  | succ n ih =>
    refine wp_bind.mpr (wp_imp (wp_extractEntry hcentral hlt hlen h) ?_ ?_)
    · rintro _ t ⟨e, p, node, -, -, -, hbuilt⟩
      refine wp_imp (ih hbuilt) ?_ (fun _ _ hE => hE)
      rintro _ u ⟨new, hnew, hbuilt'⟩
      refine ⟨(p, node) :: new, by rw [length_cons, hnew], ?_⟩
      rw [append_assoc] at hbuilt'
      exact hbuilt'
    · rintro err t ⟨herr, hcontained, -⟩
      exact ⟨herr, hcontained⟩

end Runs

/-! ## Whole archives -/

/-- **The destination is an empty directory.** -/
structure EmptyDirectory (fs : Files Name (List UInt8)) (destination : List Char) : Prop where
  ground : ∀ b, b <+: resolved destination → fs b = some .dir
  empty : ∀ q, q ≠ [] → fs (resolved destination ++ q) = none

/-- To create the destination creates nothing. -/
theorem created_start (hs : Within (Along (resolved destination) []) [] 0 (Extraction.start fs) s) :
    s.created = [] := by
  obtain ⟨new, heq, hnew⟩ := hs.created
  rw [heq]
  cases new with
  | nil => rfl
  | cons q new =>
    obtain ⟨r, hr, hne, -⟩ := hnew q mem_cons_self
    exact absurd (prefix_nil.mp hr) hne

theorem changed_start (hs : Within (Along (resolved destination) []) [] 0 (Extraction.start fs) s) :
    ∀ q, ¬ s.fs q ≠ fs q := by
  intro q hq
  obtain ⟨r, hr, hne, -⟩ := hs.changed q hq
  exact hne (prefix_nil.mp hr)

theorem contained_start (hs : Within (Along (resolved destination) []) [] 0 (Extraction.start fs) s)
    :
    Contained bytes (resolved destination) fs s := by
  have hopened : s.opened = [] := hs.opened
  have hwalked : s.walked = [] := hs.walked
  have hwritten : s.written = 0 := Nat.le_zero.mp hs.written
  constructor
  · rw [created_start hs]
    exact fun _ hq => absurd hq not_mem_nil
  · intro q hq
    exact (changed_start hs q hq).elim
  · rw [hopened]
    exact nodup_nil
  · rw [hwalked]
    exact fun _ he => absurd he not_mem_nil
  · rw [hwritten]
    exact Nat.zero_le _
  · rw [hwritten]
    exact Nat.zero_le _

/-- Nothing has been extracted. -/
theorem built_start (h : EmptyDirectory fs destination)
    (hs : Within (Along (resolved destination) []) [] 0 (Extraction.start fs) s) (hfs : s.fs = fs) :
    Built sys bytes destination centralOffset fs [] { s with cursor := centralOffset } := by
  have hseen : s.seenPaths = [] := hs.seenPaths
  have hopened : s.opened = [] := hs.opened
  have hwalked : s.walked = [] := hs.walked
  have htotal : s.extractedTotal = 0 := hs.extractedTotal
  constructor
  · show ∀ b, b <+: resolved destination → s.fs b = some .dir
    rw [hfs]
    exact h.ground
  · show Spanned s.fs _ _
    rw [hfs]
    exact .nil h.empty
  · exact hseen
  · show s.seenPaths.Nodup
    rw [hseen]
    exact nodup_nil
  · show List.Forall₂ _ s.walked _
    rw [hwalked]
    exact .nil
  · show Walked bytes centralOffset s.walked centralOffset
    rw [hwalked]
    rfl
  · show ∀ q ∈ s.created, _
    rw [created_start hs]
    exact fun _ hq => absurd hq not_mem_nil
  · exact fun q hq => (changed_start hs q hq).elim
  · show s.opened.Nodup
    rw [hopened]
    exact nodup_nil
  · show ∀ q ∈ s.opened, _
    rw [hopened]
    exact fun _ hq => absurd hq not_mem_nil
  · show s.written ≤ s.extractedTotal
    rw [htotal]
    exact hs.written
  · exact htotal
  · show s.extractedTotal ≤ _
    rw [htotal]
    exact Nat.zero_le _
  · show s.extractedTotal ≤ _
    rw [htotal]
    exact Nat.zero_le _

/-- The destination is created, which it is already. -/
theorem wp_createDestination (h : EmptyDirectory fs destination) :
    (createDirectory sys (resolved destination)).wp
      (fun _ t => t.fs = fs
        ∧ Within (Along (resolved destination) []) [] 0 (Extraction.start fs) t)
      (fun err t => err = .foundation
        ∧ Within (Along (resolved destination) []) [] 0 (Extraction.start fs) t
        ∧ ¬ sys.Reliable) (Extraction.start fs) := by
  have hwp := @wp_createDirectory Z sys (Extraction.start fs) (resolved destination) [] h.ground
  rw [append_nil] at hwp
  refine wp_imp hwp ?_ ?_
  · rintro _ t ⟨hmade, hwithin⟩
    refine ⟨funext (fun q => hmade.other q (fun r hr hne => ?_)), hwithin⟩
    exact absurd (prefix_nil.mp hr) hne
  · rintro err t ⟨herr, hwithin, hwhy⟩
    refine ⟨herr, hwithin, fun hrel => ?_⟩
    obtain ⟨r, hr, hne, -⟩ := hwhy hrel
    exact hne (prefix_nil.mp hr)

/-- **A whole extraction**, into an empty directory. -/
theorem wp_extractArchive (h : EmptyDirectory fs destination) (hlen : bytes.length < 2 ^ 63) :
    (extractArchive fuel sys bytes destination).wp
      (fun _ t => ∃ eocd items, endRecord bytes = .ok eocd ∧ items.length = eocd.entryCount
        ∧ Built sys bytes destination eocd.centralOffset fs items t ∧ t.cursor = eocd.offset)
      (fun err t => err ≠ .undefined ∧ Contained bytes (resolved destination) fs t)
      (Extraction.start fs) := by
  refine wp_bind.mpr (wp_lift.mpr ⟨fun eocd heocd => ?_, fun err herr => ?_⟩)
  · have hends := endRecord_eq_ok hlen heocd
    have hend := hends.centralEnd
    have hfits := hends.fits
    have hcentral : eocd.centralOffset ≤ bytes.length := by omega
    refine wp_bind.mpr (wp_imp (wp_createDestination h) ?_ ?_)
    · rintro _ t ⟨hfs, hwithin⟩
      refine wp_bind.mpr (wp_modify.mpr (wp_bind.mpr ?_))
      have hbuilt : Built sys bytes destination eocd.centralOffset fs []
        { t with cursor := eocd.centralOffset } := built_start h hwithin hfs
      refine wp_imp (wp_extractEntries hcentral hends.centralOffset_lt hlen _ hbuilt) ?_
        (fun _ _ hE => hE)
      rintro _ u ⟨items, hitems, hbuilt'⟩
      refine wp_bind.mpr (wp_gets.mpr (wp_bind.mpr ((wp_addUnsigned (by omega)).mpr
        (wp_ensure.mpr ⟨fun hcursor => ?_, fun _ => ⟨nofun, hbuilt'.contained⟩⟩))))
      exact ⟨eocd, items, heocd, hitems, hbuilt', hcursor.trans hend⟩
    · rintro err t ⟨rfl, hwithin, -⟩
      exact ⟨nofun, contained_start hwithin⟩
  · exact ⟨fun heq => avoids_endRecord hlen (heq ▸ herr), contained_start (.refl 0)⟩

end Juice.Zip
