import Juice.Jit.Pool

/-!
# The pool is a partition

After every sequence of calls the free ranges and the ranges in use, rounded,
tile the pool, and the free ranges are in order with none that touch. All of
the rest is read off it: what is given out overlaps nothing that is in use, a
call is refused only for a reason, and once everything is returned the free
ranges are the one range that the pool began with.

Callers know the mappings that they were given. `Session` keeps them beside
the pool, from the results of the calls alone, and `Live` says that the pool
has them listed.
-/

namespace Juice.Jit

open List Tiling

/-! ## One call -/

/-- A range in use, as it was cut from a free one. -/
def rounded (range : Span) : Span := ⟨range.offset, juiceAlignJITSize range.size⟩

/-- **The invariant of the pool.** -/
structure JuiceJITPool.Sound (pool : JuiceJITPool) : Prop where
  writable_ne : pool.writable ≠ 0
  executable_ne : pool.executable ≠ 0
  writable_le : pool.writable.toNat + pool.size ≤ 2 ^ 64
  executable_le : pool.executable.toNat + pool.size ≤ 2 ^ 64
  separated : Separated pool.freeRanges
  multiples : Multiples (2 ^ 14) pool.freeRanges
  tiles : Tiles (pool.freeRanges ++ pool.allocatedRanges.map rounded) pool.size
  requested : ∀ r ∈ pool.allocatedRanges, 2 ^ 14 ∣ r.offset ∧ r.size < 2 ^ 64

section Calls

variable {pool : JuiceJITPool} {size : UInt64} {mapping : JuiceJITMapping} {offset : ℕ}

theorem toNat_ne_zero {w : UInt64} (h : w ≠ 0) : 0 < w.toNat :=
  Nat.pos_of_ne_zero (fun hzero => h (UInt64.toNat_inj.mp hzero))

namespace JuiceJITPool.Sound

theorem size_lt (h : pool.Sound) : pool.size < 2 ^ 64 := by
  have hpos := toNat_ne_zero h.writable_ne
  have hle := h.writable_le
  omega

/-- A word that does not wrap. -/
theorem toNat_add {w : UInt64} (hw : w.toNat + pool.size ≤ 2 ^ 64) (hlt : offset < pool.size) :
    (w + .ofNat offset).toNat = w.toNat + offset := by
  have hoffset : offset < 2 ^ 64 := by omega
  rw [UInt64.toNat_add, UInt64.toNat_ofNat_of_lt' hoffset, Nat.mod_eq_of_lt (by omega)]

theorem mapping_executable_ne (h : pool.Sound) (hlt : offset < pool.size) :
    (pool.mapping offset).executable ≠ 0 := by
  intro hzero
  have htoNat := toNat_add h.executable_le hlt
  have hpos := toNat_ne_zero h.executable_ne
  rw [show pool.executable + .ofNat offset = 0 from hzero] at htoNat
  change 0 = _ at htoNat
  omega

/-- A range in use lies in the pool. -/
theorem rounded_stop_le (h : pool.Sound) {r : Span} (hr : r ∈ pool.allocatedRanges) :
    0 < juiceAlignJITSize r.size ∧ r.offset + juiceAlignJITSize r.size ≤ pool.size := by
  have hmem : rounded r ∈ pool.freeRanges ++ pool.allocatedRanges.map rounded :=
    mem_append_right _ (mem_map.mpr ⟨r, hr, rfl⟩)
  exact ⟨h.tiles.nonempty _ hmem, h.tiles.stop_le hmem⟩

end JuiceJITPool.Sound

/-- **The mapping of a range in use**, with the size that was requested. -/
def JuiceJITPool.Named (pool : JuiceJITPool) (mapping : JuiceJITMapping) (size : UInt64) : Prop :=
  ∃ r ∈ pool.allocatedRanges, mapping = pool.mapping r.offset ∧ r.size = size.toNat

/-- The pool after a range is given out. -/
def JuiceJITPool.given (pool : JuiceJITPool) (freeRanges : List Span) (offset : ℕ)
    (size : UInt64) : JuiceJITPool :=
  { pool with
    freeRanges := freeRanges
    allocatedRanges := pool.allocatedRanges ++ [⟨offset, size.toNat⟩] }

/-- **A call that gives a range out**: a free range was large enough, and what
is given out lies in the pool. -/
def JuiceJITPool.Gives (pool : JuiceJITPool) (size : UInt64)
    (result : JuiceJITMapping × JuiceJITPool) : Prop :=
  ∃ offset freeRanges, result = (pool.mapping offset, pool.given freeRanges offset size)
    ∧ (∃ r ∈ pool.freeRanges, ¬ r.size < juiceAlignJITSize size.toNat)
    ∧ offset + juiceAlignJITSize size.toNat ≤ pool.size
    ∧ (pool.mapping offset).executable ≠ 0 ∧ (pool.given freeRanges offset size).Sound

/-- What is left of a free range when its beginning is given out. -/
def leftOver (range : Span) (alignedSize : ℕ) : List Span :=
  if range.size - alignedSize = 0 then []
  else [⟨range.offset + alignedSize, range.size - alignedSize⟩]

/-- **The beginning of a free range is given out.** -/
theorem JuiceJITPool.Sound.give (h : pool.Sound) {l₁ l₂ : List Span} {range : Span}
    (hfree : pool.freeRanges = l₁ ++ range :: l₂)
    (hpos : 0 < juiceAlignJITSize size.toNat) (hle : juiceAlignJITSize size.toNat ≤ range.size) :
    (pool.given (l₁ ++ (leftOver range (juiceAlignJITSize size.toNat) ++ l₂)) range.offset
      size).Sound := by
  have hsep := h.separated
  have hmul := h.multiples
  have htiles := h.tiles
  have hdvd := dvd_juiceAlignJITSize size.toNat_lt
  rw [hfree] at hsep hmul htiles
  have hmr := hmul range (by simp)
  have hrequested : ∀ r ∈ pool.allocatedRanges ++ [Span.mk range.offset size.toNat],
      2 ^ 14 ∣ r.offset ∧ r.size < 2 ^ 64 := by
    refine forall_mem_append.mpr ⟨h.requested, forall_mem_singleton.mpr ?_⟩
    exact ⟨hmr.1, size.toNat_lt⟩
  -- The range is first among the free ones, its beginning last among those in use.
  have hfront : Tiles (range :: (l₁ ++ l₂ ++ pool.allocatedRanges.map rounded)) pool.size := by
    refine htiles.perm ?_
    rw [append_assoc, append_assoc]
    exact perm_middle
  have hback : ∀ l, List.Perm (Span.mk range.offset (juiceAlignJITSize size.toNat)
        :: (l ++ pool.allocatedRanges.map rounded))
      (l ++ (pool.allocatedRanges ++ [Span.mk range.offset size.toNat]).map rounded) := by
    intro l
    rw [map_append, ← append_assoc]
    exact (perm_append_singleton _ _).symm
  unfold leftOver JuiceJITPool.given
  split
  · have hall : range = ⟨range.offset, juiceAlignJITSize size.toNat⟩ := by
      have hsize : range.size = juiceAlignJITSize size.toNat := by omega
      rw [← hsize]
    rw [hall] at hfront
    refine { h with
      separated := ?_, multiples := ?_, tiles := hfront.perm (hback _), requested := hrequested }
    · exact hsep.sublist ((sublist_cons_self _ _).append_left _)
    · exact fun r hr => hmul r (((sublist_cons_self _ _).append_left _).subset hr)
  · rename_i hrest
    have hcut : range = ⟨range.offset,
        juiceAlignJITSize size.toNat + (range.size - juiceAlignJITSize size.toNat)⟩ := by
      rw [Nat.add_sub_cancel' hle]
    rw [hcut] at hfront
    have hparts := hfront.cut hpos (Nat.pos_of_ne_zero hrest)
    have hstop : Span.stop ⟨range.offset + juiceAlignJITSize size.toNat,
        range.size - juiceAlignJITSize size.toNat⟩ = range.stop := by
      show range.offset + _ + (range.size - _) = range.offset + range.size
      omega
    refine { h with separated := ?_, multiples := ?_, tiles := ?_, requested := hrequested }
    · exact hsep.shrink (Nat.le_add_right _ _) hstop
    · rw [multiples_append, multiples_cons] at hmul
      exact multiples_append.mpr ⟨hmul.1, multiples_cons.mpr
        ⟨⟨Nat.dvd_add hmr.1 hdvd, Nat.dvd_sub hmr.2 hdvd⟩, hmul.2.2⟩⟩
    · refine hparts.perm ((List.Perm.cons _ ?_).trans (hback _))
      rw [append_assoc, append_assoc, singleton_append, cons_append]
      exact perm_middle.symm

/-- **A range is given out**, or none is large enough. -/
theorem allocateRange_spec (h : pool.Sound) (haligned : juiceAlignJITSize size.toNat ≠ 0) :
    (allocateRange size.toNat (juiceAlignJITSize size.toNat) pool = (.none, pool)
        ∧ ∀ r ∈ pool.freeRanges, r.size < juiceAlignJITSize size.toNat)
      ∨ pool.Gives size (allocateRange size.toNat (juiceAlignJITSize size.toNat) pool) := by
  unfold allocateRange
  split
  · rename_i hnone
    refine .inl ⟨rfl, fun r hr => ?_⟩
    simpa using List.findIdx?_eq_none_iff.mp hnone r hr
  · rename_i index hsome
    obtain ⟨hlt, hlarge, -⟩ := List.findIdx?_eq_some_iff_getElem.mp hsome
    have hindex : pool.freeRanges[index]? = some pool.freeRanges[index] :=
      List.getElem?_eq_getElem hlt
    generalize pool.freeRanges[index] = range at hindex hlarge
    have hle : juiceAlignJITSize size.toNat ≤ range.size := by simpa using hlarge
    obtain ⟨l₁, l₂, hfree, -, hset, herase⟩ := Slots.exists_split hindex
    have hmem := mem_of_getElem? hindex
    have hpos := Nat.pos_of_ne_zero haligned
    have hstop : range.offset + juiceAlignJITSize size.toNat ≤ pool.size :=
      Nat.le_trans (Nat.add_le_add_left hle _) (h.tiles.stop_le (mem_append_left _ hmem))
    refine .inr ⟨range.offset, _, ?_, ⟨range, hmem, Nat.not_lt_of_le hle⟩, hstop,
      h.mapping_executable_ne (Nat.lt_of_lt_of_le (Nat.lt_add_of_pos_right hpos) hstop),
      h.give hfree hpos hle⟩
    rw [hindex]
    dsimp only
    rw [Nat.mod_eq_of_lt (Nat.lt_of_le_of_lt hstop h.size_lt), eraseIdx_set_eq, hset, herase]
    unfold leftOver
    split
    · rfl
    · rfl

/-- The offset of a mapping in the pool. -/
theorem JuiceJITPool.Sound.toNat_sub {w : UInt64} (hw : w.toNat + pool.size ≤ 2 ^ 64)
    (hlt : offset < pool.size) : ¬ w + .ofNat offset < w ∧ (w + .ofNat offset - w).toNat = offset := by
  have hadd := toNat_add hw hlt
  have hle : w ≤ w + .ofNat offset := by
    rw [UInt64.le_iff_toNat_le, hadd]
    exact Nat.le_add_right _ _
  refine ⟨fun hless => ?_, ?_⟩
  · rw [UInt64.lt_iff_toNat_lt, hadd] at hless
    omega
  · rw [UInt64.toNat_sub_of_le _ _ hle, hadd]
    exact Nat.add_sub_cancel_left _ _

/-- A mapping is where its offset says. -/
theorem mapping_of_offsets (hdual : mapping.dualMapped = true)
    (hsame : (mapping.writable - pool.writable).toNat
      = (mapping.executable - pool.executable).toNat) :
    mapping = pool.mapping (mapping.writable - pool.writable).toNat := by
  have hexec : mapping.executable - pool.executable = mapping.writable - pool.writable :=
    UInt64.toNat_inj.mp hsame.symm
  have hw : pool.writable + (mapping.writable - pool.writable) = mapping.writable := by grind
  have he : pool.executable + (mapping.writable - pool.writable) = mapping.executable := by
    rw [← hexec]
    grind
  unfold JuiceJITPool.mapping
  rw [UInt64.ofNat_toNat, hw, he, ← hdual]

/-- **A mapping is returned**, or it is none of those in use. -/
theorem juiceFreeJITMapping_spec (h : pool.Sound) (hexecutable : mapping.executable ≠ 0)
    (hdual : mapping.dualMapped = true) :
    (juiceFreeJITMapping mapping size pool = (false, pool) ∧ ¬ pool.Named mapping size)
      ∨ ∃ allocation offset freeRanges, pool.allocatedRanges[allocation]? = some ⟨offset, size.toNat⟩
        ∧ mapping = pool.mapping offset
        ∧ juiceFreeJITMapping mapping size pool
          = (true, { pool with
              freeRanges := freeRanges
              allocatedRanges := pool.allocatedRanges.eraseIdx allocation })
        ∧ JuiceJITPool.Sound { pool with
            freeRanges := freeRanges
            allocatedRanges := pool.allocatedRanges.eraseIdx allocation } := by
  unfold juiceFreeJITMapping
  rw [if_neg (by rw [hdual]; simpa using hexecutable)]
  dsimp only
  split
  · -- A mapping in use passes all of the checks.
    rename_i hfail
    refine .inl ⟨rfl, ?_⟩
    rintro ⟨r, hr, rfl, hsize⟩
    obtain ⟨hpos, hstop⟩ := h.rounded_stop_le hr
    rw [hsize] at hpos hstop
    have hlt : r.offset < pool.size := by omega
    obtain ⟨hw, hwoff⟩ := JuiceJITPool.Sound.toNat_sub h.writable_le hlt
    obtain ⟨he, heoff⟩ := JuiceJITPool.Sound.toNat_sub h.executable_le hlt
    unfold JuiceJITPool.mapping at hfail
    dsimp only at hfail
    rw [hwoff, heoff] at hfail
    rcases hfail with hz | hz | hz | hz | hz | hz | hz | hz
    · omega
    · exact h.writable_ne hz
    · exact h.executable_ne hz
    · exact hw hz
    · exact he hz
    · exact hz rfl
    · omega
    · omega
  · rename_i hpass
    have hsame : (mapping.writable - pool.writable).toNat
        = (mapping.executable - pool.executable).toNat := by
      by_contra hne
      exact hpass (by tauto)
    have hmapping := mapping_of_offsets hdual hsame
    split
    · rename_i hnone
      refine .inl ⟨rfl, ?_⟩
      rintro ⟨r, hr, heq, hsize⟩
      obtain ⟨hpos, hstop⟩ := h.rounded_stop_le hr
      have hlt : r.offset < pool.size := by omega
      have hoffset : (mapping.writable - pool.writable).toNat = r.offset := by
        rw [heq]
        exact (JuiceJITPool.Sound.toNat_sub h.writable_le hlt).2
      have hno := List.findIdx?_eq_none_iff.mp hnone r hr
      rw [hoffset] at hno
      exact absurd ⟨rfl, hsize⟩ (of_decide_eq_false hno)
    · rename_i allocation hsome
      obtain ⟨hlt, hfound, -⟩ := List.findIdx?_eq_some_iff_getElem.mp hsome
      have hat : pool.allocatedRanges[allocation]? = some pool.allocatedRanges[allocation] :=
        List.getElem?_eq_getElem hlt
      generalize pool.allocatedRanges[allocation] = r at hat hfound
      obtain ⟨hoffset, hsize⟩ := of_decide_eq_true hfound
      have hr : r ∈ pool.allocatedRanges := mem_of_getElem? hat
      obtain ⟨l₁, l₂, hsplit, -, -, herase⟩ := Slots.exists_split hat
      have hrange : rounded r = ⟨(mapping.writable - pool.writable).toNat,
          juiceAlignJITSize size.toNat⟩ := by
        unfold rounded
        rw [hoffset, hsize]
      have htiles : Tiles (rounded r :: (pool.freeRanges
          ++ (pool.allocatedRanges.eraseIdx allocation).map rounded)) pool.size := by
        refine h.tiles.perm ?_
        rw [herase, hsplit, map_append, map_append, map_cons, ← append_assoc,
          ← append_assoc]
        exact perm_middle
      rw [hrange] at htiles
      have hmul : 2 ^ 14 ∣ (mapping.writable - pool.writable).toNat
          ∧ 2 ^ 14 ∣ juiceAlignJITSize size.toNat :=
        ⟨hoffset ▸ (h.requested r hr).1, dvd_juiceAlignJITSize size.toNat_lt⟩
      obtain ⟨freeRanges, hinsert, hsep, htiles', hmul'⟩ :=
        insertRange_spec h.separated htiles h.size_lt h.multiples hmul
      refine .inr ⟨allocation, r.offset, freeRanges, ?_, ?_, ?_, ?_⟩
      · rw [hat, ← hsize]
      · rw [hoffset]
        exact hmapping
      · rw [hinsert]
      · exact ⟨h.writable_ne, h.executable_ne, h.writable_le, h.executable_le, hsep, hmul', htiles',
          fun r' hr' => h.requested r' (mem_of_mem_eraseIdx hr')⟩

end Calls

/-! ## Sequences of calls -/

/-- **The pool and the mappings that its callers have**, each with the size
that was requested. -/
structure Session where
  pool : JuiceJITPool
  live : List (JuiceJITMapping × UInt64)

/-- A call. -/
inductive PoolCall where
  | allocate (size : UInt64) (nt : NtAllocation)
  | free (mapping : JuiceJITMapping) (size : UInt64)

/-- A caller has the mapping that a call returns, until a call that returns
it succeeds. -/
def poolStep (reserveSize : ℕ) (s : Session) : PoolCall → Session
  | .allocate size nt =>
    let result := juiceAllocateJITMapping reserveSize nt size s.pool
    ⟨result.2, if result.1.executable = 0 then s.live else s.live ++ [(result.1, size)]⟩
  | .free mapping size =>
    let result := juiceFreeJITMapping mapping size s.pool
    ⟨result.2, if result.1 then s.live.erase (mapping, size) else s.live⟩

/-- A pool of `reserveSize` bytes at two addresses. -/
def initialPool (writable executable : UInt64) (reserveSize : ℕ) : JuiceJITPool :=
  (juiceInitializeJITPoolLocked reserveSize ⟨0, writable, executable⟩ ⟨0, 0, 0, [], []⟩).2

/-- **Sequences of calls** on a pool. -/
def poolMachine (writable executable : UInt64) (reserveSize : ℕ) : Machine Session PoolCall where
  start := ⟨initialPool writable executable reserveSize, []⟩
  step s call := some (poolStep reserveSize s call)

/-- What a caller has of a range in use. -/
def JuiceJITPool.entry (pool : JuiceJITPool) (range : Span) : JuiceJITMapping × UInt64 :=
  (pool.mapping range.offset, .ofNat range.size)

theorem JuiceJITPool.entry_ofSize (pool : JuiceJITPool) (offset : ℕ) (size : UInt64) :
    pool.entry ⟨offset, size.toNat⟩ = (pool.mapping offset, size) := by
  unfold JuiceJITPool.entry
  rw [UInt64.ofNat_toNat]

/-- **The pool has listed what its callers have.** -/
structure Live (s : Session) : Prop where
  sound : s.pool.Sound
  live : s.live.Perm (s.pool.allocatedRanges.map s.pool.entry)

section Runs

variable {s t : Session} {size : UInt64} {mapping : JuiceJITMapping} {nt : NtAllocation}
  {reserveSize : ℕ}

theorem Live.named_iff (h : Live s) : s.pool.Named mapping size ↔ (mapping, size) ∈ s.live := by
  rw [h.live.mem_iff, mem_map]
  refine exists_congr (fun r => and_congr_right (fun hr => ?_))
  have hsize : UInt64.ofNat r.size = size ↔ r.size = size.toNat := by
    rw [← UInt64.toNat_inj, UInt64.toNat_ofNat_of_lt' (h.sound.requested r hr).2]
  unfold JuiceJITPool.entry
  rw [Prod.mk.injEq, hsize, eq_comm]

/-- **A call to allocate.** -/
theorem Live.allocate (h : Live s) (reserveSize : ℕ) (nt : NtAllocation) (size : UInt64) :
    (juiceAllocateJITMapping reserveSize nt size s.pool = (.none, s.pool)
        ∧ (juiceAlignJITSize size.toNat = 0
          ∨ ∀ r ∈ s.pool.freeRanges, r.size < juiceAlignJITSize size.toNat))
      ∨ s.pool.Gives size (juiceAllocateJITMapping reserveSize nt size s.pool) := by
  unfold juiceAllocateJITMapping juiceInitializeJITPoolLocked
  dsimp only
  split
  · rename_i hzero
    exact .inl ⟨rfl, .inl hzero⟩
  · rename_i haligned
    rw [if_pos h.sound.executable_ne, if_pos rfl]
    rcases allocateRange_spec h.sound haligned with ⟨hnone, hall⟩ | hsome
    · exact .inl ⟨hnone, .inr hall⟩
    · exact .inr hsome

/-- What callers have is in the pool. -/
theorem Live.mapping_of_mem (h : Live s) (hmem : (mapping, size) ∈ s.live) :
    mapping.executable ≠ 0 ∧ mapping.dualMapped = true := by
  obtain ⟨r, hr, rfl, -⟩ := h.named_iff.mpr hmem
  obtain ⟨hpos, hstop⟩ := h.sound.rounded_stop_le hr
  exact ⟨h.sound.mapping_executable_ne (by omega), rfl⟩

/-- **Every call keeps the pool and its callers together.** -/
theorem Live.step (h : Live s) (call : PoolCall) : Live (poolStep reserveSize s call) := by
  cases call with
  | allocate size nt =>
    unfold poolStep
    dsimp only
    rcases h.allocate reserveSize nt size with
      ⟨hnone, -⟩ | ⟨offset, freeRanges, hsome, -, -, hne, hsound⟩
    · rw [hnone]
      exact ⟨h.sound, h.live⟩
    · rw [hsome, if_neg hne]
      refine ⟨hsound, ?_⟩
      have hentry := s.pool.entry_ofSize offset size
      show (s.live ++ [_]).Perm ((s.pool.allocatedRanges ++ [_]).map s.pool.entry)
      rw [map_append, map_singleton, hentry]
      exact h.live.append_right _
  | free mapping size =>
    unfold poolStep
    dsimp only
    by_cases hpassed : mapping.executable = 0 ∨ mapping.dualMapped = false
    · have hnot : (mapping, size) ∉ s.live := by
        intro hmem
        obtain ⟨hne, hdual⟩ := h.mapping_of_mem hmem
        exact hpassed.elim hne (fun hno => Bool.false_ne_true (hno.symm.trans hdual))
      unfold juiceFreeJITMapping
      rw [if_pos hpassed, if_pos rfl, erase_of_not_mem hnot]
      exact ⟨h.sound, h.live⟩
    · obtain ⟨hne, hdual⟩ := not_or.mp hpassed
      rw [Bool.not_eq_false] at hdual
      rcases juiceFreeJITMapping_spec h.sound hne hdual with
        ⟨hno, -⟩ | ⟨allocation, offset, freeRanges, hat, hmapping, hyes, hsound⟩
      · rw [hno, if_neg Bool.false_ne_true]
        exact ⟨h.sound, h.live⟩
      · rw [hyes, if_pos rfl]
        refine ⟨hsound, ?_⟩
        obtain ⟨l₁, l₂, hsplit, -, -, herase⟩ := Slots.exists_split hat
        have hentry := s.pool.entry_ofSize offset size
        rw [← hmapping] at hentry
        have hlive := h.live
        rw [hsplit, map_append, map_cons, hentry] at hlive
        show (s.live.erase _).Perm ((s.pool.allocatedRanges.eraseIdx allocation).map s.pool.entry)
        rw [herase, map_append]
        have hfront := (hlive.trans perm_middle).erase (mapping, size)
        rw [erase_cons_head] at hfront
        exact hfront

/-- The bases and the size of a pool stay as they are. -/
theorem poolStep_constant (h : Live s) (reserveSize : ℕ) (call : PoolCall) :
    (poolStep reserveSize s call).pool.writable = s.pool.writable
      ∧ (poolStep reserveSize s call).pool.executable = s.pool.executable
      ∧ (poolStep reserveSize s call).pool.size = s.pool.size := by
  cases call with
  | allocate size nt =>
    simp only [poolStep]
    rcases h.allocate reserveSize nt size with ⟨hnone, -⟩ | ⟨offset, freeRanges, hsome, -⟩
    · rw [hnone]
      exact ⟨rfl, rfl, rfl⟩
    · rw [hsome]
      exact ⟨rfl, rfl, rfl⟩
  | free mapping size =>
    simp only [poolStep]
    fun_cases juiceFreeJITMapping mapping size s.pool <;> exact ⟨rfl, rfl, rfl⟩

variable {writable executable : UInt64}

/-- What a pool needs to be one. -/
structure Reserved (writable executable : UInt64) (reserveSize : ℕ) : Prop where
  writable_ne : writable ≠ 0
  executable_ne : executable ≠ 0
  pos : 0 < reserveSize
  multiple : 2 ^ 14 ∣ reserveSize
  writable_le : writable.toNat + reserveSize ≤ 2 ^ 64
  executable_le : executable.toNat + reserveSize ≤ 2 ^ 64

/-- The pool that the translator reserves is one, wherever it is mapped. -/
theorem reserved_reserveSize (megabytes : Option ℕ) (hw : writable ≠ 0) (he : executable ≠ 0)
    (hwrite : writable.toNat + 2 ^ 30 ≤ 2 ^ 64) (hexec : executable.toNat + 2 ^ 30 ≤ 2 ^ 64) :
    Reserved writable executable (juiceJITPoolReserveSize megabytes) := by
  obtain ⟨hpos, hdvd, hle⟩ := juiceJITPoolReserveSize_spec megabytes
  exact ⟨hw, he, hpos, hdvd, Nat.le_trans (Nat.add_le_add_left hle _) hwrite,
    Nat.le_trans (Nat.add_le_add_left hle _) hexec⟩

theorem Reserved.initialPool_eq (h : Reserved writable executable reserveSize) :
    initialPool writable executable reserveSize
      = ⟨writable, executable, reserveSize, [⟨0, reserveSize⟩], []⟩ := by
  unfold initialPool juiceInitializeJITPoolLocked
  rw [if_neg (fun hne => hne rfl), if_neg]
  · rfl
  · rintro (hne | hw | he)
    · exact hne rfl
    · exact h.writable_ne hw
    · exact h.executable_ne he

theorem Reserved.live_start (h : Reserved writable executable reserveSize) :
    Live (poolMachine writable executable reserveSize).start := by
  show Live ⟨initialPool writable executable reserveSize, []⟩
  rw [h.initialPool_eq]
  refine ⟨⟨h.writable_ne, h.executable_ne, h.writable_le, h.executable_le,
    pairwise_singleton _ _, ?_, Tiles.single h.pos, ?_⟩, List.Perm.refl _⟩
  · exact forall_mem_singleton.mpr ⟨Nat.dvd_zero _, h.multiple⟩
  · exact fun _ hr => absurd hr not_mem_nil

/-- **The invariant holds after every sequence of calls.** -/
theorem Reserved.live (h : Reserved writable executable reserveSize)
    (hs : (poolMachine writable executable reserveSize).Reachable s) :
    Live s ∧ s.pool.writable = writable ∧ s.pool.executable = executable
      ∧ s.pool.size = reserveSize := by
  refine hs.invariant (I := fun s => Live s ∧ s.pool.writable = writable
    ∧ s.pool.executable = executable ∧ s.pool.size = reserveSize) ?_ ?_
  · refine ⟨h.live_start, ?_⟩
    show (initialPool writable executable reserveSize).writable = writable
      ∧ (initialPool writable executable reserveSize).executable = executable
      ∧ (initialPool writable executable reserveSize).size = reserveSize
    rw [h.initialPool_eq]
    exact ⟨rfl, rfl, rfl⟩
  · intro s call t _ ⟨hlive, hw, he, hsize⟩ hstep
    obtain rfl : poolStep reserveSize s call = t := Option.some.inj hstep
    obtain ⟨hw', he', hsize'⟩ := poolStep_constant hlive reserveSize call
    exact ⟨hlive.step call, hw'.trans hw, he'.trans he, hsize'.trans hsize⟩

/-- **Everything is returned**, in any order. -/
theorem Live.freeAll (h : Live s) (hpos : 0 < s.pool.size) {l : List (JuiceJITMapping × UInt64)}
    (hl : l.Perm s.live) :
    ((l.map (fun p => PoolCall.free p.1 p.2)).foldl (poolStep reserveSize) s).pool.freeRanges
      = [⟨0, s.pool.size⟩] := by
  induction l generalizing s with
  | nil =>
    have hnone : s.pool.allocatedRanges.map s.pool.entry = [] :=
      perm_nil.mp (hl.trans h.live).symm
    have htiles := h.sound.tiles
    rw [map_eq_nil_iff.mp hnone, map_nil, append_nil] at htiles
    exact h.sound.separated.eq_single htiles hpos
  | cons p l ih =>
    obtain ⟨mapping, size⟩ := p
    have hmem : (mapping, size) ∈ s.live := hl.mem_iff.mp mem_cons_self
    obtain ⟨hne, hdual⟩ := h.mapping_of_mem hmem
    have hconst := (poolStep_constant h reserveSize (.free mapping size)).2.2
    rw [map_cons, foldl_cons, ← hconst]
    refine ih (h.step _) (hconst ▸ hpos) ?_
    rcases juiceFreeJITMapping_spec h.sound hne hdual with
      ⟨-, hno⟩ | ⟨allocation, offset, freeRanges, hat, hmapping, hyes, hsound⟩
    · exact absurd (h.named_iff.mpr hmem) hno
    · show l.Perm (if (juiceFreeJITMapping mapping size s.pool).1 then _ else _)
      rw [hyes, if_pos rfl]
      have herase := hl.erase (mapping, size)
      rw [erase_cons_head] at herase
      exact herase

/-- **The pool after every sequence of calls.** -/
structure Partitioned (pool : JuiceJITPool) : Prop where
  /-- The free ranges are in order, and no two touch. -/
  sorted : Separated pool.freeRanges
  nonempty : ∀ r ∈ pool.freeRanges, 0 < r.size
  aligned : Multiples (2 ^ 14) pool.freeRanges
  inside : ∀ r ∈ pool.freeRanges, r.stop ≤ pool.size
  /-- With the ranges in use, rounded, they are the pool. -/
  tiles : Tiles (pool.freeRanges ++ pool.allocatedRanges.map rounded) pool.size

theorem JuiceJITPool.Sound.partitioned {pool : JuiceJITPool} (h : pool.Sound) :
    Partitioned pool where
  sorted := h.separated
  nonempty r hr := h.tiles.nonempty r (mem_append_left _ hr)
  aligned := h.multiples
  inside _ hr := h.tiles.stop_le (mem_append_left _ hr)
  tiles := h.tiles

/-- A call to allocate is refused for its size, or for want of a range. -/
theorem Live.allocate_eq_none_iff (h : Live s) (reserveSize : ℕ) (nt : NtAllocation)
    (size : UInt64) :
    (juiceAllocateJITMapping reserveSize nt size s.pool).1 = .none
      ↔ (size = 0 ∨ 2 ^ 64 ≤ size.toNat + (2 ^ 14 - 1)
        ∨ ∀ r ∈ s.pool.freeRanges, r.size < (size.toNat + (2 ^ 14 - 1)) / 2 ^ 14 * 2 ^ 14) := by
  rw [← or_assoc, ← juiceAlignJITSize_eq_zero_iff]
  by_cases hzero : juiceAlignJITSize size.toNat = 0
  · refine iff_of_true ?_ (.inl hzero)
    unfold juiceAllocateJITMapping
    rw [if_pos hzero]
  · have hfits : size.toNat + (2 ^ 14 - 1) < 2 ^ 64 := by
      by_contra hbig
      exact hzero (juiceAlignJITSize_eq_zero_iff.mpr (.inr (Nat.le_of_not_lt hbig)))
    have hround := juiceAlignJITSize_eq size.toNat_lt
    rw [if_pos hfits] at hround
    rw [or_iff_right hzero, ← hround]
    rcases h.allocate reserveSize nt size with
      ⟨hnone, hwhy⟩ | ⟨offset, freeRanges, hsome, ⟨r, hr, hlarge⟩, -, hne, -⟩
    · rw [hnone]
      exact iff_of_true rfl (hwhy.resolve_left hzero)
    · rw [hsome]
      exact iff_of_false (fun hnone => hne (congrArg JuiceJITMapping.executable hnone))
        (fun hall => hlarge (hall r hr))

/-- **The pool of executable memory.** After every sequence of calls the free
ranges are in order, joined and aligned, and tile the pool together with the
ranges in use. A call to allocate is refused for its size alone, or because
no free range is large enough, and what it returns is at one offset of both
mappings and apart from all that callers have. A call to free succeeds for
what a caller has, with the size that was requested, and for nothing else.
What is refused leaves the pool as it is, and once everything is returned
the pool is one free range. -/
theorem jitPool_of_reachable (h : Reserved writable executable reserveSize)
    (hs : (poolMachine writable executable reserveSize).Reachable s) :
    Partitioned s.pool ∧ s.pool.size = reserveSize
    ∧ (∀ nt size, ((juiceAllocateJITMapping reserveSize nt size s.pool).1 = .none
        ↔ (size = 0 ∨ 2 ^ 64 ≤ size.toNat + (2 ^ 14 - 1)
          ∨ ∀ r ∈ s.pool.freeRanges, r.size < (size.toNat + (2 ^ 14 - 1)) / 2 ^ 14 * 2 ^ 14))
      ∧ ((juiceAllocateJITMapping reserveSize nt size s.pool).1 = .none →
          (juiceAllocateJITMapping reserveSize nt size s.pool).2 = s.pool)
      ∧ ((juiceAllocateJITMapping reserveSize nt size s.pool).1 ≠ .none →
          ∃ offset, offset + juiceAlignJITSize size.toNat ≤ reserveSize
            ∧ (juiceAllocateJITMapping reserveSize nt size s.pool).1
              = ⟨writable + .ofNat offset, executable + .ofNat offset, true⟩
            ∧ ∀ p ∈ s.live, ∃ offset', p.1 = ⟨writable + .ofNat offset',
                executable + .ofNat offset', true⟩
              ∧ Span.Apart ⟨offset, juiceAlignJITSize size.toNat⟩
                  ⟨offset', juiceAlignJITSize p.2.toNat⟩))
    ∧ (∀ mapping size, mapping.executable ≠ 0 → mapping.dualMapped = true →
        ((juiceFreeJITMapping mapping size s.pool).1 = true ↔ (mapping, size) ∈ s.live)
        ∧ ((juiceFreeJITMapping mapping size s.pool).1 = false →
          (juiceFreeJITMapping mapping size s.pool).2 = s.pool))
    ∧ ∀ l, List.Perm l s.live →
        ((l.map (fun p => PoolCall.free p.1 p.2)).foldl (poolStep reserveSize) s).pool.freeRanges
          = [⟨0, reserveSize⟩] := by
  obtain ⟨hlive, hw, he, hsize⟩ := h.live hs
  refine ⟨hlive.sound.partitioned, hsize, fun nt size => ?_, ?_, ?_⟩
  · refine ⟨hlive.allocate_eq_none_iff reserveSize nt size, ?_⟩
    rcases hlive.allocate reserveSize nt size with
      ⟨hnone, -⟩ | ⟨offset, freeRanges, hsome, -, hstop, hne, hsound⟩
    · rw [hnone]
      exact ⟨fun _ => rfl, fun hne => absurd rfl hne⟩
    · rw [hsome]
      refine ⟨fun hnone => absurd (congrArg JuiceJITMapping.executable hnone) hne, fun _ => ?_⟩
      refine ⟨offset, hsize ▸ hstop, by rw [← hw, ← he]; rfl, fun p hp => ?_⟩
      obtain ⟨r, hr, hmapping, hrsize⟩ := hlive.named_iff.mpr hp
      refine ⟨r.offset, by rw [hmapping, ← hw, ← he]; rfl, ?_⟩
      have hapart := (pairwise_append.mp hsound.tiles.apart).2.1
      change ((s.pool.allocatedRanges ++ [_]).map rounded).Pairwise Span.Apart at hapart
      rw [map_append] at hapart
      have hnew := (pairwise_append.mp hapart).2.2 _ (mem_map.mpr ⟨r, hr, rfl⟩) _
        (mem_singleton_self _)
      rw [← hrsize]
      exact Span.Apart.symm hnew
  · intro mapping size hne hdual
    rw [← hlive.named_iff]
    rcases juiceFreeJITMapping_spec hlive.sound hne hdual with
      ⟨hno, hnot⟩ | ⟨allocation, offset, freeRanges, hat, hmapping, hyes, -⟩
    · rw [hno]
      exact ⟨iff_of_false Bool.false_ne_true hnot, fun _ => rfl⟩
    · rw [hyes]
      refine ⟨iff_of_true rfl ?_, fun hno => absurd hno.symm Bool.false_ne_true⟩
      exact ⟨_, mem_of_getElem? hat, hmapping, rfl⟩
  · intro l hl
    rw [← hsize]
    exact hlive.freeAll (hsize ▸ h.pos) hl

/-- Three mappings are made and the second is returned, after a call with
another size and one with an address inside of it. -/
def threeMappings : List PoolCall :=
  [.allocate 20000 ⟨1, 0, 0⟩, .allocate 1 ⟨1, 0, 0⟩, .allocate 16384 ⟨1, 0, 0⟩,
    .free ⟨0x100008000, 0x200008000, true⟩ 2, .free ⟨0x100008001, 0x200008001, true⟩ 1,
    .free ⟨0x100008000, 0x200008000, true⟩ 1]

theorem jitPool_threeMappings : ∃ s,
    (poolMachine 0x100000000 0x200000000 (juiceJITPoolReserveSize (some 256))).run threeMappings
        = some s
      ∧ s.pool.freeRanges = [⟨0x8000, 0x4000⟩, ⟨0x10000, 0xfff0000⟩]
      ∧ s.live = [(⟨0x100000000, 0x200000000, true⟩, 20000),
          (⟨0x10000c000, 0x20000c000, true⟩, 16384)]
      ∧ Partitioned s.pool := by
  obtain ⟨s, hs, hfree, hlive⟩ : ∃ s,
      (poolMachine 0x100000000 0x200000000 (juiceJITPoolReserveSize (some 256))).run threeMappings
        = some s
      ∧ s.pool.freeRanges = [⟨0x8000, 0x4000⟩, ⟨0x10000, 0xfff0000⟩]
      ∧ s.live = [(⟨0x100000000, 0x200000000, true⟩, 20000),
        (⟨0x10000c000, 0x20000c000, true⟩, 16384)] := by
    decide +kernel
  have hreserved := reserved_reserveSize (some 256) (show (0x100000000 : UInt64) ≠ 0 by decide)
    (show (0x200000000 : UInt64) ≠ 0 by decide) (by decide) (by decide)
  exact ⟨s, hs, hfree, hlive, (jitPool_of_reachable hreserved (.of_run hs)).1⟩

end Runs

end Juice.Jit
