import Juice.Lib.Align
import Juice.Lib.Machine
import Juice.Lib.Slots
import Juice.Lib.Tiling

/-!
# The pool of executable memory

Once the debugger is gone no executable memory can be had, so the translator
reserves it all beforehand, mapped twice, to write and to execute, and gives
it out in multiples of 16 KiB. The free ranges are in order and joined, a
request is given the beginning of the first range that is large enough, and
what is returned is put back between its neighbours and joined with them.

Ranges in use are listed with the size that was requested. What is returned
has to be one of them to the byte: that it lies inside of what was given out
is not enough.

Sizes and offsets are numbers here, and sums of them are taken modulo 2⁶⁴ as
they are in the source; addresses are words. The model is of a process in
which StikDebug is enabled.
-/

namespace Juice.Jit

open List Tiling

/-! ## The pool -/

/-- `JuiceJITMapping`. -/
structure JuiceJITMapping where
  writable : UInt64
  executable : UInt64
  dualMapped : Bool
  deriving DecidableEq, Repr

/-- `JuiceJITPoolState`, without the lock. -/
structure JuiceJITPool where
  writable : UInt64
  executable : UInt64
  size : ℕ
  freeRanges : List Span
  allocatedRanges : List Span
  deriving DecidableEq, Repr

/-- The mapping of no memory. -/
def JuiceJITMapping.none : JuiceJITMapping := ⟨0, 0, false⟩

/-- The memory at an offset of the pool. -/
def JuiceJITPool.mapping (pool : JuiceJITPool) (offset : ℕ) : JuiceJITMapping :=
  ⟨pool.writable + .ofNat offset, pool.executable + .ofNat offset, true⟩

/-- `JuiceAlignJITSize`. -/
def juiceAlignJITSize (size : ℕ) : ℕ :=
  if 2 ^ 64 - 1 - (2 ^ 14 - 1) < size then 0
  else (size + (2 ^ 14 - 1)) &&& (2 ^ 64 - 1 - (2 ^ 14 - 1))

/-- `JuiceJITPoolReserveSize`, by the number that `JUICE_STIKDEBUG_JIT_POOL_MB`
is, if it is set and a number. -/
def juiceJITPoolReserveSize (megabytes : Option ℕ) : ℕ :=
  match megabytes with
  | none => 384 * 2 ^ 20
  | some megabytes =>
    if megabytes < 256 ∨ 1024 < megabytes then 384 * 2 ^ 20 else megabytes * 2 ^ 20

/-- What `NtWineAllocateJitMemory` returns. -/
structure NtAllocation where
  status : UInt32
  writable : UInt64
  executable : UInt64

/-- `JuiceInitializeJITPoolLocked`. -/
def juiceInitializeJITPoolLocked (reserveSize : ℕ) (nt : NtAllocation) (pool : JuiceJITPool) :
    Bool × JuiceJITPool :=
  if pool.executable ≠ 0 then (true, pool)
  else if nt.status ≠ 0 ∨ nt.writable = 0 ∨ nt.executable = 0 then (false, pool)
  else (true, { pool with
    writable := nt.writable
    executable := nt.executable
    size := reserveSize
    freeRanges := pool.freeRanges ++ [⟨0, reserveSize⟩] })

/-- The loop of `JuiceAllocateJITMapping`. -/
def allocateRange (size alignedSize : ℕ) (pool : JuiceJITPool) : JuiceJITMapping × JuiceJITPool :=
  match pool.freeRanges.findIdx? (fun range => ¬ range.size < alignedSize) with
  | none => (.none, pool)
  | some index =>
    match pool.freeRanges[index]? with
    | none => (.none, pool)
    | some range =>
      let rest : Span := ⟨(range.offset + alignedSize) % 2 ^ 64, range.size - alignedSize⟩
      let freeRanges := pool.freeRanges.set index rest
      (pool.mapping range.offset, { pool with
        freeRanges := if rest.size = 0 then freeRanges.eraseIdx index else freeRanges
        allocatedRanges := pool.allocatedRanges ++ [⟨range.offset, size⟩] })

/-- **`JuiceAllocateJITMapping`.** -/
def juiceAllocateJITMapping (reserveSize : ℕ) (nt : NtAllocation) (size : UInt64)
    (pool : JuiceJITPool) : JuiceJITMapping × JuiceJITPool :=
  let alignedSize := juiceAlignJITSize size.toNat
  if alignedSize = 0 then (.none, pool)
  else
    let initialized := juiceInitializeJITPoolLocked reserveSize nt pool
    if initialized.1 then allocateRange size.toNat alignedSize initialized.2
    else (.none, initialized.2)

/-- Two free ranges touch, that at `index` and the next one. -/
def touches (freeRanges : List Span) (index : ℕ) : Bool :=
  freeRanges[index]?.any (fun range => freeRanges[index + 1]?.any (fun next =>
    (range.offset + range.size) % 2 ^ 64 = next.offset))

/-- The range at `index` is extended by the next one. -/
def joinAt (freeRanges : List Span) (index : ℕ) : List Span :=
  match freeRanges[index]?, freeRanges[index + 1]? with
  | some range, some next =>
    (freeRanges.set index ⟨range.offset, (range.size + next.size) % 2 ^ 64⟩).eraseIdx (index + 1)
  | _, _ => freeRanges

/-- A range at `index` is joined with the one before it. -/
def joinBefore (freeRanges : List Span) (index : ℕ) : List Span × ℕ :=
  if index ≠ 0 ∧ touches freeRanges (index - 1) then (joinAt freeRanges (index - 1), index - 1)
  else (freeRanges, index)

/-- And with the one behind it. -/
def joinBehind (freeRanges : List Span) (index : ℕ) : List Span :=
  if touches freeRanges index then joinAt freeRanges index else freeRanges

/-- A range is put back. -/
def insertRange (freeRanges : List Span) (range : Span) : Option (List Span) :=
  let index := freeRanges.findIdx (fun r => ¬ r.offset < range.offset)
  if index ≠ 0 ∧ freeRanges[index - 1]?.any (fun r =>
      range.offset < (r.offset + r.size) % 2 ^ 64) then none
  else if freeRanges[index]?.any (fun r => r.offset < (range.offset + range.size) % 2 ^ 64) then
    none
  else
    let joined := joinBefore (freeRanges.insertIdx index range) index
    some (joinBehind joined.1 joined.2)

/-- **`JuiceFreeJITMapping`.** -/
def juiceFreeJITMapping (mapping : JuiceJITMapping) (size : UInt64) (pool : JuiceJITPool) :
    Bool × JuiceJITPool :=
  -- What was not mapped twice goes to `VirtualFree`.
  if mapping.executable = 0 ∨ mapping.dualMapped = false then (true, pool)
  else
    let alignedSize := juiceAlignJITSize size.toNat
    let writeOffset := (mapping.writable - pool.writable).toNat
    let execOffset := (mapping.executable - pool.executable).toNat
    if alignedSize = 0 ∨ pool.writable = 0 ∨ pool.executable = 0
        ∨ mapping.writable < pool.writable ∨ mapping.executable < pool.executable
        ∨ writeOffset ≠ execOffset ∨ pool.size < writeOffset
        ∨ pool.size - writeOffset < alignedSize then (false, pool)
    else
      match pool.allocatedRanges.findIdx? (fun r => r.offset = writeOffset ∧ r.size = size.toNat) with
      | none => (false, pool)
      | some allocation =>
        match insertRange pool.freeRanges ⟨writeOffset, alignedSize⟩ with
        | none => (false, pool)
        | some freeRanges => (true, { pool with
            freeRanges := freeRanges
            allocatedRanges := pool.allocatedRanges.eraseIdx allocation })

/-! ## Sizes -/

/-- **The pool is not empty**, and a multiple of what is given out. -/
theorem juiceJITPoolReserveSize_spec (megabytes : Option ℕ) :
    0 < juiceJITPoolReserveSize megabytes ∧ 2 ^ 14 ∣ juiceJITPoolReserveSize megabytes
      ∧ juiceJITPoolReserveSize megabytes ≤ 2 ^ 30 := by
  unfold juiceJITPoolReserveSize
  split
  · decide
  · split
    · decide
    · omega

/-- **The size that is given out** is the requested one, rounded up to 16 KiB,
if that is a word. -/
theorem juiceAlignJITSize_eq {size : ℕ} (h : size < 2 ^ 64) :
    juiceAlignJITSize size
      = if size + (2 ^ 14 - 1) < 2 ^ 64 then (size + (2 ^ 14 - 1)) / 2 ^ 14 * 2 ^ 14 else 0 := by
  unfold juiceAlignJITSize
  split
  · rw [if_neg (by omega)]
  · rw [if_pos (by omega)]
    exact Align.and_mask_eq (by omega) (by decide)

/-- There is nothing to give out for no bytes, or for too many. -/
theorem juiceAlignJITSize_eq_zero_iff {size : UInt64} :
    juiceAlignJITSize size.toNat = 0 ↔ size = 0 ∨ 2 ^ 64 ≤ size.toNat + (2 ^ 14 - 1) := by
  rw [juiceAlignJITSize_eq size.toNat_lt, ← UInt64.toNat_inj]
  show _ ↔ size.toNat = 0 ∨ _
  split
  · omega
  · omega

theorem dvd_juiceAlignJITSize {size : ℕ} (h : size < 2 ^ 64) : 2 ^ 14 ∣ juiceAlignJITSize size := by
  rw [juiceAlignJITSize_eq h]
  split
  · exact Nat.dvd_mul_left _ _
  · exact Nat.dvd_zero _

/-! ## Putting a range back -/

section Insert

variable {l l₁ l₂ rest : List Span} {new a b : Span} {n : ℕ} {d : ℕ}

theorem touches_cons (l₁ l₂ : List Span) (a b : Span) :
    touches (l₁ ++ a :: b :: l₂) l₁.length = decide ((a.offset + a.size) % 2 ^ 64 = b.offset) := by
  have hnext : (l₁ ++ a :: b :: l₂)[l₁.length + 1]? = some b := by
    rw [append_cons, List.getElem?_append_right (by simp)]
    simp
  unfold touches
  rw [List.getElem?_append_right (Nat.le_refl _), Nat.sub_self, hnext]
  rfl

theorem touches_last (l₁ : List Span) (a : Span) : touches (l₁ ++ [a]) l₁.length = false := by
  have hnone : (l₁ ++ [a])[l₁.length + 1]? = none := List.getElem?_eq_none (by simp)
  unfold touches
  rw [List.getElem?_append_right (Nat.le_refl _), Nat.sub_self, hnone]
  rfl

theorem joinAt_cons (l₁ l₂ : List Span) (a b : Span) :
    joinAt (l₁ ++ a :: b :: l₂) l₁.length
      = l₁ ++ ⟨a.offset, (a.size + b.size) % 2 ^ 64⟩ :: l₂ := by
  have hfirst : (l₁ ++ a :: b :: l₂)[l₁.length]? = some a := by simp
  have hnext : (l₁ ++ a :: b :: l₂)[l₁.length + 1]? = some b := by
    rw [append_cons, List.getElem?_append_right (by simp)]
    simp
  unfold joinAt
  rw [hfirst, hnext]
  show (List.set _ _ _).eraseIdx _ = _
  rw [set_append_right _ _ (Nat.le_refl _), Nat.sub_self,
    eraseIdx_append_of_length_le (Nat.le_add_right _ _), Nat.add_sub_cancel_left]
  rfl

/-- Every range begins at a multiple of `d` and is one. -/
def Multiples (d : ℕ) (l : List Span) : Prop := ∀ r ∈ l, d ∣ r.offset ∧ d ∣ r.size

theorem multiples_append :
    Multiples d (l₁ ++ l₂) ↔ Multiples d l₁ ∧ Multiples d l₂ := forall_mem_append

theorem multiples_cons :
    Multiples d (a :: l) ↔ (d ∣ a.offset ∧ d ∣ a.size) ∧ Multiples d l := forall_mem_cons

/-- A range behind the ranges `l₁` and before `l₂`, and its neighbours. -/
structure Placed (d n : ℕ) (rest l₁ : List Span) (new : Span) (l₂ : List Span) : Prop where
  separated : Separated (l₁ ++ l₂)
  tiles : Tiles (l₁ ++ new :: (l₂ ++ rest)) n
  multiples : Multiples d (l₁ ++ new :: l₂)

theorem Placed.size_lt (h : Placed d n rest l₁ new l₂) (hn : n < 2 ^ 64)
    (ha : a ∈ l₁ ++ new :: (l₂ ++ rest)) : (a.offset + a.size) % 2 ^ 64 = a.stop :=
  Nat.mod_eq_of_lt (Nat.lt_of_le_of_lt (h.tiles.stop_le ha) hn)

/-- **A range is joined with the one before it**, and then it touches none of
those before. -/
theorem joinBefore_spec (h : Placed d n rest l₁ new l₂) (hn : n < 2 ^ 64)
    (hbefore : ∀ r ∈ l₁, r.stop ≤ new.offset) :
    ∃ l₁' new', joinBefore (l₁ ++ new :: l₂) l₁.length = (l₁' ++ new' :: l₂, l₁'.length)
      ∧ Placed d n rest l₁' new' l₂ ∧ (∀ r ∈ l₁', r.stop < new'.offset)
      ∧ new'.stop = new.stop := by
  induction l₁ using List.reverseRecOn with
  | nil => exact ⟨[], new, rfl, h, fun _ hr => absurd hr not_mem_nil, rfl⟩
  | append_singleton l p _ =>
    have hlist : l ++ [p] ++ new :: l₂ = l ++ p :: new :: l₂ := by
      rw [append_assoc, singleton_append]
    have htiles : Tiles (l ++ p :: new :: (l₂ ++ rest)) n := by
      have := h.tiles
      rw [append_assoc, singleton_append] at this
      exact this
    have hsep : Separated (l ++ p :: l₂) := by
      have := h.separated
      rw [append_assoc, singleton_append] at this
      exact this
    have hp : p.stop ≤ new.offset :=
      hbefore p (mem_append_right _ (mem_singleton_self p))
    have hstop := h.size_lt hn (mem_append_left _
      (mem_append_right _ (mem_singleton_self p)))
    obtain ⟨hl, hpl, hcross⟩ := pairwise_append.mp hsep
    have hlp : ∀ r ∈ l, r.stop < p.offset := fun r hr => hcross r hr p mem_cons_self
    unfold joinBefore
    rw [hlist, length_append, length_singleton, Nat.add_sub_cancel, touches_cons, hstop]
    by_cases htouch : p.stop = new.offset
    · have hjoined := htiles.join_middle htouch
      have hsize : (p.size + new.size) % 2 ^ 64 = p.size + new.size := by
        refine Nat.mod_eq_of_lt (Nat.lt_of_le_of_lt ?_ hn)
        exact Nat.le_trans (Nat.le_add_left _ _)
          (hjoined.stop_le (mem_append_right _ mem_cons_self))
      rw [if_pos ⟨Nat.succ_ne_zero _, decide_eq_true htouch⟩, joinAt_cons, hsize]
      refine ⟨l, ⟨p.offset, p.size + new.size⟩, rfl, ⟨?_, hjoined, ?_⟩, hlp, ?_⟩
      · exact hsep.sublist (List.Sublist.append_left (sublist_cons_self _ _) _)
      · have hall := h.multiples
        rw [hlist, multiples_append, multiples_cons, multiples_cons] at hall
        rw [multiples_append, multiples_cons]
        exact ⟨hall.1, ⟨hall.2.1.1, Nat.dvd_add hall.2.1.2 hall.2.2.1.2⟩, hall.2.2.2⟩
      · show p.offset + (p.size + new.size) = new.offset + new.size
        rw [← htouch, ← Nat.add_assoc]
        rfl
    · rw [if_neg (fun hand => htouch (of_decide_eq_true hand.2)), ← hlist]
      exact ⟨l ++ [p], new, by rw [length_append, length_singleton], h,
        Slots.forall_mem_concat (fun r hr => Nat.lt_of_lt_of_le (hlp r hr)
          (Nat.le_trans (Nat.le_add_right _ _) hp)) (Nat.lt_of_le_of_ne hp htouch), rfl⟩

/-- **A range is joined with the one behind it**, and the ranges are in order. -/
theorem joinBehind_spec (h : Placed d n rest l₁ new l₂) (hn : n < 2 ^ 64)
    (hbefore : ∀ r ∈ l₁, r.stop < new.offset) (hbehind : ∀ r ∈ l₂, new.stop ≤ r.offset) :
    Separated (joinBehind (l₁ ++ new :: l₂) l₁.length)
      ∧ Tiles (joinBehind (l₁ ++ new :: l₂) l₁.length ++ rest) n
      ∧ Multiples d (joinBehind (l₁ ++ new :: l₂) l₁.length) := by
  have hstop := h.size_lt hn (mem_append_right _ mem_cons_self)
  unfold joinBehind
  cases l₂ with
  | nil =>
    rw [touches_last, if_neg Bool.false_ne_true]
    refine ⟨pairwise_append.mpr ⟨?_, pairwise_singleton _ _, ?_⟩, ?_, h.multiples⟩
    · exact (pairwise_append.mp h.separated).1
    · intro r hr t ht
      rw [mem_singleton.mp ht]
      exact hbefore r hr
    · rw [append_assoc]
      exact h.tiles
  | cons q l₂ =>
    obtain ⟨hl₁, hql₂, hcross⟩ := pairwise_append.mp h.separated
    obtain ⟨hq, hl₂⟩ := pairwise_cons.mp hql₂
    have hnq : new.stop ≤ q.offset := hbehind q mem_cons_self
    rw [touches_cons, hstop]
    by_cases htouch : new.stop = q.offset
    · have hjoined : Tiles (l₁ ++ ⟨new.offset, new.size + q.size⟩ :: (l₂ ++ rest)) n :=
        h.tiles.join_middle htouch
      have hsize : (new.size + q.size) % 2 ^ 64 = new.size + q.size := by
        refine Nat.mod_eq_of_lt (Nat.lt_of_le_of_lt ?_ hn)
        exact Nat.le_trans (Nat.le_add_left _ _)
          (hjoined.stop_le (mem_append_right _ mem_cons_self))
      have hend : Span.stop ⟨new.offset, new.size + q.size⟩ = q.stop := by
        show new.offset + (new.size + q.size) = q.offset + q.size
        rw [← htouch, ← Nat.add_assoc]
        rfl
      rw [if_pos (decide_eq_true htouch), joinAt_cons, hsize]
      refine ⟨pairwise_append.mpr ⟨hl₁, pairwise_cons.mpr ⟨?_, hl₂⟩, ?_⟩, ?_, ?_⟩
      · intro t ht
        rw [hend]
        exact hq t ht
      · intro r hr
        exact forall_mem_cons.mpr
          ⟨hbefore r hr, fun t ht => hcross r hr t (mem_cons_of_mem _ ht)⟩
      · rw [append_assoc]
        exact hjoined
      · have hall := h.multiples
        rw [multiples_append, multiples_cons, multiples_cons] at hall
        rw [multiples_append, multiples_cons]
        exact ⟨hall.1, ⟨hall.2.1.1, Nat.dvd_add hall.2.1.2 hall.2.2.1.2⟩, hall.2.2.2⟩
    · rw [if_neg (fun hand => htouch (of_decide_eq_true hand))]
      have hlt : new.stop < q.offset := Nat.lt_of_le_of_ne hnq htouch
      refine ⟨pairwise_append.mpr ⟨hl₁, pairwise_cons.mpr ⟨?_, hql₂⟩, ?_⟩, ?_,
        h.multiples⟩
      · refine forall_mem_cons.mpr ⟨hlt, fun t ht => ?_⟩
        exact Nat.lt_trans hlt (Nat.lt_of_le_of_lt (Nat.le_add_right _ _) (hq t ht))
      · intro r hr
        exact forall_mem_cons.mpr ⟨hbefore r hr, hcross r hr⟩
      · rw [append_assoc]
        exact h.tiles

/-- **A range that is apart from the free ones is put back among them.** -/
theorem insertRange_spec (hsep : Separated l) (htiles : Tiles (new :: (l ++ rest)) n)
    (hn : n < 2 ^ 64) (hl : Multiples d l) (hnew : d ∣ new.offset ∧ d ∣ new.size) :
    ∃ l', insertRange l new = some l' ∧ Separated l' ∧ Tiles (l' ++ rest) n ∧ Multiples d l' := by
  obtain ⟨l₁, l₂, rfl, hindex, hfirst, hthen⟩ :=
    Slots.exists_split_findIdx (fun r => decide (¬ r.offset < new.offset)) l
  have hplaced : Placed d n rest l₁ new l₂ := by
    refine ⟨hsep, htiles.perm ?_, ?_⟩
    · rw [append_assoc]
      exact perm_middle.symm
    · rw [multiples_append] at hl
      exact multiples_append.mpr ⟨hl.1, multiples_cons.mpr ⟨hnew, hl.2⟩⟩
  have hapart : ∀ r ∈ l₁ ++ l₂, new.Apart r := fun r hr =>
    (pairwise_cons.mp htiles.apart).1 r (mem_append_left _ hr)
  have hpos : ∀ r ∈ l₁ ++ l₂, 0 < r.size := fun r hr =>
    htiles.nonempty r (mem_cons_of_mem _ (mem_append_left _ hr))
  have hnewpos : 0 < new.size := htiles.nonempty new mem_cons_self
  have hbefore : ∀ r ∈ l₁, r.stop ≤ new.offset := by
    intro r hr
    have hlt : r.offset < new.offset := by simpa using hfirst r hr
    have hor := hapart r (mem_append_left _ hr)
    unfold Span.Apart Span.stop at hor
    unfold Span.stop
    omega
  have hbehind : ∀ r ∈ l₂, new.stop ≤ r.offset := by
    intro r hr
    have hle : new.offset ≤ r.offset := by
      cases l₂ with
      | nil => exact absurd hr not_mem_nil
      | cons q l₂ =>
        have hq : new.offset ≤ q.offset := by simpa using hthen q l₂ rfl
        rcases mem_cons.mp hr with rfl | hr
        · exact hq
        · have hgap := (pairwise_cons.mp (pairwise_append.mp hsep).2.1).1 r hr
          exact Nat.le_trans hq (Nat.le_of_lt (Nat.lt_of_le_of_lt (Nat.le_add_right _ _) hgap))
    have hor := hapart r (mem_append_right _ hr)
    have hsize := hpos r (mem_append_right _ hr)
    unfold Span.Apart Span.stop at hor
    unfold Span.stop
    omega
  have hleft : ¬ (l₁.length ≠ 0 ∧ (l₁ ++ l₂)[l₁.length - 1]?.any (fun r =>
      decide (new.offset < (r.offset + r.size) % 2 ^ 64)) = true) := by
    rintro ⟨hne, hany⟩
    obtain ⟨r, hr, hover⟩ := (Option.any_eq_true _ _).mp hany
    rw [List.getElem?_append_left (Nat.sub_one_lt hne)] at hr
    have hmem := mem_of_getElem? hr
    rw [hplaced.size_lt hn (mem_append_left _ hmem)] at hover
    exact absurd (hbefore r hmem) (Nat.not_le_of_lt (of_decide_eq_true hover))
  have hright : ¬ (l₁ ++ l₂)[l₁.length]?.any (fun r =>
      decide (r.offset < (new.offset + new.size) % 2 ^ 64)) = true := by
    intro hany
    obtain ⟨r, hr, hover⟩ := (Option.any_eq_true _ _).mp hany
    rw [List.getElem?_append_right (Nat.le_refl _)] at hr
    rw [hplaced.size_lt hn (mem_append_right _ mem_cons_self)] at hover
    exact absurd (hbehind r (mem_of_getElem? hr)) (Nat.not_le_of_lt (of_decide_eq_true hover))
  obtain ⟨l₁', new', hjoined, hplaced', hstrict, hstop⟩ := joinBefore_spec hplaced hn hbefore
  refine ⟨joinBehind (l₁' ++ new' :: l₂) l₁'.length, ?_, joinBehind_spec hplaced' hn hstrict ?_⟩
  · unfold insertRange
    rw [hindex]
    dsimp only
    rw [if_neg hleft, if_neg hright, Slots.insertIdx_length, hjoined]
  · intro r hr
    rw [hstop]
    exact hbehind r hr

end Insert

end Juice.Jit
