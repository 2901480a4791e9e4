import Juice.Lib.Align
import Juice.Lib.Wrapping

/-!
# Where code is published

The translator writes each block of code to a buffer that other threads
execute. `PlanCodeSpan` finds the next place for a block: the cursor is
rounded up to an alignment, and the end of the block too, so that what is
written shares no unit of that alignment with what was written before. On a
host that protects memory by pages of 16 KiB this is the unit, and no page
with code is made writable again.

All of it is arithmetic on words, checked before each sum. The checks bound
`x + (alignment - 1)`, but what is computed is `x + alignment` and then one
less: the first wraps if `x` is the last multiple of the alignment, and the
second takes it back.
-/

namespace Juice.Jit

open Arith

/-! ## The plan -/

/-- `CodeSpan`. -/
structure CodeSpan where
  offset : UInt64
  stop : UInt64
  deriving DecidableEq, Repr

/-- `std::numeric_limits<uint64_t>::max()`. -/
def maxWord : UInt64 := 0xffffffffffffffff

/-- The result where there is no place. -/
def noSpan : Bool × CodeSpan := (false, ⟨0, 0⟩)

/-- `Max - (alignment - 1)`. -/
def alignLimit (alignment : UInt64) : Arith UInt64 := do sub maxWord (← sub alignment 1)

/-- `(x + alignment - 1) & ~(alignment - 1)`. -/
def alignWord (x alignment : UInt64) : Arith UInt64 := do
  return (← sub (← add x alignment) 1) &&& ~~~(← sub alignment 1)

/-- **`PlanCodeSpan`**: whether there is a place, and the span. -/
def planCodeSpan (cursor bytes capacity alignment : UInt64) : Arith (Bool × CodeSpan) := do
  if bytes = 0 ∨ alignment = 0 then return noSpan
  if alignment &&& (← sub alignment 1) ≠ 0 then return noSpan
  if capacity < cursor then return noSpan
  if (← alignLimit alignment) < cursor then return noSpan
  let first ← alignWord cursor alignment
  if capacity < first then return noSpan
  if (← sub capacity first) < bytes then return noSpan
  let last ← add first bytes
  if (← alignLimit alignment) < last then return noSpan
  let rounded ← alignWord last alignment
  if capacity < rounded then return noSpan
  return (true, ⟨first, rounded⟩)

/-! ## What it computes -/

/-- A number rounded up to a multiple of `a`, without a bound. -/
def roundTo (a n : ℕ) : ℕ := (n + (a - 1)) / a * a

/-- **When a block fits.** -/
def Fits (cursor bytes capacity alignment : UInt64) : Prop :=
  0 < bytes.toNat ∧ (∃ k, alignment.toNat = 2 ^ k)
    ∧ roundTo alignment.toNat (roundTo alignment.toNat cursor.toNat + bytes.toNat)
      ≤ capacity.toNat

/-- **The operations that may wrap**: a sum that is `2 ^ 64`, and the
difference that takes it back. -/
def Undone (alignment : UInt64) : Operation → Prop
  | .add x y => y = alignment ∧ x.toNat + alignment.toNat = 2 ^ 64
  | .sub x y => x = 0 ∧ y = 1

section Rounding

variable {a n m : ℕ}

theorem dvd_roundTo (a n : ℕ) : a ∣ roundTo a n := Nat.dvd_mul_left _ _

theorem le_roundTo (ha : 0 < a) (n : ℕ) : n ≤ roundTo a n := (Align.le_round_up ha).1

theorem isLeast_roundTo (ha : 0 < a) (n : ℕ) : IsLeast {x | a ∣ x ∧ n ≤ x} (roundTo a n) :=
  Align.isLeast_round_up ha n

/-- A number beyond the last multiple is rounded to `m` at least. -/
theorem le_roundTo_of_gap (ha : 0 < a) (hdvd : a ∣ m) (hgap : m < n + a) : m ≤ roundTo a n := by
  obtain ⟨q, rfl⟩ := hdvd
  obtain ⟨p, hp⟩ := dvd_roundTo a n
  have hle := le_roundTo ha n
  rw [hp] at hle ⊢
  refine Nat.mul_le_mul_left a (Nat.le_of_lt_succ (Nat.lt_of_mul_lt_mul_left (a := a) ?_))
  rw [Nat.mul_succ]
  omega

end Rounding

section Plan

variable {cursor bytes capacity alignment : UInt64} {x : UInt64}

theorem Fits.pow (h : Fits cursor bytes capacity alignment) :
    ∃ k < 64, alignment.toNat = 2 ^ k := by
  obtain ⟨k, hk⟩ := h.2.1
  have hne : alignment ≠ 0 := by
    rintro rfl
    exact absurd hk (Nat.ne_of_lt (Nat.two_pow_pos k))
  exact Align.exists_pow_of_and_pred hne (Align.and_pred_of_pow hk)

/-- **What the plan is.** -/
def Planned (cursor bytes capacity alignment : UInt64) (result : Bool × CodeSpan) : Prop :=
  (Fits cursor bytes capacity alignment ∧ result.1 = true
      ∧ result.2.offset.toNat = roundTo alignment.toNat cursor.toNat
      ∧ result.2.stop.toNat
        = roundTo alignment.toNat (roundTo alignment.toNat cursor.toNat + bytes.toNat))
    ∨ (¬ Fits cursor bytes capacity alignment ∧ result = noSpan)

/-- The operations of the plan. -/
def Calm (alignment : UInt64) (op : Operation) : Prop := op.Wraps → Undone alignment op

theorem calm_sub {y : UInt64} (h : y.toNat ≤ x.toNat) : Calm alignment (.sub x y) :=
  fun hwraps => absurd hwraps (Nat.not_lt.mpr h)

theorem calm_add {y : UInt64} (h : x.toNat + y.toNat < 2 ^ 64) : Calm alignment (.add x y) :=
  fun hwraps => absurd hwraps (Nat.not_le.mpr h)

/-- The sum that is masked is a word, or it is `2 ^ 64`. -/
theorem calm_add_alignment (h : x.toNat + (alignment.toNat - 1) < 2 ^ 64) :
    Calm alignment (.add x alignment) := by
  intro hwraps
  have hle : 2 ^ 64 ≤ x.toNat + alignment.toNat := hwraps
  exact ⟨rfl, by omega⟩

theorem calm_sub_one (x : UInt64) : Calm alignment (.sub x 1) := by
  intro hwraps
  have hlt : x.toNat < 1 := hwraps
  exact ⟨UInt64.toNat_inj.mp (Nat.lt_one_iff.mp hlt), rfl⟩

section Rounding

variable {k : ℕ} (hk : k < 64) (halign : alignment.toNat = 2 ^ k)

include halign

theorem alignment_pos : 0 < alignment.toNat := by
  rw [halign]
  exact Nat.two_pow_pos k

/-- **The check before a word is rounded.** -/
theorem alignLimit_meets : Meets (Calm alignment) (alignLimit alignment)
    (fun limit => ∀ x, limit < x ↔ 2 ^ 64 ≤ x.toNat + (alignment.toNat - 1)) := by
  have hpos := alignment_pos halign
  have hlt := alignment.toNat_lt
  have hpred : (alignment - 1).toNat = alignment.toNat - 1 :=
    UInt64.toNat_sub_of_le _ _ (UInt64.le_iff_toNat_le.mpr hpos)
  have hle : (alignment - 1).toNat ≤ maxWord.toNat := by
    rw [hpred]
    show _ ≤ 2 ^ 64 - 1
    omega
  unfold alignLimit
  refine Meets.bind (Meets.sub (calm_sub hpos)) ?_
  rintro _ rfl
  have hcalm : Calm alignment (.sub maxWord (alignment - 1)) := calm_sub hle
  intro ops hops
  refine ⟨(Meets.sub hcalm ops hops).1, fun x => ?_⟩
  show maxWord - (alignment - 1) < x ↔ _
  rw [UInt64.lt_iff_toNat_lt, UInt64.toNat_sub_of_le _ _ (UInt64.le_iff_toNat_le.mpr hle), hpred]
  show 2 ^ 64 - 1 - (alignment.toNat - 1) < x.toNat ↔ _
  omega

include hk

/-- **Past the check a word is rounded up.** -/
theorem alignWord_meets {x : UInt64} (h : x.toNat + (alignment.toNat - 1) < 2 ^ 64) :
    Meets (Calm alignment) (alignWord x alignment)
      (fun w => w.toNat = roundTo alignment.toNat x.toNat) := by
  unfold alignWord
  refine Meets.bind (Meets.add (calm_add_alignment h)) ?_
  rintro _ rfl
  refine Meets.bind (Meets.sub (calm_sub_one _)) ?_
  rintro _ rfl
  refine Meets.bind (Meets.sub (calm_sub (alignment_pos halign))) ?_
  rintro _ rfl
  exact Meets.pure (Align.toNat_round_up hk halign h)

/-- A number that does not pass the check is rounded beyond every word. -/
theorem le_roundTo_of_wrap {n : ℕ} (h : 2 ^ 64 ≤ n + (alignment.toNat - 1)) :
    2 ^ 64 ≤ roundTo alignment.toNat n := by
  have hpos := alignment_pos halign
  refine le_roundTo_of_gap hpos ?_ (by omega)
  rw [halign]
  exact Nat.pow_dvd_pow 2 (Nat.le_of_lt hk)

end Rounding

/-- **The plan is the rounded span**, and no operation of it wraps for good. -/
theorem planCodeSpan_meets (cursor bytes capacity alignment : UInt64) :
    Meets (Calm alignment) (planCodeSpan cursor bytes capacity alignment)
      (Planned cursor bytes capacity alignment) := by
  have hcapacity := capacity.toNat_lt
  unfold planCodeSpan
  split
  · next hzero =>
    refine Meets.pure (.inr ⟨fun hfits => ?_, rfl⟩)
    rcases hzero with rfl | rfl
    · exact Nat.lt_irrefl 0 hfits.1
    · obtain ⟨k, -, hk⟩ := hfits.pow
      exact absurd hk (Nat.ne_of_lt (Nat.two_pow_pos k))
  next hzero =>
  obtain ⟨hbytes, halignment⟩ := not_or.mp hzero
  have hbytespos : 0 < bytes.toNat :=
    Nat.pos_of_ne_zero (fun h => hbytes (UInt64.toNat_inj.mp h))
  have hone : 1 ≤ alignment.toNat :=
    Nat.pos_of_ne_zero (fun h => halignment (UInt64.toNat_inj.mp h))
  refine Meets.bind (Meets.sub (calm_sub hone)) ?_
  rintro _ rfl
  split
  · next hpow =>
    refine Meets.pure (.inr ⟨fun hfits => ?_, rfl⟩)
    obtain ⟨k, -, hk⟩ := hfits.pow
    exact hpow (Align.and_pred_of_pow hk)
  next hpow =>
  obtain ⟨k, hk, halign⟩ := Align.exists_pow_of_and_pred halignment (not_not.mp hpow)
  -- From here on a block that is refused would end behind the buffer.
  have hfirst := le_roundTo hone cursor.toNat
  have hlast := le_roundTo hone (roundTo alignment.toNat cursor.toNat + bytes.toNat)
  have hreject : capacity.toNat < roundTo alignment.toNat
        (roundTo alignment.toNat cursor.toNat + bytes.toNat) →
      Meets (Calm alignment) (pure noSpan) (Planned cursor bytes capacity alignment) :=
    fun hlt => Meets.pure (.inr ⟨fun hfits => absurd hfits.2.2 (Nat.not_le.mpr hlt), rfl⟩)
  split
  · next hcursor => exact hreject (by rw [UInt64.lt_iff_toNat_lt] at hcursor; omega)
  refine Meets.bind (alignLimit_meets halign) (fun limit hlimit => ?_)
  split
  · next hwrap =>
    have hbeyond := le_roundTo_of_wrap hk halign ((hlimit cursor).mp hwrap)
    exact hreject (by omega)
  next hwrap =>
  rw [hlimit, Nat.not_le] at hwrap
  refine Meets.bind (alignWord_meets hk halign hwrap) (fun first hround => ?_)
  split
  · next hlt => exact hreject (by rw [UInt64.lt_iff_toNat_lt] at hlt; omega)
  next hle =>
  rw [UInt64.lt_iff_toNat_lt, Nat.not_lt] at hle
  refine Meets.bind (Meets.sub (calm_sub hle)) ?_
  rintro _ rfl
  have hroom : (capacity - first).toNat = capacity.toNat - first.toNat :=
    UInt64.toNat_sub_of_le _ _ (UInt64.le_iff_toNat_le.mpr hle)
  split
  · next hlt => exact hreject (by rw [UInt64.lt_iff_toNat_lt, hroom] at hlt; omega)
  next hfit =>
  rw [UInt64.lt_iff_toNat_lt, hroom] at hfit
  have hsum : (first + bytes).toNat = roundTo alignment.toNat cursor.toNat + bytes.toNat := by
    rw [UInt64.toNat_add, Nat.mod_eq_of_lt (by omega), hround]
  refine Meets.bind (Meets.add (calm_add (by omega))) ?_
  rintro _ rfl
  refine Meets.bind (alignLimit_meets halign) (fun limit hlimit => ?_)
  split
  · next hwrap =>
    rw [hlimit, hsum] at hwrap
    have hbeyond := le_roundTo_of_wrap hk halign hwrap
    exact hreject (by omega)
  next hwrap =>
  rw [hlimit, Nat.not_le] at hwrap
  refine Meets.bind (alignWord_meets hk halign hwrap) (fun rounded hround' => ?_)
  rw [hsum] at hround'
  split
  · next hlt => exact hreject (by rw [UInt64.lt_iff_toNat_lt, hround'] at hlt; exact hlt)
  next hle' =>
  rw [UInt64.lt_iff_toNat_lt, hround', Nat.not_lt] at hle'
  exact Meets.pure (.inl ⟨⟨hbytespos, ⟨k, halign⟩, hle'⟩, rfl, hround, hround'⟩)

end Plan

/-! ## Publication after publication -/

/-- A block in its span. -/
structure Publication where
  span : CodeSpan
  bytes : UInt64
  deriving DecidableEq, Repr

/-- **Blocks are published in one buffer**, until one does not fit. -/
def publishAll (capacity alignment : UInt64) : UInt64 → List UInt64 → Option (List Publication)
  | _, [] => some []
  | cursor, bytes :: sizes =>
    let plan := (planCodeSpan cursor bytes capacity alignment).value
    if plan.1 = true then
      (publishAll capacity alignment (plan.2.offset + bytes) sizes).map (⟨plan.2, bytes⟩ :: ·)
    else none

/-- **A block lies in its span**, which is made of units of the alignment. -/
structure Publication.Placed (capacity alignment : UInt64) (p : Publication) : Prop where
  pos : 0 < p.bytes.toNat
  offset_dvd : alignment.toNat ∣ p.span.offset.toNat
  stop_dvd : alignment.toNat ∣ p.span.stop.toNat
  inside : p.span.offset.toNat + p.bytes.toNat ≤ p.span.stop.toNat
  stop_le : p.span.stop.toNat ≤ capacity.toNat

section Publish

variable {cursor bytes capacity alignment : UInt64}

/-- A plan that succeeds. -/
theorem planned_of_value (h : (planCodeSpan cursor bytes capacity alignment).value.1 = true) :
    Fits cursor bytes capacity alignment
      ∧ IsLeast {x | alignment.toNat ∣ x ∧ cursor.toNat ≤ x}
        (planCodeSpan cursor bytes capacity alignment).value.2.offset.toNat
      ∧ IsLeast {x | alignment.toNat ∣ x
          ∧ (planCodeSpan cursor bytes capacity alignment).value.2.offset.toNat + bytes.toNat ≤ x}
        (planCodeSpan cursor bytes capacity alignment).value.2.stop.toNat
      ∧ (planCodeSpan cursor bytes capacity alignment).value.2.stop.toNat ≤ capacity.toNat := by
  rcases (planCodeSpan_meets cursor bytes capacity alignment).value with
    ⟨hfits, -, hoffset, hstop⟩ | ⟨-, heq⟩
  · obtain ⟨k, hk⟩ := hfits.2.1
    have hpos := alignment_pos hk
    rw [hstop, hoffset]
    exact ⟨hfits, isLeast_roundTo hpos _, isLeast_roundTo hpos _, hfits.2.2⟩
  · rw [heq] at h
    exact Bool.noConfusion h

theorem placed_of_value (h : (planCodeSpan cursor bytes capacity alignment).value.1 = true) :
    Publication.Placed capacity alignment
      ⟨(planCodeSpan cursor bytes capacity alignment).value.2, bytes⟩ := by
  obtain ⟨hfits, hoffset, hstop, hle⟩ := planned_of_value h
  exact ⟨hfits.1, hoffset.1.1, hstop.1.1, hstop.1.2, hle⟩

/-- **Every run of publications**: the spans follow each other. -/
theorem publishAll_spec {sizes : List UInt64} {ps : List Publication}
    (h : publishAll capacity alignment cursor sizes = some ps) :
    (∀ p ∈ ps, p.Placed capacity alignment ∧ cursor.toNat ≤ p.span.offset.toNat)
      ∧ ps.Pairwise (fun p q => p.span.stop.toNat ≤ q.span.offset.toNat) := by
  induction sizes generalizing cursor ps with
  | nil =>
    cases h
    exact ⟨List.forall_mem_nil _, List.Pairwise.nil⟩
  | cons bytes sizes ih =>
    unfold publishAll at h
    dsimp only at h
    split at h
    · next hok =>
      obtain ⟨rest, hrest, rfl⟩ := Option.map_eq_some_iff.mp h
      obtain ⟨hlater, hpairs⟩ := ih hrest
      obtain ⟨-, hoffset, hstop, -⟩ := planned_of_value hok
      have hplaced := placed_of_value hok
      -- The next cursor is the end of the block, and the next span begins
      -- at the least multiple from there on.
      have hnext : ((planCodeSpan cursor bytes capacity alignment).value.2.offset + bytes).toNat
          = (planCodeSpan cursor bytes capacity alignment).value.2.offset.toNat + bytes.toNat := by
        have hinside := hplaced.inside
        have hle := hplaced.stop_le
        have hlt := capacity.toNat_lt
        dsimp only at hinside hle
        rw [UInt64.toNat_add, Nat.mod_eq_of_lt (by omega)]
      rw [hnext] at hlater
      refine ⟨List.forall_mem_cons.mpr ⟨⟨hplaced, hoffset.1.2⟩, fun p hp => ?_⟩,
        List.pairwise_cons.mpr ⟨fun p hp => ?_, hpairs⟩⟩
      · obtain ⟨hp', hle⟩ := hlater p hp
        exact ⟨hp', Nat.le_trans hoffset.1.2 (Nat.le_trans (Nat.le_add_right _ _) hle)⟩
      · obtain ⟨hp', hle⟩ := hlater p hp
        exact hstop.2 ⟨hp'.offset_dvd, hle⟩
    · exact absurd h (by simp)

end Publish

/-! ## The buffer -/

/-- The code buffer of the translator, without its guard page. -/
structure CodeBuffer where
  ptr : UInt64
  usableSize : UInt64
  dualMapped : Bool

/-- `PublicationAlignment`. -/
def publicationAlignment (buffer : CodeBuffer) : UInt64 := if buffer.dualMapped then 16 else 0x4000

/-- What is made writable for a block, and where the block is copied. -/
structure Written where
  protectStart : UInt64
  protectEnd : UInt64
  copyStart : UInt64
  tempSize : UInt64
  deriving DecidableEq, Repr

/-- `Align16B`, which pads the cursor until its address is a multiple of 16. -/
def align16B (ptr offset : UInt64) : UInt64 := offset + (16 - (ptr + offset) % 16) % 16

/-- **The publication of a block in `CompileCode`**, with the next
`LatestOffset`. The result is nothing where the buffer has no room, so that
another is taken, and where an assertion fails. -/
def compileCode (buffer : CodeBuffer) (latestOffset tempSize : UInt64) :
    Option (Written × UInt64) :=
  let alignment := publicationAlignment buffer
  let plan := (planCodeSpan latestOffset tempSize buffer.usableSize alignment).value
  if plan.1 = false then none
  else if buffer.ptr &&& (alignment - 1) ≠ 0 ∨ maxWord - buffer.ptr < plan.2.stop then none
  else
    let offset := align16B buffer.ptr plan.2.offset
    let written : Written :=
      ⟨buffer.ptr + plan.2.offset, buffer.ptr + plan.2.stop, buffer.ptr + offset, tempSize⟩
    if written.copyStart < written.protectStart
        ∨ written.protectEnd < written.copyStart + tempSize then none
    else some (written, offset + tempSize)

/-- Blocks are compiled one after the other in one buffer. -/
def compileAll (buffer : CodeBuffer) : UInt64 → List UInt64 → Option (List Written)
  | _, [] => some []
  | latestOffset, tempSize :: sizes =>
    match compileCode buffer latestOffset tempSize with
    | none => none
    | some (written, latestOffset) => (compileAll buffer latestOffset sizes).map (written :: ·)

/-- Where a block is written. -/
def CodeBuffer.written (buffer : CodeBuffer) (p : Publication) : Written :=
  ⟨buffer.ptr + p.span.offset, buffer.ptr + p.span.stop, buffer.ptr + p.span.offset, p.bytes⟩

/-- What the assertion of `CompileCode` says of the buffer and a span. -/
structure CodeBuffer.Holds (buffer : CodeBuffer) (span : CodeSpan) : Prop where
  ptr_dvd : (publicationAlignment buffer).toNat ∣ buffer.ptr.toNat
  stop_lt : buffer.ptr.toNat + span.stop.toNat < 2 ^ 64

theorem publicationAlignment_toNat (buffer : CodeBuffer) :
    (publicationAlignment buffer).toNat = 2 ^ (if buffer.dualMapped then 4 else 14)
      ∧ 16 ∣ (publicationAlignment buffer).toNat := by
  unfold publicationAlignment
  cases buffer.dualMapped <;> decide

theorem holds_iff (buffer : CodeBuffer) (span : CodeSpan) :
    buffer.Holds span ↔ ¬ (buffer.ptr &&& (publicationAlignment buffer - 1) ≠ 0
      ∨ maxWord - buffer.ptr < span.stop) := by
  have halign := (publicationAlignment_toNat buffer).1
  have hpred : (publicationAlignment buffer - 1).toNat = (publicationAlignment buffer).toNat - 1 :=
    UInt64.toNat_sub_of_le _ _ (UInt64.le_iff_toNat_le.mpr (alignment_pos halign))
  have hmask : buffer.ptr &&& (publicationAlignment buffer - 1) = 0
      ↔ (publicationAlignment buffer).toNat ∣ buffer.ptr.toNat := by
    rw [← UInt64.toNat_inj, UInt64.toNat_and, hpred, halign, Nat.and_two_pow_sub_one_eq_mod,
      Nat.dvd_iff_mod_eq_zero]
    rfl
  have hptr := buffer.ptr.toNat_lt
  have hle : buffer.ptr.toNat ≤ maxWord.toNat := Nat.le_of_lt_succ hptr
  have hroom : maxWord - buffer.ptr < span.stop
      ↔ 2 ^ 64 ≤ buffer.ptr.toNat + span.stop.toNat := by
    rw [UInt64.lt_iff_toNat_lt, UInt64.toNat_sub_of_le _ _ (UInt64.le_iff_toNat_le.mpr hle)]
    show 2 ^ 64 - 1 - buffer.ptr.toNat < _ ↔ _
    omega
  rw [not_or, not_not, hmask, hroom, Nat.not_le]
  exact ⟨fun h => ⟨h.ptr_dvd, h.stop_lt⟩, fun h => ⟨h.1, h.2⟩⟩

/-- The cursor of a span needs no padding. -/
theorem align16B_eq {ptr offset : UInt64} (hptr : 16 ∣ ptr.toNat) (hoffset : 16 ∣ offset.toNat) :
    align16B ptr offset = offset := by
  have hmod : (ptr + offset) % 16 = 0 := by
    refine UInt64.toNat_inj.mp ?_
    rw [UInt64.toNat_mod, UInt64.toNat_add]
    show (ptr.toNat + offset.toNat) % 2 ^ 64 % 16 = 0
    omega
  unfold align16B
  rw [hmod]
  exact UInt64.add_zero offset

/-- **`CompileCode` publishes the block at its span**, and the assertion that
the span covers it holds. -/
theorem compileCode_eq (buffer : CodeBuffer) (latestOffset tempSize : UInt64) :
    let plan := (planCodeSpan latestOffset tempSize buffer.usableSize
      (publicationAlignment buffer)).value
    (plan.1 = true ∧ buffer.Holds plan.2
        ∧ compileCode buffer latestOffset tempSize
          = some (buffer.written ⟨plan.2, tempSize⟩, plan.2.offset + tempSize))
      ∨ (¬ (plan.1 = true ∧ buffer.Holds plan.2)
        ∧ compileCode buffer latestOffset tempSize = none) := by
  unfold compileCode
  dsimp only
  cases hok : (planCodeSpan latestOffset tempSize buffer.usableSize
      (publicationAlignment buffer)).value.1 with
  | false => exact .inr ⟨fun h => Bool.noConfusion h.1, if_pos rfl⟩
  | true =>
    have hplaced := placed_of_value hok
    generalize (planCodeSpan latestOffset tempSize buffer.usableSize
      (publicationAlignment buffer)).value.2 = span at hplaced ⊢
    rw [if_neg Bool.noConfusion]
    by_cases hholds : buffer.Holds span
    · have hdvd := (publicationAlignment_toNat buffer).2
      have halign : align16B buffer.ptr span.offset = span.offset :=
        align16B_eq (Nat.dvd_trans hdvd hholds.ptr_dvd) (Nat.dvd_trans hdvd hplaced.offset_dvd)
      rw [if_neg ((holds_iff buffer span).mp hholds), halign]
      have hinside := hplaced.inside
      have hstop := hholds.stop_lt
      dsimp only at hinside
      rw [if_neg]
      · exact .inl ⟨rfl, hholds, rfl⟩
      · have hstart : (buffer.ptr + span.offset).toNat
            = buffer.ptr.toNat + span.offset.toNat := by
          rw [UInt64.toNat_add, Nat.mod_eq_of_lt (by omega)]
        rw [not_or, UInt64.lt_iff_toNat_lt, UInt64.lt_iff_toNat_lt,
          UInt64.toNat_add (buffer.ptr + span.offset), UInt64.toNat_add buffer.ptr span.stop, hstart]
        omega
    · rw [if_pos (not_not.mp (fun h => hholds ((holds_iff buffer span).mpr h)))]
      exact .inr ⟨fun h => hholds h.2, rfl⟩

/-- **A run of `CompileCode` is a run of publications.** -/
theorem compileAll_eq {buffer : CodeBuffer} {latestOffset : UInt64} {sizes : List UInt64}
    {ws : List Written} (h : compileAll buffer latestOffset sizes = some ws) :
    ∃ ps, publishAll buffer.usableSize (publicationAlignment buffer) latestOffset sizes = some ps
      ∧ ws = ps.map buffer.written ∧ ∀ p ∈ ps, buffer.Holds p.span := by
  induction sizes generalizing latestOffset ws with
  | nil =>
    cases h
    exact ⟨[], rfl, rfl, List.forall_mem_nil _⟩
  | cons tempSize sizes ih =>
    unfold compileAll at h
    rcases compileCode_eq buffer latestOffset tempSize with ⟨hok, hholds, heq⟩ | ⟨-, heq⟩
    · rw [heq] at h
      obtain ⟨rest, hrest, rfl⟩ := Option.map_eq_some_iff.mp h
      obtain ⟨ps, hps, rfl, hall⟩ := ih hrest
      refine ⟨_ :: ps, ?_, rfl, List.forall_mem_cons.mpr ⟨hholds, hall⟩⟩
      unfold publishAll
      dsimp only
      rw [if_pos hok, hps]
      rfl
    · rw [heq] at h
      exact absurd h (by simp)

/-- The pages of the host, of 16 KiB. -/
def hostPage (address : ℕ) : ℕ := address / 0x4000

/-- **No page of a block is made writable** for another. -/
def PagesApart (earlier later : Written) : Prop :=
  ∀ x y, earlier.copyStart.toNat ≤ x → x < earlier.copyStart.toNat + earlier.tempSize.toNat →
    later.protectStart.toNat ≤ y → y < later.protectEnd.toNat → hostPage x ≠ hostPage y

/-- The block is copied to what was made writable for it. -/
def Written.Covers (w : Written) : Prop :=
  w.protectStart.toNat ≤ w.copyStart.toNat
    ∧ w.copyStart.toNat + w.tempSize.toNat ≤ w.protectEnd.toNat

section Buffer

variable {buffer : CodeBuffer} {p q : Publication}

theorem toNat_written (hholds : buffer.Holds p.span)
    (hplaced : p.Placed buffer.usableSize (publicationAlignment buffer)) :
    (buffer.ptr + p.span.offset).toNat = buffer.ptr.toNat + p.span.offset.toNat
      ∧ (buffer.ptr + p.span.stop).toNat = buffer.ptr.toNat + p.span.stop.toNat := by
  have hstop := hholds.stop_lt
  have hinside := hplaced.inside
  rw [UInt64.toNat_add, UInt64.toNat_add, Nat.mod_eq_of_lt (by omega), Nat.mod_eq_of_lt hstop]
  exact ⟨rfl, rfl⟩

theorem covers_written (hholds : buffer.Holds p.span)
    (hplaced : p.Placed buffer.usableSize (publicationAlignment buffer)) :
    (buffer.written p).Covers := by
  obtain ⟨hoffset, hstop⟩ := toNat_written hholds hplaced
  refine ⟨Nat.le_refl _, ?_⟩
  show (buffer.ptr + p.span.offset).toNat + p.bytes.toNat ≤ (buffer.ptr + p.span.stop).toNat
  rw [hoffset, hstop, Nat.add_assoc]
  exact Nat.add_le_add_left hplaced.inside _

/-- Spans in order have no page in common. -/
theorem pagesApart_written (hdual : buffer.dualMapped = false) (hp : buffer.Holds p.span)
    (hq : buffer.Holds q.span) (hplaced : p.Placed buffer.usableSize (publicationAlignment buffer))
    (hplaced' : q.Placed buffer.usableSize (publicationAlignment buffer))
    (hle : p.span.stop.toNat ≤ q.span.offset.toNat) :
    PagesApart (buffer.written p) (buffer.written q) := by
  intro x y _ hx hy _
  change x < (buffer.ptr + p.span.offset).toNat + p.bytes.toNat at hx
  change (buffer.ptr + q.span.offset).toNat ≤ y at hy
  rw [(toNat_written hp hplaced).1] at hx
  rw [(toNat_written hq hplaced').1] at hy
  have halign : (publicationAlignment buffer).toNat = 0x4000 := by
    unfold publicationAlignment
    rw [hdual]
    rfl
  have hptr := hp.ptr_dvd
  have hoffset := hplaced'.offset_dvd
  have hinside := hplaced.inside
  rw [halign] at hptr hoffset
  -- The second span begins with a page, and the block ends before it.
  unfold hostPage
  omega

end Buffer

/-- **Code is published at its place.** A plan is accepted exactly if the
rounded span is in the buffer, and then it is that span; the only operations
that wrap are a sum that is `2 ^ 64` and the difference that takes it back.
In every run the spans follow each other, and no page that has code is made
writable again. -/
theorem codePublication :
    (∀ cursor bytes capacity alignment,
        ((planCodeSpan cursor bytes capacity alignment).value.1 = true
            ↔ Fits cursor bytes capacity alignment)
          ∧ ((planCodeSpan cursor bytes capacity alignment).value.1 = true →
            IsLeast {x | alignment.toNat ∣ x ∧ cursor.toNat ≤ x}
              (planCodeSpan cursor bytes capacity alignment).value.2.offset.toNat
            ∧ IsLeast {x | alignment.toNat ∣ x
                ∧ (planCodeSpan cursor bytes capacity alignment).value.2.offset.toNat
                  + bytes.toNat ≤ x}
              (planCodeSpan cursor bytes capacity alignment).value.2.stop.toNat)
          ∧ ((planCodeSpan cursor bytes capacity alignment).value.1 = false →
            (planCodeSpan cursor bytes capacity alignment).value.2 = ⟨0, 0⟩)
          ∧ ∀ op ∈ (planCodeSpan cursor bytes capacity alignment).operations,
            op.Wraps → Undone alignment op)
      ∧ (∀ capacity alignment cursor sizes ps,
          publishAll capacity alignment cursor sizes = some ps →
          (∀ p ∈ ps, p.Placed capacity alignment)
            ∧ ps.Pairwise (fun p q => p.span.stop.toNat ≤ q.span.offset.toNat))
      ∧ (∀ buffer latestOffset sizes ws, compileAll buffer latestOffset sizes = some ws →
          (∀ w ∈ ws, w.Covers) ∧ (buffer.dualMapped = false → ws.Pairwise PagesApart)) := by
  refine ⟨?_, ?_, ?_⟩
  · intro cursor bytes capacity alignment
    have hmeets := planCodeSpan_meets cursor bytes capacity alignment
    refine ⟨⟨fun h => (planned_of_value h).1, fun hfits => ?_⟩,
      fun h => ⟨(planned_of_value h).2.1, (planned_of_value h).2.2.1⟩, fun h => ?_,
      hmeets.operations⟩
    · rcases hmeets.value with ⟨-, hok, -⟩ | ⟨hnot, -⟩
      · exact hok
      · exact absurd hfits hnot
    · rcases hmeets.value with ⟨-, hok, -⟩ | ⟨-, heq⟩
      · rw [hok] at h
        exact Bool.noConfusion h
      · rw [heq]
        rfl
  · intro capacity alignment cursor sizes ps h
    obtain ⟨hall, hpairs⟩ := publishAll_spec h
    exact ⟨fun p hp => (hall p hp).1, hpairs⟩
  · intro buffer latestOffset sizes ws h
    obtain ⟨ps, hps, rfl, hholds⟩ := compileAll_eq h
    obtain ⟨hall, hpairs⟩ := publishAll_spec hps
    refine ⟨List.forall_mem_map.mpr (fun p hp => covers_written (hholds p hp) (hall p hp).1),
      fun hdual => List.pairwise_map.mpr ?_⟩
    exact hpairs.imp_of_mem (fun hp hq hle => pagesApart_written hdual (hholds _ hp) (hholds _ hq)
      (hall _ hp).1 (hall _ hq).1 hle)

/-- **A sum that wraps**: the block ends at the last multiple of 16. -/
theorem planCodeSpan_wraps :
    (planCodeSpan 0xffffffffffffffe0 16 0xffffffffffffffff 16).value.1 = true
      ∧ .add 0xfffffffffffffff0 16
        ∈ (planCodeSpan 0xffffffffffffffe0 16 0xffffffffffffffff 16).operations
      ∧ (Operation.add 0xfffffffffffffff0 16).Wraps := by
  refine ⟨by decide, by decide, ?_⟩
  show 2 ^ 64 ≤ 0xfffffffffffffff0 + 16
  decide

end Juice.Jit
