import Juice.Lib.Align

/-!
# Layout of a surface's pixels

`graphics_policy.h` fixes how the pixels of a surface lie in memory and
which surfaces are too large to be sent. Every size is a `size_t`, which
is a 64-bit word on the targets of the driver.
-/

namespace Juice

/-- `JUICE_GRAPHICS_MAX_DIMENSION`. -/
def JUICE_GRAPHICS_MAX_DIMENSION : UInt64 := 8192
/-- `JUICE_GRAPHICS_MAX_PIXELS`. -/
def JUICE_GRAPHICS_MAX_PIXELS : UInt64 := 4096 * 4096
/-- `JUICE_GRAPHICS_MAX_BYTES`. -/
def JUICE_GRAPHICS_MAX_BYTES : UInt64 := 128 * 1024 * 1024

/-- `struct juice_readback_layout`. -/
structure ReadbackLayout where
  stride : UInt64
  bytes : UInt64
  deriving DecidableEq, Repr

/-- `juice_rect_extent`: the extent of a rectangle along one axis, one pixel
for an empty or inverted one. The subtraction is made in 64 bits, where
two 32-bit coordinates cannot overflow. -/
def juiceRectExtent (first last : Int32) : UInt64 :=
  if last.toInt - first.toInt > 0 then UInt64.ofNat (last.toInt - first.toInt).toNat else 1

/-- `juice_readback_layout`: the stride and size of a surface, `none` where
the function returns false. -/
def juiceReadbackLayout (width height alignment : UInt64) : Option ReadbackLayout :=
  if width = 0 ∨ height = 0 ∨ width > JUICE_GRAPHICS_MAX_DIMENSION
      ∨ height > JUICE_GRAPHICS_MAX_DIMENSION ∨ width > JUICE_GRAPHICS_MAX_PIXELS / height
      ∨ alignment = 0 ∨ alignment &&& (alignment - 1) ≠ 0 then none
  else
    let row := width * 4
    if alignment - 1 > 0xffffffffffffffff - row then none
    else
      let stride := (row + alignment - 1) &&& ~~~(alignment - 1)
      if stride > JUICE_GRAPHICS_MAX_BYTES / height then none
      else some ⟨stride, stride * height⟩

/-- **What an admitted surface satisfies**, in unbounded arithmetic. -/
structure ReadbackLayout.Admits (width height alignment : UInt64) (l : ReadbackLayout) :
    Prop where
  width_pos : 0 < width.toNat
  height_pos : 0 < height.toNat
  width_le : width.toNat ≤ 8192
  height_le : height.toNat ≤ 8192
  pixels_le : width.toNat * height.toNat ≤ 4096 * 4096
  /-- A row of pixels fits in the stride. -/
  row_le : width.toNat * 4 ≤ l.stride.toNat
  /-- The stride is less than an alignment longer than the row. -/
  stride_le : l.stride.toNat ≤ width.toNat * 4 + (alignment.toNat - 1)
  /-- The size is the product, and within the limit of a frame. -/
  bytes_eq : l.bytes.toNat = l.stride.toNat * height.toNat
  bytes_le : l.bytes.toNat ≤ 128 * 1024 * 1024

/-- **Every operation of `juice_readback_layout` is exact** under the checks
made before it: its result is that of unbounded arithmetic. -/
structure ReadbackLayout.Exact (width height alignment : UInt64) : Prop where
  /-- `alignment - 1`. -/
  pred : alignment ≠ 0 → (alignment - 1).toNat + 1 = alignment.toNat
  /-- `width * 4u`. -/
  row : width.toNat ≤ 8192 → (width * 4).toNat = width.toNat * 4
  /-- `SIZE_MAX - row`. -/
  room : width.toNat ≤ 8192 →
    (0xffffffffffffffff - width * 4).toNat + width.toNat * 4 = 2 ^ 64 - 1
  /-- `row + alignment`, and the difference with 1. -/
  sum : width.toNat ≤ 8192 → alignment ≠ 0 → alignment &&& (alignment - 1) = 0 →
    (width * 4 + alignment).toNat = width.toNat * 4 + alignment.toNat
      ∧ (width * 4 + alignment - 1).toNat + 1 = width.toNat * 4 + alignment.toNat
  /-- `stride * height`. -/
  bytes : ∀ l, juiceReadbackLayout width height alignment = some l →
    l.bytes.toNat = l.stride.toNat * height.toNat

section Words

variable {a b c : UInt64}

theorem toNat_pos (h : a ≠ 0) : 0 < a.toNat :=
  Nat.pos_of_ne_zero (fun h0 => h (UInt64.toNat_inj.mp h0))

theorem toNat_pred (h : a ≠ 0) : (a - 1).toNat + 1 = a.toNat := by
  have hpos := toNat_pos h
  have hle : (1 : UInt64) ≤ a := UInt64.le_iff_toNat_le.mpr hpos
  rw [UInt64.toNat_sub_of_le _ _ hle]
  exact Nat.sub_add_cancel hpos

/-- A quotient of words bounds a product of numbers. -/
theorem not_div_lt_iff (hc : c ≠ 0) : ¬ a > b / c ↔ a.toNat * c.toNat ≤ b.toNat := by
  rw [gt_iff_lt, UInt64.not_lt, UInt64.le_iff_toNat_le, UInt64.toNat_div]
  exact Nat.le_div_iff_mul_le (toNat_pos hc)

end Words

section Layout

variable {width height alignment : UInt64} {l : ReadbackLayout}

theorem toNat_row (h : width.toNat ≤ 8192) : (width * 4).toNat = width.toNat * 4 := by
  rw [UInt64.toNat_mul]
  exact Nat.mod_eq_of_lt (by show width.toNat * 4 < 2 ^ 64; omega)

theorem toNat_room (h : width.toNat ≤ 8192) :
    (0xffffffffffffffff - width * 4).toNat + width.toNat * 4 = 2 ^ 64 - 1 := by
  have hmax : (0xffffffffffffffff : UInt64).toNat = 2 ^ 64 - 1 := rfl
  have hrow := toNat_row h
  rw [UInt64.toNat_sub_of_le _ _ (UInt64.le_iff_toNat_le.mpr (by omega)), hrow, hmax]
  omega

section Stride

variable {k : ℕ} (hw : width.toNat ≤ 8192) (hk : k < 64) (ha : alignment.toNat = 2 ^ k)
include hw hk ha

/-- A power of two is at most `2 ^ 63`, so that a row and an alignment have a
sum: the check of it never fails. -/
theorem row_add_lt : width.toNat * 4 + alignment.toNat < 2 ^ 64 := by
  have hle : 2 ^ k ≤ 2 ^ 63 := Nat.pow_le_pow_right (by omega) (by omega)
  omega

theorem toNat_stride : ((width * 4 + alignment - 1) &&& ~~~(alignment - 1)).toNat
    = (width.toNat * 4 + (alignment.toNat - 1)) / alignment.toNat * alignment.toNat := by
  have hlt := row_add_lt hw hk ha
  rw [Align.toNat_round_up hk ha (by rw [toNat_row hw]; omega), toNat_row hw]

end Stride

/-- What an admitted surface has passed, with its stride in unbounded
arithmetic: the least multiple of the alignment that holds a row. -/
theorem juiceReadbackLayout_eq_some (h : juiceReadbackLayout width height alignment = some l) :
    width ≠ 0 ∧ height ≠ 0 ∧ width.toNat ≤ 8192 ∧ height.toNat ≤ 8192
      ∧ width.toNat * height.toNat ≤ 4096 * 4096 ∧ (∃ k < 64, alignment.toNat = 2 ^ k)
      ∧ l.stride.toNat
        = (width.toNat * 4 + (alignment.toNat - 1)) / alignment.toNat * alignment.toNat
      ∧ l.stride.toNat * height.toNat ≤ 128 * 1024 * 1024
      ∧ l.bytes.toNat = l.stride.toNat * height.toNat := by
  revert h
  fun_cases juiceReadbackLayout width height alignment <;> intro h <;> cases h
  case case4 hguard row _ stride hbytes =>
    simp only [not_or, not_not] at hguard
    obtain ⟨hw, hh, hwmax, hhmax, hpix, ha, hpow⟩ := hguard
    obtain ⟨k, hk, hak⟩ := Align.exists_pow_of_and_pred ha hpow
    have hwle : width.toNat ≤ 8192 := UInt64.le_iff_toNat_le.mp (UInt64.not_lt.mp hwmax)
    have hhle : height.toNat ≤ 8192 := UInt64.le_iff_toNat_le.mp (UInt64.not_lt.mp hhmax)
    have hbound : JUICE_GRAPHICS_MAX_BYTES.toNat = 128 * 1024 * 1024 := rfl
    have hle := (not_div_lt_iff hh).mp hbytes
    refine ⟨hw, hh, hwle, hhle, (not_div_lt_iff hh).mp hpix, ⟨k, hk, hak⟩,
      toNat_stride hwle hk hak, hle, ?_⟩
    rw [UInt64.toNat_mul]
    exact Nat.mod_eq_of_lt (by omega)

/-- **Specification of `juice_readback_layout`**: what it admits. -/
theorem juiceReadbackLayout_admits (h : juiceReadbackLayout width height alignment = some l) :
    l.Admits width height alignment := by
  obtain ⟨hw, hh, hwle, hhle, hpix, ⟨k, -, hk⟩, hround, hle, hbytes⟩ :=
    juiceReadbackLayout_eq_some h
  obtain ⟨hlo, hhi⟩ := Align.le_round_up (n := width.toNat * 4) (hk ▸ Nat.two_pow_pos k)
  rw [← hround] at hlo hhi
  exact
    { width_pos := toNat_pos hw
      height_pos := toNat_pos hh
      width_le := hwle
      height_le := hhle
      pixels_le := hpix
      row_le := hlo
      stride_le := hhi
      bytes_eq := hbytes
      bytes_le := hbytes ▸ hle }

end Layout

/-! ## Exactly which surfaces are admitted -/

/-- **What is to be admitted**, with the stride `s`, in unbounded
arithmetic. -/
structure ReadbackLayout.Admissible (width height alignment s : ℕ) : Prop where
  width_range : 1 ≤ width ∧ width ≤ 8192
  height_range : 1 ≤ height ∧ height ≤ 8192
  pixels_le : width * height ≤ 4096 * 4096
  power : ∃ k, alignment = 2 ^ k
  least : IsLeast {x | alignment ∣ x ∧ 4 * width ≤ x} s
  bytes_le : s * height ≤ 128 * 1024 * 1024

/-- What `juice_readback_layout` returns, and what it leaves in `*out`, which
it clears first. -/
def readbackLayoutOut (width height alignment : UInt64) : Bool × ReadbackLayout :=
  match juiceReadbackLayout width height alignment with
  | none => (false, ⟨0, 0⟩)
  | some l => (true, l)

section Out

variable {width height alignment : UInt64}

open ReadbackLayout

theorem exact_readbackLayout (width height alignment : UInt64) : Exact width height alignment where
  pred := toNat_pred
  row := toNat_row
  room := toNat_room
  sum hw h0 hpow := by
    obtain ⟨k, hk, ha⟩ := Align.exists_pow_of_and_pred h0 hpow
    have hlt := row_add_lt hw hk ha
    have hpos := toNat_pos h0
    have hadd : (width * 4 + alignment).toNat = width.toNat * 4 + alignment.toNat := by
      rw [UInt64.toNat_add, toNat_row hw, Nat.mod_eq_of_lt hlt]
    refine ⟨hadd, ?_⟩
    rw [toNat_pred (fun h => ?_), hadd]
    have hzero : (width * 4 + alignment).toNat = 0 := by rw [h]; rfl
    omega
  bytes l hl := (juiceReadbackLayout_eq_some hl).2.2.2.2.2.2.2.2

/-- A surface that is to be admitted passes all checks. -/
theorem ReadbackLayout.Admissible.eq_some {s : ℕ}
    (h : Admissible width.toNat height.toNat alignment.toNat s) :
    ∃ l, juiceReadbackLayout width height alignment = some l ∧ l.stride.toNat = s := by
  obtain ⟨⟨hw, hwmax⟩, ⟨hh, hhmax⟩, hpix, ⟨k, hk⟩, hleast, hbytes⟩ := h
  have hne : ∀ {x : UInt64}, 1 ≤ x.toNat → x ≠ 0 := fun {x} hx h0 => by rw [h0] at hx; cases hx
  have ha : alignment ≠ 0 := hne (hk ▸ Nat.two_pow_pos k)
  have hpow := Align.and_pred_of_pow hk
  obtain ⟨j, hj, hj'⟩ := Align.exists_pow_of_and_pred ha hpow
  have hstride : (width.toNat * 4 + (alignment.toNat - 1)) / alignment.toNat * alignment.toNat
      = s := by
    rw [Nat.mul_comm width.toNat]
    exact (Align.isLeast_round_up (toNat_pos ha) _).unique hleast
  have hlt := row_add_lt hwmax hj hj'
  have hroom := toNat_room hwmax
  have hpred := toNat_pred ha
  have hover : ¬ alignment - 1 > 0xffffffffffffffff - width * 4 := by
    rw [gt_iff_lt, UInt64.not_lt, UInt64.le_iff_toNat_le]
    omega
  refine ⟨⟨(width * 4 + alignment - 1) &&& ~~~(alignment - 1),
    ((width * 4 + alignment - 1) &&& ~~~(alignment - 1)) * height⟩, ?_,
    (toNat_stride hwmax hj hj').trans hstride⟩
  unfold juiceReadbackLayout
  rw [if_neg, if_neg hover, if_neg]
  · rw [not_div_lt_iff (hne hh), toNat_stride hwmax hj hj', hstride]
    exact hbytes
  · simp only [not_or, not_not]
    exact ⟨hne hw, hne hh, UInt64.not_lt.mpr (UInt64.le_iff_toNat_le.mpr hwmax),
      UInt64.not_lt.mpr (UInt64.le_iff_toNat_le.mpr hhmax), (not_div_lt_iff (hne hh)).mpr hpix,
      ha, hpow⟩

theorem admissible_of_eq_some {l : ReadbackLayout}
    (h : juiceReadbackLayout width height alignment = some l) :
    Admissible width.toNat height.toNat alignment.toNat l.stride.toNat := by
  obtain ⟨hw, hh, hwle, hhle, hpix, ⟨k, -, hk⟩, hround, hle, -⟩ := juiceReadbackLayout_eq_some h
  refine ⟨⟨toNat_pos hw, hwle⟩, ⟨toNat_pos hh, hhle⟩, hpix, ⟨k, hk⟩, ?_, hle⟩
  rw [hround, Nat.mul_comm width.toNat]
  exact Align.isLeast_round_up (hk ▸ Nat.two_pow_pos k) _

/-- **`juice_readback_layout` is exact.** It admits the surfaces that are to
be admitted and no other, with the least stride and the size that belongs to
it; where it refuses the output is cleared, and no operation wraps. -/
theorem readbackLayout_exact (width height alignment : UInt64) :
    ((readbackLayoutOut width height alignment).1 = true
        ↔ ∃ s, Admissible width.toNat height.toNat alignment.toNat s)
      ∧ (∀ s, Admissible width.toNat height.toNat alignment.toNat s →
        (readbackLayoutOut width height alignment).2.stride.toNat = s
          ∧ (readbackLayoutOut width height alignment).2.bytes.toNat = s * height.toNat)
      ∧ ((readbackLayoutOut width height alignment).1 = false →
        (readbackLayoutOut width height alignment).2 = ⟨0, 0⟩)
      ∧ Exact width height alignment := by
  have hexact := exact_readbackLayout width height alignment
  refine ⟨⟨fun h => ?_, ?_⟩, fun s hs => ?_, fun h => ?_, hexact⟩
  · cases hl : juiceReadbackLayout width height alignment with
    | none => simp [readbackLayoutOut, hl] at h
    | some l => exact ⟨_, admissible_of_eq_some hl⟩
  · rintro ⟨s, hs⟩
    obtain ⟨l, hl, -⟩ := hs.eq_some
    simp [readbackLayoutOut, hl]
  · obtain ⟨l, hl, rfl⟩ := hs.eq_some
    simp only [readbackLayoutOut, hl]
    exact ⟨trivial, hexact.bytes l hl⟩
  · cases hl : juiceReadbackLayout width height alignment with
    | none => simp [readbackLayoutOut, hl]
    | some l => simp [readbackLayoutOut, hl] at h

end Out

end Juice
