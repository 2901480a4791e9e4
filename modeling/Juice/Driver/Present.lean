import Juice.Display.GraphicsPolicy
import Juice.Driver.Ipc

/-!
# Sending a picture

`ios_ipc_present` clips the rectangle that changed to the picture, and
sends either the picture or the packed rectangle. It sends the rectangle
only where three things hold: the rectangle is not the whole picture, the
window has a baseline in this generation, and packing saves something.

The arithmetic is that of C: coordinates are 32-bit signed, extents 32-bit
unsigned, sizes 64-bit. For the pictures the driver makes,
`Picture.Sized`, none of it overflows, and the lemmas below say what is
computed in numbers.
-/

namespace Juice

open ByteSeq JuiceMsg

variable {pic : Picture}

/-! ## Clipping -/

/-- The clipped rectangle of `ios_ipc_present`. -/
def clipRect (width height : UInt32) (dirty : Option Rect) : Rect :=
  let c : Rect := ⟨0, 0, width.toInt32, height.toInt32⟩
  let c : Rect := match dirty with
    | none => c
    | some d =>
      ⟨if d.left > c.left then d.left else c.left, if d.top > c.top then d.top else c.top,
        if d.right < c.right then d.right else c.right,
        if d.bottom < c.bottom then d.bottom else c.bottom⟩
  ⟨if c.left < 0 then 0 else c.left, if c.top < 0 then 0 else c.top,
    if c.right > width.toInt32 then width.toInt32 else c.right,
    if c.bottom > height.toInt32 then height.toInt32 else c.bottom⟩

/-- `full_size`. -/
def Picture.fullSize (pic : Picture) : ℕ := pic.stride.toNat * pic.height.toNat

/-- The guards of `ios_ipc_present` and the clipped rectangle, `none` where
it returns without sending anything. -/
def clipFrame (pic : Picture) (dirty : Option Rect) : Option Rect :=
  if pic.width = 0 ∨ pic.height = 0 ∨ pic.stride < pic.width * 4 ∨ pic.fullSize > 0xffffffff then
    none
  else
    let c := clipRect pic.width pic.height dirty
    if c.right ≤ c.left ∨ c.bottom ≤ c.top then none else some c

namespace Rect

/-- `dirty_width`. -/
def cols (c : Rect) : UInt32 := (c.right - c.left).toUInt32
/-- `dirty_height`. -/
def rows (c : Rect) : UInt32 := (c.bottom - c.top).toUInt32
/-- `row_bytes`. -/
def rowBytes (c : Rect) : ℕ := c.cols.toNat * 4
/-- `payload_size`. -/
def payloadSize (c : Rect) : ℕ := c.rowBytes * c.rows.toNat

/-- Whether the clipped rectangle is less than the picture. -/
def isPartial (c : Rect) (pic : Picture) : Bool :=
  c.left ≠ 0 ∨ c.top ≠ 0 ∨ c.cols ≠ pic.width ∨ c.rows ≠ pic.height

/-- The rectangle of a whole picture, `SetRect(&full,0,0,width,height)`. -/
def full (width height : UInt32) : Rect := ⟨0, 0, width.toInt32, height.toInt32⟩

end Rect

/-! ## The record -/

/-- The header of a packed rectangle. -/
def dirtyMsg (hwnd : UInt64) (c : Rect) : JuiceMsg :=
  { magic := MAGIC, type := FRAME, size := UInt32.ofNat c.payloadSize, hwnd, x := c.left,
    y := c.top, width := c.cols.toInt32, height := c.rows.toInt32,
    stride := UInt32.ofNat c.rowBytes, flags := DIRTY }

/-- The header of a whole picture. -/
def fullMsg (hwnd : UInt64) (pic : Picture) : JuiceMsg :=
  { magic := MAGIC, type := FRAME, size := UInt32.ofNat pic.fullSize, hwnd, x := 0, y := 0,
    width := pic.width.toInt32, height := pic.height.toInt32, stride := pic.stride, flags := 0 }

@[simp] theorem dirty_dirtyMsg (hwnd : UInt64) (c : Rect) : (dirtyMsg hwnd c).dirty = true := by
  show decide (DIRTY &&& DIRTY ≠ 0) = true
  decide

@[simp] theorem dirty_fullMsg (hwnd : UInt64) (pic : Picture) :
    (fullMsg hwnd pic).dirty = false := by
  show decide (0 &&& DIRTY ≠ 0) = false
  decide

/-- The vectors of the dirty branch, one a row. -/
def dirtyRows (pic : Picture) (c : Rect) : List (List UInt8) :=
  (List.range c.rows.toNat).map (fun row => slice pic.bits
    ((c.top.toUInt32.toNat + row) * pic.stride.toNat + c.left.toUInt32.toNat * 4) c.rowBytes)

/-- `partial&&payload_size<full_size`, the baseline included in `partial`. -/
def sendsDirty (pic : Picture) (c : Rect) (baseline : Bool) : Bool :=
  c.isPartial pic && baseline && decide (c.payloadSize < pic.fullSize)

/-- **The record of `ios_ipc_present`.** -/
def frameRecord (hwnd : UInt64) (pic : Picture) (c : Rect) (baseline : Bool) : Record :=
  if sendsDirty pic c baseline then ⟨dirtyMsg hwnd c, (dirtyRows pic c).flatten, some pic⟩
  else ⟨fullMsg hwnd pic, pic.bits.take pic.fullSize, some pic⟩

/-- The writes of `ios_ipc_present`: the header, and then the rows in
batches or the bits. -/
def writeFrame (hwnd : UInt64) (pic : Picture) (c : Rect) (baseline : Bool)
    (results : List IoResult) : Option Transfer :=
  (writeAll results (frameRecord hwnd pic c baseline).msg.encode).bind (fun t =>
    t.andThen (fun rest =>
      if sendsDirty pic c baseline then writeRows c.rows.toNat rest (dirtyRows pic c)
      else writeAll rest (pic.bits.take pic.fullSize)))

/-- **`ios_ipc_present`.** -/
def Ipc.present (hwnd : UInt64) (pic : Picture) (dirty : Option Rect) (io : Io) (ipc : Ipc) :
    Option Ipc :=
  match clipFrame pic dirty with
  | none => some ipc
  | some c =>
    (ipc.connectIpc io).bind (fun p =>
      match p.1.fd with
      | none => some p.1
      | some conn =>
        let baseline := p.1.surfaceHasBaseline hwnd
        Ipc.attempt (writeFrame hwnd pic c baseline) (frameRecord hwnd pic c baseline)
          (Ipc.markSurfaceBaseline hwnd io.alloc) conn p)

/-! ## Pictures the driver makes -/

/-- **A picture within the limits of `juice_readback_layout`.** -/
structure Picture.Sized (pic : Picture) : Prop where
  width_pos : 0 < pic.width.toNat
  height_pos : 0 < pic.height.toNat
  width_le : pic.width.toNat ≤ 8192
  height_le : pic.height.toNat ≤ 8192
  pixels_le : pic.width.toNat * pic.height.toNat ≤ 4096 * 4096
  row_le : pic.width.toNat * 4 ≤ pic.stride.toNat
  length_bits : pic.bits.length = pic.fullSize
  fullSize_le : pic.fullSize ≤ 128 * 1024 * 1024

/-- A picture laid out as `juice_readback_layout` says. -/
theorem ReadbackLayout.Admits.sized {width height alignment : UInt64} {l : ReadbackLayout}
    (h : l.Admits width height alignment) {bits : List UInt8} (producer : Producer)
    (hbits : bits.length = l.bytes.toNat) :
    Picture.Sized ⟨bits, width.toUInt32, height.toUInt32, l.stride.toUInt32, producer⟩ := by
  have hw : width.toUInt32.toNat = width.toNat := by
    rw [UInt64.toNat_toUInt32]
    exact Nat.mod_eq_of_lt (by have := h.width_le; omega)
  have hh : height.toUInt32.toNat = height.toNat := by
    rw [UInt64.toNat_toUInt32]
    exact Nat.mod_eq_of_lt (by have := h.height_le; omega)
  have hpos := h.height_pos
  have hstride : l.stride.toNat ≤ l.bytes.toNat := by
    rw [h.bytes_eq]
    exact Nat.le_mul_of_pos_right _ hpos
  have hs : l.stride.toUInt32.toNat = l.stride.toNat := by
    rw [UInt64.toNat_toUInt32]
    exact Nat.mod_eq_of_lt (by have := h.bytes_le; omega)
  have hfull : Picture.fullSize ⟨bits, width.toUInt32, height.toUInt32, l.stride.toUInt32, producer⟩
      = l.bytes.toNat := by
    rw [Picture.fullSize, hs, hh, h.bytes_eq]
  exact
    { width_pos := by rw [hw]; exact h.width_pos
      height_pos := by rw [hh]; exact hpos
      width_le := by rw [hw]; exact h.width_le
      height_le := by rw [hh]; exact h.height_le
      pixels_le := by rw [hw, hh]; exact h.pixels_le
      row_le := by rw [hw, hs]; exact h.row_le
      length_bits := by rw [hfull]; exact hbits
      fullSize_le := by rw [hfull]; exact h.bytes_le }

/-- A word below `2 ^ 31` keeps its value as a signed one. -/
theorem toInt_toInt32 {x : UInt32} (h : x.toNat < 2 ^ 31) : x.toInt32.toInt = x.toNat := by
  have := Int32.toInt_ofNat_of_lt h
  rwa [← UInt32.toInt32_ofNat', UInt32.ofNat_toNat] at this

/-! ## The clipped rectangle in numbers -/

/-- **A rectangle inside a picture**, not empty. -/
structure Rect.Within (c : Rect) (pic : Picture) : Prop where
  left_nonneg : 0 ≤ c.left.toInt
  top_nonneg : 0 ≤ c.top.toInt
  left_lt : c.left.toInt < c.right.toInt
  top_lt : c.top.toInt < c.bottom.toInt
  right_le : c.right.toInt ≤ pic.width.toNat
  bottom_le : c.bottom.toInt ≤ pic.height.toNat

/-- The pixels a dirty rectangle covers; `NULL` covers all of them. -/
def Covers (dirty : Option Rect) (x y : ℕ) : Prop :=
  ∀ d ∈ dirty, (d.left.toInt ≤ x ∧ x < d.right.toInt) ∧ (d.top.toInt ≤ y ∧ y < d.bottom.toInt)

instance (dirty : Option Rect) (x y : ℕ) : Decidable (Covers dirty x y) := by
  unfold Covers
  infer_instance

section Clip

variable {pic : Picture} (hs : pic.Sized) {dirty : Option Rect}
include hs

theorem toInt_width : pic.width.toInt32.toInt = pic.width.toNat :=
  toInt_toInt32 (by have := hs.width_le; omega)

theorem toInt_height : pic.height.toInt32.toInt = pic.height.toNat :=
  toInt_toInt32 (by have := hs.height_le; omega)

/-- The clipped rectangle lies in the picture, if it is not empty. -/
theorem clipRect_bounds (dirty : Option Rect) :
    0 ≤ (clipRect pic.width pic.height dirty).left.toInt
      ∧ 0 ≤ (clipRect pic.width pic.height dirty).top.toInt
      ∧ (clipRect pic.width pic.height dirty).right.toInt ≤ pic.width.toNat
      ∧ (clipRect pic.width pic.height dirty).bottom.toInt ≤ pic.height.toNat := by
  have hw := toInt_width hs
  have hh := toInt_height hs
  have h0 : (0 : Int32).toInt = 0 := rfl
  unfold clipRect
  dsimp only
  generalize (match dirty with
    | none => (⟨0, 0, pic.width.toInt32, pic.height.toInt32⟩ : Rect)
    | some d => _) = c
  refine ⟨?_, ?_, ?_, ?_⟩ <;> split <;> rename_i h <;>
    simp only [Int32.lt_iff_toInt_lt, gt_iff_lt] at h <;> omega

/-- **Clipping keeps the pixels of the picture that are dirty**, and no
others. -/
theorem mem_clipRect {x y : ℕ} (hx : x < pic.width.toNat) (hy : y < pic.height.toNat) :
    Covers dirty x y ↔ (((clipRect pic.width pic.height dirty).left.toInt ≤ x
        ∧ x < (clipRect pic.width pic.height dirty).right.toInt)
      ∧ ((clipRect pic.width pic.height dirty).top.toInt ≤ y
        ∧ y < (clipRect pic.width pic.height dirty).bottom.toInt)) := by
  have hw := toInt_width hs
  have hh := toInt_height hs
  have h0 : (0 : Int32).toInt = 0 := rfl
  cases dirty with
  | none => simp [Covers, clipRect, hw, hh, hx, hy]
  | some d =>
    have hcov : Covers (some d) x y ↔ (d.left.toInt ≤ x ∧ x < d.right.toInt)
        ∧ (d.top.toInt ≤ y ∧ y < d.bottom.toInt) := by simp [Covers]
    rw [hcov]
    -- both clamps are the identity on a coordinate of the picture
    have lower : ∀ a : Int32, ∀ n : ℕ, (if (if a > 0 then a else 0) < 0 then (0 : Int32)
        else if a > 0 then a else 0).toInt ≤ n ↔ a.toInt ≤ n := by
      intro a n
      split_ifs with h₁ h₂ h₂ <;> simp only [Int32.lt_iff_toInt_lt, gt_iff_lt] at * <;> omega
    have upper : ∀ (a b : Int32) (m n : ℕ), b.toInt = m → n < m →
        ((n : ℤ) < (if (if a < b then a else b) > b then b else if a < b then a else b).toInt
          ↔ (n : ℤ) < a.toInt) := by
      intro a b m n hb hn
      split_ifs with h₁ h₂ h₂ <;> simp only [Int32.lt_iff_toInt_lt, gt_iff_lt] at * <;> omega
    simp only [clipRect]
    rw [lower, lower, upper _ _ _ _ hw hx, upper _ _ _ _ hh hy]

/-- A rectangle to be sent is inside the picture. -/
theorem within_of_clipFrame {c : Rect} (h : clipFrame pic dirty = some c) :
    c.Within pic ∧ c = clipRect pic.width pic.height dirty := by
  unfold clipFrame at h
  split at h
  · cases h
  · dsimp only at h
    split at h
    · cases h
    · rename_i hne
      cases h
      simp only [not_or, Int32.le_iff_toInt_le, not_le] at hne
      obtain ⟨h₁, h₂, h₃, h₄⟩ := clipRect_bounds hs dirty
      exact ⟨⟨h₁, h₂, hne.1, hne.2, h₃, h₄⟩, rfl⟩

/-- Of a picture the driver makes, nothing is sent only where no pixel is
dirty. -/
theorem not_covers_of_clipFrame (h : clipFrame pic dirty = none) {x y : ℕ}
    (hx : x < pic.width.toNat) (hy : y < pic.height.toNat) : ¬ Covers dirty x y := by
  have hw := hs.width_pos
  have hh := hs.height_pos
  have hmul : (pic.width * 4).toNat = pic.width.toNat * 4 := by
    rw [UInt32.toNat_mul]
    exact Nat.mod_eq_of_lt (by have := hs.width_le; show pic.width.toNat * 4 < 2 ^ 32; omega)
  have hguard : ¬ (pic.width = 0 ∨ pic.height = 0 ∨ pic.stride < pic.width * 4
      ∨ pic.fullSize > 0xffffffff) := by
    have := hs.row_le
    have := hs.fullSize_le
    rw [UInt32.lt_iff_toNat_lt, hmul, ← UInt32.toNat_inj, ← UInt32.toNat_inj]
    have h0 : (0 : UInt32).toNat = 0 := rfl
    omega
  unfold clipFrame at h
  rw [if_neg hguard] at h
  dsimp only at h
  split at h
  · rename_i hempty
    simp only [Int32.le_iff_toInt_le] at hempty
    rw [mem_clipRect hs hx hy]
    omega
  · cases h

/-- The rectangle of the whole picture covers it. -/
theorem covers_full {x y : ℕ} (hx : x < pic.width.toNat) (hy : y < pic.height.toNat) :
    Covers (some (Rect.full pic.width pic.height)) x y := by
  have hw := toInt_width hs
  have hh := toInt_height hs
  simp [Covers, Rect.full, hw, hh, hx, hy]

/-- The whole picture is sent as a whole. -/
theorem clipFrame_full :
    ∃ c, clipFrame pic (some (Rect.full pic.width pic.height)) = some c
      ∧ c.isPartial pic = false := by
  have hw := toInt_width hs
  have hh := toInt_height hs
  have h0 : (0 : Int32).toInt = 0 := rfl
  have hwp := hs.width_pos
  have hhp := hs.height_pos
  have hcov := covers_full hs hwp hhp
  cases hc : clipFrame pic (some (Rect.full pic.width pic.height)) with
  | none => exact absurd hcov (not_covers_of_clipFrame hs hc hwp hhp)
  | some c =>
    obtain ⟨-, rfl⟩ := within_of_clipFrame hs hc
    refine ⟨_, rfl, ?_⟩
    have hrect : clipRect pic.width pic.height (some (Rect.full pic.width pic.height))
        = Rect.full pic.width pic.height := by
      simp [clipRect, Rect.full]
    rw [hrect]
    simp [Rect.isPartial, Rect.full, Rect.cols, Rect.rows]

end Clip

/-! ## The record in numbers -/

namespace Rect.Within

variable {pic : Picture} {c : Rect} (hs : pic.Sized) (hc : c.Within pic)
include hs hc

/-- A difference of coordinates of the rectangle does not overflow. -/
theorem toNat_cols : (c.cols.toNat : ℤ) = c.right.toInt - c.left.toInt := by
  have := hs.width_le
  obtain ⟨h₁, -, h₂, -, h₃, -⟩ := hc
  have hsub : (c.right - c.left).toInt = c.right.toInt - c.left.toInt := by
    rw [Int32.toInt_sub]
    exact Int.bmod_eq_of_le (by omega) (by omega)
  rw [Rect.cols, toNat_toUInt32_cast (by omega), hsub]

theorem toNat_rows : (c.rows.toNat : ℤ) = c.bottom.toInt - c.top.toInt := by
  have := hs.height_le
  obtain ⟨-, h₁, -, h₂, -, h₃⟩ := hc
  have hsub : (c.bottom - c.top).toInt = c.bottom.toInt - c.top.toInt := by
    rw [Int32.toInt_sub]
    exact Int.bmod_eq_of_le (by omega) (by omega)
  rw [Rect.rows, toNat_toUInt32_cast (by omega), hsub]

/-- **The rectangle in numbers**: where it starts, and that it fits. -/
theorem fits : ((c.left.toUInt32.toNat : ℤ) = c.left.toInt ∧ (c.top.toUInt32.toNat : ℤ) = c.top.toInt)
    ∧ (0 < c.cols.toNat ∧ c.left.toUInt32.toNat + c.cols.toNat ≤ pic.width.toNat)
    ∧ (0 < c.rows.toNat ∧ c.top.toUInt32.toNat + c.rows.toNat ≤ pic.height.toNat) := by
  have hcols := toNat_cols hs hc
  have hrows := toNat_rows hs hc
  have hl := toNat_toUInt32_cast hc.left_nonneg
  have ht := toNat_toUInt32_cast hc.top_nonneg
  obtain ⟨-, -, h₁, h₂, h₃, h₄⟩ := hc
  exact ⟨⟨hl, ht⟩, ⟨by omega, by omega⟩, ⟨by omega, by omega⟩⟩

theorem payloadSize_le : c.payloadSize ≤ pic.fullSize := by
  obtain ⟨-, ⟨-, h₁⟩, -, h₂⟩ := fits hs hc
  have := hs.row_le
  exact Nat.mul_le_mul (by unfold Rect.rowBytes; omega) (by omega)

/-- The fields of the header of a packed rectangle. -/
theorem dirtyMsg_fields (hwnd : UInt64) :
    (dirtyMsg hwnd c).cols = c.cols.toNat ∧ (dirtyMsg hwnd c).rows = c.rows.toNat
      ∧ (dirtyMsg hwnd c).stride.toNat = c.rowBytes
      ∧ (dirtyMsg hwnd c).size.toNat = c.payloadSize := by
  obtain ⟨-, ⟨h₀, h₁⟩, h₂, -⟩ := fits hs hc
  have := hs.width_le
  have := payloadSize_le hs hc
  have := hs.fullSize_le
  refine ⟨rfl, rfl, UInt32.toNat_ofNat_of_lt ?_, UInt32.toNat_ofNat_of_lt ?_⟩
  · show c.cols.toNat * 4 < 2 ^ 32
    omega
  · show c.payloadSize < 2 ^ 32
    omega

/-- **The header of a packed rectangle passes the host's check.** -/
theorem juiceDirtyHeaderValid_dirtyMsg (hwnd : UInt64) :
    juiceDirtyHeaderValid (dirtyMsg hwnd c) = true := by
  obtain ⟨hcols, hrows, hstride, hsize⟩ := dirtyMsg_fields hs hc hwnd
  obtain ⟨-, ⟨h₀, h₁⟩, h₂, h₃⟩ := fits hs hc
  have hw := hs.width_le
  have hh := hs.height_le
  have hpay := payloadSize_le hs hc
  have hfull := hs.fullSize_le
  have hpix : c.cols.toNat * c.rows.toNat ≤ 4096 * 4096 :=
    le_trans (Nat.mul_le_mul (by omega) (by omega)) hs.pixels_le
  rw [juiceDirtyHeaderValid_iff, juiceFullHeaderValid_iff]
  refine ⟨⟨?_, ?_, ⟨⟨?_, ?_, ?_, ?_, ?_⟩, ?_, ?_, ?_⟩⟩, hc.left_nonneg, hc.top_nonneg⟩
  · show 0 < c.cols.toInt32.toInt
    rw [toInt_toInt32 (by omega)]
    omega
  · show 0 < c.rows.toInt32.toInt
    rw [toInt_toInt32 (by omega)]
    omega
  all_goals simp only [hcols, hrows, hstride, hsize]
  · exact h₀
  · exact h₂
  · omega
  · omega
  · exact hpix
  · exact le_rfl
  · rfl
  · unfold MAX_BYTES
    omega

end Rect.Within

namespace Picture.Sized

variable {pic : Picture} (hs : pic.Sized)
include hs

/-- The fields of the header of a whole picture. -/
theorem fullMsg_fields (hwnd : UInt64) :
    (fullMsg hwnd pic).cols = pic.width.toNat ∧ (fullMsg hwnd pic).rows = pic.height.toNat
      ∧ (fullMsg hwnd pic).size.toNat = pic.fullSize := by
  have := hs.fullSize_le
  refine ⟨rfl, rfl, UInt32.toNat_ofNat_of_lt ?_⟩
  show pic.fullSize < 2 ^ 32
  omega

/-- **The header of a whole picture passes the host's check.** -/
theorem juiceFullHeaderValid_fullMsg (hwnd : UInt64) :
    juiceFullHeaderValid (fullMsg hwnd pic) = true := by
  obtain ⟨hcols, hrows, hsize⟩ := fullMsg_fields hs hwnd
  have hw := hs.width_le
  have hh := hs.height_le
  rw [juiceFullHeaderValid_iff]
  refine ⟨?_, ?_, ⟨⟨?_, ?_, ?_, ?_, ?_⟩, ?_, ?_, ?_⟩⟩
  · show 0 < pic.width.toInt32.toInt
    rw [toInt_toInt32 (by omega)]
    exact_mod_cast hs.width_pos
  · show 0 < pic.height.toInt32.toInt
    rw [toInt_toInt32 (by omega)]
    exact_mod_cast hs.height_pos
  all_goals simp only [hcols, hrows, hsize]
  · exact hs.width_pos
  · exact hs.height_pos
  · exact hw
  · exact hh
  · exact hs.pixels_le
  · exact hs.row_le
  · rfl
  · exact hs.fullSize_le

/-- The payload of a frame is as long as its header says. -/
theorem length_payload {c : Rect} (hc : c.Within pic) (hwnd : UInt64) (baseline : Bool) :
    (frameRecord hwnd pic c baseline).payload.length
      = (frameRecord hwnd pic c baseline).msg.size.toNat := by
  unfold frameRecord
  split
  · obtain ⟨-, -, -, hsize⟩ := hc.dirtyMsg_fields hs hwnd
    obtain ⟨-, ⟨-, h₁⟩, -, h₂⟩ := hc.fits hs
    have := hs.row_le
    dsimp only
    rw [hsize, dirtyRows, flatten_rows, length_pack (by unfold Rect.rowBytes; omega), mul_comm]
    · rfl
    · rw [hs.length_bits, Picture.fullSize, mul_comm]
      exact Nat.mul_le_mul_left _ h₂
  · dsimp only
    rw [(fullMsg_fields hs hwnd).2.2, List.length_take, hs.length_bits, min_self]

end Picture.Sized

/-! ## What `ios_ipc_present` does -/

/-- A row of the dirty branch is in the picture. -/
theorem Rect.Within.row_end_le_bits {c : Rect} (hc : c.Within pic) (hs : pic.Sized) {k : ℕ}
    (hk : k < c.rows.toNat) :
    (c.top.toUInt32.toNat + k) * pic.stride.toNat + c.left.toUInt32.toNat * 4 + c.rowBytes
      ≤ pic.bits.length := by
  obtain ⟨-, ⟨h₀, h₁⟩, -, h₂⟩ := hc.fits hs
  have hrow := hs.row_le
  have hfit : c.left.toUInt32.toNat * 4 + c.rowBytes ≤ pic.stride.toNat := by
    unfold Rect.rowBytes
    omega
  exact row_end_le hfit (by omega : c.top.toUInt32.toNat + k < pic.height.toNat)
    (by rw [hs.length_bits, Picture.fullSize, mul_comm])

/-- No vector of the dirty branch is empty. -/
theorem ne_nil_of_mem_dirtyRows {c : Rect} (hs : pic.Sized) (hc : c.Within pic) :
    ∀ row ∈ dirtyRows pic c, row ≠ [] := by
  intro row hrow hnil
  obtain ⟨k, hk, rfl⟩ := List.mem_map.mp hrow
  obtain ⟨-, ⟨h₀, h₁⟩, -, -⟩ := hc.fits hs
  have hlen := length_slice (hc.row_end_le_bits hs (List.mem_range.mp hk))
  rw [hnil, List.length_nil, Rect.rowBytes] at hlen
  omega

/-- The writes of a frame are a transfer of its record. -/
theorem writeFrame_of {hwnd : UInt64} {c : Rect} {baseline : Bool} (hs : pic.Sized)
    (hc : c.Within pic) {s : List IoResult} {t : Transfer}
    (h : writeFrame hwnd pic c baseline s = some t) :
    Transfer.Of (frameRecord hwnd pic c baseline).bytes t := by
  have hpayload : ∀ s v, (if sendsDirty pic c baseline
        then writeRows c.rows.toNat s (dirtyRows pic c)
        else writeAll s (pic.bits.take pic.fullSize)) = some v
      → Transfer.Of (frameRecord hwnd pic c baseline).payload v := by
    intro s v hv
    unfold frameRecord
    by_cases hd : sendsDirty pic c baseline = true
    · rw [if_pos hd] at hv ⊢
      exact writeRows_of (by simp [dirtyRows]) (ne_nil_of_mem_dirtyRows hs hc) hv
    · rw [if_neg hd] at hv ⊢
      exact writeAll_of hv
  exact Ipc.write_record_of hpayload s t h

/-- **What `ios_ipc_present` does**: nothing, or it connects and sends the
frame, dropping the connection if that fails. -/
theorem Ipc.present_cases {hwnd : UInt64} {dirty : Option Rect} {io : Io} {ipc ipc' : Ipc}
    (hs : pic.Sized) (h : ipc.present hwnd pic dirty io = some ipc') :
    (clipFrame pic dirty = none ∧ ipc' = ipc)
    ∨ ∃ c ipc₁ rest, clipFrame pic dirty = some c ∧ ipc.connectIpc io = some (ipc₁, rest)
      ∧ ((ipc₁.fd = none ∧ ipc' = ipc₁)
        ∨ ∃ conn t, ipc₁.fd = some conn
          ∧ Transfer.Of (frameRecord hwnd pic c (ipc₁.surfaceHasBaseline hwnd)).bytes t
          ∧ ((t.ok = true ∧ ipc' = (ipc₁.transmit conn
                (frameRecord hwnd pic c (ipc₁.surfaceHasBaseline hwnd)) t).markSurfaceBaseline
                  hwnd io.alloc)
            ∨ (t.ok = false ∧ ipc' = (ipc₁.transmit conn
                (frameRecord hwnd pic c (ipc₁.surfaceHasBaseline hwnd)) t).disconnect))) := by
  unfold Ipc.present at h
  cases hclip : clipFrame pic dirty with
  | none =>
    rw [hclip] at h
    cases h
    exact .inl ⟨rfl, rfl⟩
  | some c =>
    rw [hclip] at h
    dsimp only at h
    rw [Option.bind_eq_some_iff] at h
    obtain ⟨⟨ipc₁, rest⟩, hconn, h⟩ := h
    refine .inr ⟨c, ipc₁, rest, rfl, hconn, ?_⟩
    dsimp only at h
    cases hfd : ipc₁.fd with
    | none =>
      rw [hfd] at h
      cases h
      exact .inl ⟨rfl, rfl⟩
    | some conn =>
      rw [hfd] at h
      obtain ⟨t, ht, hcases⟩ := Ipc.attempt_cases
        (fun s t ht => writeFrame_of hs (within_of_clipFrame hs hclip).1 ht) h
      exact .inr ⟨conn, t, rfl, ht, hcases⟩

end Juice
