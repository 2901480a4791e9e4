import Juice.Display.Message

/-!
# The host's checks on a record's header

`JuiceDisplayTransportHardening.m` reads a header, and before it reads or
allocates anything for the payload decides whether the header can be
right. A header that fails a check ends the connection: there is no way
to find the next record in the stream once a size is not to be trusted.

The checks cast signed wire fields to unsigned ones, `(uint32_t)width`,
after having tested their sign. The definitions keep the casts, and one
lemma per check says what has been established, in numbers: later modules
use those lemmas only.
-/

namespace Juice

open JuiceMsg (MAGIC HELLO WINDOW DESTROY FRAME DIRTY)

variable {m : JuiceMsg}

/-- `JUICE_DISPLAY_MAX_BYTES`: the largest payload, and the most bytes of
payload in flight. -/
def MAX_BYTES : ℕ := 128 * 1024 * 1024
/-- `JUICE_DISPLAY_MAX_DESKTOP_DIMENSION` and
`JUICE_DISPLAY_MAX_WINDOW_DIMENSION`, which are equal. -/
def MAX_DIMENSION : ℤ := 8192
/-- `JUICE_DISPLAY_MAX_DESKTOP_PIXELS` and
`JUICE_DISPLAY_MAX_WINDOW_PIXELS`, which are equal. -/
def MAX_PIXELS : ℕ := 4096 * 4096
/-- `JUICE_DISPLAY_MAX_WINDOW_ORIGIN`. -/
def MAX_WINDOW_ORIGIN : ℤ := 131072

/-! ## The geometry of a record, as the casts read it -/

namespace JuiceMsg

/-- `(uint32_t)message.width`. -/
def cols (m : JuiceMsg) : ℕ := m.width.toUInt32.toNat
/-- `(uint32_t)message.height`. -/
def rows (m : JuiceMsg) : ℕ := m.height.toUInt32.toNat
/-- `(uint32_t)message.x`. -/
def left (m : JuiceMsg) : ℕ := m.x.toUInt32.toNat
/-- `(uint32_t)message.y`. -/
def top (m : JuiceMsg) : ℕ := m.y.toUInt32.toNat

/-- Whether a frame's flags carry `JUICE_DISPLAY_DIRTY`. -/
def dirty (m : JuiceMsg) : Bool := m.flags &&& DIRTY ≠ 0

end JuiceMsg

/-- Casting a non-negative field to unsigned keeps its value. -/
theorem toNat_toUInt32_cast {x : Int32} (h : 0 ≤ x.toInt) : (x.toUInt32.toNat : ℤ) = x.toInt := by
  have hx : (0 : Int32) ≤ x := by
    rw [Int32.le_iff_toInt_le]
    exact h
  rw [Int32.toNat_toUInt32_of_le hx]
  exact Int32.cast_toNatClampNeg x hx

/-! ## The checks -/

/-- `JuiceDimensionsValid`. The product is taken in 64 bits, where two
32-bit factors cannot overflow. -/
def juiceDimensionsValid (m : JuiceMsg) (maxDimension : ℤ) (maxPixels : ℕ) : Bool :=
  if m.width.toInt ≤ 0 ∨ m.height.toInt ≤ 0 ∨ m.width.toInt > maxDimension
      ∨ m.height.toInt > maxDimension then false
  else decide (m.cols * m.rows ≤ maxPixels)

/-- `JuiceDesktopGeometryValid`. -/
def juiceDesktopGeometryValid (m : JuiceMsg) : Bool :=
  juiceDimensionsValid m MAX_DIMENSION MAX_PIXELS

/-- `JuiceWindowGeometryValid`. -/
def juiceWindowGeometryValid (m : JuiceMsg) : Bool :=
  if m.width.toInt ≤ 0 ∧ m.height.toInt ≤ 0 then true
  else if !juiceDimensionsValid m MAX_DIMENSION MAX_PIXELS then false
  else decide (-MAX_WINDOW_ORIGIN ≤ m.x.toInt ∧ m.x.toInt ≤ MAX_WINDOW_ORIGIN
    ∧ -MAX_WINDOW_ORIGIN ≤ m.y.toInt ∧ m.y.toInt ≤ MAX_WINDOW_ORIGIN)

/-- The part of the two frame checks that is the same: a row of pixels
fits in the stride, and the payload is the stride times the height. -/
def juicePayloadValid (m : JuiceMsg) : Bool :=
  if m.cols * 4 > m.stride.toNat then false
  else decide (m.stride.toNat * m.rows = m.size.toNat ∧ m.stride.toNat * m.rows ≤ MAX_BYTES)

/-- `JuiceFullHeaderValid`. -/
def juiceFullHeaderValid (m : JuiceMsg) : Bool :=
  if !juiceDimensionsValid m MAX_DIMENSION MAX_PIXELS then false else juicePayloadValid m

/-- `JuiceDirtyHeaderValid`. -/
def juiceDirtyHeaderValid (m : JuiceMsg) : Bool :=
  if !juiceDimensionsValid m MAX_DIMENSION MAX_PIXELS ∨ m.x.toInt < 0 ∨ m.y.toInt < 0 then false
  else juicePayloadValid m

/-- Why the host ends a connection over a header: the `reason` and `kind`
of its `DISPLAY_PROTOCOL_REJECTED` and `DISPLAY_GEOMETRY_REJECTED`
lines. -/
inductive Rejection where
  | magic
  | fixedPayload
  | frameGeometry
  | unknownType
  | desktop
  | window
  deriving DecidableEq, Repr

/-- The types of record that carry no payload. -/
def JuiceMsg.fixed (m : JuiceMsg) : Bool :=
  m.type = HELLO ∨ m.type = WINDOW ∨ m.type = DESTROY

/-- **The checks of `JuiceHardenedReadClient` on a header**, in its order;
`none` where the header is accepted. -/
def juiceCheckHeader (m : JuiceMsg) : Option Rejection :=
  if m.magic ≠ MAGIC then some .magic
  else if m.fixed ∧ m.size ≠ 0 then some .fixedPayload
  else if m.type = FRAME ∧ !(if m.dirty then juiceDirtyHeaderValid m else juiceFullHeaderValid m)
    then some .frameGeometry
  else if m.type ≠ FRAME ∧ !m.fixed then some .unknownType
  else if m.type = HELLO ∧ !juiceDesktopGeometryValid m then some .desktop
  else if m.type = WINDOW ∧ !juiceWindowGeometryValid m then some .window
  else none

/-! ## What an accepted header establishes -/

/-- The extents a record may have. -/
structure JuiceMsg.Sized (m : JuiceMsg) : Prop where
  cols_pos : 0 < m.cols
  rows_pos : 0 < m.rows
  cols_le : m.cols ≤ 8192
  rows_le : m.rows ≤ 8192
  pixels_le : m.cols * m.rows ≤ 4096 * 4096

/-- What both frame checks establish of a frame's payload. -/
structure JuiceMsg.Framed (m : JuiceMsg) : Prop extends m.Sized where
  row_le : m.cols * 4 ≤ m.stride.toNat
  size_eq : m.stride.toNat * m.rows = m.size.toNat
  size_le : m.size.toNat ≤ MAX_BYTES

theorem juiceDimensionsValid_iff :
    juiceDimensionsValid m MAX_DIMENSION MAX_PIXELS = true
      ↔ 0 < m.width.toInt ∧ 0 < m.height.toInt ∧ m.Sized := by
  have hsized : 0 < m.width.toInt → 0 < m.height.toInt → (m.Sized
      ↔ m.width.toInt ≤ MAX_DIMENSION ∧ m.height.toInt ≤ MAX_DIMENSION
        ∧ m.cols * m.rows ≤ MAX_PIXELS) := by
    intro hw hh
    have hc := toNat_toUInt32_cast (x := m.width) (by omega)
    have hr := toNat_toUInt32_cast (x := m.height) (by omega)
    unfold MAX_DIMENSION MAX_PIXELS
    constructor
    · intro h
      obtain ⟨-, -, h₁, h₂, h₃⟩ := h
      unfold JuiceMsg.cols at h₁
      unfold JuiceMsg.rows at h₂
      exact ⟨by omega, by omega, h₃⟩
    · rintro ⟨h₁, h₂, h₃⟩
      constructor <;> first | exact h₃ | (unfold JuiceMsg.cols; omega) | (unfold JuiceMsg.rows; omega)
  unfold juiceDimensionsValid
  split
  · rename_i hbad
    refine iff_of_false (by simp) ?_
    rintro ⟨hw, hh, hs⟩
    have := (hsized hw hh).mp hs
    omega
  · rename_i hok
    rw [decide_eq_true_iff]
    constructor
    · intro hpix
      exact ⟨by omega, by omega, (hsized (by omega) (by omega)).mpr ⟨by omega, by omega, hpix⟩⟩
    · rintro ⟨-, -, hs⟩
      exact hs.pixels_le

theorem juicePayloadValid_iff :
    juicePayloadValid m = true ↔ m.cols * 4 ≤ m.stride.toNat
      ∧ m.stride.toNat * m.rows = m.size.toNat ∧ m.size.toNat ≤ MAX_BYTES := by
  unfold juicePayloadValid
  split
  · rename_i h
    refine iff_of_false (by simp) ?_
    omega
  · rename_i h
    rw [decide_eq_true_iff]
    omega

/-- **What the full-frame check accepts.** -/
theorem juiceFullHeaderValid_iff :
    juiceFullHeaderValid m = true ↔ 0 < m.width.toInt ∧ 0 < m.height.toInt ∧ m.Framed := by
  have hframed : m.Framed ↔ m.Sized ∧ juicePayloadValid m = true := by
    rw [juicePayloadValid_iff]
    exact ⟨fun h => ⟨h.toSized, h.row_le, h.size_eq, h.size_le⟩,
      fun h => ⟨h.1, h.2.1, h.2.2.1, h.2.2.2⟩⟩
  unfold juiceFullHeaderValid
  rw [hframed]
  by_cases h : juiceDimensionsValid m MAX_DIMENSION MAX_PIXELS = true
  · have := juiceDimensionsValid_iff.mp h
    simp only [h, Bool.not_true, Bool.false_eq_true, if_false]
    tauto
  · have := mt juiceDimensionsValid_iff.mpr h
    simp only [Bool.not_eq_true] at h
    simp only [h, Bool.not_false, if_true, Bool.false_eq_true, false_iff]
    tauto

/-- **What the dirty-frame check accepts**: what the full-frame check
accepts, at an origin that is not negative. -/
theorem juiceDirtyHeaderValid_iff :
    juiceDirtyHeaderValid m = true
      ↔ juiceFullHeaderValid m = true ∧ 0 ≤ m.x.toInt ∧ 0 ≤ m.y.toInt := by
  unfold juiceDirtyHeaderValid juiceFullHeaderValid
  by_cases h : juiceDimensionsValid m MAX_DIMENSION MAX_PIXELS = true
  · by_cases hx : m.x.toInt < 0 ∨ m.y.toInt < 0
    · simp only [h, hx, or_true, if_true, Bool.false_eq_true, false_iff]
      omega
    · simp only [h, hx, Bool.not_true, Bool.false_eq_true, or_false, if_false]
      have : 0 ≤ m.x.toInt ∧ 0 ≤ m.y.toInt := by omega
      simp [this]
  · simp [h]

/-! ## The checks by type of record -/

section Types

variable {m : JuiceMsg} (hmagic : m.magic = MAGIC)
include hmagic

/-- A `HELLO` is judged by its desktop. -/
theorem juiceCheckHeader_hello (ht : m.type = HELLO) (hsize : m.size = 0) :
    juiceCheckHeader m = none ↔ juiceDesktopGeometryValid m = true := by
  simp [juiceCheckHeader, hmagic, ht, hsize, JuiceMsg.fixed, HELLO, FRAME, WINDOW]

/-- A `WINDOW` is judged by its rectangle. -/
theorem juiceCheckHeader_window (ht : m.type = WINDOW) (hsize : m.size = 0) :
    juiceCheckHeader m = none ↔ juiceWindowGeometryValid m = true := by
  simp [juiceCheckHeader, hmagic, ht, hsize, JuiceMsg.fixed, HELLO, FRAME, WINDOW]

/-- A `DESTROY` without payload is accepted. -/
theorem juiceCheckHeader_destroy (ht : m.type = DESTROY) (hsize : m.size = 0) :
    juiceCheckHeader m = none := by
  simp [juiceCheckHeader, hmagic, ht, hsize, JuiceMsg.fixed, HELLO, FRAME, WINDOW, DESTROY]

/-- A `FRAME` is judged by the check its flags select. -/
theorem juiceCheckHeader_frame (ht : m.type = FRAME) :
    juiceCheckHeader m = none
      ↔ (if m.dirty then juiceDirtyHeaderValid m else juiceFullHeaderValid m) = true := by
  simp [juiceCheckHeader, hmagic, ht, JuiceMsg.fixed, HELLO, FRAME, WINDOW, DESTROY]

end Types

/-- A frame whose header was accepted has passed the check its flags
select. -/
theorem frameValid_of_juiceCheckHeader (h : juiceCheckHeader m = none) (ht : m.type = FRAME) :
    (if m.dirty then juiceDirtyHeaderValid m else juiceFullHeaderValid m) = true := by
  have hmagic : m.magic = MAGIC := by
    by_contra hne
    simp [juiceCheckHeader, hne] at h
  exact (juiceCheckHeader_frame hmagic ht).mp h

/-- A record that passes the checks and is no frame has no payload. -/
theorem size_of_juiceCheckHeader (h : juiceCheckHeader m = none) (ht : m.type ≠ FRAME) :
    m.size = 0 := by
  by_contra hne
  have hrejected : ∀ x y : Rejection, (if m.magic = MAGIC then some x else some y) ≠ none := by
    intro x y
    split <;> simp
  by_cases hfixed : m.fixed = true
  · exact hrejected .fixedPayload .magic (by simpa [juiceCheckHeader, hfixed, hne] using h)
  · exact hrejected .unknownType .magic (by simpa [juiceCheckHeader, hfixed, ht] using h)

end Juice
