import Juice.Driver.Present

/-!
# Does the host accept what the driver sends?

The driver and the host were written apart, each with its own idea of
which geometries occur. Here the two meet: for every call of the driver
that the limits of both sides allow, whether the host's checks accept the
header that goes out.

They do, but for one shape. A Win32 window may be collapsed along one axis
only, and the driver sends its rectangle as it is, one extent zero and the
other not. `JuiceWindowGeometryValid` lets through a rectangle that is
empty along *both* axes, and asks every other one to have positive
extents, so the host ends the connection of the whole process over that
window. The code that handles the message, `updateWindowMessage`, has no
such difficulty: it ignores the extents unless both are positive.
-/

namespace Juice

open JuiceMsg

/-- **A call of the driver that emits a record.** -/
inductive DriverCall where
  /-- `connect_ipc_locked`. -/
  | hello (ipc : Ipc)
  /-- `ios_ipc_window`. -/
  | window (hwnd : UInt64) (rect : Option Rect) (visible : Bool)
  /-- `ios_ipc_destroy`. -/
  | destroy (hwnd : UInt64)
  /-- `ios_ipc_present`, for a window that has a baseline or has not. -/
  | frame (hwnd : UInt64) (pic : Picture) (dirty : Option Rect) (baseline : Bool)

namespace DriverCall

/-- The header of the record a call emits, `none` where it emits none. -/
def header : DriverCall → Option JuiceMsg
  | hello ipc => some ipc.hello
  | window hwnd rect visible =>
    some (Ipc.msgHeader WINDOW hwnd rect 0 0 (Ipc.visibleFlag visible))
  | destroy hwnd => some (Ipc.msgHeader DESTROY hwnd none 0 0 0)
  | frame hwnd pic dirty baseline =>
    (clipFrame pic dirty).map (fun c => (frameRecord hwnd pic c baseline).msg)

/-- A rectangle that is not inverted, within the limits on extents and
origin. -/
structure RectConforms (r : Rect) : Prop where
  left_le : r.left.toInt ≤ r.right.toInt
  top_le : r.top.toInt ≤ r.bottom.toInt
  width_le : r.right.toInt - r.left.toInt ≤ 8192
  height_le : r.bottom.toInt - r.top.toInt ≤ 8192
  pixels_le : (r.right.toInt - r.left.toInt) * (r.bottom.toInt - r.top.toInt) ≤ 4096 * 4096
  left_ge : -131072 ≤ r.left.toInt
  left_le_origin : r.left.toInt ≤ 131072
  top_ge : -131072 ≤ r.top.toInt
  top_le_origin : r.top.toInt ≤ 131072

/-- **The calls within the limits**: a desktop and rectangles of the sizes
the host allows, and pictures `juice_readback_layout` admits, for the
alignments the two producers ask for. -/
def Conforms : DriverCall → Prop
  | hello ipc => (1 ≤ ipc.width.toNat ∧ ipc.width.toNat ≤ 8192)
      ∧ (1 ≤ ipc.height.toNat ∧ ipc.height.toNat ≤ 8192)
      ∧ ipc.width.toNat * ipc.height.toNat ≤ 4096 * 4096
  | window _ rect _ => ∀ r ∈ rect, RectConforms r
  | destroy _ => True
  | frame _ pic _ _ => ∃ width height alignment l,
      (alignment = 1 ∨ alignment = 256)
      ∧ juiceReadbackLayout width height alignment = some l
      ∧ pic.bits.length = l.bytes.toNat
      ∧ pic = ⟨pic.bits, width.toUInt32, height.toUInt32, l.stride.toUInt32, pic.producer⟩

/-- **A rectangle collapsed along one axis and not along the other.** -/
def HalfEmpty : DriverCall → Prop
  | window _ (some r) _ => ¬ (r.right = r.left ↔ r.bottom = r.top)
  | _ => False

end DriverCall

/-- A difference of coordinates of a conforming rectangle does not
overflow. -/
theorem toInt_extent {a b : Int32} (h : a.toInt ≤ b.toInt) (h' : b.toInt - a.toInt ≤ 8192) :
    (b - a).toInt = b.toInt - a.toInt := by
  rw [Int32.toInt_sub]
  exact Int.bmod_eq_of_le (by omega) (by omega)

/-- **Which conforming rectangles the host accepts**: those that are empty
along both axes or along none. -/
theorem juiceWindowGeometryValid_iff {m : JuiceMsg} {r : Rect} (hr : DriverCall.RectConforms r)
    (hx : m.x = r.left) (hy : m.y = r.top) (hw : m.width = r.right - r.left)
    (hh : m.height = r.bottom - r.top) :
    juiceWindowGeometryValid m = true ↔ (r.right = r.left ↔ r.bottom = r.top) := by
  have hwi : m.width.toInt = r.right.toInt - r.left.toInt := by
    rw [hw]
    exact toInt_extent hr.left_le hr.width_le
  have hhi : m.height.toInt = r.bottom.toInt - r.top.toInt := by
    rw [hh]
    exact toInt_extent hr.top_le hr.height_le
  have hw0 : r.right = r.left ↔ m.width.toInt = 0 := by
    rw [hwi, ← Int32.toInt_inj]
    omega
  have hh0 : r.bottom = r.top ↔ m.height.toInt = 0 := by
    rw [hhi, ← Int32.toInt_inj]
    omega
  have hwn := hr.left_le
  have hhn := hr.top_le
  have hdims : 0 < m.width.toInt → 0 < m.height.toInt
      → juiceDimensionsValid m MAX_DIMENSION MAX_PIXELS = true := by
    intro hwp hhp
    have hc : (m.cols : ℤ) = m.width.toInt := toNat_toUInt32_cast (by omega)
    have hr' : (m.rows : ℤ) = m.height.toInt := toNat_toUInt32_cast (by omega)
    have hpix : (m.cols : ℤ) * m.rows ≤ 4096 * 4096 := by
      rw [hc, hr', hwi, hhi]
      exact hr.pixels_le
    have hwl := hr.width_le
    have hhl := hr.height_le
    exact juiceDimensionsValid_iff.mpr ⟨hwp, hhp,
      ⟨by omega, by omega, by omega, by omega, by exact_mod_cast hpix⟩⟩
  have horigin : -MAX_WINDOW_ORIGIN ≤ m.x.toInt ∧ m.x.toInt ≤ MAX_WINDOW_ORIGIN
      ∧ -MAX_WINDOW_ORIGIN ≤ m.y.toInt ∧ m.y.toInt ≤ MAX_WINDOW_ORIGIN := by
    rw [hx, hy]
    exact ⟨hr.left_ge, hr.left_le_origin, hr.top_ge, hr.top_le_origin⟩
  rw [hw0, hh0]
  unfold juiceWindowGeometryValid
  by_cases hboth : m.width.toInt ≤ 0 ∧ m.height.toInt ≤ 0
  · rw [if_pos hboth]
    refine iff_of_true rfl ?_
    omega
  · rw [if_neg hboth]
    by_cases hpos : 0 < m.width.toInt ∧ 0 < m.height.toInt
    · rw [hdims hpos.1 hpos.2]
      simp only [Bool.not_true, Bool.false_eq_true, if_false, decide_eq_true_iff]
      refine iff_of_true horigin ?_
      omega
    · -- one extent is zero and the other is not
      have hbad : juiceDimensionsValid m MAX_DIMENSION MAX_PIXELS = false := by
        rw [Bool.eq_false_iff]
        intro h
        obtain ⟨h₁, h₂, -⟩ := juiceDimensionsValid_iff.mp h
        exact hpos ⟨h₁, h₂⟩
      rw [hbad]
      simp only [Bool.not_false, if_true, Bool.false_eq_true, false_iff]
      omega

/-- A desktop within the limits is accepted. -/
theorem juiceCheckHeader_of_hello {ipc : Ipc} (h : (DriverCall.hello ipc).Conforms) :
    juiceCheckHeader ipc.hello = none := by
  obtain ⟨⟨hw, hw'⟩, ⟨hh, hh'⟩, hpix⟩ := h
  refine (juiceCheckHeader_hello (m := ipc.hello) rfl rfl rfl).mpr
    (juiceDimensionsValid_iff.mpr ⟨?_, ?_, ⟨hw, hh, hw', hh', hpix⟩⟩)
  · show 0 < ipc.width.toInt32.toInt
    rw [toInt_toInt32 (by omega)]
    omega
  · show 0 < ipc.height.toInt32.toInt
    rw [toInt_toInt32 (by omega)]
    omega

/-- **Every frame is accepted**, whole or packed. -/
theorem juiceCheckHeader_of_frame {hwnd : UInt64} {pic : Picture} {c : Rect} {baseline : Bool}
    (hs : pic.Sized) (hc : c.Within pic) :
    juiceCheckHeader (frameRecord hwnd pic c baseline).msg = none := by
  unfold frameRecord
  split
  · rw [juiceCheckHeader_frame rfl rfl, if_pos (dirty_dirtyMsg hwnd c)]
    exact hc.juiceDirtyHeaderValid_dirtyMsg hs hwnd
  · rw [juiceCheckHeader_frame rfl rfl, if_neg (by simp)]
    exact hs.juiceFullHeaderValid_fullMsg hwnd

/-- **The host accepts the header of every conforming call, except for a
window collapsed along exactly one axis.** -/
theorem juiceCheckHeader_eq_none_iff (call : DriverCall) (h : call.Conforms) (m : JuiceMsg)
    (hm : call.header = some m) : juiceCheckHeader m = none ↔ ¬ call.HalfEmpty := by
  cases call with
  | hello ipc =>
    cases hm
    exact iff_of_true (juiceCheckHeader_of_hello h) not_false
  | window hwnd rect visible =>
    cases hm
    cases rect with
    | none => exact iff_of_true ((juiceCheckHeader_window rfl rfl rfl).mpr rfl) not_false
    | some r =>
      rw [juiceCheckHeader_window rfl rfl rfl,
        juiceWindowGeometryValid_iff (h r rfl) rfl rfl rfl rfl, DriverCall.HalfEmpty, not_not]
  | destroy hwnd =>
    cases hm
    exact iff_of_true (juiceCheckHeader_destroy rfl rfl rfl) not_false
  | frame hwnd pic dirty baseline =>
    obtain ⟨width, height, alignment, l, -, hl, hbits, hpic⟩ := h
    have hs : pic.Sized := by
      rw [hpic]
      exact (juiceReadbackLayout_admits hl).sized pic.producer hbits
    obtain ⟨c, hc, rfl⟩ := Option.map_eq_some_iff.mp hm
    exact iff_of_true (juiceCheckHeader_of_frame hs (within_of_clipFrame hs hc).1) not_false

/-- A call the theorem is about, accepted: a window of ten by ten pixels. -/
theorem juiceCheckHeader_square_window :
    juiceCheckHeader (Ipc.msgHeader WINDOW 7 (some ⟨5, 5, 15, 15⟩) 0 0 1) = none :=
  (juiceCheckHeader_eq_none_iff (.window 7 (some ⟨5, 5, 15, 15⟩) true)
    (by intro r hr; cases hr; constructor <;> decide) _ rfl).mpr
    (by simp only [DriverCall.HalfEmpty]; decide)

/-- **A window zero pixels wide and five high ends the connection.** -/
theorem juiceCheckHeader_thin_window :
    (DriverCall.window 7 (some ⟨0, 0, 0, 5⟩) true).Conforms
      ∧ (DriverCall.window 7 (some ⟨0, 0, 0, 5⟩) true).header
          = some (Ipc.msgHeader WINDOW 7 (some ⟨0, 0, 0, 5⟩) 0 0 1)
      ∧ juiceCheckHeader (Ipc.msgHeader WINDOW 7 (some ⟨0, 0, 0, 5⟩) 0 0 1) = some .window
      ∧ ¬ ∀ (call : DriverCall) (m : JuiceMsg), call.Conforms → call.header = some m
          → juiceCheckHeader m = none := by
  have hconf : (DriverCall.window 7 (some ⟨0, 0, 0, 5⟩) true).Conforms := by
    intro r hr
    cases hr
    constructor <;> decide
  have hrej : juiceCheckHeader (Ipc.msgHeader WINDOW 7 (some ⟨0, 0, 0, 5⟩) 0 0 1)
      = some .window := by decide
  refine ⟨hconf, rfl, hrej, fun hall => ?_⟩
  have hacc : juiceCheckHeader (Ipc.msgHeader WINDOW 7 (some ⟨0, 0, 0, 5⟩) 0 0 1) = none :=
    hall _ _ hconf rfl
  rw [hacc] at hrej
  cases hrej

end Juice
