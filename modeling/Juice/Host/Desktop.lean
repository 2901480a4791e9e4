import Mathlib.Data.Rat.Floor
import Juice.Host.Framebuffer

/-!
# Windows on the desktop

`WineWindowState`, what the compositor of `JuiceMultiWindowFix.m` draws of
one, where it draws it, and which window a point of the desktop belongs to.

A `CGFloat` is a rational number here. All coordinates come from 32-bit
integers, on which the arithmetic of a `double` is exact; the one product
that is not, the padding of the viewport, is rounded to whole numbers right
after, and is taken at its exact value. A null rectangle is `none`.

A descriptor that is stored names a connection by number, and numbers are
used again. `Client.conn` is for the proofs: the connection the descriptor
was stored for, which goes along where the descriptor is copied.
-/

namespace Juice

/-! ## Rectangles -/

/-- `CGRect`. -/
structure CGRect where
  x : ℚ
  y : ℚ
  width : ℚ
  height : ℚ
  deriving DecidableEq, Repr

namespace CGRect

/-- `CGRectZero`. -/
def zero : CGRect := ⟨0, 0, 0, 0⟩

def maxX (r : CGRect) : ℚ := r.x + r.width

def maxY (r : CGRect) : ℚ := r.y + r.height

/-- `CGRectStandardize`. -/
def standardize (r : CGRect) : CGRect :=
  ⟨if r.width < 0 then r.maxX else r.x, if r.height < 0 then r.maxY else r.y, |r.width|, |r.height|⟩

/-- `CGRectIsEmpty`. -/
def isEmpty (r : CGRect) : Bool := r.width = 0 ∨ r.height = 0

/-- `CGRectIntersection`. -/
def intersection (r s : CGRect) : Option CGRect :=
  let left := max r.x s.x
  let top := max r.y s.y
  let right := min r.maxX s.maxX
  let bottom := min r.maxY s.maxY
  if right < left ∨ bottom < top then none else some ⟨left, top, right - left, bottom - top⟩

/-- `CGRectIntersectsRect`. -/
def intersects (r s : CGRect) : Bool := (r.intersection s).isSome

/-- `CGRectUnion`. -/
def union (r s : CGRect) : CGRect :=
  let left := min r.x s.x
  let top := min r.y s.y
  ⟨left, top, max r.maxX s.maxX - left, max r.maxY s.maxY - top⟩

/-- `CGRectInset` by the same amount on all sides. -/
def inset (r : CGRect) (d : ℚ) : CGRect := ⟨r.x + d, r.y + d, r.width - 2 * d, r.height - 2 * d⟩

/-- `CGRectContainsPoint`. -/
def containsPoint (r : CGRect) (x y : ℚ) : Bool :=
  r.x ≤ x ∧ x < r.maxX ∧ r.y ≤ y ∧ y < r.maxY

end CGRect

/-! ## Windows -/

/-- **A stored descriptor**, and the connection it was stored for. -/
structure Client where
  fd : Fd
  conn : Option ℕ
  deriving DecidableEq, Repr

/-- No connection, `-1`. -/
def Client.nobody : Client := ⟨-1, none⟩

/-- A `UIImage`: which object it is, and its size. -/
structure Image where
  object : ℕ
  width : ℚ
  height : ℚ
  deriving DecidableEq, Repr

/-- **`WineWindowState`**: which object it is, its properties, and the
process that `JuiceReconnectPresentFrame` has tagged it with. -/
structure WineWindowState where
  object : ℕ
  hwnd : UInt64
  frame : CGRect
  image : Option Image
  visible : Bool
  clientFD : Client
  peerPID : Int32
  deriving DecidableEq, Repr

/-- `wineWindows`. -/
abbrev Windows : Type := AList (fun _ : UInt64 => WineWindowState)

/-- The size of an image, zero where there is none. -/
def imageSize (image : Option Image) : ℚ × ℚ := image.elim (0, 0) (fun i => (i.width, i.height))

/-- `JuiceStateRect`. -/
def juiceStateRect (state : WineWindowState) : CGRect :=
  let rect := state.frame
  let size := imageSize state.image
  (if rect.width ≤ 0 ∨ rect.height ≤ 0 then ⟨rect.x, rect.y, size.1, size.2⟩
    else rect).standardize

/-- `JuiceStateDrawable`. -/
def juiceStateDrawable (state : WineWindowState) : Bool := state.visible && state.image.isSome

/-- `JuiceStateDrawableRect`: as much of the frame as there is an image of,
and a point at least. -/
def juiceStateDrawableRect (state : WineWindowState) : CGRect :=
  let rect := juiceStateRect state
  match state.image with
  | none => rect
  | some image =>
    let width := if 0 < rect.width then min image.width rect.width else image.width
    let height := if 0 < rect.height then min image.height rect.height else image.height
    ⟨rect.x, rect.y, max 1 width, max 1 height⟩

/-- `JuiceDesktopRect`. -/
def juiceDesktopRect (size : ℚ × ℚ) : CGRect :=
  if size.1 < 1 ∨ size.2 < 1 then ⟨0, 0, 1024, 768⟩ else ⟨0, 0, size.1, size.2⟩

/-- `JuiceClippedWindowRect`. -/
def juiceClippedWindowRect (state : WineWindowState) (desktop : CGRect) : Option CGRect :=
  let rect := juiceStateDrawableRect state
  if rect.isEmpty then none
  else (rect.intersection desktop).filter (fun clipped => !clipped.isEmpty)

/-- A drawable window has a rectangle to draw. -/
theorem isEmpty_juiceStateDrawableRect {state : WineWindowState}
    (h : juiceStateDrawable state = true) : (juiceStateDrawableRect state).isEmpty = false := by
  obtain ⟨image, himage⟩ := Option.isSome_iff_exists.mp (Bool.and_eq_true_iff.mp h).2
  have hpos : ∀ a : ℚ, max 1 a ≠ 0 := fun a =>
    (lt_of_lt_of_le zero_lt_one (le_max_left 1 a)).ne'
  simp [juiceStateDrawableRect, himage, CGRect.isEmpty, hpos]

/-! ## The desktop -/

/-- The drawable windows of a list of keys, in its order. -/
def drawables (windows : Windows) (order : List UInt64) : List WineWindowState :=
  (order.filterMap windows.lookup).filter juiceStateDrawable

/-- `JuiceViewportForWindows`: around what is drawn, padded, in whole
numbers. -/
def juiceViewportForWindows (desktop : CGRect) (order : List UInt64) (windows : Windows) : CGRect :=
  let rects := (drawables windows order).filterMap (fun state => juiceClippedWindowRect state desktop)
  match rects with
  | [] => desktop
  | rect :: rest =>
    let content := rest.foldl CGRect.union rect
    let pad : ℚ := min 16 (max 4 (min content.width content.height * (3 / 100)))
    let viewport := (((content.inset (-pad)).intersection desktop).filter
      (fun r => !r.isEmpty)).getD content
    let minX : ℚ := ⌊viewport.x⌋
    let minY : ℚ := ⌊viewport.y⌋
    let maxX : ℚ := ⌈viewport.maxX⌉
    let maxY : ℚ := ⌈viewport.maxY⌉
    ⟨minX, minY, max 1 (maxX - minX), max 1 (maxY - minY)⟩

/-- `JuiceTopWindowAtDesktopPoint`. -/
def juiceTopWindowAtDesktopPoint (windows : Windows) (order : List UInt64) (x y : ℚ)
    (desktop : CGRect) : Option WineWindowState :=
  (drawables windows order.reverse).find? (fun state =>
    (juiceClippedWindowRect state desktop).any (fun rect => rect.containsPoint x y))

/-- The window that is found is drawable. -/
theorem drawable_of_juiceTopWindowAtDesktopPoint {windows : Windows} {order : List UInt64}
    {x y : ℚ} {desktop : CGRect} {state : WineWindowState}
    (h : juiceTopWindowAtDesktopPoint windows order x y desktop = some state) :
    juiceStateDrawable state = true ∧ ∃ key ∈ order, windows.lookup key = some state := by
  obtain ⟨hmem, hdrawable⟩ := List.mem_filter.mp (List.mem_of_find?_eq_some h)
  obtain ⟨key, hkey, hlookup⟩ := List.mem_filterMap.mp hmem
  exact ⟨hdrawable, key, List.mem_reverse.mp hkey, hlookup⟩

end Juice
