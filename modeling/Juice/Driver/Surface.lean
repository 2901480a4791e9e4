import Juice.Lib.Machine
import Juice.Display.Mirror
import Juice.Driver.Present

/-!
# The driver

The surfaces of `iosdrv.c`, the Metal readbacks of `vulkan.m` and the
connection of `ipc.c` as one machine. A window has at most one GDI
surface. An application paints on it, and Wine flushes it from time to
time with the rectangle that was painted; independently, a Metal layer of
the same window may be read back and presented.

Each action is one critical section of the source, with what the system
calls returned. What lies between `surface_flush` and the lock inside
`ios_ipc_present` touches the surface of one window only, and calls on one
window are serialized, so a flush is one action; `ios_ipc_destroy` takes
the lock twice, and calls on other windows may come in between, so it is
two, and no call on the window itself starts before the second.

`Surface.damage` is for the proofs: the pixels painted since the surface
was last handed to `ios_ipc_present` with a rectangle that covers them.
-/

namespace Juice

open Option ByteSeq

/-! ## Surfaces -/

/-- The plane a picture shows. -/
def Picture.plane (pic : Picture) : Plane :=
  ⟨pic.width.toNat, pic.height.toNat, pic.stride.toNat, pic.bits⟩

theorem Picture.Sized.wf {pic : Picture} (h : pic.Sized) : pic.plane.Wf :=
  ⟨h.row_le, h.length_bits⟩

/-- **A GDI surface**, `struct iosdrv_surface`. -/
structure Surface where
  picture : Picture
  presented : Bool
  damage : List (ℕ × ℕ)
  sized : picture.Sized
  gdi : picture.producer = .gdi

namespace Surface

/-- A new surface: zeroed by `calloc`, laid out without padding. -/
def new {width height : UInt64} {l : ReadbackLayout}
    (h : juiceReadbackLayout width height 1 = some l) : Surface where
  picture := ⟨List.replicate l.bytes.toNat 0, width.toUInt32, height.toUInt32,
    l.stride.toUInt32, .gdi⟩
  presented := false
  damage := []
  sized := (juiceReadbackLayout_admits h).sized .gdi List.length_replicate
  gdi := rfl

/-- The bits of a surface with one pixel written. -/
def paintBits (sf : Surface) (x y : ℕ) (px : List UInt8) : List UInt8 :=
  overlay sf.picture.bits px (y * sf.picture.stride.toNat + x * 4)

theorem length_paintBits (sf : Surface) {x y : ℕ} {px : List UInt8}
    (h : x < sf.picture.width.toNat ∧ y < sf.picture.height.toNat ∧ px.length = 4) :
    (sf.paintBits x y px).length = sf.picture.bits.length := by
  obtain ⟨hx, hy, hpx⟩ := h
  have := sf.sized.row_le
  refine length_overlay ?_
  rw [hpx]
  exact row_end_le (by omega) hy (by rw [sf.sized.length_bits, Picture.fullSize, mul_comm])

/-- An application writes one pixel. -/
def paint (sf : Surface) (x y : ℕ) (px : List UInt8)
    (h : x < sf.picture.width.toNat ∧ y < sf.picture.height.toNat ∧ px.length = 4) : Surface where
  picture := { sf.picture with bits := sf.paintBits x y px }
  presented := sf.presented
  damage := (x, y) :: sf.damage
  sized := { sf.sized with length_bits := (sf.length_paintBits h).trans sf.sized.length_bits }
  gdi := sf.gdi

/-- A surface after it was handed to `ios_ipc_present` with a rectangle:
`presented=TRUE`. -/
def markPresented (sf : Surface) (dirty : Option Rect) : Surface :=
  { sf with
    presented := true
    damage := sf.damage.filter (fun q => ¬ Covers dirty q.1 q.2) }

/-- The rectangle `surface_flush` passes on: the whole surface until it was
presented once. -/
def flushRect (sf : Surface) (dirty : Option Rect) : Option Rect :=
  if sf.presented then dirty else some (Rect.full sf.picture.width sf.picture.height)

end Surface

/-! ## The machine -/

/-- **The state of the driver.** -/
structure Driver where
  ipc : Ipc
  /-- The GDI surface of each window. -/
  surfaces : UInt64 → Option Surface
  /-- The windows between the two locked sections of `ios_ipc_destroy`. -/
  destroying : List UInt64

namespace Driver

/-- What the driver does, with what the system calls return. -/
inductive Action where
  /-- `ios_ipc_init`. -/
  | init (path : Option (List UInt8)) (width height dpi : UInt32) (io : Io)
  /-- `ios_ipc_process_input` connects. -/
  | connect (io : Io)
  /-- `ios_ipc_process_input` drops the connection it read from. -/
  | dropInput (c : ℕ) (generation : UInt32)
  /-- `ios_CreateWindowSurface`, whose allocations succeed or fail. -/
  | createSurface (hwnd : UInt64) (rect : Rect) (alloc : Bool)
  /-- `surface_destroy`. -/
  | destroySurface (hwnd : UInt64)
  /-- The application paints a pixel. -/
  | paint (hwnd : UInt64) (x y : ℕ) (px : List UInt8)
  /-- `surface_flush`. -/
  | flush (hwnd : UInt64) (dirty : Option Rect) (io : Io)
  /-- `iosdrv_present_now`. -/
  | presentNow (hwnd : UInt64) (io : Io)
  /-- `iosdrv_present_readback` of a drawable that could be read back. -/
  | readback (hwnd : UInt64) (width height : UInt64) (bits : List UInt8) (io : Io)
  /-- `ios_ipc_window`. -/
  | window (hwnd : UInt64) (rect : Option Rect) (visible : Bool) (io : Io)
  /-- `ios_ipc_destroy` as far as `send_msg`. -/
  | destroy (hwnd : UInt64) (io : Io)
  /-- `ios_ipc_destroy` from there on. -/
  | forget (hwnd : UInt64)

/-- A surface in the place of the one a window has. -/
def setSurface (s : Driver) (hwnd : UInt64) (sf : Option Surface) : Driver :=
  { s with surfaces := Function.update s.surfaces hwnd sf }

/-- `ios_CreateWindowSurface`: a surface of the size asked for is kept. -/
def createSurface (s : Driver) (hwnd : UInt64) (rect : Rect) (alloc : Bool) : Driver :=
  if rect.right < rect.left ∨ rect.bottom < rect.top then s
  else
    let width := juiceRectExtent rect.left rect.right
    let height := juiceRectExtent rect.top rect.bottom
    match h : juiceReadbackLayout width height 1 with
    | none => s
    | some _ =>
      if (s.surfaces hwnd).any (fun old => old.picture.width = width.toUInt32
          ∧ old.picture.height = height.toUInt32) ∨ !alloc then s
      else s.setSurface hwnd (some (Surface.new h))

/-- Hand a surface to `ios_ipc_present`, and mark it presented. -/
def presentSurface (s : Driver) (hwnd : UInt64) (sf : Surface) (dirty : Option Rect) (io : Io) :
    Option Driver :=
  (s.ipc.present hwnd sf.picture dirty io).map (fun ipc =>
    { s with ipc }.setSurface hwnd (some (sf.markPresented dirty)))

/-- The picture of a drawable read back, laid out for the GPU. -/
def readbackPicture (width height : UInt64) (l : ReadbackLayout) (bits : List UInt8) : Picture :=
  ⟨bits, width.toUInt32, height.toUInt32, l.stride.toUInt32, .readback⟩

/-- **One action of the driver.** -/
def step (s : Driver) : Action → Option Driver
  | .init path width height dpi io =>
    (s.ipc.init path width height dpi io).map (fun ipc => { s with ipc })
  | .connect io => (s.ipc.connectIpc io).map (fun p => { s with ipc := p.1 })
  | .dropInput c generation => some { s with ipc := s.ipc.disconnectFd c generation }
  | .createSurface hwnd rect alloc => some (s.createSurface hwnd rect alloc)
  | .destroySurface hwnd => some (s.setSurface hwnd none)
  | .paint hwnd x y px =>
    match s.surfaces hwnd with
    | none => none
    | some sf =>
      if h : x < sf.picture.width.toNat ∧ y < sf.picture.height.toNat ∧ px.length = 4
      then some (s.setSurface hwnd (some (sf.paint x y px h))) else none
  | .flush hwnd dirty io =>
    if hwnd ∈ s.destroying then none
    else match s.surfaces hwnd with
      | none => none
      | some sf => s.presentSurface hwnd sf (sf.flushRect dirty) io
  | .presentNow hwnd io =>
    if hwnd ∈ s.destroying then none
    else match s.surfaces hwnd with
      | none => some s
      | some sf =>
        s.presentSurface hwnd sf (some (Rect.full sf.picture.width sf.picture.height)) io
  | .readback hwnd width height bits io =>
    if hwnd ∈ s.destroying then none
    else match juiceReadbackLayout width height 256 with
      | none => some s
      | some l =>
        if bits.length ≠ l.bytes.toNat then none
        else (s.ipc.present hwnd (readbackPicture width height l bits)
          (some (Rect.full width.toUInt32 height.toUInt32)) io).map (fun ipc => { s with ipc })
  | .window hwnd rect visible io =>
    if hwnd ∈ s.destroying then none
    else (s.ipc.window hwnd rect visible io).map (fun ipc => { s with ipc })
  | .destroy hwnd io =>
    if hwnd ∈ s.destroying then none
    else (s.ipc.destroy hwnd io).map (fun ipc =>
      { s with ipc, destroying := hwnd :: s.destroying })
  | .forget hwnd =>
    if hwnd ∈ s.destroying then
      some { s with ipc := s.ipc.forgetSurface hwnd, destroying := s.destroying.erase hwnd }
    else none

/-- The driver as it is loaded. -/
def start (pid : UInt32) : Driver where
  ipc := ⟨none, 0, [], [], 1024, 768, 96, pid, []⟩
  surfaces := fun _ => none
  destroying := []

/-- **The driver of a process.** -/
def machine (pid : UInt32) : Machine Driver Action := ⟨start pid, step⟩

/-! ## What an action does -/

/-- A drawable read back is within the limits. -/
theorem readbackPicture_sized {width height : UInt64} {l : ReadbackLayout} {bits : List UInt8}
    (hl : juiceReadbackLayout width height 256 = some l) (hbits : bits.length = l.bytes.toNat) :
    (readbackPicture width height l bits).Sized :=
  (juiceReadbackLayout_admits hl).sized .readback hbits

/-- **What an action can do**, guards included. -/
inductive Effect (s : Driver) : Action → Driver → Prop where
  | nothing (a : Action) : Effect s a s
  | connect (a : Action) (path : List UInt8) (width height dpi : UInt32) (io : Io)
      (p : Ipc × List IoResult)
      (hp : Ipc.connectIpc io { s.ipc with path, width, height, dpi } = some p) :
      Effect s a { s with ipc := p.1 }
  | drop (a : Action) : Effect s a { s with ipc := s.ipc.disconnect }
  | renew (a : Action) (hwnd : UInt64) (sf : Option Surface)
      (hsf : ∀ x, sf = some x → x.presented = false) : Effect s a (s.setSurface hwnd sf)
  | paint (a : Action) (hwnd : UInt64) (x : Surface) (i j : ℕ) (px : List UInt8)
      (hx : s.surfaces hwnd = some x)
      (hpx : i < x.picture.width.toNat ∧ j < x.picture.height.toNat ∧ px.length = 4) :
      Effect s a (s.setSurface hwnd (some (x.paint i j px hpx)))
  | flush (hwnd : UInt64) (dirty : Option Rect) (io : Io) (x : Surface) (ipc : Ipc)
      (hbusy : hwnd ∉ s.destroying) (hx : s.surfaces hwnd = some x)
      (hp : s.ipc.present hwnd x.picture (x.flushRect dirty) io = some ipc) :
      Effect s (.flush hwnd dirty io)
        ({ s with ipc }.setSurface hwnd (some (x.markPresented (x.flushRect dirty))))
  | presentNow (hwnd : UInt64) (io : Io) (x : Surface) (ipc : Ipc)
      (hbusy : hwnd ∉ s.destroying) (hx : s.surfaces hwnd = some x)
      (hp : s.ipc.present hwnd x.picture (some (Rect.full x.picture.width x.picture.height)) io
        = some ipc) :
      Effect s (.presentNow hwnd io) ({ s with ipc }.setSurface hwnd
        (some (x.markPresented (some (Rect.full x.picture.width x.picture.height)))))
  | readback (hwnd width height : UInt64) (bits : List UInt8) (io : Io) (pic : Picture) (ipc : Ipc)
      (hbusy : hwnd ∉ s.destroying) (hpic : pic.producer = .readback) (hsz : pic.Sized)
      (hp : s.ipc.present hwnd pic (some (Rect.full pic.width pic.height)) io = some ipc) :
      Effect s (.readback hwnd width height bits io) { s with ipc }
  | window (hwnd : UInt64) (rect : Option Rect) (visible : Bool) (io : Io) (ipc : Ipc)
      (hw : s.ipc.window hwnd rect visible io = some ipc) :
      Effect s (.window hwnd rect visible io) { s with ipc }
  | destroy (hwnd : UInt64) (io : Io) (ipc : Ipc) (hd : s.ipc.destroy hwnd io = some ipc) :
      Effect s (.destroy hwnd io) { s with ipc, destroying := hwnd :: s.destroying }
  | forget (hwnd : UInt64) : Effect s (.forget hwnd)
      { s with ipc := s.ipc.forgetSurface hwnd, destroying := s.destroying.erase hwnd }

/-- **A step has one of the effects listed.** -/
theorem effect_of_step {s t : Driver} {a : Action} (h : s.step a = some t) : Effect s a t := by
  revert h
  fun_cases Driver.step s a <;> intro h <;> try cases h
  case case1 path width height dpi io =>
    obtain ⟨ipc, hi, rfl⟩ := map_eq_some_iff.mp h
    revert hi
    fun_cases Ipc.init path width height dpi io s.ipc <;> intro hi <;> try cases hi
    case case1 => exact .nothing _
    case case2 => exact .nothing _
    case case3 =>
      obtain ⟨p, hp, rfl⟩ := map_eq_some_iff.mp hi
      exact .connect _ _ width height dpi io p hp
  case case2 io =>
    obtain ⟨p, hp, rfl⟩ := map_eq_some_iff.mp h
    exact .connect _ _ _ _ _ io p hp
  case case3 c generation =>
    fun_cases Ipc.disconnectFd c generation s.ipc
    · exact .drop _
    · exact .nothing _
  case case4 hwnd rect alloc =>
    fun_cases Driver.createSurface s hwnd rect alloc
    case case4 => exact .renew _ hwnd _ (fun x hx => by cases hx; rfl)
    all_goals exact .nothing _
  case case5 hwnd => exact .renew _ hwnd none (fun x hx => by cases hx)
  case case7 hwnd i j px x hx hpx => exact .paint _ hwnd x i j px hx hpx
  case case11 hwnd dirty io hbusy x hx =>
    obtain ⟨ipc, hp, rfl⟩ := map_eq_some_iff.mp h
    exact .flush hwnd dirty io x ipc hbusy hx hp
  case case13 => exact .nothing _
  case case14 hwnd io hbusy x hx =>
    obtain ⟨ipc, hp, rfl⟩ := map_eq_some_iff.mp h
    exact .presentNow hwnd io x ipc hbusy hx hp
  case case16 => exact .nothing _
  case case18 hwnd width height bits io hbusy l hl hbits =>
    obtain ⟨ipc, hp, rfl⟩ := map_eq_some_iff.mp h
    exact .readback hwnd width height bits io _ ipc hbusy rfl
      (readbackPicture_sized hl (not_not.mp hbits)) hp
  case case20 hwnd rect visible io _ =>
    obtain ⟨ipc, hw, rfl⟩ := map_eq_some_iff.mp h
    exact .window hwnd rect visible io ipc hw
  case case22 hwnd io _ =>
    obtain ⟨ipc, hd, rfl⟩ := map_eq_some_iff.mp h
    exact .destroy hwnd io ipc hd
  case case23 hwnd _ => exact .forget hwnd

/-- What an action presents. -/
inductive Presents (s : Driver) : Action → UInt64 → Picture → Option Rect → Io → Prop where
  | flush (hwnd : UInt64) (dirty : Option Rect) (io : Io) (x : Surface)
      (hx : s.surfaces hwnd = some x) :
      Presents s (.flush hwnd dirty io) hwnd x.picture (x.flushRect dirty) io
  | presentNow (hwnd : UInt64) (io : Io) (x : Surface) (hx : s.surfaces hwnd = some x) :
      Presents s (.presentNow hwnd io) hwnd x.picture
        (some (Rect.full x.picture.width x.picture.height)) io
  | readback (hwnd width height : UInt64) (bits : List UInt8) (io : Io) (pic : Picture)
      (hpic : pic.producer = .readback) (hsz : pic.Sized) :
      Presents s (.readback hwnd width height bits io) hwnd pic
        (some (Rect.full pic.width pic.height)) io

end Driver

end Juice
