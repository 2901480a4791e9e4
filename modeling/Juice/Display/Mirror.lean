import Juice.Lib.Plane
import Juice.Display.HostGeometry

/-!
# What a stream of records shows

The abstract model of the display protocol: a stream of records describes
a collection of planes, one per window. A full frame sets the plane of its
window, a dirty frame patches it, a `DESTROY` removes it, and nothing else
changes any.

Neither process is modelled by this. The driver refines it from one side –
the stream it writes describes its surfaces – and the host from the other:
the framebuffers it retains are those the records it has handled describe.
-/

namespace Juice

open JuiceMsg ByteSeq

/-- A record as both sides see it: a header and a payload. -/
abbrev Content : Type := JuiceMsg × List UInt8

/-- **What is shown**: a plane for some of the windows. -/
abbrev Mirror : Type := UInt64 → Option Plane

/-- The plane of a full frame. -/
def Content.plane (r : Content) : Plane := ⟨r.1.cols, r.1.rows, r.1.stride.toNat, r.2⟩

/-- A dirty frame merged into a plane. -/
def Content.mergeInto (r : Content) (p : Plane) : Plane :=
  p.patch r.1.left r.1.top r.2 r.1.stride.toNat (r.1.cols * 4) r.1.rows

/-- Whether a dirty frame lies inside a plane. -/
def Content.FitsIn (r : Content) (p : Plane) : Prop :=
  r.1.left + r.1.cols ≤ p.width ∧ r.1.top + r.1.rows ≤ p.height

instance (r : Content) (p : Plane) : Decidable (r.FitsIn p) := by
  unfold Content.FitsIn
  infer_instance

namespace Mirror

/-- Nothing is shown. -/
def empty : Mirror := fun _ => none

/-- **What a record does** to what is shown. A dirty frame for a window that
is not shown, or that reaches beyond its plane, does nothing. -/
def apply (v : Mirror) (r : Content) : Mirror :=
  if r.1.type = FRAME then
    if r.1.dirty then
      Function.update v r.1.hwnd
        ((v r.1.hwnd).map (fun p => if r.FitsIn p then r.mergeInto p else p))
    else Function.update v r.1.hwnd (some r.plane)
  else if r.1.type = DESTROY then Function.update v r.1.hwnd none
  else v

/-- **What a stream shows.** -/
def after (l : List Content) : Mirror := l.foldl apply empty

@[simp] theorem after_concat (l : List Content) (r : Content) :
    after (l ++ [r]) = (after l).apply r := by
  simp [after]

section Apply

variable {v : Mirror} {r : Content}

theorem apply_full (ht : r.1.type = FRAME) (hd : r.1.dirty = false) :
    v.apply r = Function.update v r.1.hwnd (some r.plane) := by
  simp [apply, ht, hd]

theorem apply_dirty (ht : r.1.type = FRAME) (hd : r.1.dirty = true) :
    v.apply r = Function.update v r.1.hwnd
      ((v r.1.hwnd).map (fun p => if r.FitsIn p then r.mergeInto p else p)) := by
  simp [apply, ht, hd]

theorem apply_destroy (ht : r.1.type = DESTROY) : v.apply r = Function.update v r.1.hwnd none := by
  simp [apply, ht, DESTROY, FRAME]

/-- A `HELLO` or a `WINDOW` changes nothing that is shown. -/
theorem apply_other (hf : r.1.type ≠ FRAME) (hd : r.1.type ≠ DESTROY) : v.apply r = v := by
  simp [apply, hf, hd]

/-- A record changes what is shown of its own window only. -/
theorem apply_of_ne {hwnd : UInt64} (h : hwnd ≠ r.1.hwnd) : v.apply r hwnd = v hwnd := by
  unfold apply
  split_ifs <;> simp [h]

end Apply

end Mirror

end Juice
