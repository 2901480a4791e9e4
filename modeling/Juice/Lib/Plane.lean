import Juice.Lib.Bytes

/-!
# Planes of pixels

A plane is a picture of four-byte pixels in a buffer whose rows may be
longer than the picture is wide. Two planes of the same size may differ in
their strides, and in the bytes beyond their rows, and still show the same
picture: `Plane.Agrees` compares what is shown, and leaves out a set of
pixels, so that it can say how far a copy lags behind its original.

The one operation is a patch: a rectangle of one plane written over the
same rectangle of another. It leaves out of the difference of the two
planes whatever lies inside the rectangle.
-/

open ByteSeq

/-- **A plane of pixels.** -/
structure Plane where
  width : ℕ
  height : ℕ
  /-- The distance in bytes from a row to the next. -/
  stride : ℕ
  bytes : List UInt8
  deriving DecidableEq, Repr

namespace Plane

/-- A plane whose rows fit its stride and whose buffer fits its rows. -/
structure Wf (p : Plane) : Prop where
  row_le : p.width * 4 ≤ p.stride
  length_bytes : p.bytes.length = p.stride * p.height

/-- Write rows of `len` bytes over a plane, at pixel `x` of row `y` and
down. -/
def patch (p : Plane) (x y : ℕ) (src : List UInt8) (srcStride len n : ℕ) : Plane :=
  { p with bytes := blit p.bytes p.stride (x * 4) y src srcStride len n }

/-- **Two planes show the same picture**, but for some pixels. -/
structure Agrees (p q : Plane) (except : ℕ → ℕ → Prop) : Prop where
  width_eq : p.width = q.width
  height_eq : p.height = q.height
  getElem?_eq : ∀ y c, y < p.height → c < p.width * 4 → ¬ except (c / 4) y
    → p.bytes[y * p.stride + c]? = q.bytes[y * q.stride + c]?

theorem Agrees.refl (p : Plane) (except : ℕ → ℕ → Prop) : p.Agrees p except :=
  ⟨rfl, rfl, fun _ _ _ _ _ => rfl⟩

/-- Leaving out more pixels. -/
theorem Agrees.mono {p q : Plane} {D E : ℕ → ℕ → Prop} (h : p.Agrees q D)
    (hDE : ∀ x y, D x y → E x y) : p.Agrees q E :=
  ⟨h.width_eq, h.height_eq, fun y c hy hc hE => h.getElem?_eq y c hy hc (fun hD => hE (hDE _ _ hD))⟩

/-- **Planes that agree everywhere have the same rows.** -/
theorem Agrees.slice_eq {p q : Plane} (h : p.Agrees q (fun _ _ => False)) {y : ℕ}
    (hy : y < p.height) :
    slice p.bytes (y * p.stride) (p.width * 4) = slice q.bytes (y * q.stride) (p.width * 4) := by
  apply List.ext_getElem?
  intro c
  rw [getElem?_slice, getElem?_slice]
  split
  · rename_i hc
    exact h.getElem?_eq y c hy hc not_false
  · rfl

section Patch

variable {p q : Plane} (hp : p.Wf) {x y w n : ℕ}
variable (hx : x + w ≤ p.width) (hy : y + n ≤ p.height)
include hp hx hy

theorem Wf.patch {src : List UInt8} {srcStride : ℕ} (hs : w * 4 ≤ srcStride)
    (hl : n * srcStride ≤ src.length) : (p.patch x y src srcStride (w * 4) n).Wf := by
  have hrow := hp.row_le
  refine ⟨hrow, ?_⟩
  rw [Plane.patch, length_blit (by omega) hs ?_ hl]
  · exact hp.length_bytes
  · rw [hp.length_bytes, mul_comm]
    exact Nat.mul_le_mul_left _ hy

/-- **A patch with a rectangle of the original.** If `p` agrees with `q` but
for some pixels, then `p` patched with a rectangle of `q` agrees with `q`
but for those of them outside the rectangle. -/
theorem Agrees.patch (hq : q.Wf) {D : ℕ → ℕ → Prop} (h : p.Agrees q D) :
    (p.patch x y (pack q.bytes q.stride (x * 4) y (w * 4) n) (w * 4) (w * 4) n).Agrees q
      (fun a b => D a b ∧ ¬ ((x ≤ a ∧ a < x + w) ∧ (y ≤ b ∧ b < y + n))) := by
  refine ⟨h.width_eq, h.height_eq, fun b c hb hc hne => ?_⟩
  have hprow := hp.row_le
  have hqrow := hq.row_le
  have hw := h.width_eq
  have hh := h.height_eq
  replace hb : b < p.height := hb
  replace hc : c < p.width * 4 := hc
  show (blit p.bytes p.stride (x * 4) y _ (w * 4) (w * 4) n)[b * p.stride + c]? = _
  rw [getElem?_blit_pack (by omega) (by omega) ?_ ?_ b c (by omega)]
  · split
    · rfl
    · rename_i hout
      -- the byte lies outside the patch, so its pixel was not left out before
      refine h.getElem?_eq b c hb hc (fun hdc => hne ⟨hdc, fun hin => hout ?_⟩)
      omega
  · rw [hp.length_bytes, mul_comm]
    exact Nat.mul_le_mul_left _ hy
  · rw [hq.length_bytes, mul_comm]
    exact Nat.mul_le_mul_left _ (by omega)

end Patch

/-- Writing one pixel of the original makes a copy lag by that pixel at
most. -/
theorem Agrees.paint {p q : Plane} (hq : q.Wf) {D : ℕ → ℕ → Prop} (h : p.Agrees q D) {x y : ℕ}
    {px : List UInt8} (hpx : px.length = 4) (hx : x < q.width) (hy : y < q.height) :
    p.Agrees { q with bytes := overlay q.bytes px (y * q.stride + x * 4) }
      (fun a b => (a = x ∧ b = y) ∨ D a b) := by
  refine ⟨h.width_eq, h.height_eq, fun b c hb hc hne => ?_⟩
  have hrow := hq.row_le
  have hw := h.width_eq
  have hend : y * q.stride + x * 4 + 4 ≤ q.bytes.length :=
    row_end_le (by omega) hy (by rw [hq.length_bytes, mul_comm])
  rw [not_or] at hne
  rw [h.getElem?_eq b c hb hc hne.2]
  show _ = (overlay q.bytes px (y * q.stride + x * 4))[b * q.stride + c]?
  rw [getElem?_overlay (by omega), if_neg ?_]
  rintro ⟨h₁, h₂⟩
  rw [hpx] at h₂
  -- a byte of the pixel lies in its row and in its column
  have hby : b = y := by
    rcases Nat.lt_trichotomy b y with hlt | heq | hgt
    · have : (b + 1) * q.stride ≤ y * q.stride := Nat.mul_le_mul_right _ hlt
      rw [Nat.add_mul, Nat.one_mul] at this
      omega
    · exact heq
    · have : (y + 1) * q.stride ≤ b * q.stride := Nat.mul_le_mul_right _ hgt
      rw [Nat.add_mul, Nat.one_mul] at this
      omega
  subst hby
  exact hne.1 ⟨by omega, rfl⟩

end Plane
