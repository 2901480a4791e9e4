import Mathlib.Tactic.Ring

/-!
# Byte sequences: numbers, slices and rectangles

The facts about sequences of bytes that a binary protocol and a pixel
buffer rest on. Numbers are written least significant byte first
(`toLE`, `ofLE`). A buffer is read by `slice` and written by `overlay`,
the copy of one buffer over part of another. A record of numbers is written
field after field by `layout`, and `number` reads one of them back
(`number_layout`). A rectangle of a buffer laid out in rows is read row by
row into a packed sequence by `pack` and written row by row by `blit`, and
the two are inverse to each other where they stay inside their buffers
(`getElem?_blit_pack`).

The rectangle lemmas are about one position at a time, addressed by its
row and its column: that is the form in which the row loops of a program
are reasoned about, since each of them writes one row.
-/

namespace ByteSeq

open List

variable {α : Type} {w i n stride len : ℕ} {l dst src : List α} {fields : List (ℕ × ℕ)}

/-! ## Numbers -/

/-- The `w` least significant bytes of a number, least significant
first. -/
def toLE : ℕ → ℕ → List UInt8
  | 0, _ => []
  | w + 1, v => UInt8.ofNat v :: toLE w (v / 256)

/-- The number a sequence of bytes spells, least significant first. -/
def ofLE : List UInt8 → ℕ
  | [] => 0
  | b :: bs => b.toNat + 256 * ofLE bs

@[simp] theorem length_toLE (w v : ℕ) : (toLE w v).length = w := by
  induction w generalizing v with
  | zero => rfl
  | succ w ih => simp [toLE, ih]

/-- **Reading back what was written** keeps the bytes that were
written. -/
theorem ofLE_toLE (w v : ℕ) : ofLE (toLE w v) = v % 256 ^ w := by
  induction w generalizing v with
  | zero => simp [toLE, ofLE, Nat.mod_one]
  | succ w ih =>
    rw [toLE, ofLE, ih, pow_succ, mul_comm (256 ^ w) 256, Nat.mod_mul]
    simp

theorem ofLE_toLE_of_lt {v : ℕ} (h : v < 256 ^ w) : ofLE (toLE w v) = v := by
  rw [ofLE_toLE, Nat.mod_eq_of_lt h]

/-- The bound on the number that a sequence of bytes spells. -/
theorem ofLE_lt (b : List UInt8) : ofLE b < 256 ^ b.length := by
  induction b with
  | nil => exact Nat.one_pos
  | cons x b ih =>
    rw [ofLE, length_cons, Nat.pow_succ]
    have hx := x.toNat_lt
    omega

/-! ## Slices and overlays -/

/-- The `n` elements from position `i` on. -/
def slice (l : List α) (i n : ℕ) : List α := (l.drop i).take n

/-- `src` written over `dst` from position `i` on. -/
def overlay (dst src : List α) (i : ℕ) : List α :=
  dst.take i ++ src ++ dst.drop (i + src.length)

theorem length_slice (h : i + n ≤ l.length) : (slice l i n).length = n := by
  simp [slice]
  omega

theorem getElem?_slice (l : List α) (i n k : ℕ) :
    (slice l i n)[k]? = if k < n then l[i + k]? else none := by
  unfold slice
  rw [List.getElem?_take]
  split
  · rw [List.getElem?_drop]
  · rfl

/-- A slice of a slice. -/
theorem slice_slice (l : List α) (o : ℕ) (h : i + w ≤ n) :
    slice (slice l o n) i w = slice l (o + i) w := by
  rw [slice, slice, drop_take, take_take, drop_drop, slice]
  congr 1
  omega

/-- A slice looks only as far as it goes. -/
theorem slice_take (l : List α) (h : i + w ≤ n) : slice (l.take n) i w = slice l i w := by
  have hslice := slice_slice l 0 h
  rwa [slice.eq_1 l 0 n, drop_zero, Nat.zero_add] at hslice

/-- A slice that starts after a first part is a slice of the second. -/
theorem slice_append (r : List α) (n : ℕ) (h : l.length ≤ i) :
    slice (l ++ r) i n = slice r (i - l.length) n := by
  rw [slice, drop_append, drop_of_length_le h, nil_append, slice]

theorem slice_append_length (l r : List α) (i n : ℕ) :
    slice (l ++ r) (l.length + i) n = slice r i n := by
  rw [slice_append _ _ (Nat.le_add_right _ _), Nat.add_sub_cancel_left]

/-- The slice that covers a first part is that part. -/
theorem slice_zero_append (l r : List α) : slice (l ++ r) 0 l.length = l := by
  simp [slice]

/-- The middle of three parts. -/
theorem slice_middle (l m r : List α) : slice (l ++ (m ++ r)) l.length m.length = m := by
  rw [slice_append _ _ (Nat.le_refl _), Nat.sub_self, slice_zero_append]

/-- A slice that ends inside a first part is a slice of that part. -/
theorem slice_append_left (r : List α) (h : i + n ≤ l.length) :
    slice (l ++ r) i n = slice l i n := by
  rw [slice, slice, drop_append_of_le_length (by omega),
    take_append_of_le_length (by rw [length_drop]; omega)]

/-- The beginning of a list, extended by the slice that follows it. -/
theorem append_slice_isPrefixOf {b : List α} (h : b <+: l) (n : ℕ) :
    b ++ slice l b.length n <+: l := by
  obtain ⟨c, rfl⟩ := h
  rw [slice_append _ _ le_rfl, Nat.sub_self, prefix_append_right_inj, slice, drop_zero]
  exact take_prefix n c

theorem length_overlay (h : i + src.length ≤ dst.length) :
    (overlay dst src i).length = dst.length := by
  simp [overlay]
  omega

/-- **What an overlay holds**: the source inside its range, the
destination outside. -/
theorem getElem?_overlay (h : i + src.length ≤ dst.length) (k : ℕ) :
    (overlay dst src i)[k]?
      = if i ≤ k ∧ k < i + src.length then src[k - i]? else dst[k]? := by
  have hlen : (dst.take i).length = i := by simp; omega
  unfold overlay
  rw [append_assoc]
  by_cases hk : k < i
  · rw [List.getElem?_append_left (by omega), List.getElem?_take_of_lt hk,
      if_neg (by omega)]
  · rw [List.getElem?_append_right (by omega), hlen]
    by_cases hk' : k < i + src.length
    · rw [List.getElem?_append_left (by omega), if_pos (by omega)]
    · rw [List.getElem?_append_right (by omega), List.getElem?_drop, if_neg (by omega)]
      congr 1
      omega

/-- An overlay behind a first part is an overlay of the second. -/
theorem overlay_append_length (l r src : List α) (i : ℕ) :
    overlay (l ++ r) src (l.length + i) = l ++ overlay r src i := by
  rw [overlay, overlay, take_length_add_append, Nat.add_assoc, drop_length_add_append]
  simp only [append_assoc]

/-- An overlay that ends inside a first part is an overlay of that part. -/
theorem overlay_append_left (r : List α) (h : i + src.length ≤ l.length) :
    overlay (l ++ r) src i = overlay l src i ++ r := by
  rw [overlay, overlay, take_append_of_le_length (by omega),
    drop_append_of_le_length h]
  simp only [append_assoc]

/-- An overlay that ends where its destination ends. -/
theorem overlay_to_end (h : i + src.length = dst.length) :
    overlay dst src i = dst.take i ++ src := by
  rw [overlay, drop_of_length_le (by omega), append_nil]

/-! ## Records -/

/-- A record of numbers, each with its width. -/
def layout (fields : List (ℕ × ℕ)) : List UInt8 := fields.flatMap (fun f => toLE f.1 f.2)

theorem length_layout (fields : List (ℕ × ℕ)) :
    (layout fields).length = (fields.map Prod.fst).sum := by
  induction fields with
  | nil => rfl
  | cons f fields ih =>
    rw [layout, flatMap_cons, length_append, length_toLE, map_cons, sum_cons]
    exact congrArg _ ih

/-- **A field of a record** is behind those before it. -/
theorem slice_layout {v : ℕ} (h : fields[i]? = some (w, v)) (front back : List UInt8) :
    slice (front ++ (layout fields ++ back))
      (front.length + ((fields.take i).map Prod.fst).sum) w = toLE w v := by
  obtain ⟨hi, hf⟩ := List.getElem?_eq_some_iff.mp h
  have hsplit : layout fields
      = layout (fields.take i) ++ (toLE w v ++ layout (fields.drop (i + 1))) := by
    have hfields : fields = fields.take i ++ (w, v) :: fields.drop (i + 1) := by
      rw [← hf, getElem_cons_drop, take_append_drop]
    rw [hfields, layout, flatMap_append, flatMap_cons, ← hfields]
    rfl
  have hmid := slice_middle (front ++ layout (fields.take i)) (toLE w v)
    (layout (fields.drop (i + 1)) ++ back)
  rw [length_append, length_layout, length_toLE] at hmid
  rw [hsplit, append_assoc, append_assoc, ← append_assoc front]
  exact hmid

/-- The number in the `w` bytes from `offset` on. -/
def number (w : ℕ) (bytes : List UInt8) (offset : ℕ) : ℕ := ofLE (slice bytes offset w)

theorem number_append_length (w : ℕ) (l r : List UInt8) (offset : ℕ) :
    number w (l ++ r) (l.length + offset) = number w r offset := by
  rw [number, slice_append_length, number]

/-- A number is read from a first part that it ends in. -/
theorem number_append_left {l : List UInt8} (r : List UInt8) {offset : ℕ}
    (h : offset + w ≤ l.length) : number w (l ++ r) offset = number w l offset := by
  rw [number, slice_append_left r h, number]

theorem number_lt {bytes : List UInt8} {offset : ℕ} : number w bytes offset < 256 ^ w := by
  refine Nat.lt_of_lt_of_le (ofLE_lt _) (Nat.pow_le_pow_right (by decide) ?_)
  rw [slice, length_take]
  exact Nat.min_le_left _ _

/-- **A field of a record is read back** where it was written, which is known
from the widths of the fields. -/
theorem number_layout {front back : List UInt8} {widths : List ℕ} {v k : ℕ}
    (hwidths : fields.map Prod.fst = widths) (h : fields[i]? = some (w, v)) (hv : v < 256 ^ w)
    (hk : (widths.take i).sum = k) :
    number w (front ++ (layout fields ++ back)) (front.length + k) = v := by
  rw [number, ← hk, ← hwidths, ← map_take, slice_layout h, ofLE_toLE_of_lt hv]

/-- What is behind the fields of a record. -/
theorem slice_behind {front back x : List UInt8} {k : ℕ} (hk : (layout fields).length = k) :
    slice (front ++ (layout fields ++ (x ++ back))) (front.length + k) x.length = x := by
  have hmid := slice_middle (front ++ layout fields) x back
  rw [length_append, hk, append_assoc] at hmid
  exact hmid

/-! ## Rectangles

A buffer of rows of `stride` bytes is addressed by a row `r` and a column
`c < stride`, at position `r * stride + c`. -/

/-- The rows `y, …, y + n - 1` of a buffer, each cut down to `len` bytes
from column `x` on, one after the other. -/
def pack (src : List α) (stride x y len : ℕ) : ℕ → List α
  | 0 => []
  | n + 1 => pack src stride x y len n ++ slice src ((y + n) * stride + x) len

/-- Packing is concatenating the rows. -/
theorem flatten_rows (src : List α) (stride x y len n : ℕ) :
    ((List.range n).map (fun r => slice src ((y + r) * stride + x) len)).flatten
      = pack src stride x y len n := by
  induction n with
  | zero => rfl
  | succ n ih =>
    rw [range_succ, map_append, flatten_append, ih, pack]
    simp

/-- The first `n` rows of `src` written over the rows `y, …, y + n - 1` of
`dst`, from column `x` on, `len` bytes a row. -/
def blit (dst : List α) (stride x y : ℕ) (src : List α) (srcStride len : ℕ) : ℕ → List α
  | 0 => dst
  | n + 1 => overlay (blit dst stride x y src srcStride len n)
      (slice src (n * srcStride) len) ((y + n) * stride + x)

/-- A row that ends inside its stride ends inside a buffer that holds the
row. -/
theorem row_end_le {x r rows total : ℕ} (hx : x + len ≤ stride) (hr : r < rows)
    (h : rows * stride ≤ total) : r * stride + x + len ≤ total := by
  have : (r + 1) * stride ≤ rows * stride := Nat.mul_le_mul_right _ hr
  rw [Nat.add_mul, Nat.one_mul] at this
  omega

theorem length_pack {x y : ℕ} (hx : x + len ≤ stride) (h : (y + n) * stride ≤ src.length) :
    (pack src stride x y len n).length = n * len := by
  induction n with
  | zero => simp [pack]
  | succ n ih =>
    have hle : (y + n) * stride ≤ src.length :=
      le_trans (Nat.mul_le_mul_right _ (by omega)) h
    rw [pack, length_append, ih hle,
      length_slice (row_end_le hx (by omega : y + n < y + (n + 1)) h), Nat.add_mul,
      Nat.one_mul]

/-- The byte `c` of the packed row `r` is the byte `x + c` of the row
`y + r`. -/
theorem getElem?_pack {x y r c : ℕ} (hx : x + len ≤ stride) (h : (y + n) * stride ≤ src.length)
    (hr : r < n) (hc : c < len) :
    (pack src stride x y len n)[r * len + c]? = src[(y + r) * stride + x + c]? := by
  induction n with
  | zero => omega
  | succ n ih =>
    have hle : (y + n) * stride ≤ src.length :=
      le_trans (Nat.mul_le_mul_right _ (by omega)) h
    have hlen : (pack src stride x y len n).length = n * len := length_pack hx hle
    rw [pack]
    by_cases hrn : r < n
    · have hlt : r * len + c < n * len := by
        have : (r + 1) * len ≤ n * len := Nat.mul_le_mul_right _ hrn
        rw [Nat.add_mul, Nat.one_mul] at this
        omega
      rw [List.getElem?_append_left (by omega)]
      exact ih hle hrn
    · obtain rfl : r = n := by omega
      rw [List.getElem?_append_right (by omega), hlen, getElem?_slice, if_pos (by omega)]
      congr 1
      omega

section Blit

variable {dst src : List α} {stride x y srcStride len n : ℕ}
variable (hx : x + len ≤ stride) (hs : len ≤ srcStride)
include hx hs

theorem length_blit (hd : (y + n) * stride ≤ dst.length) (hl : n * srcStride ≤ src.length) :
    (blit dst stride x y src srcStride len n).length = dst.length := by
  induction n with
  | zero => rfl
  | succ n ih =>
    have hd' : (y + n) * stride ≤ dst.length :=
      le_trans (Nat.mul_le_mul_right _ (by omega)) hd
    have hl' : n * srcStride ≤ src.length :=
      le_trans (Nat.mul_le_mul_right _ (by omega)) hl
    have hsl : (slice src (n * srcStride) len).length = len :=
      length_slice (row_end_le (x := 0) (by omega) (Nat.lt_succ_self n) hl)
    have hrow := row_end_le hx (by omega : y + n < y + (n + 1)) hd
    rw [blit, length_overlay (by rw [hsl, ih hd' hl']; omega), ih hd' hl']

/-- **What a blit holds** at row `r` and column `c`: the source inside the
rectangle, the destination outside. -/
theorem getElem?_blit (hd : (y + n) * stride ≤ dst.length)
    (hl : n * srcStride ≤ src.length) (r c : ℕ) (hc : c < stride) :
    (blit dst stride x y src srcStride len n)[r * stride + c]?
      = if (y ≤ r ∧ r < y + n) ∧ (x ≤ c ∧ c < x + len)
        then src[(r - y) * srcStride + (c - x)]? else dst[r * stride + c]? := by
  induction n with
  | zero => rw [blit, if_neg (by omega)]
  | succ n ih =>
    have hd' : (y + n) * stride ≤ dst.length :=
      le_trans (Nat.mul_le_mul_right _ (by omega)) hd
    have hl' : n * srcStride ≤ src.length :=
      le_trans (Nat.mul_le_mul_right _ (by omega)) hl
    have hsl : (slice src (n * srcStride) len).length = len :=
      length_slice (row_end_le (x := 0) (by omega) (Nat.lt_succ_self n) hl)
    have hrow := row_end_le hx (by omega : y + n < y + (n + 1)) hd
    have hlen := length_blit hx hs hd' hl'
    rw [blit, getElem?_overlay (by rw [hsl, hlen]; omega), hsl, ih hd' hl']
    -- the row just written is row `y + n`, and a position determines its row
    by_cases hr : r = y + n
    · subst hr
      by_cases hin : x ≤ c ∧ c < x + len
      · rw [if_pos (by omega), if_pos (by omega), getElem?_slice, if_pos (by omega)]
        congr 1
        rw [show y + n - y = n from by omega]
        omega
      · rw [if_neg (by omega), if_neg (by omega), if_neg (by omega)]
    · have hout : ¬ ((y + n) * stride + x ≤ r * stride + c
          ∧ r * stride + c < (y + n) * stride + x + len) := by
        rintro ⟨h₁, h₂⟩
        rcases Nat.lt_or_gt_of_ne hr with hlt | hgt
        · have : (r + 1) * stride ≤ (y + n) * stride := Nat.mul_le_mul_right _ hlt
          rw [Nat.add_mul, Nat.one_mul] at this
          omega
        · have : (y + n + 1) * stride ≤ r * stride := Nat.mul_le_mul_right _ hgt
          rw [Nat.add_mul, Nat.one_mul] at this
          omega
      rw [if_neg hout]
      by_cases hin : (y ≤ r ∧ r < y + n) ∧ (x ≤ c ∧ c < x + len)
      · rw [if_pos hin, if_pos (by omega)]
      · rw [if_neg hin, if_neg (by omega)]

end Blit

/-- **Blitting what was packed reproduces the rectangle**: a rectangle of
`src`, packed and written over the same rectangle of `dst`, leaves `src`
inside it and `dst` outside. -/
theorem getElem?_blit_pack {srcStride x y : ℕ} (hx : x + len ≤ stride) (hx' : x + len ≤ srcStride)
    (hd : (y + n) * stride ≤ dst.length) (hl : (y + n) * srcStride ≤ src.length) (r c : ℕ)
    (hc : c < stride) :
    (blit dst stride x y (pack src srcStride x y len n) len len n)[r * stride + c]?
      = if (y ≤ r ∧ r < y + n) ∧ (x ≤ c ∧ c < x + len)
        then src[r * srcStride + c]? else dst[r * stride + c]? := by
  have hp := length_pack hx' hl
  rw [getElem?_blit hx le_rfl hd (by omega) r c hc]
  by_cases hin : (y ≤ r ∧ r < y + n) ∧ (x ≤ c ∧ c < x + len)
  · rw [if_pos hin, if_pos hin, getElem?_pack hx' hl (by omega) (by omega)]
    congr 1
    rw [show y + (r - y) = r from by omega]
    omega
  · rw [if_neg hin, if_neg hin]

end ByteSeq
