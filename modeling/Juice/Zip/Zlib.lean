import Mathlib.Data.Int.Notation
import Mathlib.Data.Nat.Notation

/-!
# What is used of zlib

The checksum is CRC-32, computed bit by bit with the reflected polynomial;
`crc32` continues a checksum, and `crc32_append` is what an extraction in
chunks rests on.

Of `inflate` nothing is said but what its interface says: it takes input
from what is available, and puts output into a buffer of 64 KiB. Two
relations speak about a whole stream.

* `Inflates z input data`: calls of `inflate` that were fed `input`, a part of
  it each time as long as there is one, took all of it, returned `data`, and
  ended with `Z_STREAM_END`.
* `Reproduces z input data`: however `inflate` is fed `input`, it returns
  `data`, with `Z_OK` up to the end. It makes progress in each call, and it
  does not wait for the end of a stream of which it has all bytes: those
  two are what zlib does as long as there is space for output.
-/

namespace Juice.Zip

/-! ## CRC-32 -/

/-- A bit of CRC-32. -/
def crcBit (c : UInt32) : UInt32 :=
  if c &&& 1 = 1 then (c >>> 1) ^^^ 0xedb88320 else c >>> 1

/-- A byte of CRC-32. -/
def crcByte (c : UInt32) (b : UInt8) : UInt32 :=
  crcBit (crcBit (crcBit (crcBit (crcBit (crcBit (crcBit (crcBit (c ^^^ b.toUInt32))))))))

/-- **`crc32`**, from the checksum of what comes before `buffer`. -/
def crc32 (crc : UInt32) (buffer : List UInt8) : UInt32 :=
  buffer.foldl crcByte (crc ^^^ 0xffffffff) ^^^ 0xffffffff

theorem xor_xor_ones (c : UInt32) : c ^^^ 0xffffffff ^^^ 0xffffffff = c := by
  rw [UInt32.xor_assoc, UInt32.xor_self, UInt32.xor_zero]

theorem crc32_nil (crc : UInt32) : crc32 crc [] = crc := xor_xor_ones crc

/-- **A checksum is continued.** -/
theorem crc32_append (crc : UInt32) (a b : List UInt8) :
    crc32 (crc32 crc a) b = crc32 crc (a ++ b) := by
  unfold crc32
  rw [xor_xor_ones, List.foldl_append]

example : crc32 0 [0x31, 0x32, 0x33, 0x34, 0x35, 0x36, 0x37, 0x38, 0x39] = 0xcbf43926 := by
  decide +kernel

/-! ## Inflating -/

/-- `JZIOChunkSize`. -/
def JZIOChunkSize : ℕ := 64 * 1024

/-- What `inflate` returns. -/
inductive Status where
  | ok
  | streamEnd
  | failed (code : ℤ)
  deriving DecidableEq, Repr

/-- A call of `inflate`: the stream after it, the status, how much of the
input was taken, and the output. -/
structure Inflation (Z : Type) where
  stream : Z
  status : Status
  consumed : ℕ
  output : List UInt8

/-- **A decompressor** with streams in `Z`. -/
structure Inflater (Z : Type) where
  inflate : Z → List UInt8 → Inflation Z
  consumed_le : ∀ z input, (inflate z input).consumed ≤ input.length
  output_le : ∀ z input, (inflate z input).output.length ≤ JZIOChunkSize

variable {Z : Type}

/-- **The stream `z` takes `input` and ends with `data`.** -/
inductive Inflates (f : Inflater Z) : Z → List UInt8 → List UInt8 → Prop where
  | finish {z : Z} {fed : List UInt8} (hend : (f.inflate z fed).status = .streamEnd)
      (hall : (f.inflate z fed).consumed = fed.length) : Inflates f z fed (f.inflate z fed).output
  | more {z : Z} {fed rest data : List UInt8} (hfed : fed = [] → rest = [])
      (hok : (f.inflate z fed).status = .ok)
      (hmore : Inflates f (f.inflate z fed).stream
        (fed.drop (f.inflate z fed).consumed ++ rest) data) :
      Inflates f z (fed ++ rest) ((f.inflate z fed).output ++ data)

/-- A call that is fed `fed` of `input` does what it should, to reproduce
`data`; `R` is what is said of the stream after it. -/
structure Goes (R : Z → List UInt8 → List UInt8 → Prop) (r : Inflation Z)
    (fed rest data : List UInt8) : Prop where
  output : r.output <+: data
  status : r.status = .ok ∨ r.status = .streamEnd
  finish : r.status = .streamEnd → r.output = data ∧ rest = [] ∧ r.consumed = fed.length
  progress : r.status = .ok → 0 < r.consumed ∨ r.output ≠ []
  /-- Without output, there is more input to come. -/
  waits : r.status = .ok → r.output = [] → fed.drop r.consumed ++ rest ≠ []
  more : r.status = .ok → R r.stream (fed.drop r.consumed ++ rest) (data.drop r.output.length)

/-- **The stream `z` reproduces `data` from `input`**, in whatever pieces it
is fed. -/
def Reproduces (f : Inflater Z) (z : Z) (input data : List UInt8) : Prop :=
  ∃ R : Z → List UInt8 → List UInt8 → Prop, R z input data ∧
    ∀ z input data, R z input data → ∀ fed rest, input = fed ++ rest → (fed = [] → rest = []) →
      Goes R (f.inflate z fed) fed rest data

/-- A call on a stream that reproduces its data. -/
theorem Reproduces.goes {f : Inflater Z} {z : Z} {fed rest data : List UInt8}
    (h : Reproduces f z (fed ++ rest) data) (hfed : fed = [] → rest = []) :
    Goes (Reproduces f) (f.inflate z fed) fed rest data := by
  obtain ⟨R, hR, hstep⟩ := h
  have hgoes := hstep z _ data hR fed rest rfl hfed
  exact { hgoes with more := fun hok => ⟨R, hgoes.more hok, hstep⟩ }

/-- **A stream that reproduces its data inflates to nothing else.** -/
theorem Reproduces.eq_of_inflates {f : Inflater Z} {z : Z} {input data data' : List UInt8}
    (h : Reproduces f z input data) (h' : Inflates f z input data') : data' = data := by
  induction h' generalizing data with
  | @finish z fed hend hall =>
    have hnil : fed ++ [] = fed := List.append_nil _
    rw [← hnil] at h
    exact ((h.goes (fun _ => rfl)).finish hend).1
  | @more z fed rest data' hfed hok _ ih =>
    have hgoes := h.goes hfed
    obtain ⟨tail, htail⟩ := hgoes.output
    rw [ih (hgoes.more hok), ← htail, List.drop_left]

end Juice.Zip
