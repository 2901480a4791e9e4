import Juice.Lib.Bytes

/-!
# Display records

The driver inside the Wine process and the UIKit host exchange records
over a stream socket: a fixed header, `struct juice_ios_msg` on the
driver's side and `JuiceDisplayMsg` on the host's, followed by as many
payload bytes as its `size` field says. Both sides declare the same
fields in the same order, so the header is one structure here.

Both processes write the header as it lies in memory. The `hwnd` field is
eight bytes wide and aligned to eight bytes, which puts four padding
bytes between `size` and it: a header is forty-eight bytes. `encode` and
`decode` are that layout, and `decode_encode` says the host reads the
fields the driver wrote.
-/

namespace Juice

open ByteSeq

/-- **A record header**, `struct juice_ios_msg`. -/
structure JuiceMsg where
  magic : UInt32
  type : UInt32
  size : UInt32
  hwnd : UInt64
  x : Int32
  y : Int32
  width : Int32
  height : Int32
  stride : UInt32
  flags : UInt32
  deriving DecidableEq, Repr, Inhabited

namespace JuiceMsg

/-- `JUICE_IOS_MAGIC`, `JUICE_DISPLAY_MAGIC`. -/
def MAGIC : UInt32 := 0x4a554943
/-- `JUICE_IOS_HELLO`: the first record of a connection. -/
def HELLO : UInt32 := 1
/-- `JUICE_IOS_WINDOW`: a window was shown, hidden, moved or resized. -/
def WINDOW : UInt32 := 3
/-- `JUICE_IOS_DESTROY`: a window is gone. -/
def DESTROY : UInt32 := 4
/-- `JUICE_IOS_FRAME`: pixels of a window. -/
def FRAME : UInt32 := 5
/-- `JUICE_IOS_FRAME_DIRTY`, `JUICE_DISPLAY_DIRTY`: the payload of the frame
is a packed rectangle and not the whole framebuffer. -/
def DIRTY : UInt32 := 0x20000000

/-- `sizeof(struct juice_ios_msg)`. -/
def headerSize : ℕ := 48

/-- A header as it lies in memory. -/
def encode (m : JuiceMsg) : List UInt8 :=
  toLE 4 m.magic.toNat ++ toLE 4 m.type.toNat ++ toLE 4 m.size.toNat ++ toLE 4 0
    ++ toLE 8 m.hwnd.toNat ++ toLE 4 m.x.toUInt32.toNat ++ toLE 4 m.y.toUInt32.toNat
    ++ toLE 4 m.width.toUInt32.toNat ++ toLE 4 m.height.toUInt32.toNat
    ++ toLE 4 m.stride.toNat ++ toLE 4 m.flags.toNat

/-- The 32-bit word of a header at a given offset. -/
def wordAt (bs : List UInt8) (i : ℕ) : UInt32 := UInt32.ofNat (ofLE (slice bs i 4))

/-- The header a block of memory holds. -/
def decode (bs : List UInt8) : JuiceMsg where
  magic := wordAt bs 0
  type := wordAt bs 4
  size := wordAt bs 8
  hwnd := UInt64.ofNat (ofLE (slice bs 16 8))
  x := (wordAt bs 24).toInt32
  y := (wordAt bs 28).toInt32
  width := (wordAt bs 32).toInt32
  height := (wordAt bs 36).toInt32
  stride := wordAt bs 40
  flags := wordAt bs 44

@[simp] theorem length_encode (m : JuiceMsg) : m.encode.length = headerSize := by
  simp [encode, headerSize]

/-- A word at the front of a block is read back. -/
theorem wordAt_zero (v : UInt32) (rest : List UInt8) : wordAt (toLE 4 v.toNat ++ rest) 0 = v := by
  have hlt : v.toNat < 256 ^ 4 := v.toNat_lt
  have hslice : slice (toLE 4 v.toNat ++ rest) 0 4 = toLE 4 v.toNat := by
    simpa using slice_zero_append (toLE 4 v.toNat) rest
  rw [wordAt, hslice, ofLE_toLE_of_lt hlt, UInt32.ofNat_toNat]

/-- Past a field, a word is looked for in what follows the field. -/
theorem wordAt_append (pre rest : List UInt8) {i : ℕ} (h : pre.length ≤ i) :
    wordAt (pre ++ rest) i = wordAt rest (i - pre.length) := by
  rw [wordAt, slice_append rest 4 h, wordAt]

/-- **The host reads the header the driver wrote**, whatever follows it in
the stream. -/
theorem decode_encode (m : JuiceMsg) (rest : List UInt8) : decode (m.encode ++ rest) = m := by
  have hw : m.hwnd.toNat < 256 ^ 8 := m.hwnd.toNat_lt
  have hhwnd : ∀ post : List UInt8,
      ofLE (slice (toLE 8 m.hwnd.toNat ++ post) 0 8) = m.hwnd.toNat := by
    intro post
    rw [show slice (toLE 8 m.hwnd.toNat ++ post) 0 8 = toLE 8 m.hwnd.toNat from by
      simpa using slice_zero_append (toLE 8 m.hwnd.toNat) post]
    exact ofLE_toLE_of_lt hw
  -- each field stands after the bytes of the fields before it
  unfold decode encode
  simp (disch := simp) only [List.append_assoc, wordAt_append, slice_append, length_toLE,
    wordAt_zero, hhwnd, UInt64.ofNat_toNat, Nat.reduceSub,
    Int32.toInt32_toUInt32]

end JuiceMsg

end Juice
