import Juice.Launch.Utf8Stream
import Juice.Lib.Bytes

/-!
# Messages of the control socket

A program asks the host to import a file by a message on a socket of its
own, and the host answers by one message on the same connection. Both have
the form of `struct juice_control_message`: seven numbers and two texts, the
texts in buffers of fixed size.

Who reads a text looks for the NUL at its end and for nothing else. A
message that was built by `JuiceControlResponse` has one in each buffer,
even where the text did not fit.
-/

namespace Juice.Control

open List ByteSeq

def JUICE_CONTROL_MAGIC : UInt32 := 0x4a554354
def JUICE_CONTROL_VERSION : UInt16 := 1
def JUICE_CONTROL_PATH_MAX : ℕ := 2048
def JUICE_CONTROL_DETAIL_MAX : ℕ := 512

def JUICE_CONTROL_IMPORT_REQUEST : UInt16 := 1
def JUICE_CONTROL_IMPORT_RESPONSE : UInt16 := 2
def JUICE_CONTROL_HOST_ACTION : UInt16 := 3

def JUICE_CONTROL_STATUS_PENDING : UInt32 := 1
def JUICE_CONTROL_STATUS_COMPLETE : UInt32 := 2
def JUICE_CONTROL_STATUS_CANCELLED : UInt32 := 3
def JUICE_CONTROL_STATUS_ERROR : UInt32 := 4

/-- `sizeof(struct juice_control_message)`. -/
def messageSize : ℕ := 24 + JUICE_CONTROL_PATH_MAX + JUICE_CONTROL_DETAIL_MAX

/-- A buffer of `capacity` bytes that begins with `bytes`, with zeros after
them. -/
def buffer (capacity : ℕ) (bytes : List UInt8) : List UInt8 :=
  bytes.take capacity ++ List.replicate (capacity - bytes.length) 0

theorem length_buffer (capacity : ℕ) (bytes : List UInt8) :
    (buffer capacity bytes).length = capacity := by
  rw [buffer, length_append, length_take, length_replicate]
  omega

theorem buffer_of_length {capacity : ℕ} {bytes : List UInt8} (h : bytes.length = capacity) :
    buffer capacity bytes = bytes := by
  rw [buffer, h, Nat.sub_self, ← h, take_length]
  exact append_nil _

/-- **`struct juice_control_message`.** The status is the bits of an
`int32_t`. -/
structure Message where
  magic : UInt32
  version : UInt16
  type : UInt16
  size : UInt32
  requestId : UInt32
  status : UInt32
  flags : UInt32
  path : List UInt8
  detail : List UInt8
  path_length : path.length = JUICE_CONTROL_PATH_MAX
  detail_length : detail.length = JUICE_CONTROL_DETAIL_MAX
  deriving DecidableEq

namespace Message

/-- The numbers of a message. -/
def fields (m : Message) : List (ℕ × ℕ) :=
  [(4, m.magic.toNat), (2, m.version.toNat), (2, m.type.toNat), (4, m.size.toNat),
    (4, m.requestId.toNat), (4, m.status.toNat), (4, m.flags.toNat)]

/-- **The bytes of a message.** -/
def wire (m : Message) : List UInt8 := layout m.fields ++ (m.path ++ m.detail)

/-- The message in the memory `bytes`. -/
def of (bytes : List UInt8) : Message where
  magic := .ofNat (number 4 bytes 0)
  version := .ofNat (number 2 bytes 4)
  type := .ofNat (number 2 bytes 6)
  size := .ofNat (number 4 bytes 8)
  requestId := .ofNat (number 4 bytes 12)
  status := .ofNat (number 4 bytes 16)
  flags := .ofNat (number 4 bytes 20)
  path := buffer JUICE_CONTROL_PATH_MAX (slice bytes 24 JUICE_CONTROL_PATH_MAX)
  detail := buffer JUICE_CONTROL_DETAIL_MAX
    (slice bytes (24 + JUICE_CONTROL_PATH_MAX) JUICE_CONTROL_DETAIL_MAX)
  path_length := length_buffer _ _
  detail_length := length_buffer _ _

theorem length_fields (m : Message) : (layout m.fields).length = 24 := length_layout _

theorem length_wire (m : Message) : m.wire.length = messageSize := by
  rw [wire, length_append, length_fields, length_append, m.path_length,
    m.detail_length, ← Nat.add_assoc]
  rfl

theorem widths (m : Message) : m.fields.map Prod.fst = [4, 2, 2, 4, 4, 4, 4] := rfl

/-- The numbers are read back. -/
theorem number_wire (m : Message) {i w v k : ℕ} (h : m.fields[i]? = some (w, v))
    (hv : v < 256 ^ w) (hk : ([4, 2, 2, 4, 4, 4, 4].take i).sum = k) : number w m.wire k = v := by
  have hnumber := @number_layout _ _ _ [] (m.path ++ m.detail) _ _ _ m.widths h hv hk
  rw [length_nil, Nat.zero_add] at hnumber
  exact hnumber

/-- **A message is read back from its bytes.** -/
theorem of_wire (m : Message) : of m.wire = m := by
  have hpath : slice m.wire 24 JUICE_CONTROL_PATH_MAX = m.path := by
    have hmid := slice_middle (layout m.fields) m.path m.detail
    rw [m.length_fields, m.path_length] at hmid
    exact hmid
  have hdetail : slice m.wire (24 + JUICE_CONTROL_PATH_MAX) JUICE_CONTROL_DETAIL_MAX
      = m.detail := by
    have hmid := slice_middle (layout m.fields ++ m.path) m.detail []
    rw [length_append, m.length_fields, m.path_length, m.detail_length, append_nil,
      append_assoc] at hmid
    exact hmid
  unfold of
  rw [Message.mk.injEq, hpath, hdetail, buffer_of_length m.path_length,
    buffer_of_length m.detail_length]
  rw [m.number_wire (i := 0) (k := 0) rfl m.magic.toNat_lt rfl,
    m.number_wire (i := 1) (k := 4) rfl m.version.toNat_lt rfl,
    m.number_wire (i := 2) (k := 6) rfl m.type.toNat_lt rfl,
    m.number_wire (i := 3) (k := 8) rfl m.size.toNat_lt rfl,
    m.number_wire (i := 4) (k := 12) rfl m.requestId.toNat_lt rfl,
    m.number_wire (i := 5) (k := 16) rfl m.status.toNat_lt rfl,
    m.number_wire (i := 6) (k := 20) rfl m.flags.toNat_lt rfl]
  exact ⟨UInt32.ofNat_toNat, UInt16.ofNat_toNat, UInt16.ofNat_toNat, UInt32.ofNat_toNat,
    UInt32.ofNat_toNat, UInt32.ofNat_toNat, UInt32.ofNat_toNat, rfl, rfl⟩

end Message

/-! ## Texts -/

/-- **`JuiceControlCopy`.** `unfit` is what `getCString:maxLength:encoding:`
leaves in the buffer when the text does not fit. -/
def juiceControlCopy (unfit : List Char → List UInt8) (capacity : ℕ) (value : List Char) :
    List UInt8 :=
  buffer (capacity - 1) (if value = [] then []
    else if (encode value).length < capacity then encode value else unfit value) ++ [0]

theorem length_juiceControlCopy (unfit : List Char → List UInt8) {capacity : ℕ} (h : 0 < capacity)
    (value : List Char) : (juiceControlCopy unfit capacity value).length = capacity := by
  rw [juiceControlCopy, length_append, length_buffer]
  exact Nat.sub_add_cancel h

/-- The text that begins at the first of `bytes`. -/
def cString (bytes : List UInt8) : List UInt8 := bytes.takeWhile (· ≠ 0)

/-- A text ends at its first NUL. -/
theorem cString_append {bytes : List UInt8} (h : 0 ∈ bytes) (rest : List UInt8) :
    cString (bytes ++ rest) = cString bytes := by
  induction bytes with
  | nil => exact absurd h not_mem_nil
  | cons b bytes ih =>
    rw [cString, cString, cons_append, takeWhile_cons, takeWhile_cons]
    by_cases hb : b = 0
    · rw [hb]
      rfl
    · have hmem : 0 ∈ bytes := (mem_cons.mp h).resolve_left (fun heq => hb heq.symm)
      have hih : (bytes ++ rest).takeWhile _ = bytes.takeWhile _ := ih hmem
      rw [hih]

/-! ## Messages that are sent -/

/-- **The request** of `begin_file_import`. -/
def importRequest (requestId filters : UInt32) : Message where
  magic := JUICE_CONTROL_MAGIC
  version := JUICE_CONTROL_VERSION
  type := JUICE_CONTROL_IMPORT_REQUEST
  size := .ofNat messageSize
  requestId := requestId
  status := JUICE_CONTROL_STATUS_PENDING
  flags := filters
  path := List.replicate JUICE_CONTROL_PATH_MAX 0
  detail := List.replicate JUICE_CONTROL_DETAIL_MAX 0
  path_length := List.length_replicate
  detail_length := List.length_replicate

/-- **The response** of `JuiceControlResponse`. -/
def importResponse (unfit : List Char → List UInt8) (request status : UInt32)
    (path detail : List Char) : Message where
  magic := JUICE_CONTROL_MAGIC
  version := JUICE_CONTROL_VERSION
  type := JUICE_CONTROL_IMPORT_RESPONSE
  size := .ofNat messageSize
  requestId := request
  status := status
  flags := 0
  path := juiceControlCopy unfit JUICE_CONTROL_PATH_MAX path
  detail := juiceControlCopy unfit JUICE_CONTROL_DETAIL_MAX detail
  path_length := length_juiceControlCopy unfit (by decide) path
  detail_length := length_juiceControlCopy unfit (by decide) detail

/-- The checks that both sides make of a message. -/
def wellFormed (m : Message) : Prop :=
  m.magic = JUICE_CONTROL_MAGIC ∧ m.version = JUICE_CONTROL_VERSION
    ∧ m.size = .ofNat messageSize

instance (m : Message) : Decidable (wellFormed m) := inferInstanceAs (Decidable (_ ∧ _ ∧ _))

/-- `valid_message`. -/
def validMessage (m : Message) (type : UInt16) : Prop := wellFormed m ∧ m.type = type

instance (m : Message) (type : UInt16) : Decidable (validMessage m type) :=
  inferInstanceAs (Decidable (_ ∧ _))

/-- **A response that the program accepts**, with texts that end in their
buffers. -/
structure IsResponse (m : Message) : Prop where
  valid : validMessage m JUICE_CONTROL_IMPORT_RESPONSE
  path : 0 ∈ m.path
  detail : 0 ∈ m.detail
  status : m.status = JUICE_CONTROL_STATUS_COMPLETE ∨ m.status = JUICE_CONTROL_STATUS_CANCELLED
    ∨ m.status = JUICE_CONTROL_STATUS_ERROR

/-- **What the host sends is accepted.** -/
theorem isResponse_importResponse (unfit : List Char → List UInt8) (request : UInt32)
    {status : UInt32} (path detail : List Char)
    (h : status = JUICE_CONTROL_STATUS_COMPLETE ∨ status = JUICE_CONTROL_STATUS_CANCELLED
      ∨ status = JUICE_CONTROL_STATUS_ERROR) :
    IsResponse (importResponse unfit request status path detail) where
  valid := ⟨⟨rfl, rfl, rfl⟩, rfl⟩
  path := mem_append_right _ (mem_singleton_self 0)
  detail := mem_append_right _ (mem_singleton_self 0)
  status := h

end Juice.Control
