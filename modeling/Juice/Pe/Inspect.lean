import Juice.Lib.Bytes
import Juice.Lib.Prog

/-!
# Looking at a Windows program before it is started

`JuicePEInspectBytes` and `JuicePEInspectFD` read the headers of an
executable to find out what it is for. They share one routine, `inspect`,
that asks for the bytes it needs through a function of its caller: a copy
out of memory here, and reads of a file elsewhere.

The numbers it finds decide where it looks next, and nobody has checked
them. So everything that can go wrong is an outcome of its own: a look
beyond the end of one of the three buffers on the stack is
`Stop.outside`, a sum or a difference that does not fit its machine word is
`Stop.wrapped`, and neither is the failure `Stop.failed` that the caller
gets as -1. The buffers are on the stack, and have their size in their type.

`Accepted` says which files pass, in terms of the bytes of the file alone.
A run succeeds exactly on those (`wp_inspect`), and a file that agrees with
one of them on its headers is another one (`Accepted.of_take_eq`).
-/

namespace Juice.Pe

open Prog ByteSeq

/-! ## The call -/

/-- `JuicePEInfo` -/
structure Info where
  machine : ℕ
  subsystem : ℕ
  sections : ℕ
  entryRva : ℕ
  imageSize : ℕ
  pe32Plus : Bool
  isDll : Bool
  managed : Bool
  deriving DecidableEq

/-- What `memset` leaves. -/
def Info.zero : Info := ⟨0, 0, 0, 0, 0, false, false, false⟩

/-- `errno` -/
inductive Errno
  | einval
  | enoexec
  | eintr
  | other (code : ℕ)
  deriving DecidableEq

/-- How a call can end without success. -/
inductive Stop
  /-- It returns -1. -/
  | failed
  /-- It touches memory outside one of its buffers. -/
  | outside
  /-- A number does not fit its machine word. -/
  | wrapped
  deriving DecidableEq

/-- The state of a call: what its reader needs, the result, and `errno`. -/
structure Call (κ : Type) where
  context : κ
  out : Info
  errno : Errno

/-- The code of a call. -/
abbrev Code (κ : Type) : Type → Type := Prog (Call κ) Stop

variable {κ α : Type}

/-- `invalid` -/
def invalid : Code κ α := do
  modify fun c => { c with errno := .enoexec }
  fail .failed

/-- `if (!p) return invalid();` -/
def check (p : Prop) [Decidable p] : Code κ Unit := if p then pure () else invalid

/-- `range` -/
def Range (offset count size : ℕ) : Prop := offset ≤ size ∧ count ≤ size - offset

instance (offset count size : ℕ) : Decidable (Range offset count size) :=
  inferInstanceAs (Decidable (_ ∧ _))

/-- A sum of two words. -/
def add64 (a b : ℕ) : Except Stop ℕ := if a + b < 2 ^ 64 then .ok (a + b) else .error .wrapped

/-- A product of two words. -/
def mul64 (a b : ℕ) : Except Stop ℕ := if a * b < 2 ^ 64 then .ok (a * b) else .error .wrapped

/-- A difference of two words. -/
def sub32 (a b : ℕ) : Except Stop ℕ := if b ≤ a then .ok (a - b) else .error .wrapped

/-! ## Buffers -/

/-- **A buffer on the stack.** -/
structure Buffer (n : ℕ) where
  bytes : List UInt8
  length_eq : bytes.length = n

namespace Buffer

variable {n : ℕ}

/-- A cleared buffer. -/
def zero (n : ℕ) : Buffer n := ⟨List.replicate n 0, List.length_replicate⟩

/-- The buffer after a copy of `l` to its start. -/
def fill (b : Buffer n) (l : List UInt8) (h : l.length ≤ n) : Buffer n :=
  ⟨l ++ b.bytes.drop l.length, by rw [List.length_append, List.length_drop, b.length_eq]; omega⟩

/-- A look at `w` bytes. -/
def look (b : Buffer n) (i w : ℕ) : Except Stop (List UInt8) :=
  if i + w ≤ n then .ok (slice b.bytes i w) else .error .outside

/-- `u16` -/
def u16 (b : Buffer n) (i : ℕ) : Except Stop ℕ := do return ofLE (← b.look i 2)

/-- `u32` -/
def u32 (b : Buffer n) (i : ℕ) : Except Stop ℕ := do return ofLE (← b.look i 4)

end Buffer

/-! ## The routine -/

section Routine

variable (readAt : ℕ → ℕ → Code κ (List UInt8)) (size : ℕ)

/-- `read_at(context, offset, buffer, count)` -/
def readInto {n : ℕ} (offset : ℕ) (buffer : Buffer n) (count : ℕ) : Code κ (Buffer n) := do
  let l ← readAt offset count
  if h : l.length ≤ n then pure (buffer.fill l h) else fail .outside

/-- The part of `inspect` up to the offset of the COFF header. -/
def dosHeader : Code κ ℕ := do
  check (Range 0 64 size)
  let dos ← readInto readAt 0 (.zero 64) 64
  let m ← lift (dos.look 0 1)
  let z ← lift (dos.look 1 1)
  check (m = [0x4d] ∧ z = [0x5a])
  lift (dos.u32 60)

/-- What `inspect` keeps of the COFF header. -/
structure Coff where
  machine : ℕ
  sections : ℕ
  optSize : ℕ
  flags : ℕ
  optional : ℕ
  table : ℕ

/-- The part of `inspect` about the COFF header. -/
def coffHeader (pe : ℕ) : Code κ Coff := do
  check (¬ pe < 64 ∧ Range pe 24 size)
  let coff ← readInto readAt pe (.zero 24) 24
  let signature ← lift (coff.look 0 4)
  check (signature = [0x50, 0x45, 0, 0])
  let machine ← lift (coff.u16 4)
  let sections ← lift (coff.u16 6)
  let optSize ← lift (coff.u16 20)
  let flags ← lift (coff.u16 22)
  let optional ← lift (add64 pe 24)
  let table ← lift (add64 optional optSize)
  return ⟨machine, sections, optSize, flags, optional, table⟩

/-- The part of `inspect` that copies the optional header, as far as there
is room. -/
def optionalHeader (coff : Coff) : Code κ (Buffer 240) := do
  let length ← lift (mul64 coff.sections 40)
  check (coff.sections ≠ 0 ∧ ¬ 96 < coff.sections ∧ ¬ coff.optSize < 96
    ∧ Range coff.optional coff.optSize size ∧ Range coff.table length size)
  let readSize := if coff.optSize < 240 then coff.optSize else 240
  readInto readAt coff.optional (.zero 240) readSize

/-- `directory_offset` -/
def directoryOffset (magic : ℕ) : ℕ := if magic = 0x20b then 112 else 96

/-- The machines of 64 bits. -/
def is64 (machine : ℕ) : Prop :=
  machine = 0x8664 ∨ machine = 0xaa64 ∨ machine = 0xa641 ∨ machine = 0xa64e

instance (machine : ℕ) : Decidable (is64 machine) := inferInstanceAs (Decidable (_ ∨ _))

/-- `managed` -/
def managedFlag (opt : Buffer 240) (offset directories : ℕ) : Except Stop Bool :=
  if 14 < directories then do
    let address ← opt.u32 (offset + 14 * 8)
    let length ← opt.u32 (offset + 14 * 8 + 4)
    return decide (address ≠ 0 ∧ length ≠ 0)
  else return false

/-- The part of `inspect` about the optional header. -/
def imageInfo (coff : Coff) (opt : Buffer 240) : Code κ Info := do
  let magic ← lift (opt.u16 0)
  check (magic = 0x10b ∨ magic = 0x20b)
  check (¬ coff.optSize < directoryOffset magic)
  check (¬ ((coff.machine = 0x14c ∧ magic = 0x20b) ∨ (is64 coff.machine ∧ magic ≠ 0x20b)))
  let headers ← lift (opt.u32 60)
  let image ← lift (opt.u32 56)
  let length ← lift (mul64 coff.sections 40)
  let tableEnd ← lift (add64 coff.table length)
  check (¬ headers < tableEnd ∧ ¬ size < headers ∧ image ≠ 0 ∧ ¬ image < headers)
  let directories ← lift (opt.u32 (directoryOffset magic - 4))
  let room ← lift (sub32 coff.optSize (directoryOffset magic))
  check (¬ room / 8 < directories)
  let managed ← lift (managedFlag opt (directoryOffset magic) directories)
  let subsystem ← lift (opt.u16 68)
  let entry ← lift (opt.u32 16)
  return ⟨coff.machine, subsystem, coff.sections, entry, image, decide (magic = 0x20b),
    decide (coff.flags &&& 0x2000 ≠ 0), managed⟩

/-- `inspect` -/
def inspect : Code κ Unit := do
  modify fun c => { c with out := .zero }
  let pe ← dosHeader readAt size
  let coff ← coffHeader readAt size pe
  let opt ← optionalHeader readAt size coff
  let info ← imageInfo size coff opt
  modify fun c => { c with out := info }

end Routine

/-! ## From memory -/

/-- A call of `memory_read`, and whether it returned 0. -/
structure Access where
  offset : ℕ
  count : ℕ
  done : Bool

/-- `Memory`, with the calls of `memory_read` so far. -/
structure Memory where
  bytes : List UInt8
  accesses : List Access

/-- `memory_read` -/
def memoryRead (offset count : ℕ) : Code Memory (List UInt8) := do
  let memory ← gets Call.context
  let done := decide (Range offset count memory.bytes.length)
  modify fun c => { c with context.accesses := ⟨offset, count, done⟩ :: memory.accesses }
  check (Range offset count memory.bytes.length)
  return slice memory.bytes offset count

/-- The first two arguments of `JuicePEInspectBytes`. -/
inductive Argument
  /-- No bytes at all, whatever their number is said to be. -/
  | null (length : ℕ)
  | memory (bytes : List UInt8)

/-- `JuicePEInspectBytes` -/
def inspectBytes : Argument → Code Memory Unit
  | .null length =>
    if length ≠ 0 then do
      modify fun c => { c with out := .zero, errno := .einval }
      fail .failed
    else inspect memoryRead 0
  | .memory bytes => inspect memoryRead bytes.length

/-- The bytes there are. -/
def Argument.bytes : Argument → List UInt8
  | .null _ => []
  | .memory bytes => bytes

/-- A call of `JuicePEInspectBytes` with a result structure that holds
`out`. -/
def peInspectBytes (argument : Argument) (out : Info) (errno : Errno) :
    Except Stop Unit × Call Memory :=
  inspectBytes argument ⟨⟨argument.bytes, []⟩, out, errno⟩

/-! ## What is accepted -/

section File

variable (bytes : List UInt8)

/-- `e_lfanew` -/
def peOffset : ℕ := number 4 bytes 60

/-- The COFF header of a file. -/
def coffOf : Coff where
  machine := number 2 bytes (peOffset bytes + 4)
  sections := number 2 bytes (peOffset bytes + 6)
  optSize := number 2 bytes (peOffset bytes + 20)
  flags := number 2 bytes (peOffset bytes + 22)
  optional := peOffset bytes + 24
  table := peOffset bytes + 24 + number 2 bytes (peOffset bytes + 20)

/-- The `w` bytes wide field at `i` of the optional header. -/
def optionalField (w i : ℕ) : ℕ := number w bytes ((coffOf bytes).optional + i)

/-- `Magic` -/
def magicOf : ℕ := optionalField bytes 2 0

/-- `SizeOfHeaders` -/
def sizeOfHeaders : ℕ := optionalField bytes 4 60

/-- `SizeOfImage` -/
def sizeOfImage : ℕ := optionalField bytes 4 56

/-- `NumberOfRvaAndSizes` -/
def directoriesOf : ℕ := optionalField bytes 4 (directoryOffset (magicOf bytes) - 4)

/-- Where the directory of the CLR is in the optional header. -/
def clrOffset : ℕ := directoryOffset (magicOf bytes) + 14 * 8

/-- Whether there is a directory of the CLR, and it is not empty. -/
def IsManaged : Prop :=
  14 < directoriesOf bytes ∧ optionalField bytes 4 (clrOffset bytes) ≠ 0
    ∧ optionalField bytes 4 (clrOffset bytes + 4) ≠ 0

instance : Decidable (IsManaged bytes) := inferInstanceAs (Decidable (_ ∧ _))

/-- The end of the section table. -/
def tableEnd : ℕ := (coffOf bytes).table + (coffOf bytes).sections * 40

structure DosOk : Prop where
  length : 64 ≤ bytes.length
  mz : slice bytes 0 1 = [0x4d] ∧ slice bytes 1 1 = [0x5a]

structure CoffOk : Prop where
  pe : ¬ peOffset bytes < 64 ∧ peOffset bytes + 24 ≤ bytes.length
  signature : slice bytes (peOffset bytes) 4 = [0x50, 0x45, 0, 0]

structure TableOk : Prop where
  sections : (coffOf bytes).sections ≠ 0 ∧ ¬ 96 < (coffOf bytes).sections
  minimum : ¬ (coffOf bytes).optSize < 96
  tableEnd : tableEnd bytes ≤ bytes.length

structure ImageOk : Prop where
  magic : magicOf bytes = 0x10b ∨ magicOf bytes = 0x20b
  room : ¬ (coffOf bytes).optSize < directoryOffset (magicOf bytes)
  machine : ¬ (((coffOf bytes).machine = 0x14c ∧ magicOf bytes = 0x20b)
    ∨ (is64 (coffOf bytes).machine ∧ magicOf bytes ≠ 0x20b))
  headers : ¬ sizeOfHeaders bytes < Pe.tableEnd bytes ∧ ¬ bytes.length < sizeOfHeaders bytes
  image : sizeOfImage bytes ≠ 0 ∧ ¬ sizeOfImage bytes < sizeOfHeaders bytes
  directories : ¬ ((coffOf bytes).optSize - directoryOffset (magicOf bytes)) / 8
    < directoriesOf bytes

/-- **The files that pass.** -/
structure Accepted : Prop extends DosOk bytes, CoffOk bytes, TableOk bytes, ImageOk bytes

/-- **What is said about them.** -/
def infoOf : Info where
  machine := (coffOf bytes).machine
  subsystem := optionalField bytes 2 68
  sections := (coffOf bytes).sections
  entryRva := optionalField bytes 4 16
  imageSize := sizeOfImage bytes
  pe32Plus := decide (magicOf bytes = 0x20b)
  isDll := decide ((coffOf bytes).flags &&& 0x2000 ≠ 0)
  managed := decide (IsManaged bytes)

end File

/-! ## Rules -/

theorem range_iff {offset count size : ℕ} : Range offset count size ↔ offset + count ≤ size := by
  unfold Range
  omega

theorem wp_check {p : Prop} [Decidable p] {Q : Unit → Call κ → Prop} {E : Stop → Call κ → Prop}
    {s : Call κ} :
    (check p : Code κ Unit).wp Q E s
      ↔ (p → Q () s) ∧ (¬ p → E .failed { s with errno := .enoexec }) := by
  unfold check
  split
  next hp => exact wp_pure.trans ⟨fun h => ⟨fun _ => h, fun hn => absurd hp hn⟩, fun h => h.1 hp⟩
  next hp =>
    unfold invalid
    rw [wp_bind, wp_modify, wp_fail]
    exact ⟨fun h => ⟨fun hp' => absurd hp' hp, fun _ => h⟩, fun h => h.2 hp⟩

section Bytes

variable {bytes : List UInt8} {n : ℕ} {offset count : ℕ} {b : Buffer n} {s : Call Memory}

/-- **A buffer holds a part of the file.** -/
structure Holds (bytes : List UInt8) (offset count : ℕ) (b : Buffer n) : Prop where
  le : count ≤ n
  eq : ∀ i w, i + w ≤ count → slice b.bytes i w = slice bytes (offset + i) w

theorem Holds.look_eq (h : Holds bytes offset count b) {i w : ℕ} (hi : i + w ≤ count) :
    b.look i w = .ok (slice bytes (offset + i) w) := by
  rw [Buffer.look, if_pos (hi.trans h.le), h.eq i w hi]

theorem Holds.u16_eq (h : Holds bytes offset count b) {i : ℕ} (hi : i + 2 ≤ count) :
    b.u16 i = .ok (number 2 bytes (offset + i)) := by
  rw [Buffer.u16, h.look_eq hi]
  rfl

theorem Holds.u32_eq (h : Holds bytes offset count b) {i : ℕ} (hi : i + 4 ≤ count) :
    b.u32 i = .ok (number 4 bytes (offset + i)) := by
  rw [Buffer.u32, h.look_eq hi]
  rfl

/-- Every call of `memory_read` was inside the file and returned 0, and the
result is still cleared. -/
structure Reading (bytes : List UInt8) (s : Call Memory) : Prop where
  memory : s.context.bytes = bytes
  out : s.out = .zero
  accesses : ∀ a ∈ s.context.accesses, a.done = true ∧ a.offset + a.count ≤ bytes.length

/-- How a run ends that does not succeed. -/
def Rejects (bytes : List UInt8) (e : Stop) (s : Call Memory) : Prop :=
  e = .failed ∧ ¬ Accepted bytes ∧ Reading bytes s

/-- **A check** that every accepted file passes. -/
theorem wp_check_of_accepted {p : Prop} [Decidable p] {Q : Unit → Call Memory → Prop}
    (hs : Reading bytes s) (hp : Accepted bytes → p) (h : p → Q () s) :
    (check p : Code Memory Unit).wp Q (Rejects bytes) s :=
  wp_check.mpr ⟨h, fun hno => ⟨rfl, fun ha => hno (hp ha), hs.memory, hs.out, hs.accesses⟩⟩

/-- **A read** inside the file and inside the buffer. -/
theorem wp_readInto (hn : count ≤ n) (hrange : offset + count ≤ bytes.length) (buffer : Buffer n)
    {Q : Buffer n → Call Memory → Prop} {E : Stop → Call Memory → Prop} (hs : Reading bytes s)
    (h : ∀ b t, Holds bytes offset count b → Reading bytes t → Q b t) :
    (readInto memoryRead offset buffer count).wp Q E s := by
  have hmemory := hs.memory
  have hlen : (slice bytes offset count).length = count := length_slice hrange
  have hok : Range offset count s.context.bytes.length := by
    rw [hmemory]
    exact range_iff.mpr hrange
  refine wp_bind.mpr (wp_bind.mpr (wp_gets.mpr (wp_bind.mpr (wp_modify.mpr ?_))))
  refine wp_bind.mpr (wp_check.mpr ⟨fun _ => wp_pure.mpr ?_, fun hno => absurd hok hno⟩)
  rw [hmemory, dif_pos (by rw [hlen]; exact hn)]
  refine wp_pure.mpr (h _ _ ⟨hn, fun i w hi => ?_⟩ ⟨hmemory, hs.out, ?_⟩)
  · show slice (slice bytes offset count ++ _) i w = _
    rw [slice_append_left _ (by rw [hlen]; exact hi), slice_slice _ _ hi]
  · refine List.forall_mem_cons.mpr ⟨⟨?_, hrange⟩, hs.accesses⟩
    exact decide_eq_true (range_iff.mpr hrange)

/-! ## A run on a file in memory -/

theorem wp_dosHeader (hs : Reading bytes s) :
    (dosHeader memoryRead bytes.length).wp
      (fun pe t => pe = peOffset bytes ∧ DosOk bytes ∧ Reading bytes t) (Rejects bytes) s := by
  refine wp_bind.mpr (wp_check_of_accepted hs (fun ha => range_iff.mpr ha.length) fun hlen => ?_)
  have hlen := range_iff.mp hlen
  refine wp_bind.mpr (wp_readInto le_rfl hlen _ hs fun dos t hdos ht => ?_)
  rw [hdos.look_eq (by decide), hdos.look_eq (by decide), hdos.u32_eq (by decide)]
  refine wp_bind.mpr (wp_ok.mpr (wp_bind.mpr (wp_ok.mpr (wp_bind.mpr ?_))))
  exact wp_check_of_accepted ht (fun ha => ha.mz) fun hmz => wp_ok.mpr ⟨rfl, ⟨hlen, hmz⟩, ht⟩

theorem add64_eq {a b : ℕ} (h : a + b < 2 ^ 64) : add64 a b = .ok (a + b) := if_pos h

theorem mul64_eq {a b : ℕ} (h : a * b < 2 ^ 64) : mul64 a b = .ok (a * b) := if_pos h

theorem peOffset_lt (bytes : List UInt8) : peOffset bytes < 2 ^ 32 := number_lt

theorem optSize_lt (bytes : List UInt8) : (coffOf bytes).optSize < 2 ^ 16 := number_lt

theorem sections_lt (bytes : List UInt8) : (coffOf bytes).sections < 2 ^ 16 := number_lt

theorem wp_coffHeader (hs : Reading bytes s) :
    (coffHeader memoryRead bytes.length (peOffset bytes)).wp
      (fun coff t => coff = coffOf bytes ∧ CoffOk bytes ∧ Reading bytes t) (Rejects bytes) s := by
  have hpe := peOffset_lt bytes
  have hopt := optSize_lt bytes
  refine wp_bind.mpr (wp_check_of_accepted hs
    (fun ha => ⟨ha.pe.1, range_iff.mpr ha.pe.2⟩) fun hrange => ?_)
  have hend := range_iff.mp hrange.2
  refine wp_bind.mpr (wp_readInto le_rfl hend _ hs fun coff t hcoff ht => ?_)
  rw [hcoff.look_eq (by decide), hcoff.u16_eq (by decide), hcoff.u16_eq (by decide),
    hcoff.u16_eq (by decide), hcoff.u16_eq (by decide)]
  refine wp_bind.mpr (wp_ok.mpr (wp_bind.mpr (wp_check_of_accepted ht
    (fun ha => ha.signature) fun hsignature => ?_)))
  refine wp_bind.mpr (wp_ok.mpr (wp_bind.mpr (wp_ok.mpr (wp_bind.mpr (wp_ok.mpr (wp_bind.mpr
    (wp_ok.mpr ?_)))))))
  rw [add64_eq (by omega)]
  refine wp_bind.mpr (wp_ok.mpr ?_)
  rw [add64_eq (by have : number 2 bytes (peOffset bytes + 20) < 2 ^ 16 := hopt; omega)]
  exact wp_bind.mpr (wp_ok.mpr (wp_pure.mpr ⟨rfl, ⟨⟨hrange.1, hend⟩, hsignature⟩, ht⟩))

/-- How much of the optional header is copied. -/
def readSize (bytes : List UInt8) : ℕ :=
  if (coffOf bytes).optSize < 240 then (coffOf bytes).optSize else 240

theorem wp_optionalHeader (hs : Reading bytes s) :
    (optionalHeader memoryRead bytes.length (coffOf bytes)).wp
      (fun opt t => Holds bytes (coffOf bytes).optional (readSize bytes) opt ∧ TableOk bytes
        ∧ Reading bytes t) (Rejects bytes) s := by
  have hsections := sections_lt bytes
  have htable : (coffOf bytes).table = (coffOf bytes).optional + (coffOf bytes).optSize := rfl
  unfold optionalHeader
  rw [mul64_eq (by omega)]
  refine wp_bind.mpr (wp_ok.mpr (wp_bind.mpr (wp_check_of_accepted hs (fun ha => ?_) fun h => ?_)))
  · have hend := ha.tableEnd
    unfold tableEnd at hend
    exact ⟨ha.sections.1, ha.sections.2, ha.minimum, range_iff.mpr (by omega),
      range_iff.mpr hend⟩
  · obtain ⟨hne, hle, hmin, hrange, hend⟩ := h
    have hrange := range_iff.mp hrange
    refine wp_readInto (by split <;> omega) (by split <;> omega) _ hs fun opt t hopt ht => ?_
    exact ⟨hopt, ⟨⟨hne, hle⟩, hmin, range_iff.mp hend⟩, ht⟩

theorem directoryOffset_le (magic : ℕ) :
    96 ≤ directoryOffset magic ∧ directoryOffset magic ≤ 112 := by
  unfold directoryOffset
  split
  · exact ⟨by decide, le_rfl⟩
  · exact ⟨le_rfl, by decide⟩

/-- **The flag comes from the file**: where there are so many directories,
their end is in the part that was copied. -/
theorem managedFlag_eq {opt : Buffer 240}
    (hopt : Holds bytes (coffOf bytes).optional (readSize bytes) opt)
    (hdirectories : ¬ ((coffOf bytes).optSize - directoryOffset (magicOf bytes)) / 8
      < directoriesOf bytes) :
    managedFlag opt (directoryOffset (magicOf bytes)) (directoriesOf bytes)
      = .ok (decide (IsManaged bytes)) := by
  have hoffset := directoryOffset_le (magicOf bytes)
  unfold managedFlag
  split
  next hmany =>
    have hcopied : directoryOffset (magicOf bytes) + 14 * 8 + 8 ≤ readSize bytes := by
      unfold readSize
      split <;> omega
    rw [hopt.u32_eq (by omega), hopt.u32_eq (by omega)]
    refine congrArg Except.ok (decide_eq_decide.mpr ?_)
    exact ⟨fun h => ⟨hmany, h⟩, fun h => h.2⟩
  next hfew =>
    exact congrArg Except.ok (decide_eq_false (fun h => hfew h.1)).symm

theorem wp_imageInfo {opt : Buffer 240}
    (hopt : Holds bytes (coffOf bytes).optional (readSize bytes) opt) (hdos : DosOk bytes)
    (hcoff : CoffOk bytes) (htable : TableOk bytes) (hs : Reading bytes s) :
    (imageInfo bytes.length (coffOf bytes) opt).wp
      (fun info t => info = infoOf bytes ∧ Accepted bytes ∧ Reading bytes t)
      (Rejects bytes) s := by
  have hpe := peOffset_lt bytes
  have hoptSize := optSize_lt bytes
  have hsections := sections_lt bytes
  have hmin := htable.minimum
  have hoffset := directoryOffset_le (magicOf bytes)
  have hcopied : 96 ≤ readSize bytes := by
    unfold readSize
    split <;> omega
  have hends : (coffOf bytes).table + (coffOf bytes).sections * 40 < 2 ^ 64 := by
    have : (coffOf bytes).table = peOffset bytes + 24 + (coffOf bytes).optSize := rfl
    omega
  have hu16 : ∀ i, i + 2 ≤ readSize bytes → opt.u16 i = .ok (optionalField bytes 2 i) :=
    fun i hi => hopt.u16_eq hi
  have hu32 : ∀ i, i + 4 ≤ readSize bytes → opt.u32 i = .ok (optionalField bytes 4 i) :=
    fun i hi => hopt.u32_eq hi
  unfold imageInfo
  rw [hu16 0 (by omega), hu32 60 (by omega), hu32 56 (by omega), mul64_eq (by omega),
    hu16 68 (by omega), hu32 16 (by omega)]
  refine wp_bind.mpr (wp_ok.mpr (wp_bind.mpr (wp_check_of_accepted hs
    (fun ha => ha.magic) fun hmagic => ?_)))
  refine wp_bind.mpr (wp_check_of_accepted hs (fun ha => ha.room) fun hroom => ?_)
  refine wp_bind.mpr (wp_check_of_accepted hs (fun ha => ha.machine) fun hmachine => ?_)
  refine wp_bind.mpr (wp_ok.mpr (wp_bind.mpr (wp_ok.mpr (wp_bind.mpr (wp_ok.mpr ?_)))))
  rw [add64_eq hends]
  refine wp_bind.mpr (wp_ok.mpr (wp_bind.mpr (wp_check_of_accepted hs
    (fun ha => ⟨ha.headers.1, ha.headers.2, ha.image⟩) fun hheaders => ?_)))
  have hcopied' : directoryOffset (optionalField bytes 2 0) - 4 + 4 ≤ readSize bytes := by
    rw [← magicOf] at hroom ⊢
    unfold readSize
    split <;> omega
  rw [hu32 _ hcopied', show sub32 _ _ = _ from if_pos (not_lt.mp hroom)]
  refine wp_bind.mpr (wp_ok.mpr (wp_bind.mpr (wp_ok.mpr (wp_bind.mpr (wp_check_of_accepted hs
    (fun ha => ha.directories) fun hdirectories => ?_)))))
  rw [← magicOf, ← directoriesOf, managedFlag_eq hopt hdirectories]
  refine wp_bind.mpr (wp_ok.mpr (wp_bind.mpr (wp_ok.mpr (wp_bind.mpr (wp_ok.mpr
    (wp_pure.mpr ⟨rfl, ?_, hs⟩))))))
  exact ⟨hdos, hcoff, htable, hmagic, hroom, hmachine, ⟨hheaders.1, hheaders.2.1⟩,
    hheaders.2.2, hdirectories⟩

/-- **A run on a file in memory**: it succeeds on the accepted files, with
what the file says, and fails on all others. -/
theorem wp_inspect (hs : Reading bytes { s with out := .zero }) :
    (inspect memoryRead bytes.length).wp
      (fun _ t => Accepted bytes ∧ t.out = infoOf bytes ∧ Reading bytes { t with out := .zero })
      (Rejects bytes) s := by
  refine wp_bind.mpr (wp_modify.mpr (wp_bind.mpr (wp_imp (wp_dosHeader hs) ?_ fun _ _ h => h)))
  rintro pe t ⟨rfl, hdos, ht⟩
  refine wp_bind.mpr (wp_imp (wp_coffHeader ht) ?_ fun _ _ h => h)
  rintro coff u ⟨rfl, hcoff, hu⟩
  refine wp_bind.mpr (wp_imp (wp_optionalHeader hu) ?_ fun _ _ h => h)
  rintro opt v ⟨hopt, htable, hv⟩
  refine wp_bind.mpr (wp_imp (wp_imageInfo hopt hdos hcoff htable hv) ?_ fun _ _ h => h)
  rintro info w ⟨rfl, haccepted, hw⟩
  exact wp_modify.mpr ⟨haccepted, rfl, hw.memory, rfl, hw.accesses⟩

end Bytes

/-! ## The call as a whole -/

theorem not_accepted_nil : ¬ Accepted [] := fun h => absurd h.length (by decide)

/-- **How a call can end.** -/
theorem peInspectBytes_cases (argument : Argument) (out : Info) (errno : Errno) :
    (∃ t, peInspectBytes argument out errno = (.ok (), t) ∧ Accepted argument.bytes
        ∧ t.out = infoOf argument.bytes ∧ Reading argument.bytes { t with out := .zero })
      ∨ ∃ t, peInspectBytes argument out errno = (.error .failed, t)
        ∧ ¬ Accepted argument.bytes ∧ Reading argument.bytes t := by
  have hrun : ∀ bytes : List UInt8, ∀ r t,
      inspect memoryRead bytes.length ⟨⟨bytes, []⟩, out, errno⟩ = (r, t) →
      (∃ t', (r, t) = (.ok (), t') ∧ Accepted bytes
          ∧ t'.out = infoOf bytes ∧ Reading bytes { t' with out := .zero })
        ∨ ∃ t', (r, t) = (.error .failed, t') ∧ ¬ Accepted bytes ∧ Reading bytes t' := by
    intro bytes r t hrun
    have hend := of_wp (wp_inspect (s := ⟨⟨bytes, []⟩, out, errno⟩)
      ⟨rfl, rfl, fun a ha => absurd ha List.not_mem_nil⟩) hrun
    cases r with
    | ok u => exact .inl ⟨t, rfl, hend.1 u rfl⟩
    | error e =>
      obtain ⟨rfl, hno, ht⟩ := hend.2 e rfl
      exact .inr ⟨t, rfl, hno, ht⟩
  cases argument with
  | memory bytes => exact hrun bytes _ _ rfl
  | null length =>
    by_cases hlength : length = 0
    · subst hlength
      exact hrun [] _ _ rfl
    · have hreturn : peInspectBytes (.null length) out errno
          = (.error .failed, ⟨⟨[], []⟩, .zero, .einval⟩) := by
        show inspectBytes (.null length) _ = _
        rw [inspectBytes, if_pos hlength]
        rfl
      exact .inr ⟨_, hreturn, not_accepted_nil, rfl, rfl, fun a ha => absurd ha List.not_mem_nil⟩

/-! ## Only the headers matter -/

section Headers

variable {bytes bytes' : List UInt8}

theorem Accepted.bounds (h : Accepted bytes) :
    64 ≤ peOffset bytes
      ∧ (coffOf bytes).optional + (coffOf bytes).optSize ≤ sizeOfHeaders bytes
      ∧ sizeOfHeaders bytes ≤ bytes.length
      ∧ (14 < directoriesOf bytes → clrOffset bytes + 8 ≤ (coffOf bytes).optSize) := by
  have hpe := h.pe.1
  have hheaders := h.headers
  have hdirectories := h.directories
  unfold tableEnd at hheaders
  have htable : (coffOf bytes).table = (coffOf bytes).optional + (coffOf bytes).optSize := rfl
  unfold clrOffset
  exact ⟨by omega, by omega, by omega, fun _ => by omega⟩

variable (h : Accepted bytes)
  (htake : bytes'.take (sizeOfHeaders bytes) = bytes.take (sizeOfHeaders bytes))

include htake in
theorem slice_eq_of_take_eq {i w : ℕ} (hi : i + w ≤ sizeOfHeaders bytes) :
    slice bytes' i w = slice bytes i w := by
  rw [← slice_take bytes' hi, htake, slice_take bytes hi]

include h htake

theorem coffOf_eq_of_take_eq : peOffset bytes' = peOffset bytes ∧ coffOf bytes' = coffOf bytes := by
  obtain ⟨hpe, hoptional, -, -⟩ := h.bounds
  have hmin := h.minimum
  have hopt : (coffOf bytes).optional = peOffset bytes + 24 := rfl
  have hnumber : ∀ {i w}, i + w ≤ sizeOfHeaders bytes → number w bytes' i = number w bytes i :=
    fun hi => congrArg ofLE (slice_eq_of_take_eq htake hi)
  have hpe' : peOffset bytes' = peOffset bytes := hnumber (by omega)
  refine ⟨hpe', ?_⟩
  unfold coffOf
  rw [hpe', hnumber (by omega), hnumber (by omega), hnumber (by omega), hnumber (by omega)]

theorem optionalField_eq_of_take_eq {w i : ℕ} (hi : i + w ≤ (coffOf bytes).optSize) :
    optionalField bytes' w i = optionalField bytes w i := by
  obtain ⟨-, hoptional, -, -⟩ := h.bounds
  unfold optionalField number
  rw [(coffOf_eq_of_take_eq h htake).2, slice_eq_of_take_eq htake (by omega)]

/-- **Any other file with the same headers** is accepted, with the same
result. -/
theorem Accepted.of_take_eq (hlen : sizeOfHeaders bytes ≤ bytes'.length) :
    Accepted bytes' ∧ infoOf bytes' = infoOf bytes := by
  obtain ⟨hpe, hoptional, hheaders, hclr⟩ := h.bounds
  obtain ⟨hpe', hcoff⟩ := coffOf_eq_of_take_eq h htake
  have hmin := h.minimum
  have hroom := h.room
  have hopt : (coffOf bytes).optional = peOffset bytes + 24 := rfl
  have hfield : ∀ {w i}, i + w ≤ (coffOf bytes).optSize →
      optionalField bytes' w i = optionalField bytes w i := optionalField_eq_of_take_eq h htake
  have hslice : ∀ {i w}, i + w ≤ sizeOfHeaders bytes → slice bytes' i w = slice bytes i w :=
    slice_eq_of_take_eq htake
  have hoffset := directoryOffset_le (magicOf bytes)
  have hmagic : magicOf bytes' = magicOf bytes := hfield (by omega)
  have hsize : sizeOfHeaders bytes' = sizeOfHeaders bytes := hfield (by omega)
  have himage : sizeOfImage bytes' = sizeOfImage bytes := hfield (by omega)
  have hdirectories : directoriesOf bytes' = directoriesOf bytes := by
    unfold directoriesOf
    rw [hmagic]
    exact hfield (by omega)
  have hclr' : clrOffset bytes' = clrOffset bytes := by
    unfold clrOffset
    rw [hmagic]
  have hend : tableEnd bytes' = tableEnd bytes := by
    unfold tableEnd
    rw [hcoff]
  have hmanaged : IsManaged bytes' ↔ IsManaged bytes := by
    unfold IsManaged
    rw [hdirectories, hclr']
    refine and_congr_right fun hmany => ?_
    have := hclr hmany
    rw [hfield (by omega), hfield (by omega)]
  constructor
  · exact {
      length := by omega
      mz := by rw [hslice (by omega), hslice (by omega)]; exact h.mz
      pe := by rw [hpe']; exact ⟨h.pe.1, by omega⟩
      signature := by rw [hpe', hslice (by omega)]; exact h.signature
      sections := by rw [hcoff]; exact h.sections
      minimum := by rw [hcoff]; exact hmin
      tableEnd := by rw [hend]; exact (not_lt.mp h.headers.1).trans hlen
      magic := by rw [hmagic]; exact h.magic
      room := by rw [hcoff, hmagic]; exact hroom
      machine := by rw [hcoff, hmagic]; exact h.machine
      headers := by rw [hsize, hend]; exact ⟨h.headers.1, not_lt.mpr hlen⟩
      image := by rw [himage, hsize]; exact h.image
      directories := by rw [hcoff, hmagic, hdirectories]; exact h.directories }
  · unfold infoOf
    rw [hcoff, himage, hmagic, hfield (by omega), hfield (by omega), decide_eq_decide.mpr hmanaged]

end Headers

/-- **`JuicePEInspectBytes` is safe.** It asks for nothing outside the file,
looks at nothing outside its buffers, and no number wraps. If it fails, the
result is cleared. If it succeeds, whether the program is managed is read
from bytes of the file, and nothing behind the headers has a part in the
result. -/
theorem peInspectBytes_safe (argument : Argument) (out : Info) (errno : Errno) :
    let bytes := argument.bytes
    let call := peInspectBytes argument out errno
    (∀ a ∈ call.2.context.accesses, a.done = true ∧ a.offset + a.count ≤ bytes.length)
      ∧ (call.1 = .ok () ∨ call.1 = .error .failed)
      ∧ (call.1 = .error .failed → call.2.out = .zero)
      ∧ (call.1 = .ok () →
        sizeOfHeaders bytes ≤ bytes.length
        ∧ (call.2.out.managed = true ↔ IsManaged bytes)
        ∧ (14 < directoriesOf bytes →
          (coffOf bytes).optional + clrOffset bytes + 8 ≤ bytes.length)
        ∧ ∀ bytes' out' errno', sizeOfHeaders bytes ≤ bytes'.length →
          bytes'.take (sizeOfHeaders bytes) = bytes.take (sizeOfHeaders bytes) →
          (peInspectBytes (.memory bytes') out' errno').1 = .ok ()
            ∧ (peInspectBytes (.memory bytes') out' errno').2.out = call.2.out) := by
  intro bytes call
  rcases peInspectBytes_cases argument out errno with
    ⟨t, hcall, haccepted, hout, ht⟩ | ⟨t, hcall, -, ht⟩
  · have hcall : call = (.ok (), t) := hcall
    rw [hcall]
    refine ⟨ht.accesses, .inl rfl, fun h => absurd h (by simp), fun _ => ?_⟩
    obtain ⟨-, hoptional, hheaders, hclr⟩ := haccepted.bounds
    refine ⟨hheaders, ?_, fun hmany => ?_, fun bytes' out' errno' hlen htake => ?_⟩
    · rw [hout]
      exact decide_eq_true_iff
    · have := hclr hmany
      show (coffOf argument.bytes).optional + clrOffset argument.bytes + 8 ≤ argument.bytes.length
      omega
    · obtain ⟨haccepted', hinfo⟩ := haccepted.of_take_eq htake hlen
      rcases peInspectBytes_cases (.memory bytes') out' errno' with
        ⟨t', hcall', -, hout', -⟩ | ⟨t', -, hno, -⟩
      · rw [hcall', hout]
        exact ⟨rfl, hout'.trans hinfo⟩
      · exact absurd haccepted' hno
  · have hcall : call = (.error .failed, t) := hcall
    rw [hcall]
    exact ⟨ht.accesses, .inr rfl, fun _ => ht.out, fun h => absurd h (by simp)⟩

/-- The smallest program there is: one section, and no directories. -/
def smallest : List UInt8 :=
  [0x4d, 0x5a] ++ List.replicate 58 0 ++ toLE 4 64 ++ [0x50, 0x45, 0, 0] ++ toLE 2 0x14c
    ++ toLE 2 1 ++ List.replicate 12 0 ++ toLE 2 96 ++ toLE 2 0x2000 ++ toLE 2 0x10b
    ++ List.replicate 54 0 ++ toLE 4 0x1000 ++ toLE 4 224 ++ List.replicate 72 0

example : (peInspectBytes (.memory smallest) .zero .einval).2.out
    = ⟨0x14c, 0, 1, 0, 0x1000, false, true, false⟩ := by
  decide +kernel

end Juice.Pe
