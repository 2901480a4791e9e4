import Mathlib.Data.Fintype.Basic

/-!
# Recovering from a cleared x18

Windows code on ARM64 finds its thread environment block – the TEB – in
register x18, and Darwin may clear that register behind the program's
back. `segv_handler` looks at each fault for the marks of a cleared x18
before it hands the fault to Wine's exception dispatcher: a data abort at
a low address, with an instruction at the faulting PC, and sometimes a few
instructions before it, that it knows. Where it recognises one it repairs
the signal context and returns.

There are thirteen such recoveries, tried in order. Some repair a register
and retry the instruction in place. The others send the thread through
`juice_ios_restore_x18_and_retry`, which puts the TEB – handed over in x17
– back into x18, reloads x17, and branches to the address in x16.

Each recovery is a function of its own here, `none` where its conditions
are not met; `segvHandler` is the first that answers, and `none` stands
for Wine's normal exception path.

The scans over the instructions before the fault count down from the PC
while the address is at least `PC - 0x20`. They are eight reads; the one PC
where the unsigned comparison could not end the loop is `0x20` itself,
which lies in the page-zero segment and never executes.
-/

namespace Juice.Fault

open Option

/-! ## The signal context -/

/-- The general registers Darwin's thread state keeps in an array, x0 to
x28. -/
abbrev Register := Fin 29

instance neZeroRegister : @NeZero ℕ Zero.ofOfNat0 29 := ⟨by decide⟩

/-- **What a fault shows the handler**: the registers and the PC of the
signal context, the address that was accessed and the syndrome. -/
structure Signal where
  /-- `REGn_sig` -/
  x : Register → UInt64
  /-- `PC_sig` -/
  pc : UInt64
  /-- `siginfo->si_addr` -/
  addr : UInt64
  /-- `get_fault_esr` -/
  esr : UInt64

/-- **What the handler reads besides the context.** -/
structure Host where
  /-- `data->teb`, zero where the thread has none. -/
  teb : UInt64
  /-- The address of `juice_ios_restore_x18_and_retry`. -/
  restoreX18AndRetry : UInt64
  /-- `pLdrInitializeThunk` -/
  ldrInitializeThunk : UInt64
  /-- The program: the 32-bit word at an address. -/
  word : UInt64 → UInt32
  /-- Data: the 64-bit word at an address. -/
  pointer : UInt64 → UInt64

/-- **The recoveries**, with what the two that look for the origin of the
base register have found: the register, and the address of the instruction
that is taken to have produced it. -/
inductive Recovery where
  | trampoline
  | kuserSharedData
  | staticUnicode
  | staticUnicodeBuffer
  | staticUnicodeSort
  | debugBuffer
  | multibase (base : Register) (producer : UInt64)
  | broad
  | direct
  | derived (base : Register) (producer : UInt64)
  | tls
  | ldrInitializeThunk
  | rtlFlsSetValue
  deriving DecidableEq

/-- A recovery that was made: which, and the registers and the PC it leaves
in the signal context. -/
structure Recovered where
  /-- The branch taken. -/
  recovery : Recovery
  /-- The general registers it leaves. -/
  x : Register → UInt64
  /-- The PC it leaves. -/
  pc : UInt64

/-- `ESR_ELx_EC` is one of the two data aborts. -/
def dataAbort (esr : UInt64) : Bool :=
  (esr >>> 26) &&& 0x3f == 0x24 || (esr >>> 26) &&& 0x3f == 0x25

/-- `offsetof( TEB, StaticUnicodeString )` -/
def staticUnicodeString : UInt64 := 0x1258

/-- `offsetof( TEB, StaticUnicodeBuffer )` -/
def staticUnicodeBuffer : UInt64 := 0x1268

/-- `sizeof(((TEB *)0)->StaticUnicodeBuffer)`, 261 characters. -/
def staticUnicodeBufferSize : UInt64 := 522

/-- `JUICE_DEBUG_INFO_OFFSET`, with a `TEB32` of `0x1000` bytes. -/
def debugInfoOffset : UInt64 := 0x2000 + 0x1000

/-- `JUICE_DEBUG_INFO_SIZE` -/
def debugInfoSize : UInt64 := 0x800

/-- `JUICE_DEBUG_OUTPUT_OFFSET` -/
def debugOutputOffset : UInt64 := 0x404

/-! ## Instructions the handler knows -/

/-- Bits 9:5 of an instruction, its base register. -/
def baseField (instruction : UInt32) : UInt32 := (instruction >>> 5) &&& 0x1f

/-- Bits 4:0 of an instruction, its destination register. -/
def destinationField (instruction : UInt32) : UInt32 := instruction &&& 0x1f

/-- The encodings the handler takes for a load or a store. -/
def isLoadStore (instruction : UInt32) : Bool := instruction &&& 0x0a000000 == 0x08000000

/-- The register a field names, where it is one of x0 to x28. -/
def generalRegister (field : UInt32) : Option Register :=
  if h : field.toNat ≤ 28 then some ⟨field.toNat, by omega⟩ else none

theorem generalRegister_of_toNat {field : UInt32} {r : Register} (h : field.toNat = r.val) :
    generalRegister field = some r := by
  have hr : field.toNat ≤ 28 := by omega
  unfold generalRegister
  rw [dif_pos hr]
  exact congrArg some (Fin.ext h)

/-- The base register of a load or store, where it is one of x0 to x28. -/
def loadStoreBase (instruction : UInt32) : Option Register :=
  if isLoadStore instruction then generalRegister (baseField instruction) else none

/-- `mov x<base>, x18`, the ORR alias. -/
def movesX18 (instruction : UInt32) (base : Register) : Bool :=
  instruction &&& 0xffffffe0 == 0xaa1203e0
    && (destinationField instruction).toNat == base.val

/-- `add x<base>, x18, #imm{, lsl #12}` -/
def addsToX18 (instruction : UInt32) (base : Register) : Bool :=
  instruction &&& 0xff0003e0 == 0x91000240
    && (destinationField instruction).toNat == base.val

/-- A producer of the derived recovery: either of the two. -/
def derivesFromX18 (instruction : UInt32) (base : Register) : Bool :=
  movesX18 instruction base || addsToX18 instruction base

/-- The address `i + 1` instructions before a PC. -/
def back (pc : UInt64) (i : ℕ) : UInt64 := pc - UInt64.ofNat (4 * (i + 1))

/-- **The scan**: of the eight instructions before a PC, `PC - 4` down to
`PC - 0x20`, the nearest that passes a test. -/
def scan (host : Host) (pc : UInt64) (test : UInt32 → Bool) : Option UInt64 :=
  ((List.range 8).map (back pc)).find? (fun address => test (host.word address))

section

variable (host : Host) (fault : Signal)

/-- Leave through the trampoline, which will branch to `retry`. -/
def throughTrampoline (recovery : Recovery) (retry : UInt64) : Recovered where
  recovery := recovery
  x := Function.update (Function.update fault.x 16 retry) 17 host.teb
  pc := host.restoreX18AndRetry

/-- Retry the faulting instruction with other registers. -/
def inPlace (recovery : Recovery) (x : Register → UInt64) : Recovered where
  recovery := recovery
  x := x
  pc := fault.pc

/-- A nested fault at the trampoline's own TEB load: emulate the load. -/
def trampolineRecovery : Option Recovered :=
  if host.teb ≠ 0 ∧ fault.pc = host.restoreX18AndRetry + 4 ∧ dataAbort fault.esr then
    some {
      recovery := .trampoline
      x := Function.update (Function.update fault.x 17 (host.pointer (host.teb + 0x378)))
        18 host.teb
      pc := fault.pc + 4 }
  else none

/-- A value inside the page Windows keeps `KUSER_SHARED_DATA` at. -/
def inKuserSharedData (value : UInt64) : Bool := 0x7ffe0000 ≤ value && value < 0x7ffe1000

/-- `KUSER_SHARED_DATA` cannot be mapped where Windows has it: every
register that points there is moved up by 4 GiB. -/
def kuserSharedDataRecovery : Option Recovered :=
  if inKuserSharedData fault.addr ∧ dataAbort fault.esr
      ∧ ∃ register : Register, inKuserSharedData (fault.x register) then
    some (inPlace fault .kuserSharedData (fun register =>
      if inKuserSharedData (fault.x register) then fault.x register + 0x100000000
      else fault.x register))
  else none

/-- `RtlAnsiStringToUnicodeString` with the bare offset of the TEB's
`StaticUnicodeString` in x19. -/
def staticUnicodeRecovery : Option Recovered :=
  if host.teb ≠ 0 ∧ fault.addr = staticUnicodeString ∧ dataAbort fault.esr
      ∧ fault.pc &&& 3 = 0 ∧ 8 ≤ fault.pc
      ∧ host.word (fault.pc - 8) = 0x51000848 ∧ host.word (fault.pc - 4) = 0x72001edf
      ∧ host.word fault.pc = 0x79000268 ∧ fault.x 19 = staticUnicodeString then
    some (inPlace fault .staticUnicode
      (Function.update fault.x 19 (host.teb + staticUnicodeString)))
  else none

/-- An address inside the TEB's `StaticUnicodeBuffer`, as a bare offset. -/
def inStaticUnicodeBuffer (value : UInt64) : Bool :=
  staticUnicodeBuffer ≤ value && value < staticUnicodeBuffer + staticUnicodeBufferSize

/-- The multibyte conversion helpers, with the destination in x21. -/
def staticUnicodeBufferRecovery : Option Recovered :=
  if host.teb ≠ 0 ∧ inStaticUnicodeBuffer fault.addr ∧ dataAbort fault.esr
      ∧ fault.pc &&& 3 = 0 ∧ 8 ≤ fault.pc
      ∧ host.word (fault.pc - 8) = 0x71007e7f ∧ host.word (fault.pc - 4) = 0x78697909
      ∧ host.word fault.pc = 0x790002a9 ∧ fault.x 21 = fault.addr then
    some (inPlace fault .staticUnicodeBuffer
      (Function.update fault.x 21 (fault.x 21 + host.teb)))
  else none

/-- `append_weights`, with the source in x2 and the address in x25. -/
def staticUnicodeSortRecovery : Option Recovered :=
  if host.teb ≠ 0 ∧ inStaticUnicodeBuffer fault.addr ∧ inStaticUnicodeBuffer (fault.x 2)
      ∧ dataAbort fault.esr ∧ fault.pc &&& 3 = 0 ∧ 0x18 ≤ fault.pc
      ∧ host.word (fault.pc - 0x18) = 0x8b24c459 ∧ host.word (fault.pc - 4) = 0xb9004be6
      ∧ host.word fault.pc = 0x79400328 ∧ fault.x 25 = fault.addr then
    some (inPlace fault .staticUnicodeSort
      (Function.update (Function.update fault.x 2 (fault.x 2 + host.teb))
        25 (fault.x 25 + host.teb)))
  else none

/-- An address inside Wine's debug information, as a bare offset. -/
def inDebugInfo (value : UInt64) : Bool :=
  debugInfoOffset ≤ value && value < debugInfoOffset + debugInfoSize

/-- `memcpy` into the debug output, with the destination in x9 and perhaps
still in x0. -/
def debugBufferRecovery : Option Recovered :=
  if host.teb ≠ 0 ∧ inDebugInfo fault.addr ∧ debugInfoOffset + debugOutputOffset ≤ fault.addr
      ∧ dataAbort fault.esr ∧ fault.pc &&& 3 = 0 ∧ 8 ≤ fault.pc
      ∧ host.word (fault.pc - 8) = 0x3840150b ∧ host.word (fault.pc - 4) = 0xf100054a
      ∧ host.word fault.pc = 0x3800152b ∧ fault.x 9 = fault.addr then
    some (inPlace fault .debugBuffer
      (if inDebugInfo (fault.x 0) then
        Function.update (Function.update fault.x 9 (fault.x 9 + host.teb))
          0 (fault.x 0 + host.teb)
      else Function.update fault.x 9 (fault.x 9 + host.teb)))
  else none

/-- **A zero base copied from x18**: replay from the `mov` that produced
it, through the trampoline. -/
def multibaseRecovery : Option Recovered :=
  if host.teb ≠ 0 ∧ fault.addr < 0x4000 ∧ dataAbort fault.esr ∧ fault.pc &&& 3 = 0
      ∧ 0x20 ≤ fault.pc then
    (loadStoreBase (host.word fault.pc)).bind fun base =>
      if fault.x base = 0 then
        (scan host fault.pc (movesX18 · base)).map fun retry =>
          throughTrampoline host fault (.multibase base retry) retry
      else none
  else none

/-- **Any low data abort while the context shows a cleared x18**: retry the
instruction, or for one helper the second before it, through the
trampoline. -/
def broadRecovery : Option Recovered :=
  if fault.x 18 = 0 ∧ host.teb ≠ 0 ∧ fault.addr < 0x10000 ∧ dataAbort fault.esr then
    some (throughTrampoline host fault .broad
      (if fault.addr = 0x1488 ∧ fault.x 16 = fault.pc - 0x1c then fault.pc - 8 else fault.pc))
  else none

/-- **A low data abort of an instruction whose base field is x18**: retry
it through the trampoline. -/
def directRecovery : Option Recovered :=
  if host.teb ≠ 0 ∧ fault.addr < 0x10000 ∧ dataAbort fault.esr ∧ fault.pc &&& 3 = 0
      ∧ baseField (host.word fault.pc) = 18 then
    some (throughTrampoline host fault .direct fault.pc)
  else none

/-- **A small base derived from x18**: add the TEB to it and retry in
place. -/
def derivedRecovery : Option Recovered :=
  if host.teb ≠ 0 ∧ 0x20 ≤ fault.addr ∧ fault.addr < 0x4000 ∧ dataAbort fault.esr
      ∧ fault.pc &&& 3 = 0 then
    (loadStoreBase (host.word fault.pc)).bind fun base =>
      if 0x20 ≤ fault.x base ∧ fault.x base < 0x4000 ∧ 0x20 ≤ fault.pc then
        (scan host fault.pc (derivesFromX18 · base)).bind fun producer =>
          if fault.x base ≤ fault.addr ∧ fault.addr - fault.x base < 0x1000 then
            some (inPlace fault (.derived base producer)
              (Function.update fault.x base (fault.x base + host.teb)))
          else none
      else none
  else none

/-- The instruction sequences of the TLS helpers. -/
def isTlsAccess : Bool :=
  let instruction := host.word fault.pc
  if host.word (fault.pc - 4) = 0x8b204e48
      ∧ (instruction = 0xf94a4100 ∨ instruction &&& 0xffffffe0 = 0xf90a4100) then true
  else if host.word (fault.pc - 8) = 0x8b204e48 ∧ host.word (fault.pc - 4) = 0x52800020
      ∧ instruction &&& 0xffffffe0 = 0xf90a4100 then true
  else if host.word (fault.pc - 8) = 0x8b204e48
      ∧ host.word (fault.pc - 4) &&& 0xffffffe0 = 0x2a0003e0
      ∧ instruction &&& 0xffffffe0 = 0xf90a4100 then true
  else false

/-- The TLS helpers, with the address of the slot in x8. -/
def tlsRecovery : Option Recovered :=
  if host.teb ≠ 0 ∧ 0x1480 ≤ fault.addr ∧ fault.addr < 0x1680 ∧ dataAbort fault.esr
      ∧ fault.pc &&& 3 = 0 ∧ 8 ≤ fault.pc ∧ isTlsAccess host fault then
    some (inPlace fault .tls (Function.update fault.x 8 (fault.x 8 + host.teb)))
  else none

/-- The code around `LdrInitializeThunk`, or a base field of x18. -/
def ldrInitializeThunkRecovery : Option Recovered :=
  if fault.x 18 = 0 ∧ host.teb ≠ 0 ∧ fault.addr < 0x10000 ∧ dataAbort fault.esr
      ∧ (fault.pc &&& ~~~0xfffff = host.ldrInitializeThunk &&& ~~~0xfffff
        ∨ fault.pc &&& 3 = 0 ∧ baseField (host.word fault.pc) = 18) then
    some (throughTrampoline host fault .ldrInitializeThunk fault.pc)
  else none

/-- `RtlFlsSetValue`, which derives x8 from x18 two instructions before. -/
def rtlFlsSetValueRecovery : Option Recovered :=
  if fault.x 18 = 0 ∧ host.teb ≠ 0 ∧ fault.addr = 0x1488 ∧ dataAbort fault.esr
      ∧ fault.pc &&& 3 = 0 ∧ 8 ≤ fault.pc ∧ host.word (fault.pc - 8) = 0x8b204e48
      ∧ host.word fault.pc = 0xf90a4113 ∧ fault.x 16 = fault.pc - 0x1c then
    some (throughTrampoline host fault .rtlFlsSetValue (fault.pc - 8))
  else none

/-- **The handler**: the first recovery that applies, `none` for Wine's
normal exception path. -/
def segvHandler : Option Recovered :=
  trampolineRecovery host fault <|> kuserSharedDataRecovery fault
    <|> staticUnicodeRecovery host fault <|> staticUnicodeBufferRecovery host fault
    <|> staticUnicodeSortRecovery host fault <|> debugBufferRecovery host fault
    <|> multibaseRecovery host fault <|> broadRecovery host fault
    <|> directRecovery host fault <|> derivedRecovery host fault
    <|> tlsRecovery host fault <|> ldrInitializeThunkRecovery host fault
    <|> rtlFlsSetValueRecovery host fault

end

/-! ## What a recovery has found and what it leaves

The last two recoveries are never reached: each of them asks for a low
data abort under a cleared x18, which the broad recovery has taken
before. -/

section

variable {host : Host} {fault : Signal} {r : Recovered}

/-- **The recoveries that can be made**, each with what it has found. -/
inductive Made (host : Host) (fault : Signal) : Recovered → Prop where
  | trampoline (x : Register → UInt64) (hpc : fault.pc = host.restoreX18AndRetry + 4) :
      Made host fault ⟨.trampoline, x, fault.pc + 4⟩
  | kuserSharedData :
      Made host fault (inPlace fault .kuserSharedData (fun register =>
        if inKuserSharedData (fault.x register) then fault.x register + 0x100000000
        else fault.x register))
  | staticUnicode :
      Made host fault (inPlace fault .staticUnicode
        (Function.update fault.x 19 (host.teb + staticUnicodeString)))
  | staticUnicodeBuffer (h21 : inStaticUnicodeBuffer (fault.x 21) = true) :
      Made host fault (inPlace fault .staticUnicodeBuffer
        (Function.update fault.x 21 (fault.x 21 + host.teb)))
  | staticUnicodeSort (h2 : inStaticUnicodeBuffer (fault.x 2) = true)
      (h25 : inStaticUnicodeBuffer (fault.x 25) = true) :
      Made host fault (inPlace fault .staticUnicodeSort
        (Function.update (Function.update fault.x 2 (fault.x 2 + host.teb))
          25 (fault.x 25 + host.teb)))
  | debugBuffer (h9 : inDebugInfo (fault.x 9) = true) :
      Made host fault (inPlace fault .debugBuffer
        (if inDebugInfo (fault.x 0) then
          Function.update (Function.update fault.x 9 (fault.x 9 + host.teb))
            0 (fault.x 0 + host.teb)
        else Function.update fault.x 9 (fault.x 9 + host.teb)))
  | multibase (base : Register) (retry : UInt64) (hpc : 0x20 ≤ fault.pc)
      (hbase : loadStoreBase (host.word fault.pc) = some base) (hzero : fault.x base = 0)
      (hscan : scan host fault.pc (movesX18 · base) = some retry) :
      Made host fault (throughTrampoline host fault (.multibase base retry) retry)
  | broad (retry : UInt64) (hx18 : fault.x 18 = 0)
      (hretry : retry = fault.pc ∨ retry = fault.pc - 8) :
      Made host fault (throughTrampoline host fault .broad retry)
  | direct (hbase : baseField (host.word fault.pc) = 18) :
      Made host fault (throughTrampoline host fault .direct fault.pc)
  | derived (base : Register) (producer : UInt64) (hpc : 0x20 ≤ fault.pc)
      (hbase : loadStoreBase (host.word fault.pc) = some base) (hlow : 0x20 ≤ fault.x base)
      (hhigh : fault.x base < 0x4000) (hdirect : baseField (host.word fault.pc) ≠ 18)
      (hscan : scan host fault.pc (derivesFromX18 · base) = some producer) :
      Made host fault (inPlace fault (.derived base producer)
        (Function.update fault.x base (fault.x base + host.teb)))
  | tls (hlow : 0x1480 ≤ fault.addr) (hhigh : fault.addr < 0x1680)
      (haccess : isTlsAccess host fault = true) :
      Made host fault (inPlace fault .tls (Function.update fault.x 8 (fault.x 8 + host.teb)))

/-- A low data abort under a cleared x18 is taken by the broad recovery. -/
theorem broadRecovery_ne_none (hx18 : fault.x 18 = 0) (hteb : host.teb ≠ 0)
    (haddr : fault.addr < 0x10000) (habort : dataAbort fault.esr = true) :
    broadRecovery host fault ≠ none := by
  unfold broadRecovery
  rw [if_pos ⟨hx18, hteb, haddr, habort⟩]
  exact some_ne_none _

/-- **What the handler can do.** -/
theorem made_of_segvHandler (h : segvHandler host fault = some r) : Made host fault r := by
  unfold segvHandler at h
  simp only [orElse_eq_some] at h
  rcases h with h | ⟨-, h | ⟨-, h | ⟨-, h | ⟨-, h | ⟨-, h | ⟨-, h⟩⟩⟩⟩⟩⟩
  · obtain ⟨⟨-, hpc, -⟩, hr⟩ := ite_none_right_eq_some.mp h
    cases hr
    exact .trampoline _ hpc
  · obtain ⟨-, hr⟩ := ite_none_right_eq_some.mp h
    cases hr
    exact .kuserSharedData
  · obtain ⟨-, hr⟩ := ite_none_right_eq_some.mp h
    cases hr
    exact .staticUnicode
  · obtain ⟨⟨-, haddr, -, -, -, -, -, -, h21⟩, hr⟩ := ite_none_right_eq_some.mp h
    cases hr
    exact .staticUnicodeBuffer (h21 ▸ haddr)
  · obtain ⟨⟨-, haddr, h2, -, -, -, -, -, -, h25⟩, hr⟩ := ite_none_right_eq_some.mp h
    cases hr
    exact .staticUnicodeSort h2 (h25 ▸ haddr)
  · obtain ⟨⟨-, haddr, -, -, -, -, -, -, -, h9⟩, hr⟩ := ite_none_right_eq_some.mp h
    cases hr
    exact .debugBuffer (h9 ▸ haddr)
  rcases h with h | ⟨-, h | ⟨hbroad, h | ⟨hdirect, h | ⟨-, h | ⟨-, h | ⟨-, h⟩⟩⟩⟩⟩⟩
  · obtain ⟨⟨-, -, -, -, hpc⟩, h⟩ := ite_none_right_eq_some.mp h
    obtain ⟨base, hbase, h⟩ := bind_eq_some_iff.mp h
    obtain ⟨hzero, h⟩ := ite_none_right_eq_some.mp h
    obtain ⟨retry, hscan, rfl⟩ := map_eq_some_iff.mp h
    exact .multibase base retry hpc hbase hzero hscan
  · obtain ⟨⟨hx18, -⟩, hr⟩ := ite_none_right_eq_some.mp h
    cases hr
    refine .broad _ hx18 ?_
    split
    · exact .inr rfl
    · exact .inl rfl
  · obtain ⟨⟨-, -, -, -, hbase⟩, hr⟩ := ite_none_right_eq_some.mp h
    cases hr
    exact .direct hbase
  · obtain ⟨⟨hteb, -, haddr, habort, halign⟩, h⟩ := ite_none_right_eq_some.mp h
    obtain ⟨base, hbase, h⟩ := bind_eq_some_iff.mp h
    obtain ⟨⟨hlow, hhigh, hpc⟩, h⟩ := ite_none_right_eq_some.mp h
    obtain ⟨producer, hscan, h⟩ := bind_eq_some_iff.mp h
    obtain ⟨-, hr⟩ := ite_none_right_eq_some.mp h
    cases hr
    refine .derived base producer hpc hbase hlow hhigh (fun h18 => ?_) hscan
    -- Such a fault would have been the direct recovery's.
    unfold directRecovery at hdirect
    have haddr' : fault.addr < 0x10000 := UInt64.lt_trans haddr (by decide)
    rw [if_pos ⟨hteb, haddr', habort, halign, h18⟩] at hdirect
    exact absurd hdirect (some_ne_none _)
  · obtain ⟨⟨-, hlow, hhigh, -, -, -, haccess⟩, hr⟩ := ite_none_right_eq_some.mp h
    cases hr
    exact .tls hlow hhigh haccess
  · obtain ⟨⟨hx18, hteb, haddr, habort, -⟩, -⟩ := ite_none_right_eq_some.mp h
    exact absurd hbroad (broadRecovery_ne_none hx18 hteb haddr habort)
  · obtain ⟨⟨hx18, hteb, haddr, habort, -⟩, -⟩ := ite_none_right_eq_some.mp h
    exact absurd hbroad (broadRecovery_ne_none hx18 hteb (by rw [haddr]; decide) habort)

end

end Juice.Fault
