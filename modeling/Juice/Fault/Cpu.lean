import Juice.Fault.Handler
import Juice.Lib.Footprint
import Mathlib.Data.Finset.Option

/-!
# The processor under the handler

What the recoveries do to a program depends on what its instructions do,
and the handler itself knows only a handful of them. So the processor is a
parameter: a `Cpu` is an execution function for instruction words together
with the few facts about A64 that the handler relies on – what its two
producers compute, which general registers an instruction has as
destinations, and which address a load or store of the TLS slots names.
Nothing else about the instruction set is assumed, and an instruction
either completes and goes on to the next, or aborts and changes nothing, or
takes control elsewhere.

`subsetCpu` is such a processor for three instructions. It is the one the
concrete runs of this development execute on.
-/

namespace Juice.Fault

open Option

variable {w : UInt32} {r : Register}

/-! ## States -/

/-- **The locations of the machine**: the general registers x0 to x28, and
the rest – frame pointer, link register, stack pointer, flags and memory. -/
inductive Loc (L : Type) where
  | x (register : Register)
  | rest (location : L)
  deriving DecidableEq

/-- **A state** of the machine, up to its PC. -/
abbrev State (L : Type) := Loc L → UInt64

/-- What an instruction does: it completes, it aborts on a data access, or
it takes control away. -/
inductive Outcome (L : Type) where
  | next (s : State L)
  | abort (addr esr : UInt64)
  | leave

/-- The state an instruction completes in. -/
def Outcome.completed {L : Type} : Outcome L → Option (State L)
  | .next s => some s
  | .abort _ _ => none
  | .leave => none

theorem Outcome.completed_eq_some {L : Type} {o : Outcome L} {s : State L} :
    o.completed = some s ↔ o = .next s := by
  cases o <;> simp [completed]

/-- **A processor.** -/
structure Cpu (L : Type) [DecidableEq L] where
  /-- What the instruction at an address does. -/
  exec : UInt64 → UInt32 → State L → Outcome L
  /-- The 64-bit word memory holds at an address. -/
  pointer : State L → UInt64 → UInt64
  /-- The general registers an instruction has as destinations. -/
  dest : UInt32 → Finset Register
  /-- What a producer makes of the value of x18. -/
  fromX18 : UInt32 → UInt64 → UInt64
  /-- Other general registers keep their value. -/
  frame : ∀ {pc w s t r}, exec pc w s = .next t → r ∉ dest w → t (.x r) = s (.x r)
  /-- A producer has its register as a destination. -/
  mem_dest : ∀ {w r}, derivesFromX18 w r = true → r ∈ dest w
  /-- A producer puts what it makes of x18 into its register. -/
  exec_producer : ∀ {pc w s r}, derivesFromX18 w r = true →
    exec pc w s = .next (Function.update s (.x r) (fromX18 w (s (.x 18))))
  /-- A `mov` copies. -/
  fromX18_mov : ∀ {w r v}, movesX18 w r = true → fromX18 w v = v
  /-- `ldr x0, [x8, #0x1480]` and `str xT, [x8, #0x1480]` abort at one of
  the eight bytes they access. -/
  abort_slot : ∀ {pc w s addr esr}, w = 0xf94a4100 ∨ w &&& 0xffffffe0 = 0xf90a4100 →
    exec pc w s = .abort addr esr → ∃ k < 8, addr = s (.x 8) + 0x1480 + k

variable {L : Type} [DecidableEq L] (cpu : Cpu L)

/-! ## Straight runs -/

/-- The address `k` instructions after a given one. -/
def ahead (p : UInt64) (k : ℕ) : UInt64 := p + UInt64.ofNat (4 * k)

@[simp] theorem ahead_zero (p : UInt64) : ahead p 0 = p := UInt64.add_zero p

/-- The `n` instructions from a given address on, each with its address. -/
def located (host : Host) (p : UInt64) (n : ℕ) : List (UInt64 × UInt32) :=
  (List.range n).map (fun k => (ahead p k, host.word (ahead p k)))

/-- The first of them, and the others. -/
theorem located_eq_cons (host : Host) (p : UInt64) (n : ℕ) :
    located host p (n + 1) = (p, host.word p)
      :: (List.range n).map (fun k => (ahead p (k + 1), host.word (ahead p (k + 1)))) := by
  unfold located
  rw [List.range_succ_eq_map, List.map_cons, List.map_map, ahead_zero]
  rfl

/-- Execute one of them, where it completes. -/
def execute (i : UInt64 × UInt32) (s : State L) : Option (State L) :=
  (cpu.exec i.1 i.2 s).completed

/-- **A straight run**: the `n` instructions from `p` on are executed one
after the other, and end at the one that follows them. -/
structure Pass (host : Host) (p : UInt64) (n : ℕ) (s₀ s : State L) : Prop where
  /-- The instructions lie in the address space. -/
  fits : p.toNat + 4 * n < 2 ^ 64
  /-- Each of them completes. -/
  completes : runAll (execute cpu) (located host p n) s₀ = some s

/-! ## A fault and the return from it -/

/-- The signal context of an abort. Darwin may show another x18 than the
one the instruction ran with. -/
def shown (s : State L) (x18 pc addr esr : UInt64) : Signal where
  x := Function.update (fun r => s (.x r)) 18 x18
  pc := pc
  addr := addr
  esr := esr

/-- The state a signal handler returns to. -/
def resume (s : State L) (x : Register → UInt64) : State L
  | .x r => x r
  | .rest l => s (.rest l)

/-- **`juice_ios_restore_x18_and_retry`**: the TEB, handed over in x17,
goes to x18, x17 is reloaded, and control goes to the address in x16. -/
def restoreX18AndRetry (s : State L) : State L × UInt64 :=
  let s := Function.update s (.x 18) (s (.x 17))
  let s := Function.update s (.x 17) (cpu.pointer s (s (.x 18) + 0x378))
  let s := if s (.x 17) = 0 then s
    else Function.update s (.x 17) (cpu.pointer s (s (.x 17) + 0x88))
  (s, s (.x 16))

/-- The trampoline changes x17 and x18 only, and goes where x16 says. -/
theorem restoreX18AndRetry_spec (s : State L) :
    (restoreX18AndRetry cpu s).2 = s (.x 16)
      ∧ (restoreX18AndRetry cpu s).1 (.x 18) = s (.x 17)
      ∧ ∀ l, l ≠ .x 17 → l ≠ .x 18 → (restoreX18AndRetry cpu s).1 l = s l := by
  unfold restoreX18AndRetry
  dsimp only
  refine ⟨?_, ?_, fun l h17 h18 => ?_⟩
  · split <;> simp
  · split <;> simp
  · split <;> simp [h17, h18]

/-! ## A processor for three instructions -/

/-- `mov xD, x18`, `add xD, xN, #imm{, lsl #12}` and `ldr xD, [xN, #imm]`
for general registers. -/
inductive Instruction where
  | movX18 (d : Register)
  | add (d n : Register) (imm : UInt64)
  | load (d n : Register) (offset : UInt64)

/-- The immediate of an addition. -/
def addImmediate (w : UInt32) : UInt64 :=
  if (w >>> 22) &&& 1 = 1 then ((w >>> 10) &&& 0xfff).toUInt64 <<< 12
  else ((w >>> 10) &&& 0xfff).toUInt64

/-- The offset of a 64-bit load. -/
def loadOffset (w : UInt32) : UInt64 := ((w >>> 10) &&& 0xfff).toUInt64 * 8

/-- The instruction a word encodes. -/
def decode (w : UInt32) : Option Instruction :=
  (generalRegister (destinationField w)).bind fun d =>
    if w &&& 0xffffffe0 = 0xaa1203e0 then some (.movX18 d)
    else (generalRegister (baseField w)).bind fun n =>
      if w &&& 0xff000000 = 0x91000000 then some (.add d n (addImmediate w))
      else if w &&& 0xffc00000 = 0xf9400000 then some (.load d n (loadOffset w))
      else none

namespace Instruction

/-- The register it writes. -/
def destination : Instruction → Register
  | movX18 d => d
  | add d _ _ => d
  | load d _ _ => d

/-- The syndrome of a data abort from a lower exception level. -/
def lowerDataAbort : UInt64 := 0x92000000

/-- What it does, on a memory of 64-bit words whose first 64 KiB are not
mapped. -/
def exec (s : State UInt64) : Instruction → Outcome UInt64
  | movX18 d => .next (Function.update s (.x d) (s (.x 18)))
  | add d n imm => .next (Function.update s (.x d) (s (.x n) + imm))
  | load d n offset =>
    if s (.x n) + offset < 0x10000 then .abort (s (.x n) + offset) lowerDataAbort
    else .next (Function.update s (.x d) (s (.rest (s (.x n) + offset))))

/-- The locations it reads. -/
def reads (s : State UInt64) : Instruction → Set (Loc UInt64)
  | movX18 _ => {.x 18}
  | add _ n _ => {.x n}
  | load _ n offset => {.x n, .rest (s (.x n) + offset)}

/-- One that completes has written its destination, with a value that is
decided by what it reads. -/
theorem exec_next {i : Instruction} {s t : State UInt64} (h : i.exec s = .next t) :
    ∃ v, t = Function.update s (.x i.destination) v
      ∧ ∀ s', (∀ l ∈ i.reads s, s' l = s l) →
        i.exec s' = .next (Function.update s' (.x i.destination) v) := by
  cases i with
  | movX18 d =>
    refine ⟨s (.x 18), (Outcome.next.inj h).symm, fun s' hs' => ?_⟩
    rw [← hs' (.x 18) rfl]
    rfl
  | add d n imm =>
    refine ⟨s (.x n) + imm, (Outcome.next.inj h).symm, fun s' hs' => ?_⟩
    rw [← hs' (.x n) rfl]
    rfl
  | load d n offset =>
    dsimp only [exec] at h
    split at h
    · cases h
    next hmapped =>
      refine ⟨s (.rest (s (.x n) + offset)), (Outcome.next.inj h).symm, fun s' hs' => ?_⟩
      have hn : s' (.x n) = s (.x n) := hs' (.x n) (Set.mem_insert _ _)
      dsimp only [exec]
      rw [hn, if_neg hmapped, hs' _ (Set.mem_insert_of_mem _ rfl)]
      rfl

/-- Only a load aborts, at its address. -/
theorem exec_abort {i : Instruction} {s : State UInt64} {addr esr : UInt64}
    (h : i.exec s = .abort addr esr) :
    ∃ d n offset, i = .load d n offset ∧ addr = s (.x n) + offset := by
  cases i with
  | movX18 d => cases h
  | add d n imm => cases h
  | load d n offset =>
    dsimp only [exec] at h
    split at h
    · cases h
      exact ⟨d, n, offset, rfl, rfl⟩
    · cases h

end Instruction

/-- What a word does, if it is in the subset. -/
def subsetExec (w : UInt32) (s : State UInt64) : Outcome UInt64 :=
  match decode w with
  | some i => i.exec s
  | none => .leave

/-- The destinations of a word, if it is in the subset. -/
def subsetDest (w : UInt32) : Finset Register := ((decode w).map Instruction.destination).toFinset

theorem decode_mov (h : movesX18 w r = true) : decode w = some (.movX18 r) := by
  obtain ⟨hw, hd⟩ := (Bool.and_eq_true _ _).mp h
  unfold decode
  rw [generalRegister_of_toNat (beq_iff_eq.mp hd), bind_some, if_pos (beq_iff_eq.mp hw)]

/-- A mask that is part of another shows part of what the other shows. -/
theorem and_of_and_eq {mask value : UInt32} (h : w &&& mask = value) (part : UInt32)
    (hpart : mask &&& part = part) : w &&& part = value &&& part := by
  rw [← h, UInt32.and_assoc, hpart]

theorem ne_mov_of_addsToX18 (h : addsToX18 w r = true) : w &&& 0xffffffe0 ≠ 0xaa1203e0 := by
  intro hmov
  have hmask := and_of_and_eq hmov 0xff0003e0 rfl
  rw [beq_iff_eq.mp ((Bool.and_eq_true _ _).mp h).1] at hmask
  exact absurd hmask (by decide)

theorem decode_add (h : addsToX18 w r = true) : decode w = some (.add r 18 (addImmediate w)) := by
  obtain ⟨hw, hd⟩ := (Bool.and_eq_true _ _).mp h
  have hmask := beq_iff_eq.mp hw
  have hbase : baseField w = 18 := by
    unfold baseField
    have hshift : (w &&& 0x3e0) >>> 5 = (w >>> 5) &&& 0x1f := UInt32.shiftRight_and
    rw [← hshift, and_of_and_eq hmask 0x3e0 rfl]
    rfl
  have hadd : w &&& 0xff000000 = 0x91000000 := and_of_and_eq hmask 0xff000000 rfl
  unfold decode
  rw [generalRegister_of_toNat (beq_iff_eq.mp hd), bind_some, if_neg (ne_mov_of_addsToX18 h), hbase,
    generalRegister_of_toNat (r := 18) rfl, bind_some, if_pos hadd]

theorem decode_load {d n : Register} {offset : UInt64} (h : decode w = some (.load d n offset)) :
    w &&& 0xffc00000 = 0xf9400000 ∧ generalRegister (baseField w) = some n
      ∧ offset = loadOffset w := by
  obtain ⟨d', -, h⟩ := bind_eq_some_iff.mp h
  split at h
  · cases h
  obtain ⟨n', hn, h⟩ := bind_eq_some_iff.mp h
  split at h
  · cases h
  obtain ⟨hw, h⟩ := ite_none_right_eq_some.mp h
  cases h
  exact ⟨hw, hn, rfl⟩

theorem subsetExec_of_decode {i : Instruction} (h : decode w = some i) (s : State UInt64) :
    subsetExec w s = i.exec s := by
  unfold subsetExec
  rw [h]

/-- What a word that completes or aborts encodes. -/
theorem exists_of_subsetExec {s : State UInt64} {o : Outcome UInt64} (h : subsetExec w s = o)
    (ho : o ≠ .leave) : ∃ i, decode w = some i ∧ i.exec s = o := by
  unfold subsetExec at h
  split at h
  next i hi => exact ⟨i, hi, h⟩
  next => exact absurd h.symm ho

theorem mem_subsetDest {i : Instruction} (h : decode w = some i) :
    r ∈ subsetDest w ↔ r = i.destination := by
  unfold subsetDest
  rw [h, mem_toFinset, map_some, mem_some_iff, eq_comm]

/-- What a producer makes of the value of x18. -/
def subsetFromX18 (w : UInt32) (v : UInt64) : UInt64 :=
  if w &&& 0xffffffe0 = 0xaa1203e0 then v else v + addImmediate w

/-- The two producers are in the subset. -/
theorem decode_producer (h : derivesFromX18 w r = true) :
    ∃ i, decode w = some i ∧ i.destination = r
      ∧ ∀ s, i.exec s = .next (Function.update s (.x r) (subsetFromX18 w (s (.x 18)))) := by
  unfold subsetFromX18
  rcases (Bool.or_eq_true _ _).mp h with hmov | hadd
  · refine ⟨_, decode_mov hmov, rfl, fun s => ?_⟩
    rw [if_pos (beq_iff_eq.mp ((Bool.and_eq_true _ _).mp hmov).1)]
    rfl
  · refine ⟨_, decode_add hadd, rfl, fun s => ?_⟩
    rw [if_neg (ne_mov_of_addsToX18 hadd)]
    rfl

/-- **The subset as a processor.** -/
def subsetCpu : Cpu UInt64 where
  exec _ := subsetExec
  pointer s address := s (.rest address)
  dest := subsetDest
  fromX18 := subsetFromX18
  frame h hr := by
    obtain ⟨i, hi, hexec⟩ := exists_of_subsetExec h (by simp)
    obtain ⟨v, rfl, -⟩ := Instruction.exec_next hexec
    rw [mem_subsetDest hi] at hr
    exact Function.update_of_ne (fun hx => hr (Loc.x.inj hx)) _ _
  mem_dest h := by
    obtain ⟨i, hi, hd, -⟩ := decode_producer h
    exact (mem_subsetDest hi).mpr hd.symm
  exec_producer h := by
    obtain ⟨i, hi, -, hexec⟩ := decode_producer h
    exact (subsetExec_of_decode hi _).trans (hexec _)
  fromX18_mov h := if_pos (beq_iff_eq.mp ((Bool.and_eq_true _ _).mp h).1)
  abort_slot hw h := by
    obtain ⟨i, hi, hexec⟩ := exists_of_subsetExec h (by simp)
    obtain ⟨d, n, offset, rfl, rfl⟩ := Instruction.exec_abort hexec
    obtain ⟨hload, hn, rfl⟩ := decode_load hi
    rcases hw with rfl | hstore
    · cases Option.some.inj hn
      exact ⟨0, by decide, (UInt64.add_zero _).symm⟩
    · -- A store is not in the subset.
      have hmask := and_of_and_eq hstore 0xffc00000 rfl
      rw [hload] at hmask
      exact absurd hmask (by decide)

end Juice.Fault
