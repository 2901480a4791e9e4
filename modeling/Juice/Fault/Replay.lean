import Juice.Fault.Provenance

/-!
# Replaying a window

The multibase recovery does not repair the base register. It goes back to
the `mov` that produced it and has everything from there executed again,
this time with the TEB in x18. What lies between the `mov` and the fault
has then been executed twice, and the first time with effects of its own.

Whether the program can tell is a question about the window. The reference
is one execution of it from the original state with x18 restored. The
replay starts somewhere else: in the state the first pass has left, with
x16 and x17 used up by the trampoline. It ends as the reference does –
everywhere but in x16 and x17 – if two things hold.

* What the reference *needs* – what it reads before writing it – the replay
  finds as it was.
* What the reference does not write, the first pass has left alone.

Given the first, the second is also necessary (`replay_transparent_iff`).
The first is not, in general: an instruction may read a location and make
nothing of it. `countLoad` is a window that fails it, `mov x8, x18;
add x9, x9, #1; ldr x0, [x8, #0x60]`: the replay counts twice.
-/

namespace Juice.Fault

open Function

variable {L : Type} [DecidableEq L] {cpu : Cpu L} {host : Host}

/-! ## The replay -/

/-- **A window that is replayed**: it starts with a `mov xB, x18` executed
while x18 was clear, its `n` instructions complete, and the one after them
aborts and makes the handler go back to the `mov`. `replay` is where the
trampoline leaves the machine, and the address it branches to. -/
structure Replayed (cpu : Cpu L) (host : Host) (p : UInt64) (n : ℕ) (s₀ : State L)
    (base : Register) (s : State L) (replay : State L × UInt64) : Prop where
  /-- The window starts with the `mov`. -/
  mov : movesX18 (host.word p) base = true
  /-- It is executed with a cleared x18. -/
  cleared : s₀ (.x 18) = 0
  /-- Its instructions up to the faulting one complete. -/
  pass : Pass cpu host p n s₀ s
  /-- The next one aborts, and the handler makes the multibase recovery. -/
  recovered : ∃ x18 addr esr r,
    cpu.exec (ahead p n) (host.word (ahead p n)) s = .abort addr esr
      ∧ segvHandler host (shown s x18 (ahead p n) addr esr) = some r
      ∧ r.recovery = .multibase base p
      ∧ replay = restoreX18AndRetry cpu (resume s r.x)

/-- The state the reference starts in: the original one with the TEB in
x18. -/
def restored (host : Host) (s₀ : State L) : State L := Function.update s₀ (.x 18) host.teb

@[simp] theorem restored_x18 (host : Host) (s₀ : State L) :
    restored host s₀ (.x 18) = host.teb := update_self _ _ _

theorem restored_of_ne (host : Host) (s₀ : State L) {l : Loc L} (h : l ≠ .x 18) :
    restored host s₀ l = s₀ l := update_of_ne h _ _

/-- **Where a replay starts**: at the `mov`, with the TEB in x18, and with
everything but x16 to x18 as the first pass left it. -/
theorem Replayed.start {p : UInt64} {n : ℕ} {s₀ s : State L} {base : Register}
    {replay : State L × UInt64} (h : Replayed cpu host p n s₀ base s replay) :
    replay.2 = p ∧ replay.1 (.x 18) = host.teb
      ∧ ∀ l, l ≠ .x 16 → l ≠ .x 17 → l ≠ .x 18 → replay.1 l = s l := by
  obtain ⟨x18, addr, esr, r, -, hr, hrecovery, rfl⟩ := h.recovered
  have hx : r = throughTrampoline host (shown s x18 (ahead p n) addr esr)
      (.multibase base p) p := by
    cases made_of_segvHandler hr with
    | multibase base' retry hpc hbase hzero hscan =>
      obtain ⟨rfl, rfl⟩ := Recovery.multibase.inj hrecovery
      rfl
    | _ => exact Recovery.noConfusion hrecovery
  obtain ⟨hpc, hx18, hother⟩ := restoreX18AndRetry_spec cpu (resume s r.x)
  rw [hpc, hx18]
  refine ⟨by rw [hx]; rfl, by rw [hx]; rfl, fun l h16 h17 h18 => ?_⟩
  rw [hother l h17 h18, hx]
  cases l with
  | x register =>
    have hne : ∀ k : Register, Loc.x (L := L) register ≠ .x k → register ≠ k :=
      fun k h hk => h (congrArg Loc.x hk)
    show Function.update (Function.update (Function.update _ 18 _) 16 _) 17 _ register = _
    rw [update_of_ne (hne 17 h17), update_of_ne (hne 16 h16),
      update_of_ne (hne 18 h18)]
  | rest location => rfl

/-- **Transparency of a replay.** Where the replay finds what the reference
needs, it ends as the reference does, up to x16 and x17, exactly if the
first pass has left alone what the reference does not write. -/
theorem replay_transparent_iff (F : Footprint (execute cpu)) {p : UInt64} {n : ℕ}
    {s₀ s e : State L} {base : Register} {replay : State L × UInt64}
    (h : Replayed cpu host p n s₀ base s replay)
    (hreference : runAll (execute cpu) (located host p (n + 1)) (restored host s₀) = some e)
    (hneeded : ∀ l ∈ F.needed (located host p (n + 1)) (restored host s₀),
      replay.1 l = restored host s₀ l) :
    replay.2 = p
      ∧ ((∃ e', runAll (execute cpu) (located host p (n + 1)) replay.1 = some e'
            ∧ ∀ l, l ≠ .x 16 → l ≠ .x 17 → e' l = e l)
        ↔ ∀ l, l ≠ .x 16 → l ≠ .x 17 → l ≠ .x 18 →
            l ∉ F.written (located host p (n + 1)) (restored host s₀) → s l = s₀ l) := by
  obtain ⟨hpc, hx18, hother⟩ := h.start
  refine ⟨hpc, ?_⟩
  have hiff := F.exists_run_agree_iff hreference hneeded {.x 16, .x 17}
  simp only [Set.mem_insert_iff, Set.mem_singleton_iff, not_or, and_imp] at hiff
  rw [hiff]
  refine forall_congr' (fun l => forall_congr' (fun h16 => forall_congr' (fun h17 => ?_)))
  by_cases h18 : l = .x 18
  · -- Both start with the TEB in x18.
    subst h18
    exact ⟨fun _ hne => absurd rfl hne, fun _ _ => hx18.trans (restored_x18 host s₀).symm⟩
  · rw [hother l h16 h17 h18, restored_of_ne host s₀ h18]
    exact ⟨fun hl _ => hl, fun hl => hl h18⟩

/-! ## The footprint of the subset -/

/-- What the words of the subset read and write. -/
def subsetFootprint : Footprint (execute subsetCpu) where
  reads i s := {l | ∃ j ∈ decode i.2, l ∈ j.reads s}
  writes i _ := {l | ∃ j ∈ decode i.2, l = .x j.destination}
  frame h hl := by
    obtain ⟨j, hj, hexec⟩ := exists_of_subsetExec (Outcome.completed_eq_some.mp h) (by simp)
    obtain ⟨v, rfl, -⟩ := Instruction.exec_next hexec
    exact Function.update_of_ne (fun hx => hl ⟨j, hj, hx⟩) _ _
  congr h hreads := by
    obtain ⟨j, hj, hexec⟩ := exists_of_subsetExec (Outcome.completed_eq_some.mp h) (by simp)
    obtain ⟨v, rfl, hcongr⟩ := Instruction.exec_next hexec
    have hexec' := (subsetExec_of_decode hj _).trans
      (hcongr _ (fun l hl => hreads l ⟨j, hj, hl⟩))
    refine ⟨rfl, _, Outcome.completed_eq_some.mpr hexec', ?_⟩
    rintro l ⟨j', hj', rfl⟩
    cases Option.some.inj (hj.symm.trans hj')
    rw [Function.update_self, Function.update_self]

/-- A field of the TEB read through a copy of x18 is replayed without a
trace: the copy is written before it is read. -/
theorem replay_transparent_copyLoad :
    ∃ s replay e e', Replayed subsetCpu copyLoad 0x10000 1 clearedState 8 s replay
      ∧ runAll (execute subsetCpu) (located copyLoad 0x10000 2) (restored copyLoad clearedState)
          = some e
      ∧ runAll (execute subsetCpu) (located copyLoad 0x10000 2) replay.1 = some e'
      ∧ ∀ l, l ≠ .x 16 → l ≠ .x 17 → e' l = e l := by
  have h : Replayed subsetCpu copyLoad 0x10000 1 clearedState 8
      (Function.update clearedState (.x 8) 0) _ :=
    ⟨by decide, rfl, ⟨by decide, rfl⟩,
      ⟨0, 0x60, Instruction.lowerDataAbort, _, rfl, rfl, rfl, rfl⟩⟩
  have hneeded : ∀ l ∈ subsetFootprint.needed (located copyLoad 0x10000 2)
      (restored copyLoad clearedState), l = .x 18 ∨ ∃ address, l = .rest address := by
    intro l hl
    rw [located_eq_cons, Footprint.mem_needed_cons rfl] at hl
    rcases hl with ⟨j, hj, hl⟩ | ⟨hwrites, hl⟩
    · cases Option.some.inj hj
      exact .inl hl
    · rw [show List.map _ (List.range 1) = [_] from rfl, Footprint.mem_needed_cons rfl] at hl
      rcases hl with ⟨j, hj, hl⟩ | ⟨-, hl⟩
      · cases Option.some.inj hj
        rcases hl with rfl | rfl
        · exact absurd ⟨_, rfl, rfl⟩ hwrites
        · exact .inr ⟨_, rfl⟩
      · exact hl.elim
  obtain ⟨-, hx18, hother⟩ := h.start
  obtain ⟨-, htransparent⟩ := replay_transparent_iff subsetFootprint h rfl (fun l hl => by
    rcases hneeded l hl with rfl | ⟨address, rfl⟩
    · exact hx18
    · exact hother _ (by simp) (by simp) (by simp))
  obtain ⟨e', he', hagree⟩ := htransparent.mpr (fun l _ _ _ _ => by
    by_cases hl : l = .x 8
    · subst hl
      rfl
    · exact update_of_ne hl _ _)
  exact ⟨_, _, _, e', h, rfl, he', hagree⟩

/-! ## A counter in the window -/

/-- `mov x8, x18; add x9, x9, #1; ldr x0, [x8, #0x60]` -/
def countLoad : Host where
  teb := 0x200000000
  restoreX18AndRetry := 0x300000000
  ldrInitializeThunk := 0x400000000
  word address :=
    if address = 0x10000 then 0xaa1203e8
    else if address = 0x10004 then 0x91000529
    else if address = 0x10008 then 0xf9403100
    else 0
  pointer _ := 0

/-- **A replay that is not transparent**: the counter in x9 ends at two,
where one execution with the TEB in x18 ends at one. -/
theorem replay_counts_twice :
    ∃ s replay, Replayed subsetCpu countLoad 0x10000 2 clearedState 8 s replay
      ∧ (runAll (execute subsetCpu) (located countLoad 0x10000 3)
          (restored countLoad clearedState)).map (· (.x 9)) = some 1
      ∧ (runAll (execute subsetCpu) (located countLoad 0x10000 3) replay.1).map (· (.x 9))
          = some 2 := by
  refine ⟨Function.update (Function.update clearedState (.x 8) 0) (.x 9) 1, _,
    ⟨by decide, rfl, ⟨by decide, rfl⟩,
      ⟨0, 0x60, Instruction.lowerDataAbort, _, rfl, rfl, rfl, rfl⟩⟩, rfl, rfl⟩

end Juice.Fault
