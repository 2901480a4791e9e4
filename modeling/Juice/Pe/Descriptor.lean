import Juice.Pe.Inspect

/-!
# Reading the headers through a descriptor

`JuicePEInspectFD` gives `inspect` a reader that calls `pread` until it has
what it was asked for. A call may be interrupted, and it may return less
than it was asked for; the loop starts it again, or goes on behind what it
got.

What the kernel does is a `Schedule`: for each call whether it is
interrupted, fails, or moves bytes, and how many at most. A schedule does
not interrupt for ever, and this is what the loop of `fd_read` terminates
on. Whatever the schedule is, as long as no call fails, the result is the
one of `JuicePEInspectBytes` on the bytes of the file (`peInspectFD_eq`).
-/

namespace Juice.Pe

open Prog ByteSeq

/-- What one call of `pread` does. -/
inductive Pread
  /-- It fails with `EINTR`. -/
  | interrupted
  /-- It fails in another way. -/
  | failed (e : Errno)
  /-- It moves at most `n + 1` bytes, and none only at the end of the file. -/
  | moved (n : ℕ)
  deriving DecidableEq

/-- **What the calls do**, one after the other. -/
structure Schedule where
  result : ℕ → Pread
  progress : ∀ i, ∃ j, i ≤ j ∧ result j ≠ .interrupted

/-- How many calls are interrupted from the `i`-th on. -/
def Schedule.wait (schedule : Schedule) (i : ℕ) : ℕ := Nat.find (schedule.progress i) - i

theorem Schedule.wait_lt {schedule : Schedule} {i : ℕ} (h : schedule.result i = .interrupted) :
    schedule.wait (i + 1) < schedule.wait i := by
  obtain ⟨hle, hnext⟩ := Nat.find_spec (schedule.progress i)
  have hne : Nat.find (schedule.progress i) ≠ i := fun heq => hnext (by rw [heq]; exact h)
  have hmin : Nat.find (schedule.progress (i + 1)) ≤ Nat.find (schedule.progress i) :=
    Nat.find_min' _ ⟨by omega, hnext⟩
  unfold wait
  omega

/-- The file behind the descriptor, and the number of calls so far. -/
structure Fd where
  content : List UInt8
  schedule : Schedule
  calls : ℕ

/-- After a call of `pread`. -/
def called (c : Call Fd) : Call Fd := { c with context.calls := c.context.calls + 1 }

/-- `pread`: the bytes a call moves. -/
def pread (content : List UInt8) (offset count n : ℕ) : List UInt8 :=
  slice content offset (min (n + 1) count)

/-- **The loop of `fd_read`.** -/
def fdReadLoop (offset count : ℕ) (got : List UInt8) (c : Call Fd) :
    Except Stop (List UInt8) × Call Fd :=
  if count = 0 then (.ok got, c)
  else match _hcall : c.context.schedule.result c.context.calls with
    | .interrupted => fdReadLoop offset count got { called c with errno := .eintr }
    | .failed e => (.error .failed, { called c with errno := e })
    | .moved n =>
      let piece := pread c.context.content offset count n
      if piece.length = 0 then invalid (called c)
      else fdReadLoop (offset + piece.length) (count - piece.length) (got ++ piece) (called c)
termination_by (count, c.context.schedule.wait c.context.calls)
decreasing_by
  · exact Prod.Lex.right _ (Schedule.wait_lt _hcall)
  · exact Prod.Lex.left _ _ (Nat.sub_lt (by omega) (Nat.pos_of_ne_zero ‹_›))

/-- `fd_read` -/
def fdRead (offset count : ℕ) : Code Fd (List UInt8) := fdReadLoop offset count []

/-- What a descriptor can stand for. -/
inductive File
  /-- `fstat` fails. -/
  | unknown (e : Errno)
  /-- Anything that is not a regular file. -/
  | special
  | regular (content : List UInt8)

/-- The bytes there are to read. -/
def File.content : File → List UInt8
  | .regular content => content
  | _ => []

/-- `JuicePEInspectFD`, where `info` is not null. -/
def inspectFD (file : File) : Code Fd Unit := do
  modify fun c => { c with out := .zero }
  match file with
  | .unknown e =>
    modify fun c => { c with errno := e }
    fail .failed
  | .special =>
    modify fun c => { c with errno := .einval }
    fail .failed
  | .regular content => inspect fdRead content.length

/-- A call of `JuicePEInspectFD` with a result structure that holds
`out`. -/
def peInspectFD (schedule : Schedule) (file : File) (out : Info) (errno : Errno) :
    Except Stop Unit × Call Fd :=
  inspectFD file ⟨⟨file.content, schedule, 0⟩, out, errno⟩

/-! ## The loop -/

/-- No call fails for good. -/
def Schedule.Calm (schedule : Schedule) : Prop := ∀ i e, schedule.result i ≠ .failed e

/-- **The same file**, in memory and behind a descriptor, and the same
result so far. -/
structure Same (bytes : List UInt8) (kernel : Schedule) (s : Call Fd) (t : Call Memory) :
    Prop where
  content : s.context.content = bytes
  schedule : s.context.schedule = kernel
  memory : t.context.bytes = bytes
  out : s.out = t.out

variable {content : List UInt8} {schedule : Schedule}

/-- How many bytes a call moves. -/
theorem length_pread (content : List UInt8) (offset count n : ℕ) :
    (pread content offset count n).length = min (min (n + 1) count) (content.length - offset) := by
  rw [pread, slice, List.length_take, List.length_drop]

/-- **What one call moves, and the rest of the range.** -/
theorem pread_append (content : List UInt8) (offset count n : ℕ) :
    pread content offset count n
        ++ slice content (offset + (pread content offset count n).length)
          (count - (pread content offset count n).length)
      = slice content offset count := by
  have hk : (pread content offset count n).length ≤ count := by
    rw [length_pread]
    omega
  have hpiece : pread content offset count n
      = (content.drop offset).take (pread content offset count n).length := by
    rw [length_pread, ← List.length_drop, ← List.take_take, List.take_length, pread, slice]
  generalize (pread content offset count n).length = k at hk hpiece
  rw [hpiece, slice, slice, ← List.drop_drop, ← List.take_add, Nat.add_sub_cancel' hk]

/-- **The loop reads what it was asked for**, and fails where the file ends
before that. -/
theorem fdReadLoop_eq (hcalm : schedule.Calm) (offset count : ℕ) (got : List UInt8) (c : Call Fd)
    (hcontent : c.context.content = content) (hschedule : c.context.schedule = schedule) :
    ∃ c' : Call Fd, c'.context.content = content ∧ c'.context.schedule = schedule ∧ c'.out = c.out
      ∧ fdReadLoop offset count got c
        = (if count = 0 ∨ offset + count ≤ content.length
            then .ok (got ++ slice content offset count) else .error .failed, c') := by
  fun_induction fdReadLoop offset count got c with
  | case1 offset got c =>
    refine ⟨c, hcontent, hschedule, rfl, ?_⟩
    rw [if_pos (.inl rfl), slice, List.take_zero, List.append_nil]
  | case2 offset count got c hcount hcall ih =>
    exact ih hcontent hschedule
  | case3 offset count got c hcount e hcall =>
    exact absurd (hschedule ▸ hcall) (hcalm _ e)
  | case4 offset count got c hcount n hcall piece hpiece =>
    have hend : ¬ (count = 0 ∨ offset + count ≤ content.length) := by
      have hlen : piece.length = _ := length_pread c.context.content offset count n
      rw [hcontent] at hlen
      omega
    rw [if_neg hend]
    exact ⟨{ called c with errno := .enoexec }, hcontent, hschedule, rfl, rfl⟩
  | case5 offset count got c hcount n hcall piece hpiece ih =>
    have hlen : piece.length = _ := length_pread c.context.content offset count n
    have hrest : piece ++ slice c.context.content (offset + piece.length) (count - piece.length)
        = slice c.context.content offset count := pread_append _ _ _ _
    rw [hcontent] at hlen hrest
    obtain ⟨c', hcontent', hschedule', hout', hrun⟩ := ih hcontent hschedule
    refine ⟨c', hcontent', hschedule', hout', hrun.trans ?_⟩
    have hiff : (count - piece.length = 0
        ∨ offset + piece.length + (count - piece.length) ≤ content.length)
          ↔ (count = 0 ∨ offset + count ≤ content.length) := by
      omega
    rw [List.append_assoc, hrest]
    simp only [hiff]

/-! ## The two readers -/

theorem memoryRead_eq (offset count : ℕ) (t : Call Memory) :
    ∃ t' : Call Memory, t'.context.bytes = t.context.bytes ∧ t'.out = t.out
      ∧ memoryRead offset count t
        = (if offset + count ≤ t.context.bytes.length
            then .ok (slice t.context.bytes offset count) else .error .failed, t') := by
  let access : Access := ⟨offset, count, decide (Range offset count t.context.bytes.length)⟩
  by_cases h : Range offset count t.context.bytes.length
  · rw [if_pos (range_iff.mp h)]
    refine ⟨⟨⟨t.context.bytes, access :: t.context.accesses⟩, t.out, t.errno⟩, rfl, rfl, ?_⟩
    show (check (Range offset count t.context.bytes.length) >>= fun _ => pure _) _ = _
    rw [check, if_pos h]
    rfl
  · rw [if_neg (fun hle => h (range_iff.mpr hle))]
    refine ⟨⟨⟨t.context.bytes, access :: t.context.accesses⟩, t.out, .enoexec⟩, rfl, rfl, ?_⟩
    show (check (Range offset count t.context.bytes.length) >>= fun _ => pure _) _ = _
    rw [check, if_neg h]
    rfl

/-- **The two readers agree** on every range that is not empty. -/
theorem agrees_read (hcalm : schedule.Calm) (offset : ℕ) {count : ℕ} (hcount : count ≠ 0) :
    Agrees (Same content schedule) (fdRead offset count) (memoryRead offset count) := by
  intro s t hst
  obtain ⟨s', hcontent, hschedule, hout, hrun⟩ :=
    fdReadLoop_eq hcalm offset count [] s hst.content hst.schedule
  obtain ⟨t', hbytes, hout', hrun'⟩ := memoryRead_eq offset count t
  have hrun : fdRead offset count s = _ := hrun
  rw [hrun, hrun', hst.memory, List.nil_append]
  constructor
  · simp only [hcount, false_or]
  · exact ⟨hcontent, hschedule, hbytes.trans hst.memory, by rw [hout, hout', hst.out]⟩

/-- A check has the same outcome on both sides. -/
theorem agrees_check (p : Prop) [Decidable p] :
    Agrees (Same content schedule) (check p) (check p) := by
  unfold check
  split
  · exact agrees_pure ()
  · exact agrees_bind (agrees_modify fun _ _ h => ⟨h.content, h.schedule, h.memory, h.out⟩)
      fun _ _ _ => agrees_fail _

/-- What holds behind a check that was passed. -/
theorem of_check_eq_ok {κ : Type} {p : Prop} [Decidable p] {s : Call κ} {u : Unit}
    (h : (check p s).1 = .ok u) : p := by
  by_contra hp
  have hfail : (check p s).1 = .error .failed := by
    rw [check, if_neg hp]
    rfl
  exact absurd (hfail.symm.trans h) (by simp)

theorem agrees_readInto (hcalm : schedule.Calm) {n : ℕ} (offset : ℕ) (buffer : Buffer n)
    {count : ℕ} (hcount : count ≠ 0) :
    Agrees (Same content schedule) (readInto fdRead offset buffer count)
      (readInto memoryRead offset buffer count) := by
  refine agrees_bind (agrees_read hcalm offset hcount) fun l _ _ => ?_
  split
  · exact agrees_pure _
  · exact agrees_fail _

/-! ## The routine with either of them -/

theorem agrees_dosHeader (hcalm : schedule.Calm) (size : ℕ) :
    Agrees (Same content schedule) (dosHeader fdRead size) (dosHeader memoryRead size) := by
  refine agrees_bind (agrees_check _) fun _ _ _ => ?_
  refine agrees_bind (agrees_readInto hcalm 0 _ (by decide)) fun dos _ _ => ?_
  refine agrees_bind (agrees_lift _) fun m _ _ => agrees_bind (agrees_lift _) fun z _ _ => ?_
  exact agrees_bind (agrees_check _) fun _ _ _ => agrees_lift _

theorem agrees_coffHeader (hcalm : schedule.Calm) (size pe : ℕ) :
    Agrees (Same content schedule) (coffHeader fdRead size pe)
      (coffHeader memoryRead size pe) := by
  refine agrees_bind (agrees_check _) fun _ _ _ => ?_
  refine agrees_bind (agrees_readInto hcalm pe _ (by decide)) fun coff _ _ => ?_
  refine agrees_bind (agrees_lift _) fun signature _ _ =>
    agrees_bind (agrees_check _) fun _ _ _ => ?_
  -- nothing is read from here on
  refine agrees_bind (agrees_lift _) fun machine _ _ => agrees_bind (agrees_lift _) fun _ _ _ => ?_
  refine agrees_bind (agrees_lift _) fun optSize _ _ => agrees_bind (agrees_lift _) fun _ _ _ => ?_
  refine agrees_bind (agrees_lift _) fun optional _ _ => agrees_bind (agrees_lift _) fun _ _ _ => ?_
  exact agrees_pure _

theorem agrees_optionalHeader (hcalm : schedule.Calm) (size : ℕ) (coff : Coff) :
    Agrees (Same content schedule) (optionalHeader fdRead size coff)
      (optionalHeader memoryRead size coff) := by
  refine agrees_bind (agrees_lift _) fun length _ _ => ?_
  refine agrees_bind (agrees_check _) fun _ s hpassed => ?_
  have hmin := (of_check_eq_ok hpassed).2.2.1
  refine agrees_readInto hcalm _ _ ?_
  split <;> omega

theorem agrees_imageInfo (size : ℕ) (coff : Coff) (opt : Buffer 240) :
    Agrees (Same content schedule) (imageInfo size coff opt) (imageInfo size coff opt) := by
  refine agrees_bind (agrees_lift _) fun magic _ _ => ?_
  refine agrees_bind (agrees_check _) fun _ _ _ => agrees_bind (agrees_check _) fun _ _ _ => ?_
  refine agrees_bind (agrees_check _) fun _ _ _ => agrees_bind (agrees_lift _) fun _ _ _ => ?_
  refine agrees_bind (agrees_lift _) fun image _ _ => agrees_bind (agrees_lift _) fun _ _ _ => ?_
  refine agrees_bind (agrees_lift _) fun last _ _ => agrees_bind (agrees_check _) fun _ _ _ => ?_
  refine agrees_bind (agrees_lift _) fun count _ _ => agrees_bind (agrees_lift _) fun _ _ _ => ?_
  refine agrees_bind (agrees_check _) fun _ _ _ => agrees_bind (agrees_lift _) fun _ _ _ => ?_
  refine agrees_bind (agrees_lift _) fun sub _ _ => agrees_bind (agrees_lift _) fun _ _ _ => ?_
  exact agrees_pure _

/-- **`JuicePEInspectFD` returns what `JuicePEInspectBytes` returns** on the
bytes of the file, and leaves the same result, however its reads are
interrupted and cut short. -/
theorem peInspectFD_eq (schedule : Schedule) (hcalm : schedule.Calm) (content : List UInt8)
    (out out' : Info) (errno errno' : Errno) :
    (peInspectFD schedule (.regular content) out errno).1
        = (peInspectBytes (.memory content) out' errno').1
      ∧ (peInspectFD schedule (.regular content) out errno).2.out
        = (peInspectBytes (.memory content) out' errno').2.out := by
  have hagrees : Agrees (Same content schedule)
      (dosHeader fdRead content.length >>= fun pe => coffHeader fdRead content.length pe
        >>= fun coff => optionalHeader fdRead content.length coff
        >>= fun opt => imageInfo content.length coff opt
        >>= fun info => modify fun c => { c with out := info })
      (dosHeader memoryRead content.length >>= fun pe => coffHeader memoryRead content.length pe
        >>= fun coff => optionalHeader memoryRead content.length coff
        >>= fun opt => imageInfo content.length coff opt
        >>= fun info => modify fun c => { c with out := info }) := by
    refine agrees_bind (agrees_dosHeader hcalm _) fun pe _ _ => ?_
    refine agrees_bind (agrees_coffHeader hcalm _ _) fun coff _ _ => ?_
    refine agrees_bind (agrees_optionalHeader hcalm _ _) fun opt _ _ => ?_
    refine agrees_bind (agrees_imageInfo _ _ _) fun info _ _ => ?_
    exact agrees_modify fun _ _ h => ⟨h.content, h.schedule, h.memory, rfl⟩
  -- both runs start with a cleared result
  obtain ⟨hvalue, hsame⟩ := hagrees ⟨⟨content, schedule, 0⟩, .zero, errno⟩
    ⟨⟨content, []⟩, .zero, errno'⟩ ⟨rfl, rfl, rfl, rfl⟩
  exact ⟨hvalue, hsame.out⟩

/-- The kernel that moves two bytes with every other call, and is
interrupted in between. -/
def stutter : Schedule where
  result i := if i % 2 = 0 then .interrupted else .moved 1
  progress i := ⟨2 * i + 1, by omega, by rw [if_neg (by omega)]; simp⟩

theorem stutter_calm : stutter.Calm := by
  intro i e
  unfold stutter
  by_cases hi : i % 2 = 0
  · simp [hi]
  · simp [hi]

theorem peInspectFD_stutter :
    stutter.Calm
      ∧ (peInspectFD stutter (.regular smallest) .zero .einval).1
        = (peInspectBytes (.memory smallest) .zero .einval).1
      ∧ (peInspectFD stutter (.regular smallest) .zero .einval).2.out
        = ⟨0x14c, 0, 1, 0, 0x1000, false, true, false⟩ := by
  obtain ⟨hvalue, hout⟩ := peInspectFD_eq stutter stutter_calm smallest .zero .zero .einval .einval
  refine ⟨stutter_calm, hvalue, hout.trans ?_⟩
  decide +kernel

end Juice.Pe
