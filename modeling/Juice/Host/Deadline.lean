import Mathlib.Algebra.Group.Nat.Defs
import Mathlib.Order.Monotone.Basic

/-!
# Transfers with a deadline

`JuiceWriteWithDeadline` and `JuiceSocketTransferUntil` send or receive a
whole buffer on a descriptor that never blocks. A round of either loop
looks at the clock, offers what is left of the buffer to the kernel, and,
if the kernel would have to wait, looks at the clock again and polls. The
writer also looks at a cancellation flag, first thing in a round.

What the kernel answers is a function of the number of calls made so far,
and each loop keeps a log of its calls. A loop that goes on has seen
nothing but clock values before the deadline (`Going`), so whatever it
finds out too late is the last thing in its log.
-/

namespace Juice.Deadline

/-- What `send`, `write` or `recv` returned. -/
inductive IoAnswer where
  | count (n : ℕ)
  | eintr
  /-- `EAGAIN` or `EWOULDBLOCK`. -/
  | again
  | error
  deriving DecidableEq, Repr

/-- What `poll` returned. -/
inductive PollAnswer where
  /-- A timeout, `EINTR`, or an event that the next call will tell about. -/
  | retry
  | pollnval
  | error
  deriving DecidableEq, Repr

/-- **The environment**: the answer to the `i`-th call. -/
structure Kernel where
  clock : ℕ → ℕ
  monotone : Monotone clock
  io : ℕ → IoAnswer
  poll : ℕ → PollAnswer
  /-- The cancellation flag, as the writer would see it. -/
  cancelled : ℕ → Bool

/-- **A call**, with what it found out. -/
inductive Event where
  | cancel (seen : Bool)
  | clock (now : ℕ)
  /-- A transfer of so many bytes from a place of the buffer on. -/
  | io (cursor count : ℕ)
  | poll
  deriving DecidableEq, Repr

/-- The bytes that a call has transferred. -/
def Event.count : Event → ℕ
  | .io _ count => count
  | _ => 0

structure Progress where
  cursor : ℕ
  log : List Event
  deriving DecidableEq, Repr

/-- A call is made, and the cursor moves on by what it has transferred. -/
def Progress.saw (s : Progress) (e : Event) : Progress := ⟨s.cursor + e.count, s.log ++ [e]⟩

/-- What the two loops differ in. -/
structure Loop where
  /-- There is a flag to look at. -/
  cancellable : Bool
  /-- The most that is offered to the kernel at once. -/
  maxChunk : ℕ
  length : ℕ
  deadline : ℕ

section Loops

variable (k : Kernel) (l : Loop)

/-- The kernel would have to wait. The result says whether the loop goes
on; it fails otherwise. -/
def await (s : Progress) : Bool × Progress :=
  let now := k.clock s.log.length
  let s := s.saw (.clock now)
  if l.deadline ≤ now then (false, s)
  else (decide (k.poll s.log.length = .retry), s.saw .poll)

/-- Offers what is left to the kernel, which takes no more than that. -/
def offer (s : Progress) : Bool × Progress :=
  match k.io s.log.length with
  | .count n =>
    let count := min n (min (l.length - s.cursor) l.maxChunk)
    (decide (n ≠ 0), s.saw (.io s.cursor count))
  | .eintr => (true, s.saw (.io s.cursor 0))
  | .error => (false, s.saw (.io s.cursor 0))
  | .again => await k l (s.saw (.io s.cursor 0))

/-- Looks at the clock. -/
def inTime (s : Progress) : Bool × Progress :=
  let now := k.clock s.log.length
  if l.deadline ≤ now then (false, s.saw (.clock now)) else offer k l (s.saw (.clock now))

/-- **A round** of the loop. -/
def round (s : Progress) : Bool × Progress :=
  if l.cancellable then
    if k.cancelled s.log.length then (false, s.saw (.cancel true))
    else inTime k l (s.saw (.cancel false))
  else inTime k l s

/-- **The loop**, `none` where it has not returned yet. -/
def loop (fuel : ℕ) (s : Progress) : Option (Bool × Progress) :=
  if s.cursor = l.length then some (true, s)
  else match fuel with
    | 0 => none
    | fuel + 1 =>
      match round k l s with
      | (true, t) => loop fuel t
      | (false, t) => some (false, t)

end Loops

/-- The arguments of a call, and what `fcntl` says of its descriptor. -/
structure Call where
  fd : ℤ
  hasBytes : Bool
  length : ℕ
  /-- Whether `O_NONBLOCK` is set, if `fcntl` succeeds. -/
  nonblocking : Option Bool

/-- The arguments pass the checks. -/
def Call.accepted (c : Call) : Bool :=
  !(c.fd < 0 || !c.hasBytes && c.length != 0) && c.nonblocking == some true

/-- The writer's loop: it offers all that is left. -/
def writer (k : Kernel) (c : Call) (timeoutMs : ℕ) : Loop :=
  ⟨true, c.length, c.length, k.clock 0 + timeoutMs⟩

/-- **`JuiceWriteWithDeadline`.** -/
def juiceWriteWithDeadline (k : Kernel) (c : Call) (timeoutMs fuel : ℕ) :
    Option (Bool × Progress) :=
  if !c.accepted || timeoutMs == 0 then some (false, ⟨0, []⟩)
  else loop k (writer k c timeoutMs) fuel ⟨0, [.clock (k.clock 0)]⟩

/-- The loop over a socket: at most `SSIZE_MAX` bytes at once. -/
def socketLoop (c : Call) (deadline : ℕ) : Loop :=
  ⟨false, 2 ^ 63 - 1, c.length, deadline⟩

/-- **`JuiceSocketTransferUntil`**, in either direction. -/
def juiceSocketTransferUntil (k : Kernel) (c : Call) (deadline fuel : ℕ) :
    Option (Bool × Progress) :=
  if !c.accepted then some (false, ⟨0, []⟩)
  else loop k (socketLoop c deadline) fuel ⟨0, []⟩

/-! ## What a loop has done -/

/-- The places of the buffer that a call has transferred. -/
def Event.places : Event → List ℕ
  | .io cursor count => List.range' cursor count
  | _ => []

/-- The call finds out that it is too late. -/
def Event.Late (deadline : ℕ) : Event → Prop
  | .cancel seen => seen = true
  | .clock now => deadline ≤ now
  | _ => False

/-- What was transferred is a beginning of the buffer, each place once and
in order. -/
structure InOrder (l : Loop) (s : Progress) : Prop where
  cursor_le : s.cursor ≤ l.length
  places : s.log.flatMap Event.places = List.range s.cursor

/-- **A loop that goes on** has found out nothing that came too late. -/
structure Going (l : Loop) (s : Progress) : Prop extends InOrder l s where
  not_late : ∀ e ∈ s.log, ¬ e.Late l.deadline

/-- **A loop that returned**: it has transferred the whole buffer exactly if
it succeeded, and if a call found out that it was too late, it made no
other call after that one. -/
structure Returned (l : Loop) (ok : Bool) (s : Progress) : Prop extends InOrder l s where
  ok_iff : ok = true ↔ s.cursor = l.length
  quiet : ∀ e ∈ s.log.dropLast, ¬ e.Late l.deadline

variable {k : Kernel} {l : Loop} {s : Progress}

/-- The next call in order: it transfers what comes next, if anything. -/
theorem InOrder.saw (h : InOrder l s) (e : Event) (he : e.places = List.range' s.cursor e.count)
    (hle : s.cursor + e.count ≤ l.length) : InOrder l (s.saw e) := by
  refine ⟨hle, ?_⟩
  simp only [Progress.saw, List.flatMap_append, h.places, List.flatMap_singleton, he,
    List.range_eq_range']
  rw [← List.range'_append_1, Nat.zero_add]

/-- A call that transfers nothing. -/
theorem InOrder.idle (h : InOrder l s) (e : Event) (he : e.places = []) (hcount : e.count = 0) :
    InOrder l (s.saw e) := by
  refine h.saw e ?_ ?_
  · rw [he, hcount]
    rfl
  · rw [hcount]
    exact h.cursor_le

theorem Going.saw {e : Event} (h : Going l s) (ho : InOrder l (s.saw e))
    (hlate : ¬ e.Late l.deadline) : Going l (s.saw e) := by
  exact ⟨ho, List.forall_mem_append.mpr ⟨h.not_late, List.forall_mem_singleton.mpr hlate⟩⟩

/-- **What a part of a round does**: the loop goes on, having made a call, or
it fails. -/
def Advances (l : Loop) (s : Progress) (r : Bool × Progress) : Prop :=
  (r.1 = true → Going l r.2 ∧ s.log.length < r.2.log.length) ∧ (r.1 = false → Returned l false r.2)

theorem Advances.of_saw {e : Event} {r : Bool × Progress} (h : Advances l (s.saw e) r) :
    Advances l s r :=
  ⟨fun hr => ⟨(h.1 hr).1, Nat.lt_of_succ_lt (by simpa [Progress.saw] using (h.1 hr).2)⟩, h.2⟩

section

variable (h : Going l s) (hlt : s.cursor ≠ l.length) (k : Kernel)
include h hlt

/-- A call after which the loop fails. -/
theorem fails_advances (e : Event) (he : e.places = []) (hcount : e.count = 0) :
    Advances l s (false, s.saw e) := by
  refine ⟨(fun hr => by cases hr), fun _ => ⟨h.idle e he hcount, ?_, ?_⟩⟩
  · simpa [Progress.saw, hcount] using hlt
  · rw [Progress.saw, List.dropLast_concat]
    exact h.not_late

/-- A call after which the loop may go on. -/
theorem call_advances (e : Event) (he : e.places = []) (hcount : e.count = 0)
    (hlate : ¬ e.Late l.deadline) (ok : Bool) : Advances l s (ok, s.saw e) := by
  cases ok with
  | false => exact fails_advances h hlt e he hcount
  | true =>
    exact ⟨fun _ => ⟨h.saw (h.idle e he hcount) hlate, by simp [Progress.saw]⟩,
      fun hr => by cases hr⟩

theorem await_advances : Advances l s (await k l s) := by
  unfold await
  dsimp only
  split
  · exact fails_advances h hlt (.clock _) rfl rfl
  · rename_i hearly
    exact (call_advances (h.saw (h.idle (.clock _) rfl rfl) hearly) hlt .poll rfl rfl id _).of_saw

theorem offer_advances : Advances l s (offer k l s) := by
  unfold offer
  split
  · rename_i n _
    dsimp only
    have hle := h.cursor_le
    have hgoing := h.saw (h.toInOrder.saw (.io s.cursor (min n (min (l.length - s.cursor)
      l.maxChunk))) rfl (by dsimp only [Event.count]; omega)) id
    refine ⟨fun _ => ⟨hgoing, by simp [Progress.saw]⟩, fun hn => ?_⟩
    -- A count of zero, which the loop takes for an error.
    rw [show n = 0 by simpa using hn, Nat.zero_min]
    exact (fails_advances h hlt (.io s.cursor 0) rfl rfl).2 rfl
  · exact call_advances h hlt (.io s.cursor 0) rfl rfl id true
  · exact call_advances h hlt (.io s.cursor 0) rfl rfl id false
  · exact (await_advances (h.saw (h.idle (.io s.cursor 0) rfl rfl) id) hlt k).of_saw

theorem inTime_advances : Advances l s (inTime k l s) := by
  unfold inTime
  dsimp only
  split
  · exact fails_advances h hlt (.clock _) rfl rfl
  · rename_i hearly
    exact (offer_advances (h.saw (h.idle (.clock _) rfl rfl) hearly) hlt k).of_saw

/-- **One round.** -/
theorem round_advances : Advances l s (round k l s) := by
  unfold round
  split
  · split
    · exact fails_advances h hlt (.cancel true) rfl rfl
    · exact (inTime_advances (h.saw (h.idle (.cancel false) rfl rfl) Bool.false_ne_true)
        hlt k).of_saw
  · exact inTime_advances h hlt k

end

theorem loop_done {fuel : ℕ} (h : s.cursor = l.length) : loop k l fuel s = some (true, s) := by
  unfold loop
  exact if_pos h

theorem loop_succ {fuel : ℕ} (h : s.cursor ≠ l.length) :
    loop k l (fuel + 1) s
      = if (round k l s).1 then loop k l fuel (round k l s).2
        else some (false, (round k l s).2) := by
  rw [loop, if_neg h]
  cases hr : round k l s with
  | mk ok t => cases ok <;> rfl

/-- **A loop that returns** has kept to the rules. -/
theorem loop_returned {fuel : ℕ} {ok : Bool} {t : Progress} (h : Going l s)
    (hloop : loop k l fuel s = some (ok, t)) : Returned l ok t := by
  induction fuel generalizing s with
  | zero =>
    unfold loop at hloop
    split at hloop
    · cases hloop
      exact ⟨h.toInOrder, by simpa, fun e he => h.not_late e (List.dropLast_subset _ he)⟩
    · cases hloop
  | succ fuel ih =>
    by_cases hlt : s.cursor = l.length
    · rw [loop_done hlt] at hloop
      cases hloop
      exact ⟨h.toInOrder, by simpa, fun e he => h.not_late e (List.dropLast_subset _ he)⟩
    · obtain ⟨hgo, hfail⟩ := round_advances h hlt k
      rw [loop_succ hlt] at hloop
      split at hloop
      · rename_i hr
        exact ih (hgo hr).1 hloop
      · rename_i hr
        cases hloop
        exact hfail (Bool.not_eq_true _ ▸ hr)

/-- A round after the deadline fails. -/
theorem round_late {i : ℕ} (hi : l.deadline ≤ k.clock i) (hs : i ≤ s.log.length) :
    (round k l s).1 = false := by
  have hlate (t : Progress) (ht : i ≤ t.log.length) : (inTime k l t).1 = false := by
    unfold inTime
    rw [if_pos (hi.trans (k.monotone ht))]
  unfold round
  split
  · split
    · rfl
    · exact hlate _ (hs.trans (by simp [Progress.saw]))
  · exact hlate s hs

/-- **The loop returns** if the clock reaches the deadline: every round makes
a call. -/
theorem loop_returns {i n : ℕ} (hi : l.deadline ≤ k.clock i) (h : Going l s)
    (hn : i ≤ s.log.length + n) : ∃ r, loop k l (n + 1) s = some r := by
  induction n generalizing s with
  | zero =>
    by_cases hlt : s.cursor = l.length
    · exact ⟨_, loop_done hlt⟩
    · rw [loop_succ hlt, round_late hi hn]
      exact ⟨_, rfl⟩
  | succ n ih =>
    by_cases hlt : s.cursor = l.length
    · exact ⟨_, loop_done hlt⟩
    · rw [loop_succ hlt]
      split
      · rename_i hr
        obtain ⟨hgoing, hlonger⟩ := (round_advances h hlt k).1 hr
        exact ih hgoing (by omega)
      · exact ⟨_, rfl⟩

/-- A loop at its start. -/
theorem going_start (hlog : ∀ e ∈ s.log, e.places = [] ∧ ¬ e.Late l.deadline)
    (hcursor : s.cursor = 0) : Going l s := by
  refine ⟨⟨hcursor ▸ Nat.zero_le _, ?_⟩, fun e he => (hlog e he).2⟩
  rw [hcursor, List.range_zero, List.flatMap_eq_nil_iff]
  exact fun e he => (hlog e he).1

/-- **Transfers with a deadline**, of calls whose arguments are accepted:
what is transferred is a beginning of the buffer in order, the call succeeds
exactly if that is all of it, no call is made once one has found out that
it is too late, and both functions return if the clock reaches the
deadline. -/
theorem transfers_until_deadline (k : Kernel) (c : Call) (hc : c.accepted = true) :
    (∀ timeoutMs, 0 < timeoutMs →
      (∀ fuel ok t, juiceWriteWithDeadline k c timeoutMs fuel = some (ok, t) →
        Returned (writer k c timeoutMs) ok t)
      ∧ ((∃ i, k.clock 0 + timeoutMs ≤ k.clock i) →
        ∃ fuel r, juiceWriteWithDeadline k c timeoutMs fuel = some r))
    ∧ ∀ deadline,
      (∀ fuel ok t, juiceSocketTransferUntil k c deadline fuel = some (ok, t) →
        Returned (socketLoop c deadline) ok t)
      ∧ ((∃ i, deadline ≤ k.clock i) →
        ∃ fuel r, juiceSocketTransferUntil k c deadline fuel = some r) := by
  constructor
  · intro timeoutMs htimeout
    have hstart : Going (writer k c timeoutMs) ⟨0, [.clock (k.clock 0)]⟩ := by
      refine going_start (fun e he => ?_) rfl
      rw [List.mem_singleton.mp he]
      exact ⟨rfl, Nat.not_le.mpr (Nat.lt_add_of_pos_right htimeout)⟩
    have hcall (fuel : ℕ) : juiceWriteWithDeadline k c timeoutMs fuel
        = loop k (writer k c timeoutMs) fuel ⟨0, [.clock (k.clock 0)]⟩ := by
      rw [juiceWriteWithDeadline, if_neg]
      simp [hc, htimeout.ne']
    simp only [hcall]
    exact ⟨fun fuel ok t hloop => loop_returned hstart hloop,
      fun ⟨i, hi⟩ => ⟨i + 1, loop_returns hi hstart (Nat.le_add_left _ _)⟩⟩
  · intro deadline
    have hstart : Going (socketLoop c deadline) ⟨0, []⟩ :=
      going_start (fun e he => absurd he List.not_mem_nil) rfl
    have hcall (fuel : ℕ) : juiceSocketTransferUntil k c deadline fuel
        = loop k (socketLoop c deadline) fuel ⟨0, []⟩ := by
      rw [juiceSocketTransferUntil, if_neg]
      simp [hc]
    simp only [hcall]
    exact ⟨fun fuel ok t hloop => loop_returned hstart hloop,
      fun ⟨i, hi⟩ => ⟨i + 1, loop_returns hi hstart (Nat.le_add_left _ _)⟩⟩

/-- A kernel that takes three bytes at a time and makes the loop wait in
between. -/
def trickling : Kernel where
  clock i := i
  monotone := fun _ _ h => h
  io i := if i % 3 = 0 then .again else .count 3
  poll _ := .retry
  cancelled _ := false

theorem transfers_until_deadline_trickling :
    ∃ r, juiceWriteWithDeadline trickling ⟨3, true, 8, some true⟩ 40 40 = some r
      ∧ Returned (writer trickling ⟨3, true, 8, some true⟩ 40) r.1 r.2 := by
  obtain ⟨r, hr⟩ : ∃ r, juiceWriteWithDeadline trickling ⟨3, true, 8, some true⟩ 40 40 = some r :=
    Option.isSome_iff_exists.mp (by decide)
  exact ⟨r, hr, ((transfers_until_deadline trickling ⟨3, true, 8, some true⟩ rfl).1 40
    (by decide)).1 40 r.1 r.2 hr⟩

end Juice.Deadline
