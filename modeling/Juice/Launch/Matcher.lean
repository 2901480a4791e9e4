import Juice.Launch.Acknowledge
import Mathlib.Data.Nat.Find

/-!
# The matcher on a stream

`JuiceJITAckFeed` is made for a stream that comes in pieces of any size: all
it keeps between two calls is how much of the marker the current line has
matched, whether a CR has come after it, and whether the line is of no
interest any more. Whatever the pieces are, it accepts exactly the first
line that is the marker, in the call that is given the LF of that line.

Feeding two pieces is feeding their concatenation (`feedLoop_append`), so
that all that matters is what the loop says of a whole stream
(`feedLoop_iff_hasAck`), which is shown line by line.
-/

namespace Juice

open List

variable {marker : List UInt8} {state : JITAck} {s : List UInt8}

/-- **`JuiceJITAckInit`**: the matcher, if the marker is accepted. -/
def jitAckInit (expected : List UInt8) : Option JITAck :=
  if expected = [] ∨ 128 ≤ expected.length then none
  else if expected.any (fun b => decide (b < 0x20 ∨ 0x7e < b)) then none
  else some (.init expected)

theorem jitAckInit_eq_some :
    jitAckInit marker = some state ↔ IsMarker marker ∧ state = .init marker := by
  have hany : marker.any (fun b => decide (b < 0x20 ∨ 0x7e < b)) = true
      ↔ ¬ ∀ b ∈ marker, 0x20 ≤ b ∧ b ≤ 0x7e := by
    simp [imp_iff_not_or, UInt8.not_le]
  unfold jitAckInit IsMarker
  split
  next hlength =>
    refine iff_of_false (by simp) (fun h => ?_)
    rcases hlength with hnil | hlong
    · exact h.1.1 hnil
    · exact absurd h.1.2.1 (Nat.not_lt.mpr hlong)
  next hlength =>
    rw [not_or, Nat.not_le] at hlength
    split
    next hbad => exact iff_of_false (by simp) (fun h => hany.mp hbad h.1.2.2)
    next hgood =>
      have hprint := not_not.mp (mt hany.mpr hgood)
      rw [Option.some_inj]
      exact ⟨fun h => ⟨⟨hlength.1, hlength.2, hprint⟩, h.symm⟩, fun h => h.2.symm⟩

/-- **Feeding a stream until it is accepted**: the number of the call that
returns true. -/
def JITAck.feedUntil (state : JITAck) : List (List UInt8) → Option ℕ
  | [] => none
  | chunk :: chunks =>
    if (state.feed chunk).2 then some 0
    else ((state.feed chunk).1.feedUntil chunks).map (· + 1)

/-! ## Chunks do not matter -/

/-- One turn of the loop: the matcher, and whether the loop returns true. -/
def JITAck.step (state : JITAck) (c : UInt8) : JITAck × Bool :=
  if c = 0x0a then (.init state.expected, !state.discarded && state.matched == state.expected.length)
  else if !state.discarded then
    if c = 0x0d && state.matched == state.expected.length && !state.carriageReturn then
      ({ state with carriageReturn := true }, false)
    else if !state.carriageReturn && decide (state.matched < state.expected.length)
        && state.expected[state.matched]? == some c then
      ({ state with matched := state.matched + 1 }, false)
    else ({ state with discarded := true }, false)
  else (state, false)

theorem feedLoop_cons (state : JITAck) (c : UInt8) (s : List UInt8) :
    state.feedLoop (c :: s)
      = if (state.step c).2 then ((state.step c).1, true) else (state.step c).1.feedLoop s := by
  unfold JITAck.step
  rw [JITAck.feedLoop]
  split
  · rfl
  split
  · split
    · rfl
    split
    · rfl
    · rfl
  · rfl

theorem expected_step (state : JITAck) (c : UInt8) :
    (state.step c).1.expected = state.expected := by
  unfold JITAck.step
  split_ifs <;> rfl

/-- Only a LF can end a line. -/
theorem step_of_ne (state : JITAck) {c : UInt8} (h : c ≠ 0x0a) : (state.step c).2 = false := by
  unfold JITAck.step
  rw [if_neg h]
  split_ifs <;> rfl

/-- **Two pieces are fed as one**, up to the first match. -/
theorem feedLoop_append (state : JITAck) (s t : List UInt8) :
    state.feedLoop (s ++ t)
      = if (state.feedLoop s).2 then state.feedLoop s else (state.feedLoop s).1.feedLoop t := by
  induction s generalizing state with
  | nil => rfl
  | cons c s ih =>
    rw [cons_append, feedLoop_cons, feedLoop_cons]
    split
    · rfl
    · exact ih _

theorem expected_feedLoop (state : JITAck) (s : List UInt8) :
    (state.feedLoop s).1.expected = state.expected := by
  induction s generalizing state with
  | nil => rfl
  | cons c s ih =>
    rw [feedLoop_cons]
    split
    · exact expected_step state c
    · exact (ih _).trans (expected_step state c)

/-- The matcher of a marker that was accepted goes into its loop. -/
def Ready (state : JITAck) : Prop :=
  ¬ (state.expected.length = 0 ∨ 128 ≤ state.expected.length)

theorem Ready.feed (h : Ready state) (s : List UInt8) :
    state.feed s = state.feedLoop s := if_neg h

theorem Ready.feedLoop (h : Ready state) (s : List UInt8) : Ready (state.feedLoop s).1 := by
  unfold Ready
  rw [expected_feedLoop]
  exact h

theorem ready_init (h : IsMarker marker) : Ready (.init marker) := by
  have hpos := length_pos_of_ne_nil h.1
  have hlt := h.2.1
  show ¬ (marker.length = 0 ∨ 128 ≤ marker.length)
  omega

/-- **The call that returns true**: what came before it is not accepted, and
with its piece it is. -/
theorem feedUntil_eq_some (h : Ready state) (chunks : List (List UInt8)) (i : ℕ) :
    state.feedUntil chunks = some i
      ↔ (state.feedLoop (chunks.take i).flatten).2 = false
        ∧ (state.feedLoop (chunks.take (i + 1)).flatten).2 = true := by
  induction chunks generalizing state i with
  | nil =>
    refine iff_of_false (by simp [JITAck.feedUntil]) (fun hboth => ?_)
    rw [take_nil] at hboth
    exact Bool.false_ne_true hboth.2
  | cons chunk chunks ih =>
    unfold JITAck.feedUntil
    rw [h.feed, take_succ_cons, flatten_cons, feedLoop_append]
    split
    next htrue =>
      cases i with
      | zero => exact iff_of_true rfl ⟨rfl, htrue⟩
      | succ i =>
        refine iff_of_false (by simp) (fun hboth => ?_)
        rw [take_succ_cons, flatten_cons, feedLoop_append, if_pos htrue] at hboth
        exact Bool.false_ne_true (hboth.1.symm.trans htrue)
    next hfalse =>
      cases i with
      | zero =>
        refine iff_of_false (by simp) (fun hboth => ?_)
        exact Bool.false_ne_true hboth.2
      | succ i =>
        rw [take_succ_cons, flatten_cons, feedLoop_append, if_neg hfalse,
          ← ih (h.feedLoop chunk)]
        simp

/-- Some call returns true exactly if the whole stream is accepted. -/
theorem isSome_feedUntil (h : Ready state) (chunks : List (List UInt8)) :
    (state.feedUntil chunks).isSome = (state.feedLoop chunks.flatten).2 := by
  induction chunks generalizing state with
  | nil => rfl
  | cons chunk chunks ih =>
    unfold JITAck.feedUntil
    rw [h.feed, flatten_cons, feedLoop_append]
    split
    next htrue => exact htrue.symm
    next hfalse =>
      rw [Option.isSome_map]
      exact ih (h.feedLoop chunk)

/-! ## What is accepted -/

/-- Nothing is accepted without a LF. -/
theorem feedLoop_of_not_mem (state : JITAck) (h : 0x0a ∉ s) : (state.feedLoop s).2 = false := by
  induction s generalizing state with
  | nil => rfl
  | cons c s ih =>
    rw [mem_cons, not_or] at h
    rw [feedLoop_cons, step_of_ne state (Ne.symm h.1)]
    exact ih _ h.2

/-- **A stream is accepted exactly if it has a line that is the marker.** -/
theorem feedLoop_iff_hasAck (hmarker : IsMarker marker) (s : List UInt8) :
    ((JITAck.init marker).feedLoop s).2 = true ↔ HasAck marker s := by
  induction hn : s.length using Nat.strongRecOn generalizing s with
  | _ n ih =>
  by_cases hlf : 0x0a ∈ s
  · -- The first line is decided on its own, and the matcher starts afresh behind it.
    obtain ⟨body, rest, rfl, hbody⟩ := eq_append_cons_of_mem hlf
    have hline : IsLine (body ++ [0x0a]) := ⟨body, rfl, hbody⟩
    have hfeed := feed_line hmarker hline
    rw [(ready_init hmarker).feed] at hfeed
    have hlines : HasAck marker ((body ++ [0x0a]) ++ rest)
        ↔ IsAck marker (body ++ [0x0a]) ∨ HasAck marker rest := by
      constructor
      · rintro ⟨line, hack, hin⟩
        rcases (line_append hline (isLine_of_isAck hmarker hack)).mp hin with rfl | hin
        · exact .inl hack
        · exact .inr ⟨line, hack, hin⟩
      · rintro (hack | ⟨line, hack, hin⟩)
        · exact ⟨_, hack, (line_append hline hline).mpr (.inl rfl)⟩
        · exact ⟨line, hack, (line_append hline (isLine_of_isAck hmarker hack)).mpr (.inr hin)⟩
    have hrest := ih rest.length (by rw [← hn, length_append, length_cons]; omega) rest rfl
    rw [append_cons, hlines, feedLoop_append, hfeed, ← hrest]
    by_cases hack : IsAck marker (body ++ [0x0a])
    · simp [hack]
    · simp [hack]
  · refine iff_of_false (by rw [feedLoop_of_not_mem _ hlf]; exact Bool.false_ne_true) ?_
    rintro ⟨line, hack, hin⟩
    obtain ⟨body, rfl, -⟩ := isLine_of_isAck hmarker hack
    refine hlf ?_
    rcases hin with hpre | ⟨pre, hpre⟩
    · exact hpre.subset (by simp)
    · exact hpre.subset (by simp)

/-! ## Where it is accepted -/

/-- **The byte `k` of a stream is the LF of a line that is the marker.** -/
def EndsAck (marker s : List UInt8) (k : ℕ) : Prop :=
  k < s.length ∧ ∃ pre line, s.take (k + 1) = pre ++ line ∧ IsAck marker line
    ∧ (pre = [] ∨ ∃ p, pre = p ++ [0x0a])

theorem hasAck_iff_split :
    HasAck marker s
      ↔ ∃ pre line, pre ++ line <+: s ∧ IsAck marker line ∧ (pre = [] ∨ ∃ p, pre = p ++ [0x0a]) := by
  constructor
  · rintro ⟨line, hack, hpre | ⟨p, hpre⟩⟩
    · exact ⟨[], line, hpre, hack, .inl rfl⟩
    · exact ⟨p ++ [0x0a], line, by rwa [← append_cons], hack, .inr ⟨p, rfl⟩⟩
  · rintro ⟨pre, line, hpre, hack, rfl | ⟨p, rfl⟩⟩
    · exact ⟨line, hack, .inl hpre⟩
    · exact ⟨line, hack, .inr ⟨p, by rwa [append_cons]⟩⟩

theorem IsAck.length_pos {line : List UInt8} (h : IsAck marker line) : 0 < line.length := by
  rcases h with rfl | rfl
  · simp
  · simp

/-- The start of a stream has the marker on a line exactly if such a line
ends in it. -/
theorem hasAck_take_iff {n : ℕ} (hn : n ≤ s.length) :
    HasAck marker (s.take n) ↔ ∃ k < n, EndsAck marker s k := by
  rw [hasAck_iff_split]
  constructor
  · rintro ⟨pre, line, hpre, hack, hstart⟩
    have hpos := hack.length_pos
    have hlen := hpre.length_le
    rw [length_take, length_append, Nat.min_eq_left hn] at hlen
    have hlast : pre.length + line.length - 1 + 1 = (pre ++ line).length := by
      rw [length_append]
      omega
    refine ⟨pre.length + line.length - 1, by omega, by omega, pre, line, ?_, hack, hstart⟩
    rw [hlast]
    exact (prefix_iff_eq_take.mp (hpre.trans (List.take_prefix n s))).symm
  · rintro ⟨k, hk, -, pre, line, heq, hack, hstart⟩
    refine ⟨pre, line, ?_, hack, hstart⟩
    rw [← heq]
    exact take_prefix_take_left (by omega)

theorem take_flatten_eq (chunks : List (List UInt8)) (i : ℕ) :
    (chunks.take i).flatten = chunks.flatten.take (chunks.take i).flatten.length
      ∧ (chunks.take i).flatten.length ≤ chunks.flatten.length := by
  have hpre : (chunks.take i).flatten <+: chunks.flatten :=
    ⟨(chunks.drop i).flatten, by rw [← flatten_append, take_append_drop]⟩
  exact ⟨prefix_iff_eq_take.mp hpre, hpre.length_le⟩

/-- **The matcher on a stream.** For a marker that `JuiceJITAckInit` accepts
and a stream in any pieces: some call of `JuiceJITAckFeed` returns true
exactly if the stream has a line that is the marker, alone or with one CR,
and the first call that does is the one whose piece has the LF of the first
such line. -/
theorem feedUntil_eq_some_iff {state : JITAck} (h : jitAckInit marker = some state)
    (chunks : List (List UInt8)) :
    ((state.feedUntil chunks).isSome = true ↔ HasAck marker chunks.flatten)
    ∧ ∀ i, state.feedUntil chunks = some i
        ↔ ∃ k, EndsAck marker chunks.flatten k ∧ (∀ j < k, ¬ EndsAck marker chunks.flatten j)
          ∧ (chunks.take i).flatten.length ≤ k ∧ k < (chunks.take (i + 1)).flatten.length := by
  obtain ⟨hmarker, rfl⟩ := jitAckInit_eq_some.mp h
  have hready := ready_init hmarker
  refine ⟨?_, fun i => ?_⟩
  · rw [isSome_feedUntil hready]
    exact feedLoop_iff_hasAck hmarker _
  -- Up to a chunk, a line has been accepted exactly if one ends in it.
  have hprefix : ∀ i, ((JITAck.init marker).feedLoop (chunks.take i).flatten).2 = true
      ↔ ∃ k < (chunks.take i).flatten.length, EndsAck marker chunks.flatten k := by
    intro i
    obtain ⟨htake, hle⟩ := take_flatten_eq chunks i
    rw [feedLoop_iff_hasAck hmarker, ← hasAck_take_iff hle, ← htake]
  rw [feedUntil_eq_some hready, ← Bool.not_eq_true, hprefix, hprefix]
  constructor
  · rintro ⟨hbefore, k, hk, hends⟩
    classical
    -- The first line that is accepted ends at or before `k`, and not in an earlier chunk.
    have hex : ∃ k, EndsAck marker chunks.flatten k := ⟨k, hends⟩
    refine ⟨Nat.find hex, Nat.find_spec hex, fun j hj => Nat.find_min hex hj, ?_,
      Nat.lt_of_le_of_lt (Nat.find_min' hex hends) hk⟩
    exact Nat.not_lt.mp fun hlt => hbefore ⟨_, hlt, Nat.find_spec hex⟩
  · rintro ⟨k, hends, hfirst, hle, hlt⟩
    refine ⟨fun hearly => ?_, k, hlt, hends⟩
    obtain ⟨j, hj, hendsj⟩ := hearly
    exact hfirst j (Nat.lt_of_lt_of_le hj hle) hendsj

/-- A marker that comes with its LF in the next piece, behind another line. -/
theorem feedUntil_split_marker :
    jitAckInit [0x6f, 0x6b] = some (.init [0x6f, 0x6b])
      ∧ (JITAck.init [0x6f, 0x6b]).feedUntil [[0x78, 0x0a, 0x6f], [0x6b, 0x0d], [0x0a]] = some 2
      ∧ HasAck [0x6f, 0x6b] [[0x78, 0x0a, 0x6f], [0x6b, 0x0d], [0x0a]].flatten := by
  have hinit : jitAckInit [0x6f, 0x6b] = some (.init [0x6f, 0x6b]) := by decide
  refine ⟨hinit, by decide, ?_⟩
  exact (feedUntil_eq_some_iff hinit _).1.mp (by decide)

end Juice
