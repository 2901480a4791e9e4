import Juice.Launch.Utf8Stream

/-!
# What the sanitizer writes

`JuiceUTF8Sanitize` copies the well-formed sequences of a buffer and writes
U+FFFD for every byte that is in none, until the room it was given is used
up. Well-formed here means the table of the Unicode standard, written out
below as it stands there: nine rows, each with a range for every byte of a
sequence. `scalar` has the same table folded into a few comparisons
(`sequence_iff_row`).

The one fact about the loop is that what it has written is well-formed, and
together with what a call without a limit makes of the rest is what a call
without a limit makes of the whole (`sanitizeLoop_spec`). Everything else
follows.
-/

namespace Juice

variable {a b : UInt8}

/-! ## The table of well-formed sequences -/

/-- **Table 3-7, Well-Formed UTF-8 Byte Sequences**: the lowest and the
highest value of each byte. -/
def wellFormedRows : List (List (UInt8 × UInt8)) :=
  [[(0x00, 0x7f)],
   [(0xc2, 0xdf), (0x80, 0xbf)],
   [(0xe0, 0xe0), (0xa0, 0xbf), (0x80, 0xbf)],
   [(0xe1, 0xec), (0x80, 0xbf), (0x80, 0xbf)],
   [(0xed, 0xed), (0x80, 0x9f), (0x80, 0xbf)],
   [(0xee, 0xef), (0x80, 0xbf), (0x80, 0xbf)],
   [(0xf0, 0xf0), (0x90, 0xbf), (0x80, 0xbf), (0x80, 0xbf)],
   [(0xf1, 0xf3), (0x80, 0xbf), (0x80, 0xbf), (0x80, 0xbf)],
   [(0xf4, 0xf4), (0x80, 0x8f), (0x80, 0xbf), (0x80, 0xbf)]]

/-- A sequence of bytes, each in its range. -/
def InRow : List (UInt8 × UInt8) → List UInt8 → Prop
  | [], [] => True
  | range :: row, b :: q => (range.1 ≤ b ∧ b ≤ range.2) ∧ InRow row q
  | [], _ :: _ => False
  | _ :: _, [] => False

/-- **Well-formed UTF-8**: one sequence of the table after the other. -/
def WellFormed (s : List UInt8) : Prop :=
  ∃ sequences : List (List UInt8), s = sequences.flatten
    ∧ ∀ q ∈ sequences, ∃ row ∈ wellFormedRows, InRow row q

theorem continuation_iff_between (b : UInt8) : IsContinuation b ↔ 0x80 ≤ b ∧ b ≤ 0xbf := by
  rw [continuation_iff, UInt8.le_iff_toNat_le, UInt8.le_iff_toNat_le]
  show 0x80 ≤ b.toNat ∧ b.toNat < 0xc0 ↔ 0x80 ≤ b.toNat ∧ b.toNat ≤ 0xbf
  omega

/-- The comparisons of `scalar` on the first two bytes, row by row. -/
theorem leaves_rows :
    (0xe0 ≤ a ∧ a ≤ 0xef ∧ Leaves a b ∧ IsContinuation b
      ↔ ((0xe0 ≤ a ∧ a ≤ 0xe0) ∧ 0xa0 ≤ b ∧ b ≤ 0xbf)
        ∨ ((0xe1 ≤ a ∧ a ≤ 0xec) ∧ 0x80 ≤ b ∧ b ≤ 0xbf)
        ∨ ((0xed ≤ a ∧ a ≤ 0xed) ∧ 0x80 ≤ b ∧ b ≤ 0x9f)
        ∨ ((0xee ≤ a ∧ a ≤ 0xef) ∧ 0x80 ≤ b ∧ b ≤ 0xbf))
    ∧ (0xf0 ≤ a ∧ a ≤ 0xf4 ∧ Leaves a b ∧ IsContinuation b
      ↔ ((0xf0 ≤ a ∧ a ≤ 0xf0) ∧ 0x90 ≤ b ∧ b ≤ 0xbf)
        ∨ ((0xf1 ≤ a ∧ a ≤ 0xf3) ∧ 0x80 ≤ b ∧ b ≤ 0xbf)
        ∨ ((0xf4 ≤ a ∧ a ≤ 0xf4) ∧ 0x80 ≤ b ∧ b ≤ 0x8f)) := by
  rw [leaves_iff, continuation_iff]
  simp only [UInt8.le_iff_toNat_le, UInt8.reduceToNat]
  omega

theorem sequence_one : Sequence [a] ↔ 0 ≤ a ∧ a ≤ 0x7f := by
  simp only [UInt8.le_iff_toNat_le, UInt8.reduceToNat, Nat.zero_le, true_and]
  constructor
  · rintro (ha | _ | _ | _)
    exact Nat.le_of_lt_succ (UInt8.lt_iff_toNat_lt.mp ha)
  · exact fun ha => .one (UInt8.lt_iff_toNat_lt.mpr (Nat.lt_succ_of_le ha))

theorem sequence_two : Sequence [a, b] ↔ (0xc2 ≤ a ∧ a ≤ 0xdf) ∧ IsContinuation b := by
  constructor
  · rintro (_ | ⟨ha, hb⟩ | _ | _)
    exact ⟨ha, hb⟩
  · exact fun h => .two h.1 h.2

theorem sequence_three {c : UInt8} :
    Sequence [a, b, c]
      ↔ (0xe0 ≤ a ∧ a ≤ 0xef ∧ Leaves a b ∧ IsContinuation b) ∧ IsContinuation c := by
  constructor
  · rintro (_ | _ | ⟨ha, hl, hb, hc⟩ | _)
    exact ⟨⟨ha.1, ha.2, hl, hb⟩, hc⟩
  · exact fun h => .three ⟨h.1.1, h.1.2.1⟩ h.1.2.2.1 h.1.2.2.2 h.2

theorem sequence_four {c d : UInt8} :
    Sequence [a, b, c, d]
      ↔ (0xf0 ≤ a ∧ a ≤ 0xf4 ∧ Leaves a b ∧ IsContinuation b) ∧ IsContinuation c
        ∧ IsContinuation d := by
  constructor
  · rintro (_ | _ | _ | ⟨ha, hl, hb, hc, hd⟩)
    exact ⟨⟨ha.1, ha.2, hl, hb⟩, hc, hd⟩
  · exact fun h => .four ⟨h.1.1, h.1.2.1⟩ h.1.2.2.1 h.1.2.2.2 h.2.1 h.2.2

/-- **`scalar` takes the sequences of the table** and no others. -/
theorem sequence_iff_row (q : List UInt8) : Sequence q ↔ ∃ row ∈ wellFormedRows, InRow row q := by
  -- By the length; the rows of another length match nothing.
  unfold wellFormedRows
  simp only [List.mem_cons, List.not_mem_nil, or_false, exists_eq_or_imp, exists_eq_left]
  rcases q with _ | ⟨a, _ | ⟨b, _ | ⟨c, _ | ⟨d, _ | ⟨e, q⟩⟩⟩⟩⟩
  case nil =>
    simp only [InRow, or_false]
    exact iff_of_false (fun h => by cases h) id
  case cons.nil =>
    rw [sequence_one]
    simp only [InRow, and_false, and_true, or_false]
  case cons.cons.nil =>
    rw [sequence_two, continuation_iff_between]
    simp only [InRow, and_false, and_true, or_false, false_or]
  case cons.cons.cons.nil =>
    rw [sequence_three, leaves_rows.1, continuation_iff_between]
    simp only [InRow, and_false, and_true, or_false, false_or, or_and_right, and_assoc]
  case cons.cons.cons.cons.nil =>
    rw [sequence_four, leaves_rows.2, continuation_iff_between, continuation_iff_between]
    simp only [InRow, and_false, and_true, false_or, or_and_right, and_assoc]
  case cons.cons.cons.cons.cons =>
    simp only [InRow, and_false, or_false]
    exact iff_of_false (fun h => by cases h) id

theorem wellFormed_nil : WellFormed [] := ⟨[], rfl, fun _ h => absurd h List.not_mem_nil⟩

theorem WellFormed.cons {q s : List UInt8} (hq : Sequence q) (hs : WellFormed s) :
    WellFormed (q ++ s) := by
  obtain ⟨sequences, rfl, hall⟩ := hs
  refine ⟨q :: sequences, rfl, fun q' hq' => ?_⟩
  rcases List.mem_cons.mp hq' with rfl | hq'
  · exact (sequence_iff_row _).mp hq
  · exact hall q' hq'

theorem sequence_replacement : Sequence replacement := by
  refine .three ⟨by decide, by decide⟩ ?_ ?_ ?_
  · rw [leaves_iff]
    decide
  · rw [continuation_iff]
    decide
  · rw [continuation_iff]
    decide

/-! ## With room enough -/

/-- **Well-formed text is left alone.** -/
theorem clean_of_wellFormed {s : List UInt8} (h : WellFormed s) : clean s = s := by
  obtain ⟨sequences, rfl, hall⟩ := h
  induction sequences with
  | nil => exact clean_nil
  | cons q sequences ih =>
    have hq : Sequence q := (sequence_iff_row q).mpr (hall q List.mem_cons_self)
    have hpos : 0 < q.length := by
      cases hq <;> exact Nat.succ_pos _
    show utf8.scan replacement (q ++ sequences.flatten) = q ++ sequences.flatten
    rw [Scanner.scan_token _ _ (by rw [hq.width]; exact hpos), hq.width, List.take_left,
      List.drop_left]
    exact congrArg (q ++ ·) (ih fun q' hq' => hall q' (List.mem_cons_of_mem _ hq'))

/-! ## With any room -/

/-- **What one turn does**: a sequence is copied, or a byte replaced; in
both cases something well-formed is written for what is consumed. -/
theorem sanitizeLoop_spec (s : List UInt8) (room : ℕ) :
    (sanitizeLoop s room).1.length ≤ room ∧ WellFormed (sanitizeLoop s room).1
      ∧ (sanitizeLoop s room).2 ≤ s.length
      ∧ clean s = (sanitizeLoop s room).1 ++ clean (s.drop (sanitizeLoop s room).2) := by
  fun_induction sanitizeLoop s room with
  | case1 room => exact ⟨Nat.zero_le _, wellFormed_nil, Nat.le_refl _, rfl⟩
  | case2 room a rest width emitted hroom =>
    exact ⟨Nat.zero_le _, wellFormed_nil, Nat.zero_le _, rfl⟩
  | case3 room a rest width emitted hroom hpos r ih =>
    obtain ⟨hlen, hwell, hle, heq⟩ := ih
    have hlen : r.1.length ≤ room - emitted := hlen
    have hle : r.2 ≤ ((a :: rest).drop width.toNat).length := hle
    have hwidth : 0 < utf8.width (a :: rest) := by
      show 0 < (scalar (a :: rest)).toNat
      omega
    have hemitted : emitted = width.toNat := if_pos hpos
    have htake : ((a :: rest).take width.toNat).length = width.toNat := by
      rw [List.length_take]
      exact Nat.min_eq_left (scalar_le (a :: rest))
    rw [List.length_drop] at hle
    refine ⟨?_, ?_, ?_, ?_⟩
    · rw [List.length_append, htake]
      omega
    · exact .cons (sequence_take hwidth) hwell
    · have := scalar_le (a :: rest)
      omega
    · rw [List.append_assoc, ← List.drop_drop, ← heq]
      exact Scanner.scan_token _ _ hwidth
  | case4 room a rest width emitted hroom hpos r ih =>
    obtain ⟨hlen, hwell, hle, heq⟩ := ih
    have hlen : r.1.length ≤ room - emitted := hlen
    have hle : r.2 ≤ rest.length := hle
    have hwidth : utf8.width (a :: rest) = 0 := by
      show (scalar (a :: rest)).toNat = 0
      omega
    have hemitted : emitted = 3 := if_neg hpos
    refine ⟨?_, .cons sequence_replacement hwell, ?_, ?_⟩
    · rw [List.length_append]
      show 3 + r.1.length ≤ room
      omega
    · rw [List.length_cons]
      omega
    · rw [List.append_assoc, Nat.add_comm, List.drop_succ_cons, ← heq]
      exact Scanner.scan_other _ _ hwidth

theorem sanitize_spec (s : List UInt8) (cap : ℕ) :
    (sanitize s cap).1.length ≤ cap ∧ WellFormed (sanitize s cap).1
      ∧ (sanitize s cap).2 ≤ s.length
      ∧ clean s = (sanitize s cap).1 ++ clean (s.drop (sanitize s cap).2) := sanitizeLoop_spec s cap

/-- **`JuiceUTF8Sanitize`**, for every buffer and every capacity. It writes
at most the capacity, and what it writes is well-formed. Three bytes of room
for each byte are enough to consume everything; well-formed text is then
left alone, and so is what an earlier call wrote. If it stops early, what it
wrote and what a call on the rest writes are what one call with enough room
writes. -/
theorem sanitize_sound (s : List UInt8) (cap : ℕ) :
    (sanitize s cap).1.length ≤ cap
    ∧ WellFormed (sanitize s cap).1
    ∧ (3 * s.length ≤ cap →
        (sanitize s cap).2 = s.length
        ∧ (WellFormed s → (sanitize s cap).1 = s)
        ∧ ∀ cap', 3 * (sanitize s cap).1.length ≤ cap' →
            (sanitize (sanitize s cap).1 cap').1 = (sanitize s cap).1)
    ∧ (sanitize s cap).2 ≤ s.length
    ∧ ∀ capRest capAll, 3 * (s.drop (sanitize s cap).2).length ≤ capRest → 3 * s.length ≤ capAll →
        (sanitize s cap).1 ++ (sanitize (s.drop (sanitize s cap).2) capRest).1
          = (sanitize s capAll).1 := by
  obtain ⟨hlen, hwell, hle, heq⟩ := sanitize_spec s cap
  refine ⟨hlen, hwell, fun hcap => ?_, hle, fun capRest capAll hrest hall => ?_⟩
  · refine ⟨by rw [sanitize_eq hcap], fun hs => ?_, fun cap' hcap' => ?_⟩
    · rw [sanitize_eq hcap]
      exact clean_of_wellFormed hs
    · rw [sanitize_eq hcap']
      exact clean_of_wellFormed hwell
  · rw [sanitize_eq hrest, sanitize_eq hall]
    exact heq.symm

end Juice
