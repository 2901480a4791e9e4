import Mathlib.Data.Int.Notation
import Juice.Lib.Scanner

/-!
# UTF-8 in the output of a child

The output of a child is bytes, mostly UTF-8. `scalar` reads the sequence at
the head of a buffer and tells whether it is complete, cut off by the end of
the buffer, or malformed; `JuiceUTF8CompletePrefix` finds where a buffer may
be cut without severing a sequence, and `JuiceUTF8Sanitize` copies a buffer
with U+FFFD in the place of every byte that is in no sequence.

As a scanner `scalar` recognises exactly the encodings of the Unicode
scalar values.
-/

namespace Juice

open List

variable {a b : UInt8} {bs s : List UInt8}

/-! ## The code -/

/-- The length that a lead byte announces, −1 for a byte that is none. -/
def need (a : UInt8) : ℤ :=
  if 0xc2 ≤ a ∧ a ≤ 0xdf then 2
  else if 0xe0 ≤ a ∧ a ≤ 0xef then 3
  else if 0xf0 ≤ a ∧ a ≤ 0xf4 then 4
  else -1

/-- The loop of `scalar`, over the bytes that are there, from the index `i`:
they are continuation bytes, and the first of them is in the range that the
lead byte leaves. -/
def trail (a : UInt8) (i : ℕ) : List UInt8 → Bool
  | [] => true
  | b :: bs =>
    if b &&& 0xc0 ≠ 0x80 then false
    else if i = 1 ∧ ((a = 0xe0 ∧ b < 0xa0) ∨ (a = 0xed ∧ 0xa0 ≤ b) ∨ (a = 0xf0 ∧ b < 0x90)
        ∨ (a = 0xf4 ∧ 0x90 ≤ b)) then false
    else trail a (i + 1) bs

/-- **`scalar`**: the length of the sequence at the head; 0 if it is
incomplete, −1 if it is malformed. -/
def scalar : List UInt8 → ℤ
  | [] => 0
  | a :: rest =>
    if a < 0x80 then 1
    else if need a < 0 then -1
    else if !trail a 1 (rest.take ((need a).toNat - 1)) then -1
    else if (rest.length + 1 : ℤ) < need a then 0
    else need a

/-- **`JuiceUTF8CompletePrefix`.** -/
def completePrefix (s : List UInt8) : ℕ :=
  let start := if 3 < s.length then s.length - 3 else 0
  ((List.range' start (s.length - start)).find? (fun i => scalar (s.drop i) = 0)).getD s.length

/-- U+FFFD. -/
def replacement : List UInt8 := [0xef, 0xbf, 0xbd]

theorem scalar_le (s : List UInt8) : (scalar s).toNat ≤ s.length := by
  unfold scalar
  split
  · simp
  · rename_i a rest
    rw [length_cons]
    split_ifs <;> omega

/-- The loop of `JuiceUTF8Sanitize`: what is written to a buffer with room
for `room` more bytes, and how many bytes are consumed. -/
def sanitizeLoop (s : List UInt8) (room : ℕ) : List UInt8 × ℕ :=
  match s with
  | [] => ([], 0)
  | a :: rest =>
    let width := scalar (a :: rest)
    let emitted := if 0 < width then width.toNat else 3
    if room < emitted then ([], 0)
    else if 0 < width then
      let r := sanitizeLoop ((a :: rest).drop width.toNat) (room - emitted)
      ((a :: rest).take width.toNat ++ r.1, width.toNat + r.2)
    else
      let r := sanitizeLoop rest (room - emitted)
      (replacement ++ r.1, 1 + r.2)
termination_by s.length
decreasing_by
  · rw [List.length_drop]
    have := scalar_le (a :: rest)
    omega
  · exact Nat.lt_succ_self _

/-- **`JuiceUTF8Sanitize`**: what is written to `out`, and `consumed`. -/
def sanitize (s : List UInt8) (cap : ℕ) : List UInt8 × ℕ := sanitizeLoop s cap

/-! ## The scanner -/

/-- The length that a byte at the head announces, 0 for a byte that begins no
sequence. -/
def announced (a : UInt8) : ℕ := if a < 0x80 then 1 else (need a).toNat

theorem announced_le (a : UInt8) : announced a ≤ 4 := by
  unfold announced need
  split_ifs <;> decide

theorem scalar_cons (a : UInt8) (rest : List UInt8) :
    scalar (a :: rest) =
      if a < 0x80 then 1
      else if need a < 0 then -1
      else if !trail a 1 (rest.take ((need a).toNat - 1)) then -1
      else if (rest.length + 1 : ℤ) < need a then 0
      else need a := rfl

theorem scalar_cons_toNat (a : UInt8) (rest : List UInt8) :
    (scalar (a :: rest)).toNat
      = if trail a 1 (rest.take (announced a - 1)) ∧ announced a ≤ rest.length + 1
        then announced a else 0 := by
  unfold scalar announced
  by_cases ha : a < 0x80
  · simp [ha, trail]
  · have hneed : need a < 0 ∨ 0 < need a := by
      unfold need
      split_ifs <;> decide
    rcases hneed with hneg | hpos
    · have hzero : (need a).toNat = 0 := by omega
      simp [ha, hneg, hzero]
    · have hn : ¬ need a < 0 := by omega
      simp only [ha, if_false, hn]
      cases htr : trail a 1 (rest.take ((need a).toNat - 1))
      · simp
      · by_cases hlen : (rest.length + 1 : ℤ) < need a
        · rw [if_neg (by simp), if_pos hlen, if_neg (by omega)]
          rfl
        · rw [if_neg (by simp), if_neg hlen, if_pos ⟨rfl, by omega⟩]

/-- Whether there is a sequence depends on its own bytes. -/
theorem take_announced {rest : List UInt8} (h : announced a ≤ rest.length + 1) (t : List UInt8) :
    (rest ++ t).take (announced a - 1) = rest.take (announced a - 1) :=
  take_append_of_le_length (by omega)

/-- **`scalar` as a scanner.** -/
def utf8 : Scanner UInt8 where
  width s := (scalar s).toNat
  width_le := scalar_le
  width_append s t h := by
    cases s with
    | nil => exact absurd h (by decide)
    | cons a rest =>
      rw [List.cons_append, scalar_cons_toNat, scalar_cons_toNat]
      rw [scalar_cons_toNat] at h
      split_ifs at h with hs
      · have hlen : announced a ≤ (rest ++ t).length + 1 := by
          rw [List.length_append]
          omega
        rw [if_pos hs, take_announced hs.2, if_pos ⟨hs.1, hlen⟩]
      · exact absurd h (Nat.lt_irrefl 0)
  width_of_append s t h := by
    cases s with
    | nil => exact (Nat.le_zero.mp h).symm
    | cons a rest =>
      rw [List.cons_append, scalar_cons_toNat] at h ⊢
      rw [scalar_cons_toNat]
      by_cases hlen : announced a ≤ rest.length + 1
      · have hlen' : announced a ≤ (rest ++ t).length + 1 := by
          rw [List.length_append]
          omega
        simp only [take_announced hlen, hlen, hlen']
      · -- the whole has no sequence at its head, or `s` would hold it
        have hnot : ¬ (trail a 1 ((rest ++ t).take (announced a - 1)) = true
            ∧ announced a ≤ (rest ++ t).length + 1) := by
          intro hboth
          rw [if_pos hboth] at h
          exact hlen h
        rw [if_neg (fun hboth => hlen hboth.2), if_neg hnot]

theorem width_cons (a : UInt8) (rest : List UInt8) :
    utf8.width (a :: rest)
      = if trail a 1 (rest.take (announced a - 1)) ∧ announced a ≤ rest.length + 1
        then announced a else 0 := by
  rw [← scalar_cons_toNat]
  rfl

@[simp] theorem width_nil : utf8.width [] = 0 := rfl

theorem width_le_four (s : List UInt8) : utf8.width s ≤ 4 := by
  cases s with
  | nil => rw [width_nil]; exact Nat.zero_le _
  | cons a rest =>
    rw [width_cons]
    split_ifs
    · exact announced_le a
    · exact Nat.zero_le _

/-! ## Continuation bytes -/

/-- A byte that is not the first of a sequence. -/
def IsContinuation (b : UInt8) : Prop := b &&& 0xc0 = 0x80

theorem trail_continuation {i : ℕ} (h : trail a i bs = true) : ∀ b ∈ bs, IsContinuation b := by
  induction bs generalizing i with
  | nil => exact nofun
  | cons b bs ih =>
    unfold trail at h
    split_ifs at h with hb
    intro c hc
    rcases mem_cons.mp hc with rfl | hc
    · exact not_not.mp hb
    · exact ih h c hc

/-- **The bytes of a sequence after the first are continuation bytes.** -/
theorem continuation_of_lt_width {j : ℕ} (hj : 0 < j) (hlt : j < utf8.width s) (hb : s[j]? = some b) :
    IsContinuation b := by
  cases s with
  | nil => cases hb
  | cons a rest =>
    rw [width_cons] at hlt
    split_ifs at hlt with h
    · obtain ⟨k, rfl⟩ := Nat.exists_eq_succ_of_ne_zero (Nat.ne_of_gt hj)
      refine trail_continuation h.1 b (mem_of_getElem? (i := k) ?_)
      rw [List.getElem?_take_of_lt (by omega)]
      simpa using hb
    · cases hlt

/-- A continuation byte begins no sequence. -/
theorem need_of_continuation (h : IsContinuation b) : need b < 0 ∧ ¬ b < 0x80 := by
  have hall : ∀ x : BitVec 8, (UInt8.ofBitVec x) &&& 0xc0 = 0x80 →
      need (UInt8.ofBitVec x) < 0 ∧ ¬ UInt8.ofBitVec x < 0x80 := by
    decide +kernel
  exact hall b.toBitVec h

/-- An incomplete sequence begins with a lead byte. -/
theorem not_continuation_of_scalar_eq_zero {rest : List UInt8} (h : scalar (a :: rest) = 0) :
    ¬ IsContinuation a := by
  intro hcont
  obtain ⟨hneed, hge⟩ := need_of_continuation hcont
  rw [scalar_cons, if_neg hge, if_pos hneed] at h
  cases h

theorem trail_of_append {i : ℕ} {cs : List UInt8} (h : trail a i (bs ++ cs) = true) :
    trail a i bs = true := by
  induction bs generalizing i with
  | nil => rfl
  | cons b bs ih =>
    rw [cons_append, trail] at h
    split_ifs at h with hb hr
    rw [trail, if_neg hb, if_neg hr]
    exact ih h

/-- A sequence that the end of the buffer cuts off is incomplete. -/
theorem scalar_eq_zero_of_severed {t : List UInt8} (hs : s ≠ [])
    (h : s.length < utf8.width (s ++ t)) : scalar s = 0 := by
  cases s with
  | nil => exact absurd rfl hs
  | cons a rest =>
    rw [cons_append, width_cons] at h
    split_ifs at h with hw
    case neg => exact absurd h (Nat.not_lt_zero _)
    rw [length_cons] at h
    have hge : ¬ a < 0x80 := by
      intro ha
      rw [announced, if_pos ha] at h
      omega
    rw [announced, if_neg hge] at hw h
    have htrail : trail a 1 rest = true := by
      have htake := hw.1
      rw [take_append, take_of_length_le (by omega)] at htake
      exact trail_of_append htake
    rw [scalar_cons, if_neg hge, if_neg (by omega), take_of_length_le (by omega), htrail,
      if_neg (by simp), if_pos (by omega)]

/-! ## Cuts -/

/-- **A buffer may be cut before a byte of ASCII** … -/
theorem cut_before (hb : b < 0x80) (s t : List UInt8) : utf8.Cut s ([b] ++ t) := by
  intro i hi
  by_contra hcon
  rw [Nat.not_le] at hcon
  -- a sequence across the cut would have the byte as a later byte
  have hget : (s.drop i ++ ([b] ++ t))[s.length - i]? = some b := by
    rw [List.getElem?_append_right (Nat.le_of_eq length_drop),
      length_drop, Nat.sub_self]
    rfl
  have hcont := continuation_of_lt_width (by omega) (by omega) hget
  exact (need_of_continuation hcont).2 hb

/-- … and after it. -/
theorem cut_after (hb : b < 0x80) (s t : List UInt8) : utf8.Cut (s ++ [b]) t := by
  refine (cut_before hb s t).append ?_
  intro i hi
  rw [length_singleton] at hi ⊢
  obtain rfl : i = 0 := by omega
  have hone : announced b = 1 := if_pos hb
  rw [drop_zero, singleton_append, width_cons, hone]
  split_ifs <;> omega

/-- The first incomplete sequence among the last three bytes, if there is one. -/
theorem completePrefix_cases (s : List UInt8) :
    (completePrefix s = s.length
      ∧ ∀ i, i < s.length → s.length < i + 4 → scalar (s.drop i) ≠ 0)
    ∨ (completePrefix s < s.length ∧ s.length ≤ completePrefix s + 3
      ∧ scalar (s.drop (completePrefix s)) = 0) := by
  unfold completePrefix
  extract_lets start
  have hstart : s.length ≤ start + 3 ∧ ∀ i, s.length < i + 4 → start ≤ i := by
    have hdef : start = if 3 < s.length then s.length - 3 else 0 := rfl
    split_ifs at hdef
    · exact ⟨by omega, fun i _ => by omega⟩
    · exact ⟨by omega, fun i _ => by omega⟩
  cases hfind : (List.range' start (s.length - start)).find? (fun i => scalar (s.drop i) = 0) with
  | none =>
    refine .inl ⟨rfl, fun i hi hlast => ?_⟩
    have hmem : i ∈ List.range' start (s.length - start) := by
      have := hstart.2 i hlast
      rw [mem_range'_1]
      omega
    simpa using List.find?_eq_none.mp hfind i hmem
  | some k =>
    have hmem := mem_of_find?_eq_some hfind
    have hzero := List.find?_some hfind
    rw [mem_range'_1] at hmem
    refine .inr ⟨?_, ?_, by simpa using hzero⟩
    · show k < s.length
      omega
    · show s.length ≤ k + 3
      have := hstart.1
      omega

/-- **A buffer may be cut where `JuiceUTF8CompletePrefix` says**, whatever is
read after it. -/
theorem cut_completePrefix (s t : List UInt8) :
    utf8.Cut (s.take (completePrefix s)) (s.drop (completePrefix s) ++ t) := by
  intro i hi
  rw [length_take] at hi ⊢
  have hjoin : (s.take (completePrefix s)).drop i ++ (s.drop (completePrefix s) ++ t)
      = s.drop i ++ t := by
    rw [← append_assoc, ← drop_append_of_le_length (by rw [length_take]; omega),
      take_append_drop]
  rw [hjoin]
  by_contra hcon
  rw [Nat.not_le] at hcon
  have hfour := width_le_four (s.drop i ++ t)
  rcases completePrefix_cases s with ⟨hall, hnone⟩ | ⟨hlt, -, hzero⟩
  · rw [hall, Nat.min_self] at hi hcon
    refine hnone i hi (by omega) (scalar_eq_zero_of_severed (t := t) ?_ ?_)
    · exact ne_nil_of_length_pos (by rw [length_drop]; omega)
    · rw [length_drop]
      omega
  · -- the byte at the cut is a lead byte, and would be a later byte of the sequence
    rw [Nat.min_eq_left (Nat.le_of_lt hlt)] at hi hcon
    have hb : (s.drop i ++ t)[completePrefix s - i]? = some (s[completePrefix s]) := by
      rw [List.getElem?_append_left (by rw [length_drop]; omega), List.getElem?_drop,
        Nat.add_sub_cancel' (Nat.le_of_lt hi)]
      exact List.getElem?_eq_getElem hlt
    have hcont := continuation_of_lt_width (by omega) (by omega) hb
    rw [drop_eq_getElem_cons hlt] at hzero
    exact not_continuation_of_scalar_eq_zero hzero hcont

/-! ## Encodings -/

/-- The UTF-8 of a text. -/
def encode (text : List Char) : List UInt8 := text.flatMap String.utf8EncodeChar

/-- Two texts have two encodings. -/
theorem eq_of_encode_eq {a b : List Char} (h : encode a = encode b) : a = b := by
  have hbytes : a.utf8Encode = b.utf8Encode := congrArg List.toByteArray h
  have hdecode := congrArg ByteArray.utf8Decode? hbytes
  rw [List.utf8Decode?_utf8Encode, List.utf8Decode?_utf8Encode] at hdecode
  exact congrArg Array.toList (Option.some.inj hdecode)

theorem continuation_iff (b : UInt8) : IsContinuation b ↔ 0x80 ≤ b.toNat ∧ b.toNat < 0xc0 := by
  have hall : ∀ x : BitVec 8, (UInt8.ofBitVec x) &&& 0xc0 = 0x80
      ↔ 0x80 ≤ (UInt8.ofBitVec x).toNat ∧ (UInt8.ofBitVec x).toNat < 0xc0 := by
    decide +kernel
  exact hall b.toBitVec

theorem trail_later {i : ℕ} (hi : 1 < i) (h : ∀ b ∈ bs, IsContinuation b) :
    trail a i bs = true := by
  induction bs generalizing i with
  | nil => rfl
  | cons b bs ih =>
    have hb : ¬ (b &&& 0xc0 ≠ 0x80) := not_not.mpr (h b mem_cons_self)
    rw [trail, if_neg hb, if_neg (fun hr => absurd hr.1 (by omega))]
    exact ih (by omega) (fun c hc => h c (mem_cons_of_mem _ hc))

/-- The range that a lead byte leaves for the byte after it: no longer
encoding than necessary, no surrogate, nothing beyond the last scalar value. -/
def Leaves (a b : UInt8) : Prop :=
  ¬ ((a = 0xe0 ∧ b < 0xa0) ∨ (a = 0xed ∧ 0xa0 ≤ b) ∨ (a = 0xf0 ∧ b < 0x90)
    ∨ (a = 0xf4 ∧ 0x90 ≤ b))

theorem trail_one (hb : IsContinuation b) (hl : Leaves a b) (hbs : ∀ c ∈ bs, IsContinuation c) :
    trail a 1 (b :: bs) = true := by
  have hb' : ¬ (b &&& 0xc0 ≠ 0x80) := not_not.mpr hb
  rw [trail, if_neg hb', if_neg (fun hr => hl hr.2)]
  exact trail_later (by decide) hbs

theorem leaves_of_trail (h : trail a 1 (b :: bs) = true) : Leaves a b := by
  rw [trail] at h
  split_ifs at h with hb hr
  exact fun hbad => hr ⟨rfl, hbad⟩

/-- **A well-formed sequence**, by its length. -/
inductive Sequence : List UInt8 → Prop
  | one {a : UInt8} (ha : a < 0x80) : Sequence [a]
  | two {a b : UInt8} (ha : 0xc2 ≤ a ∧ a ≤ 0xdf) (hb : IsContinuation b) : Sequence [a, b]
  | three {a b c : UInt8} (ha : 0xe0 ≤ a ∧ a ≤ 0xef) (hl : Leaves a b)
    (hb : IsContinuation b) (hc : IsContinuation c) : Sequence [a, b, c]
  | four {a b c d : UInt8} (ha : 0xf0 ≤ a ∧ a ≤ 0xf4) (hl : Leaves a b)
    (hb : IsContinuation b) (hc : IsContinuation c) (hd : IsContinuation d) :
    Sequence [a, b, c, d]

/-- What a lead byte announces, and the bytes that announce it. -/
theorem announced_cases (a : UInt8) :
    (announced a = 1 ∧ a < 0x80) ∨ (announced a = 2 ∧ 0xc2 ≤ a ∧ a ≤ 0xdf)
    ∨ (announced a = 3 ∧ 0xe0 ≤ a ∧ a ≤ 0xef) ∨ (announced a = 4 ∧ 0xf0 ≤ a ∧ a ≤ 0xf4)
    ∨ announced a = 0 := by
  unfold announced need
  split_ifs with h1 h2 h3 h4
  · exact .inl ⟨rfl, h1⟩
  · exact .inr (.inl ⟨rfl, h2⟩)
  · exact .inr (.inr (.inl ⟨rfl, h3⟩))
  · exact .inr (.inr (.inr (.inl ⟨rfl, h4⟩)))
  · exact .inr (.inr (.inr (.inr rfl)))

theorem Sequence.width {q : List UInt8} (h : Sequence q) (t : List UInt8) :
    utf8.width (q ++ t) = q.length := by
  have hann : ∀ x : BitVec 8, (UInt8.ofBitVec x < 0x80 → announced (.ofBitVec x) = 1)
      ∧ (0xc2 ≤ UInt8.ofBitVec x ∧ UInt8.ofBitVec x ≤ 0xdf → announced (.ofBitVec x) = 2)
      ∧ (0xe0 ≤ UInt8.ofBitVec x ∧ UInt8.ofBitVec x ≤ 0xef → announced (.ofBitVec x) = 3)
      ∧ (0xf0 ≤ UInt8.ofBitVec x ∧ UInt8.ofBitVec x ≤ 0xf4 → announced (.ofBitVec x) = 4) := by
    decide +kernel
  cases h with
  | @one a ha =>
    have h1 : announced a = 1 := (hann a.toBitVec).1 ha
    rw [cons_append, width_cons, h1, if_pos ⟨rfl, by omega⟩]
    rfl
  | @two a b ha hb =>
    have h2 : announced a = 2 := (hann a.toBitVec).2.1 ha
    have hl : Leaves a b := by
      rintro (⟨rfl, -⟩ | ⟨rfl, -⟩ | ⟨rfl, -⟩ | ⟨rfl, -⟩) <;> revert ha <;> decide
    rw [cons_append, width_cons, h2, if_pos ⟨trail_one hb hl nofun, by simp⟩]
    rfl
  | @three a b c ha hl hb hc =>
    have h3 : announced a = 3 := (hann a.toBitVec).2.2.1 ha
    have htr : trail a 1 [b, c] = true := trail_one hb hl (by simpa using hc)
    rw [cons_append, width_cons, h3, if_pos ⟨htr, by simp⟩]
    rfl
  | @four a b c d ha hl hb hc hd =>
    have h4 : announced a = 4 := (hann a.toBitVec).2.2.2 ha
    have htr : trail a 1 [b, c, d] = true := trail_one hb hl (by simpa using ⟨hc, hd⟩)
    rw [cons_append, width_cons, h4, if_pos ⟨htr, by simp⟩]
    rfl

theorem sequence_take (h : 0 < utf8.width s) : Sequence (s.take (utf8.width s)) := by
  cases s with
  | nil => exact absurd h (by decide)
  | cons a rest =>
    rw [width_cons] at h ⊢
    split_ifs at h ⊢ with hw
    case neg => exact absurd h (Nat.lt_irrefl 0)
    obtain ⟨htr, hlen⟩ := hw
    have hcont := trail_continuation htr
    rcases announced_cases a with ⟨hn, ha⟩ | ⟨hn, ha⟩ | ⟨hn, ha⟩ | ⟨hn, ha⟩ | hn
    · rw [hn]
      exact .one ha
    · rw [hn] at hlen htr hcont ⊢
      match rest, hlen, htr, hcont with
      | b :: _, _, htr, hcont => exact .two ha (hcont b (by simp))
    · rw [hn] at hlen htr hcont ⊢
      match rest, hlen, htr, hcont with
      | b :: c :: _, _, htr, hcont =>
        exact .three ha (leaves_of_trail htr) (hcont b (by simp)) (hcont c (by simp))
    · rw [hn] at hlen htr hcont ⊢
      match rest, hlen, htr, hcont with
      | b :: c :: d :: _, _, htr, hcont =>
        exact .four ha (leaves_of_trail htr) (hcont b (by simp)) (hcont c (by simp))
          (hcont d (by simp))
    · omega

/-! ## Scalar values -/

theorem leaves_iff (a b : UInt8) :
    Leaves a b ↔ ¬ ((a.toNat = 0xe0 ∧ b.toNat < 0xa0) ∨ (a.toNat = 0xed ∧ 0xa0 ≤ b.toNat)
      ∨ (a.toNat = 0xf0 ∧ b.toNat < 0x90) ∨ (a.toNat = 0xf4 ∧ 0x90 ≤ b.toNat)) := by
  unfold Leaves
  simp only [← UInt8.toNat_inj, UInt8.lt_iff_toNat_lt, UInt8.le_iff_toNat_le, UInt8.reduceToNat]

theorem toNat_ofNat_of_lt {n : ℕ} (h : n < 256) : (UInt8.ofNat n).toNat = n := by
  rw [UInt8.toNat_ofNat']
  exact Nat.mod_eq_of_lt h

/-- A continuation byte by the six bits it carries. -/
theorem continuation_ofNat (n : ℕ) : IsContinuation (.ofNat (n % 0x40 + 0x80)) := by
  rw [continuation_iff, toNat_ofNat_of_lt (by omega)]
  omega

/-- A lead byte by the bits it carries. -/
theorem between_ofNat {n : ℕ} {lo hi : UInt8} (hn : n < 256)
    (h : lo.toNat ≤ n ∧ n ≤ hi.toNat) : lo ≤ .ofNat n ∧ .ofNat n ≤ hi := by
  rw [UInt8.le_iff_toNat_le, UInt8.le_iff_toNat_le, toNat_ofNat_of_lt hn]
  exact h

/-- **Every encoding is a sequence.** -/
theorem sequence_utf8EncodeChar (c : Char) : Sequence (String.utf8EncodeChar c) := by
  have hvalid : c.val.toNat < 0xd800 ∨ (0xdfff < c.val.toNat ∧ c.val.toNat < 0x110000) := c.valid
  unfold String.utf8EncodeChar
  generalize c.val.toNat = v at hvalid
  dsimp only
  split_ifs with h1 h2 h3
  · refine .one ?_
    rw [UInt8.lt_iff_toNat_lt, toNat_ofNat_of_lt (by omega)]
    show v < 0x80
    omega
  · refine .two (between_ofNat (by omega) ?_) (continuation_ofNat v)
    show 0xc2 ≤ _ ∧ _ ≤ 0xdf
    omega
  · refine .three (between_ofNat (by omega) ?_) ?_ (continuation_ofNat _) (continuation_ofNat v)
    · show 0xe0 ≤ _ ∧ _ ≤ 0xef
      omega
    · rw [leaves_iff, toNat_ofNat_of_lt (by omega), toNat_ofNat_of_lt (by omega)]
      omega
  · refine .four (between_ofNat (by omega) ?_) ?_ (continuation_ofNat _) (continuation_ofNat _)
      (continuation_ofNat v)
    · show 0xf0 ≤ _ ∧ _ ≤ 0xf4
      omega
    · rw [leaves_iff, toNat_ofNat_of_lt (by omega), toNat_ofNat_of_lt (by omega)]
      omega

theorem exists_char {v : ℕ} (h : v < 0xd800 ∨ (0xdfff < v ∧ v < 0x110000)) :
    ∃ c : Char, c.val.toNat = v :=
  ⟨Char.ofNatAux v h, rfl⟩

theorem toNat_between {lo hi : UInt8} (h : lo ≤ a ∧ a ≤ hi) :
    lo.toNat ≤ a.toNat ∧ a.toNat ≤ hi.toNat := by
  rwa [UInt8.le_iff_toNat_le, UInt8.le_iff_toNat_le] at h

/-- **Every sequence is an encoding.** -/
theorem Sequence.exists_char {q : List UInt8} (h : Sequence q) :
    ∃ c, q = String.utf8EncodeChar c := by
  have hbyte {b : UInt8} {n : ℕ} (hn : b.toNat = n) : b = .ofNat n := by
    rw [← hn, UInt8.ofNat_toNat]
  cases h with
  | @one a ha =>
    have ha' : a.toNat < 0x80 := UInt8.lt_iff_toNat_lt.mp ha
    obtain ⟨c, hc⟩ := Juice.exists_char (v := a.toNat) (by omega)
    refine ⟨c, ?_⟩
    unfold String.utf8EncodeChar
    rw [hc]
    dsimp only
    rw [if_pos (by omega), UInt8.ofNat_toNat]
  | @two a b ha hb =>
    have ha' : 0xc2 ≤ a.toNat ∧ a.toNat ≤ 0xdf := toNat_between ha
    rw [continuation_iff] at hb
    obtain ⟨c, hc⟩ := Juice.exists_char
      (v := (a.toNat - 0xc0) * 64 + (b.toNat - 0x80)) (by omega)
    refine ⟨c, ?_⟩
    unfold String.utf8EncodeChar
    rw [hc]
    dsimp only
    rw [if_neg (by omega), if_pos (by omega)]
    rw [← hbyte (b := a) (by omega), ← hbyte (b := b) (by omega)]
  | @three a b c ha hl hb hc =>
    have ha' : 0xe0 ≤ a.toNat ∧ a.toNat ≤ 0xef := toNat_between ha
    rw [leaves_iff] at hl
    rw [continuation_iff] at hb hc
    obtain ⟨x, hx⟩ := Juice.exists_char
      (v := (a.toNat - 0xe0) * 4096 + (b.toNat - 0x80) * 64 + (c.toNat - 0x80)) (by omega)
    refine ⟨x, ?_⟩
    unfold String.utf8EncodeChar
    rw [hx]
    dsimp only
    rw [if_neg (by omega), if_neg (by omega), if_pos (by omega)]
    rw [← hbyte (b := a) (by omega), ← hbyte (b := b) (by omega), ← hbyte (b := c) (by omega)]
  | @four a b c d ha hl hb hc hd =>
    have ha' : 0xf0 ≤ a.toNat ∧ a.toNat ≤ 0xf4 := toNat_between ha
    rw [leaves_iff] at hl
    rw [continuation_iff] at hb hc hd
    obtain ⟨x, hx⟩ := Juice.exists_char
      (v := (a.toNat - 0xf0) * 262144 + (b.toNat - 0x80) * 4096 + (c.toNat - 0x80) * 64
        + (d.toNat - 0x80)) (by omega)
    refine ⟨x, ?_⟩
    unfold String.utf8EncodeChar
    rw [hx]
    dsimp only
    rw [if_neg (by omega), if_neg (by omega), if_neg (by omega)]
    rw [← hbyte (b := a) (by omega), ← hbyte (b := b) (by omega), ← hbyte (b := c) (by omega),
      ← hbyte (b := d) (by omega)]

/-! ## Clean text -/

/-- **What `JuiceUTF8Sanitize` makes of a buffer** when there is room. -/
def clean (s : List UInt8) : List UInt8 := utf8.scan replacement s

@[simp] theorem clean_nil : clean [] = [] := utf8.scan_nil _

/-- Three bytes of room for each byte are room enough. -/
theorem sanitize_eq {cap : ℕ} (h : 3 * s.length ≤ cap) : sanitize s cap = (clean s, s.length) := by
  unfold sanitize clean
  induction hn : s.length using Nat.strongRecOn generalizing s cap with
  | _ n ih =>
  cases s with
  | nil =>
    rw [sanitizeLoop, Scanner.scan_nil]
    rw [← hn]
    rfl
  | cons a rest =>
    have hle : utf8.width (a :: rest) ≤ (a :: rest).length := utf8.width_le _
    have hwidth : utf8.width (a :: rest) = (scalar (a :: rest)).toNat := rfl
    rw [sanitizeLoop]
    dsimp only
    rw [length_cons] at h hn hle
    by_cases hpos : 0 < scalar (a :: rest)
    · have hdrop : ((a :: rest).drop (scalar (a :: rest)).toNat).length < n := by
        rw [length_drop, length_cons]
        omega
      have hroom : 3 * ((a :: rest).drop (scalar (a :: rest)).toNat).length
          ≤ cap - (scalar (a :: rest)).toNat := by
        rw [length_drop, length_cons]
        omega
      have hih := ih _ hdrop hroom rfl
      rw [if_pos hpos, if_neg (by omega), if_pos hpos, hih,
        Scanner.scan_token _ _ (show 0 < utf8.width (a :: rest) by omega)]
      refine Prod.ext rfl ?_
      rw [length_drop, length_cons]
      omega
    · have hroom : 3 * rest.length ≤ cap - 3 := by omega
      have hih := ih rest.length (by omega) hroom rfl
      rw [if_neg hpos, if_neg (by omega), if_neg hpos, hih,
        Scanner.scan_other _ _ (show utf8.width (a :: rest) = 0 by omega)]
      exact Prod.ext rfl (by omega)

/-- Well-formed text is clean. -/
theorem clean_encode (text : List Char) : clean (encode text) = encode text := by
  induction text with
  | nil => exact clean_nil
  | cons c text ih =>
    have hwidth := (sequence_utf8EncodeChar c).width (encode text)
    have hpos : 0 < (String.utf8EncodeChar c).length :=
      length_pos_of_ne_nil String.utf8EncodeChar_ne_nil
    show utf8.scan replacement (String.utf8EncodeChar c ++ encode text)
      = String.utf8EncodeChar c ++ encode text
    rw [Scanner.scan_token _ _ (by omega), hwidth, take_left, drop_left]
    exact congrArg _ ih

/-- **Clean text is well-formed.** -/
theorem exists_encode_eq_clean (s : List UInt8) : ∃ text, clean s = encode text := by
  induction hn : s.length using Nat.strongRecOn generalizing s with
  | _ n ih =>
  cases s with
  | nil => exact ⟨[], clean_nil⟩
  | cons a rest =>
    rcases Nat.eq_zero_or_pos (utf8.width (a :: rest)) with hzero | hpos
    · obtain ⟨text, htext⟩ := ih rest.length (by rw [← hn]; exact Nat.lt_succ_self _) rest rfl
      refine ⟨Char.ofNat 0xfffd :: text, ?_⟩
      show utf8.scan replacement (a :: rest) = _
      rw [Scanner.scan_other _ _ hzero]
      exact congrArg₂ (· ++ ·) (by decide) htext
    · obtain ⟨c, hc⟩ := (sequence_take hpos).exists_char
      have hdrop : ((a :: rest).drop (utf8.width (a :: rest))).length < n := by
        rw [length_drop, length_cons] at *
        omega
      obtain ⟨text, htext⟩ := ih _ hdrop _ rfl
      refine ⟨c :: text, ?_⟩
      show utf8.scan replacement (a :: rest) = _
      rw [Scanner.scan_token _ _ hpos, hc]
      exact congrArg _ htext

/-- Bytes of ASCII are not those of U+FFFD. -/
theorem not_mem_replacement (hb : b < 0x80) : b ∉ replacement := by
  intro hmem
  have hall : ∀ c ∈ replacement, ¬ c < 0x80 := by simp [replacement]
  exact hall b hmem hb

/-- Clean text without a byte beyond ASCII is the text that was cleaned. -/
theorem eq_of_clean_eq {m : List UInt8} (h : clean s = m) (hm : ∀ b ∈ m, b < 0x80) : s = m := by
  have hself : clean s = s := Scanner.scan_eq_self _ (by decide) (fun b hb =>
    not_mem_replacement (hm b (h ▸ hb)))
  exact hself.symm.trans h

theorem clean_ascii {m : List UInt8} (hm : ∀ b ∈ m, b < 0x80) : clean m = m := by
  induction m with
  | nil => exact clean_nil
  | cons b m ih =>
    have hone : utf8.width ([b] ++ m) = 1 := (Sequence.one (hm b mem_cons_self)).width m
    show utf8.scan replacement ([b] ++ m) = b :: m
    rw [Scanner.scan_token _ _ (by omega), hone]
    exact congrArg (b :: ·) (ih (fun c hc => hm c (mem_cons_of_mem _ hc)))

/-- A byte of ASCII is in clean text only if it is in the text. -/
theorem mem_of_mem_clean (hb : b < 0x80) (h : b ∈ clean s) : b ∈ s :=
  (Scanner.mem_of_mem_scan _ h).resolve_right (not_mem_replacement hb)

end Juice
