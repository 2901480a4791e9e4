import Mathlib.Algebra.Group.Nat.Defs
import Juice.Launch.Utf8Stream

/-!
# The output of a child

`JuiceConsumeOutput` reads what a child writes in chunks, cuts it into lines,
and appends each line, decoded, to the log. A line that does not end is
flushed once 64 KiB of it are buffered, up to where `JuiceUTF8CompletePrefix`
allows it; what is left when the output ends is appended as it is.

Decoding is that of Foundation, which is a parameter: it returns a text for
well-formed UTF-8 and nothing otherwise – `Decodes`. A piece that it refuses
is sanitized first.

No cut severs a sequence, so the log does not depend on how the output came
in chunks: it is the whole output sanitized at once.
-/

namespace Juice

open List

/-- `NSUIntegerMax`. -/
def NSUIntegerMax : ℕ := 2 ^ 64 - 1

/-- **What is assumed of `initWithData:encoding:`**: it decodes exactly the
well-formed buffers, each to the text whose encoding it is. -/
structure Decodes (decode : List UInt8 → Option (List Char)) : Prop where
  sound : ∀ data text, decode data = some text → encode text = data
  complete : ∀ text, (decode (encode text)).isSome

variable (decode : List UInt8 → Option (List Char))

/-- **`JuiceDecodeOutput`.** -/
def decodeOutput (data : List UInt8) : List Char :=
  if data = [] then []
  else match decode data with
    | some text => text
    | none =>
      if NSUIntegerMax / 3 < data.length then []
      else
        let clean := sanitize data (data.length * 3)
        if clean.2 ≠ data.length then []
        else (decode clean.1).getD []

/-- The loop over a buffer: the lines that it ends, and the rest. -/
def splitLines (line : List UInt8) : List UInt8 → List (List UInt8) × List UInt8
  | [] => ([], line)
  | b :: bytes =>
    if b = 0x0a then
      let r := splitLines [] bytes
      ((line ++ [b]) :: r.1, r.2)
    else splitLines (line ++ [b]) bytes

/-- What `JuiceConsumeOutput` has buffered, has appended to the log, and has
passed to `JuiceJITObserveOutput`. -/
structure Output where
  pending : List UInt8
  log : List (List Char)
  observed : List (List Char)
  deriving DecidableEq, Repr

/-- The buffer beyond which a line is flushed unfinished. -/
def flushAt : ℕ := 64 * 1024

/-- What a flush leaves of an unfinished line. -/
def unflushed (rest : List UInt8) : List UInt8 :=
  if flushAt ≤ rest.length then rest.drop (completePrefix rest) else rest

/-- **A `read` that returned a chunk.** -/
def Output.receive (o : Output) (chunk : List UInt8) : Output :=
  let lines := (splitLines [] (o.pending ++ chunk)).1
  let rest := (splitLines [] (o.pending ++ chunk)).2
  let texts := lines.map (decodeOutput decode)
  let flushed :=
    if flushAt ≤ rest.length ∧ completePrefix rest ≠ 0 then
      [decodeOutput decode (rest.take (completePrefix rest))]
    else []
  { pending := unflushed rest
    log := o.log ++ texts ++ flushed
    observed := o.observed ++ texts }

/-- The end of the output. -/
def Output.finish (o : Output) : Output :=
  if o.pending ≠ [] then { o with log := o.log ++ [decodeOutput decode o.pending] } else o

/-- **`JuiceConsumeOutput`**, for the chunks that `read` returns. -/
def consumeOutput (chunks : List (List UInt8)) : Output :=
  (chunks.foldl (Output.receive decode) ⟨[], [], []⟩).finish decode

variable {decode}

/-! ## Decoding a piece -/

/-- **A piece is appended clean.** -/
theorem encode_decodeOutput (h : Decodes decode) {data : List UInt8}
    (hlen : data.length ≤ NSUIntegerMax / 3) : encode (decodeOutput decode data) = clean data := by
  unfold decodeOutput
  by_cases hnil : data = []
  · rw [if_pos hnil, hnil, clean_nil]
    rfl
  · rw [if_neg hnil]
    split
    · rename_i text htext
      rw [← h.sound data text htext, clean_encode]
    · rw [if_neg (by omega), sanitize_eq (by omega)]
      dsimp only
      rw [if_neg (fun hne => hne rfl)]
      obtain ⟨text, htext⟩ := exists_encode_eq_clean data
      obtain ⟨text', htext'⟩ := Option.isSome_iff_exists.mp (h.complete text)
      rw [htext, htext', Option.getD_some]
      exact h.sound _ _ htext'

/-! ## Lines -/

/-- A line: it ends with a LF and has no other. -/
def IsLine (line : List UInt8) : Prop := ∃ body, line = body ++ [0x0a] ∧ 0x0a ∉ body

/-- The lines of a buffer and the rest of it make up the buffer. -/
theorem splitLines_spec (line bytes : List UInt8) (hline : 0x0a ∉ line) :
    (splitLines line bytes).1.flatten ++ (splitLines line bytes).2 = line ++ bytes
      ∧ (∀ l ∈ (splitLines line bytes).1, IsLine l) ∧ 0x0a ∉ (splitLines line bytes).2 := by
  induction bytes generalizing line with
  | nil => exact ⟨by simp [splitLines], nofun, hline⟩
  | cons b bytes ih =>
    rw [splitLines]
    split_ifs with hb
    · subst hb
      obtain ⟨heq, hlines, hrest⟩ := ih [] (by simp)
      refine ⟨?_, ?_, hrest⟩
      · simpa using heq
      · intro l hl
        rcases mem_cons.mp hl with rfl | hl
        · exact ⟨line, rfl, hline⟩
        · exact hlines l hl
    · obtain ⟨heq, hrest⟩ := ih (line ++ [b]) (by
        rw [mem_append, mem_singleton]
        rintro (hmem | rfl)
        · exact hline hmem
        · exact hb rfl)
      exact ⟨by simpa using heq, hrest⟩

/-- Lines may be cleaned one by one. -/
theorem clean_lines {lines : List (List UInt8)} (h : ∀ l ∈ lines, IsLine l) (t : List UInt8) :
    clean (lines.flatten ++ t) = (lines.map clean).flatten ++ clean t := by
  induction lines with
  | nil => rfl
  | cons l lines ih =>
    obtain ⟨body, rfl, -⟩ := h l mem_cons_self
    have ih' := ih (fun l hl => h l (mem_cons_of_mem _ hl))
    calc clean (((body ++ [0x0a]) :: lines).flatten ++ t)
        = clean ((body ++ [0x0a]) ++ (lines.flatten ++ t)) := by simp
      _ = clean (body ++ [0x0a]) ++ clean (lines.flatten ++ t) :=
          Scanner.scan_append _ (cut_after (by decide) body _)
      _ = _ := by rw [ih', map_cons, flatten_cons, append_assoc]

/-- A flush may be cleaned on its own. -/
theorem clean_flush (rest t : List UInt8) :
    clean (rest ++ t)
      = clean (rest.take (completePrefix rest))
        ++ clean (rest.drop (completePrefix rest) ++ t) := by
  have hcut := Scanner.scan_append replacement (cut_completePrefix rest t)
  rw [← append_assoc, take_append_drop] at hcut
  exact hcut

theorem completePrefix_pos {rest : List UInt8} (h : flushAt ≤ rest.length) :
    completePrefix rest ≠ 0 := by
  unfold flushAt at h
  rcases completePrefix_cases rest with ⟨heq, -⟩ | ⟨-, hle, -⟩ <;> omega

/-- The buffer never holds as much as is flushed. -/
theorem length_unflushed (rest : List UInt8) : (unflushed rest).length < flushAt := by
  unfold unflushed
  split_ifs with h
  · rw [length_drop]
    unfold flushAt at *
    rcases completePrefix_cases rest with ⟨heq, -⟩ | ⟨-, hle, -⟩ <;> omega
  · exact Nat.lt_of_not_le h

/-! ## The log -/

theorem encode_append (s t : List Char) : encode (s ++ t) = encode s ++ encode t :=
  flatMap_append

/-- What is appended for a list of pieces. -/
theorem encode_flatten_map (h : Decodes decode) {pieces : List (List UInt8)}
    (hlen : ∀ p ∈ pieces, p.length ≤ NSUIntegerMax / 3) :
    encode (pieces.map (decodeOutput decode)).flatten = (pieces.map clean).flatten := by
  induction pieces with
  | nil => rfl
  | cons p pieces ih =>
    rw [map_cons, flatten_cons, encode_append, map_cons, flatten_cons,
      encode_decodeOutput h (hlen p mem_cons_self),
      ih (fun q hq => hlen q (mem_cons_of_mem _ hq))]

/-- **A chunk moves clean text from the buffer to the log.** -/
theorem encode_log_receive (h : Decodes decode) {o : Output} {chunk : List UInt8}
    (hpending : o.pending.length < flushAt) (hchunk : chunk.length ≤ 4096) (t : List UInt8) :
    encode (o.receive decode chunk).log.flatten ++ clean ((o.receive decode chunk).pending ++ t)
      = encode o.log.flatten ++ clean (o.pending ++ chunk ++ t) := by
  obtain ⟨heq, hlines, -⟩ := splitLines_spec [] (o.pending ++ chunk) (by simp)
  unfold Output.receive
  dsimp only
  generalize (splitLines [] (o.pending ++ chunk)).1 = lines at heq hlines
  generalize (splitLines [] (o.pending ++ chunk)).2 = rest at heq
  rw [nil_append] at heq
  -- every piece is short enough to be decoded
  have hlen : lines.flatten.length + rest.length ≤ NSUIntegerMax / 3 := by
    rw [← length_append, heq, length_append]
    unfold flushAt at hpending
    unfold NSUIntegerMax
    omega
  have htexts : encode (lines.map (decodeOutput decode)).flatten = (lines.map clean).flatten :=
    encode_flatten_map h (fun l hl => by
      have := (sublist_flatten_of_mem hl).length_le
      omega)
  have hrest : encode (if flushAt ≤ rest.length ∧ completePrefix rest ≠ 0 then
        [decodeOutput decode (rest.take (completePrefix rest))] else []).flatten
      ++ clean (unflushed rest ++ t) = clean (rest ++ t) := by
    unfold unflushed
    by_cases hflush : flushAt ≤ rest.length
    · rw [if_pos ⟨hflush, completePrefix_pos hflush⟩, if_pos hflush, clean_flush rest t,
        flatten_singleton, encode_decodeOutput h (by rw [length_take]; omega)]
    · rw [if_neg (fun hboth => hflush hboth.1), if_neg hflush]
      rfl
  rw [← heq, append_assoc lines.flatten, clean_lines hlines, ← hrest, ← htexts,
    flatten_append, flatten_append, encode_append, encode_append]
  simp only [append_assoc]

/-- What the log will be, from any point of the output on. -/
theorem encode_log_finish (h : Decodes decode) (chunks : List (List UInt8))
    (hchunks : ∀ chunk ∈ chunks, chunk.length ≤ 4096) (o : Output)
    (hpending : o.pending.length < flushAt) :
    encode ((chunks.foldl (Output.receive decode) o).finish decode).log.flatten
      = encode o.log.flatten ++ clean (o.pending ++ chunks.flatten) := by
  induction chunks generalizing o with
  | nil =>
    rw [foldl_nil, flatten_nil, append_nil]
    unfold Output.finish
    by_cases hne : o.pending = []
    · rw [if_neg (not_not.mpr hne), hne, clean_nil, append_nil]
    · rw [if_pos hne, flatten_append, encode_append, flatten_singleton,
        encode_decodeOutput h]
      unfold flushAt at hpending
      unfold NSUIntegerMax
      omega
  | cons chunk chunks ih =>
    rw [foldl_cons, ih (fun c hc => hchunks c (mem_cons_of_mem _ hc)) _
      (length_unflushed _), encode_log_receive h hpending (hchunks chunk mem_cons_self),
      flatten_cons, append_assoc]

/-- **The log does not depend on the chunks**: it is the whole output,
sanitized at once with all the room it takes. -/
theorem encode_log_eq_sanitize (h : Decodes decode) (chunks : List (List UInt8))
    (hchunks : ∀ chunk ∈ chunks, 1 ≤ chunk.length ∧ chunk.length ≤ 4096) {cap : ℕ}
    (hcap : 3 * chunks.flatten.length ≤ cap) :
    encode (consumeOutput decode chunks).log.flatten = (sanitize chunks.flatten cap).1 := by
  rw [sanitize_eq hcap]
  exact encode_log_finish h chunks (fun chunk hc => (hchunks chunk hc).2) ⟨[], [], []⟩ (by decide)

/-- There is such a decoder. -/
theorem exists_decodes : ∃ decode : List UInt8 → Option (List Char), Decodes decode := by
  classical
  refine ⟨fun data => if h : ∃ text, encode text = data then some h.choose else none, ?_, ?_⟩
  · intro data text heq
    split_ifs at heq with h
    rw [← Option.some_inj.mp heq]
    exact h.choose_spec
  · intro text
    rw [dif_pos ⟨text, rfl⟩]
    rfl

/-- A byte that is in no sequence, and a sequence that the chunks sever and
the end of the output cuts off. -/
theorem encode_log_severed : ∃ decode, Decodes decode
    ∧ encode (consumeOutput decode [[0x41, 0xff, 0x0a, 0xe2], [0x82]]).log.flatten
      = (sanitize [0x41, 0xff, 0x0a, 0xe2, 0x82] 15).1 := by
  obtain ⟨decode, h⟩ := exists_decodes
  exact ⟨decode, h, encode_log_eq_sanitize h [[0x41, 0xff, 0x0a, 0xe2], [0x82]] (by decide)
    (by decide)⟩

end Juice
