import Juice.Launch.Output

/-!
# The acknowledgement of the runtime

The runtime in a child that was handed to a debugger acknowledges by a line
of its output: a marker made of its number and a nonce, alone on the line.
`JuiceJITObserveOutput` passes the lines that `JuiceConsumeOutput` cuts off to
a matcher – `JuiceJITAckFeed` – which accepts a line that is the marker,
before a LF or a CR and a LF.

The matcher sees only what is cut off at a LF. The head of a line of 64 KiB
is flushed to the log without it, and what then comes before the LF is
passed on as if it were the line. So the marker is also accepted where it is
the end of a long line and the flush was just before it – `Severed`.
-/

namespace Juice

open List

/-! ## The matcher -/

/-- `JuiceJITAck`. -/
structure JITAck where
  expected : List UInt8
  matched : ℕ
  discarded : Bool
  carriageReturn : Bool
  deriving DecidableEq, Repr

/-- What `JuiceJITAckInit` accepts: between 1 and 127 printable characters. -/
def IsMarker (expected : List UInt8) : Prop :=
  expected ≠ [] ∧ expected.length < 128 ∧ ∀ b ∈ expected, 0x20 ≤ b ∧ b ≤ 0x7e

instance (expected : List UInt8) : Decidable (IsMarker expected) :=
  inferInstanceAs (Decidable (_ ∧ _ ∧ _))

/-- `JuiceJITAckInit`. -/
def JITAck.init (expected : List UInt8) : JITAck := ⟨expected, 0, false, false⟩

/-- The loop of `JuiceJITAckFeed`. The bytes after a match are not looked at. -/
def JITAck.feedLoop (state : JITAck) : List UInt8 → JITAck × Bool
  | [] => (state, false)
  | c :: bytes =>
    if c = 0x0a then
      let complete := !state.discarded && state.matched == state.expected.length
      let state := { state with matched := 0, discarded := false, carriageReturn := false }
      if complete then (state, true) else state.feedLoop bytes
    else if !state.discarded then
      if c = 0x0d && state.matched == state.expected.length && !state.carriageReturn then
        { state with carriageReturn := true }.feedLoop bytes
      else if !state.carriageReturn && decide (state.matched < state.expected.length)
          && state.expected[state.matched]? == some c then
        { state with matched := state.matched + 1 }.feedLoop bytes
      else { state with discarded := true }.feedLoop bytes
    else state.feedLoop bytes

/-- **`JuiceJITAckFeed`.** -/
def JITAck.feed (state : JITAck) (bytes : List UInt8) : JITAck × Bool :=
  if state.expected.length = 0 ∨ 128 ≤ state.expected.length then (state, false)
  else state.feedLoop bytes

/-- **`JuiceJITObserveOutput`** for one line, while the session is owned and
pending: the matcher, and whether `JuiceJITRuntimeAck` is received. -/
def JITAck.observe (state : JITAck) (line : List Char) : JITAck × Bool :=
  if line = [] then (state, false) else state.feed (encode line)

/-- Whether `JuiceJITRuntimeAck` is received for one of the lines. -/
def JITAck.acknowledges (state : JITAck) : List (List Char) → Bool
  | [] => false
  | line :: lines => (state.observe line).2 || (state.observe line).1.acknowledges lines

/-- **The runtime is acknowledged** in the output that comes in these chunks. -/
def acknowledged (decode : List UInt8 → Option (List Char)) (marker : List UInt8)
    (chunks : List (List UInt8)) : Bool :=
  (JITAck.init marker).acknowledges (consumeOutput decode chunks).observed

/-! ## What the matcher accepts -/

/-- The two lines that acknowledge. -/
def IsAck (marker line : List UInt8) : Prop :=
  line = marker ++ [0x0a] ∨ line = marker ++ [0x0d, 0x0a]

instance (marker line : List UInt8) : Decidable (IsAck marker line) :=
  inferInstanceAs (Decidable (_ ∨ _))

variable {marker : List UInt8} {state : JITAck} {body line pending s : List UInt8}
  {chunks : List (List UInt8)}

/-- A line that is discarded stays so to its end. -/
theorem feed_discarded (h : state.discarded = true) (hbody : 0x0a ∉ body) :
    state.feedLoop (body ++ [0x0a]) = (.init state.expected, false) := by
  induction body with
  | nil => simp [JITAck.feedLoop, JITAck.init, h]
  | cons c body ih =>
    have hc : c ≠ 0x0a := fun heq => hbody (heq ▸ mem_cons_self)
    rw [cons_append, JITAck.feedLoop, if_neg hc, if_neg (by simp [h])]
    exact ih (fun hmem => hbody (mem_cons_of_mem _ hmem))

/-- After the CR nothing but the LF may follow. -/
theorem feed_carriageReturn (h : state.discarded = false) (hcr : state.carriageReturn = true)
    (hmatched : state.matched = state.expected.length) (hbody : 0x0a ∉ body) :
    state.feedLoop (body ++ [0x0a]) = (.init state.expected, decide (body = [])) := by
  cases body with
  | nil => simp [JITAck.feedLoop, JITAck.init, h, hmatched]
  | cons c body =>
    have hc : c ≠ 0x0a := fun heq => hbody (heq ▸ mem_cons_self)
    rw [cons_append, JITAck.feedLoop, if_neg hc, if_pos (by simp [h]), if_neg (by simp [hcr]),
      if_neg (by simp [hcr]),
      feed_discarded rfl (fun hmem => hbody (mem_cons_of_mem _ hmem))]
    simp

/-- **The matcher on the rest of a line**, once part of the marker matched. -/
theorem feed_matching (h : state.discarded = false) (hcr : state.carriageReturn = false)
    (hmatched : state.matched ≤ state.expected.length) (hbody : 0x0a ∉ body) :
    state.feedLoop (body ++ [0x0a]) = (.init state.expected,
      decide (body = state.expected.drop state.matched
        ∨ body = state.expected.drop state.matched ++ [0x0d])) := by
  induction body generalizing state with
  | nil =>
    by_cases hfull : state.matched = state.expected.length
    · simp [JITAck.feedLoop, JITAck.init, h, hfull]
    · have hne : ¬ ([] = state.expected.drop state.matched) := by
        rw [eq_comm, drop_eq_nil_iff]
        omega
      simp [JITAck.feedLoop, JITAck.init, h, hfull, hne]
  | cons c body ih =>
    have hc : c ≠ 0x0a := fun heq => hbody (heq ▸ mem_cons_self)
    have hbody' : 0x0a ∉ body := fun hmem => hbody (mem_cons_of_mem _ hmem)
    rw [cons_append, JITAck.feedLoop, if_neg hc, if_pos (by simp [h])]
    by_cases hfull : state.matched = state.expected.length
    · rw [hfull, drop_length]
      by_cases hcr' : c = 0x0d
      · have hfeed := @feed_carriageReturn
          ⟨state.expected, state.expected.length, state.discarded, true⟩ body h rfl rfl hbody'
        rw [if_pos (by simp [hcr', hcr]), hfeed]
        simp [hcr']
      · rw [if_neg (by simp [hcr']), if_neg (by simp), feed_discarded rfl hbody']
        simp [hcr']
    · have hlt : state.matched < state.expected.length := by omega
      rw [if_neg (by simp [hfull]), drop_eq_getElem_cons hlt]
      by_cases hnext : state.expected[state.matched] = c
      · have hfeed := @ih { state with matched := state.matched + 1 } h hcr hlt hbody'
        rw [if_pos (by simp [hcr, hlt, hnext]), hfeed]
        simp [hnext]
      · rw [if_neg (by simp [hlt, hnext]), feed_discarded rfl hbody']
        refine Prod.ext rfl (decide_eq_false ?_).symm
        rintro (heq | heq) <;> exact hnext (List.cons.inj heq).1.symm

/-- **The matcher accepts a line exactly if it is the marker**, alone or
with a CR. -/
theorem feed_line (hmarker : IsMarker marker) (hline : IsLine line) :
    (JITAck.init marker).feed line = (.init marker, decide (IsAck marker line)) := by
  obtain ⟨body, rfl, hbody⟩ := hline
  have hlen := hmarker.2.1
  have hpos := length_pos_of_ne_nil hmarker.1
  unfold JITAck.feed
  rw [if_neg (by show ¬ (marker.length = 0 ∨ 128 ≤ marker.length); omega),
    feed_matching rfl rfl (Nat.zero_le _) hbody]
  refine Prod.ext rfl (decide_eq_decide.mpr ?_)
  show body = marker ∨ body = marker ++ [0x0d]
    ↔ body ++ [0x0a] = marker ++ [0x0a] ∨ body ++ [0x0a] = marker ++ [0x0d, 0x0a]
  rw [append_left_inj, show marker ++ [0x0d, 0x0a] = (marker ++ [0x0d]) ++ [0x0a] by simp,
    append_left_inj]

/-! ## The pieces that are passed on -/

/-- What is cut off at a LF. -/
def pieces (pending : List UInt8) : List (List UInt8) → List (List UInt8)
  | [] => []
  | chunk :: chunks =>
    (splitLines [] (pending ++ chunk)).1
      ++ pieces (unflushed (splitLines [] (pending ++ chunk)).2) chunks

theorem observed_eq (decode : List UInt8 → Option (List Char)) (chunks : List (List UInt8))
    (o : Output) : (chunks.foldl (Output.receive decode) o).observed
      = o.observed ++ (pieces o.pending chunks).map (decodeOutput decode) := by
  induction chunks generalizing o with
  | nil => simp [pieces]
  | cons chunk chunks ih =>
    rw [foldl_cons, ih, pieces, map_append, ← append_assoc]
    rfl

/-- A piece is a line, and short enough to be decoded. -/
theorem pieces_spec (hchunks : ∀ chunk ∈ chunks, chunk.length ≤ 4096)
    (hpending : pending.length < flushAt) :
    ∀ piece ∈ pieces pending chunks, IsLine piece ∧ piece.length ≤ NSUIntegerMax / 3 := by
  induction chunks generalizing pending with
  | nil => exact nofun
  | cons chunk chunks ih =>
    intro piece hpiece
    rcases mem_append.mp hpiece with hmem | hmem
    · obtain ⟨heq, hlines, -⟩ := splitLines_spec [] (pending ++ chunk) (by simp)
      refine ⟨hlines piece hmem, ?_⟩
      have hle := (sublist_flatten_of_mem hmem).length_le
      have hlen := congrArg List.length heq
      have hchunk := hchunks chunk mem_cons_self
      rw [length_append, nil_append, length_append] at hlen
      unfold flushAt at hpending
      unfold NSUIntegerMax
      omega
    · exact ih (fun c hc => hchunks c (mem_cons_of_mem _ hc)) (length_unflushed _) piece hmem

theorem clean_line (h : IsLine line) : IsLine (clean line) := by
  obtain ⟨body, rfl, hbody⟩ := h
  have hcut : clean (body ++ [0x0a]) = clean body ++ clean [0x0a] :=
    Scanner.scan_append _ (cut_before (t := []) (by decide) body)
  refine ⟨clean body, ?_, fun hmem => hbody (mem_of_mem_clean (by decide) hmem)⟩
  rw [hcut, clean_ascii (m := [0x0a]) (by simp)]

theorem ascii_of_isAck (hmarker : IsMarker marker) (h : IsAck marker line) :
    ∀ b ∈ line, b < 0x80 := by
  have hm : ∀ b ∈ marker, b < 0x80 := fun b hb =>
    UInt8.lt_of_le_of_lt (hmarker.2.2 b hb).2 (by decide)
  have hlf : ∀ b ∈ [0x0a], b < (0x80 : UInt8) := by simp
  have hcrlf : ∀ b ∈ [0x0d, 0x0a], b < (0x80 : UInt8) := by simp
  rcases h with rfl | rfl
  · exact forall_mem_append.mpr ⟨hm, hlf⟩
  · exact forall_mem_append.mpr ⟨hm, hcrlf⟩

/-- Decoding neither makes a marker nor unmakes one. -/
theorem isAck_clean (hmarker : IsMarker marker) (line : List UInt8) :
    IsAck marker (clean line) ↔ IsAck marker line := by
  constructor
  · intro h
    rwa [← eq_of_clean_eq rfl (ascii_of_isAck hmarker h)] at h
  · intro h
    rwa [clean_ascii (ascii_of_isAck hmarker h)]

/-- **The runtime is acknowledged exactly if some piece is the marker.** -/
theorem acknowledged_iff_pieces {decode : List UInt8 → Option (List Char)} (h : Decodes decode)
    (hmarker : IsMarker marker) (hchunks : ∀ chunk ∈ chunks, chunk.length ≤ 4096) :
    acknowledged decode marker chunks = true ↔ ∃ piece ∈ pieces [] chunks, IsAck marker piece := by
  have hobs : (consumeOutput decode chunks).observed
      = (pieces [] chunks).map (decodeOutput decode) := by
    rw [← nil_append ((pieces [] chunks).map _), ← observed_eq decode chunks ⟨[], [], []⟩]
    unfold consumeOutput Output.finish
    split_ifs <;> rfl
  unfold acknowledged
  rw [hobs]
  have hspec : ∀ piece ∈ pieces [] chunks, IsLine piece ∧ piece.length ≤ NSUIntegerMax / 3 :=
    pieces_spec hchunks (by decide)
  generalize pieces [] chunks = ps at hspec
  -- the matcher is as it was at the start after every line
  induction ps with
  | nil => simp [JITAck.acknowledges]
  | cons piece ps ih =>
    obtain ⟨hline, hlen⟩ := hspec piece mem_cons_self
    have hclean := encode_decodeOutput h hlen
    have hfeed : (JITAck.init marker).observe (decodeOutput decode piece)
        = (.init marker, decide (IsAck marker piece)) := by
      unfold JITAck.observe
      have hne : decodeOutput decode piece ≠ [] := by
        intro hnil
        obtain ⟨body, hbody, -⟩ := clean_line hline
        rw [hnil, hbody] at hclean
        exact absurd hclean (by simp [encode])
      rw [if_neg hne, hclean, feed_line hmarker (clean_line hline)]
      exact Prod.ext rfl (decide_eq_decide.mpr (isAck_clean hmarker piece))
    rw [map_cons, JITAck.acknowledges, hfeed, Bool.or_eq_true, decide_eq_true_eq]
    refine (or_congr_right (ih (fun p hp => hspec p (mem_cons_of_mem _ hp)))).trans ?_
    simp

/-! ## Lines of the output -/

/-- **A line of a stream**: it stands at the start, or after a LF. -/
def Line (line s : List UInt8) : Prop := line <+: s ∨ ∃ pre, pre ++ 0x0a :: line <+: s

theorem isLine_of_isAck (hmarker : IsMarker marker) (h : IsAck marker line) : IsLine line := by
  have hlf : ∀ b ∈ marker, b ≠ 0x0a := by
    rintro b hb rfl
    exact absurd (hmarker.2.2 _ hb).1 (by decide)
  rcases h with rfl | rfl
  · exact ⟨marker, rfl, fun hmem => hlf _ hmem rfl⟩
  · refine ⟨marker ++ [0x0d], by simp, ?_⟩
    rw [mem_append, mem_singleton]
    rintro (hmem | heq)
    · exact hlf _ hmem rfl
    · exact absurd heq (by decide)

/-- Two lines of which one begins the other are the same. -/
theorem IsLine.eq_of_prefix {l m : List UInt8} (hl : IsLine l) (hm : IsLine m) (h : l <+: m) :
    l = m := by
  obtain ⟨body, rfl, -⟩ := hl
  obtain ⟨body', rfl, hbody'⟩ := hm
  refine (prefix_concat_iff.mp h).resolve_right (fun hpre => hbody' ?_)
  exact hpre.subset (by simp)

/-- What stands after a LF stands behind whatever has none. -/
theorem after_append {h : List UInt8} (hh : 0x0a ∉ h) :
    (∃ pre, pre ++ 0x0a :: line <+: h ++ s) ↔ ∃ pre, pre ++ 0x0a :: line <+: s := by
  constructor
  · rintro ⟨pre, post, heq⟩
    rw [append_assoc, append_eq_append_iff] at heq
    rcases heq with ⟨a, rfl, ha⟩ | ⟨c, rfl, hc⟩
    · cases a with
      | nil => exact ⟨[], post, by simpa using ha⟩
      | cons b a =>
        obtain rfl : 0x0a = b := (List.cons.inj ha).1
        exact absurd (by simp) hh
    · exact ⟨c, post, by rw [append_assoc]; exact hc.symm⟩
  · rintro ⟨pre, hpre⟩
    exact ⟨h ++ pre, by rw [append_assoc]; exact (prefix_append_right_inj h).mpr hpre⟩

/-- **The lines of a stream that begins with a line.** -/
theorem line_append {l : List UInt8} (hl : IsLine l) (hline : IsLine line) :
    Line line (l ++ s) ↔ line = l ∨ Line line s := by
  constructor
  · rintro (hpre | hafter)
    · rcases prefix_or_prefix_of_prefix hpre (prefix_append l s) with h | h
      · exact .inl (hline.eq_of_prefix hl h)
      · exact .inl (hl.eq_of_prefix hline h).symm
    · obtain ⟨body, rfl, hbody⟩ := hl
      rw [append_assoc, after_append hbody, singleton_append] at hafter
      obtain ⟨pre, hpre⟩ := hafter
      cases pre with
      | nil => exact .inr (.inl ((cons_prefix_cons).mp hpre).2)
      | cons b pre => exact .inr (.inr ⟨pre, ((cons_prefix_cons).mp hpre).2⟩)
  · rintro (rfl | hpre | ⟨pre, hpre⟩)
    · exact .inl (prefix_append _ _)
    · obtain ⟨body, rfl, -⟩ := hl
      refine .inr ⟨body, ?_⟩
      rw [append_assoc]
      exact (prefix_append_right_inj body).mpr ((cons_prefix_cons).mpr ⟨rfl, hpre⟩)
    · refine .inr ⟨l ++ pre, ?_⟩
      rw [append_assoc]
      exact (prefix_append_right_inj l).mpr hpre

theorem line_flatten_append {lines : List (List UInt8)} (h : ∀ l ∈ lines, IsLine l)
    (hline : IsLine line) (s : List UInt8) :
    Line line (lines.flatten ++ s) ↔ line ∈ lines ∨ Line line s := by
  induction lines with
  | nil => simp
  | cons l lines ih =>
    rw [flatten_cons, append_assoc, line_append (h l mem_cons_self) hline,
      ih (fun l hl => h l (mem_cons_of_mem _ hl)), mem_cons, or_assoc]

/-! ## Flushes -/

/-- **A read severs a line**: it leaves 64 KiB or more of an unfinished line
in the buffer, and all of it is flushed. -/
def Severs (pending chunk : List UInt8) : Prop :=
  let rest := (splitLines [] (pending ++ chunk)).2
  flushAt ≤ rest.length ∧ completePrefix rest = rest.length

/-- What is in the buffer after some reads. -/
def buffered (pending : List UInt8) (chunks : List (List UInt8)) : List UInt8 :=
  chunks.foldl (fun pending chunk => unflushed (splitLines [] (pending ++ chunk)).2) pending

/-- **The marker is the end of a long line** that a read severed just before
it. -/
def Severed (marker pending : List UInt8) (chunks : List (List UInt8)) : Prop :=
  ∃ pre chunk post line, chunks = pre ++ chunk :: post ∧ Severs (buffered pending pre) chunk
    ∧ IsAck marker line ∧ line <+: post.flatten

theorem severed_cons {chunk : List UInt8} :
    Severed marker pending (chunk :: chunks)
      ↔ (Severs pending chunk ∧ ∃ line, IsAck marker line ∧ line <+: chunks.flatten)
        ∨ Severed marker (unflushed (splitLines [] (pending ++ chunk)).2) chunks := by
  constructor
  · rintro ⟨pre, c, post, line, heq, hsev, hack, hpre⟩
    cases pre with
    | nil =>
      obtain ⟨rfl, rfl⟩ := List.cons.inj heq
      exact .inl ⟨hsev, line, hack, hpre⟩
    | cons d pre =>
      obtain ⟨rfl, rfl⟩ := List.cons.inj heq
      exact .inr ⟨pre, c, post, line, rfl, hsev, hack, hpre⟩
  · rintro (⟨hsev, line, hack, hpre⟩ | ⟨pre, c, post, line, rfl, hsev, hack, hpre⟩)
    · exact ⟨[], chunk, chunks, line, rfl, hsev, hack, hpre⟩
    · exact ⟨chunk :: pre, c, post, line, rfl, hsev, hack, hpre⟩

/-- The stream has a line that acknowledges. -/
def HasAck (marker s : List UInt8) : Prop := ∃ line, IsAck marker line ∧ Line line s

theorem length_isAck (hmarker : IsMarker marker) (h : IsAck marker line) : line.length < 130 := by
  have := hmarker.2.1
  rcases h with rfl | rfl <;> simp <;> omega

/-- What a flush leaves over begins with a lead byte, and so no marker. -/
theorem not_prefix_of_severed_sequence (hmarker : IsMarker marker) {rest t : List UInt8}
    (h : IsAck marker line) (hlt : completePrefix rest < rest.length) :
    ¬ line <+: rest.drop (completePrefix rest) ++ t := by
  intro hpre
  rcases completePrefix_cases rest with ⟨heq, -⟩ | ⟨-, -, hzero⟩
  · omega
  · rw [drop_eq_getElem_cons hlt] at hpre hzero
    -- the first byte of the marker would begin an incomplete sequence
    obtain ⟨b, m, rfl⟩ := exists_cons_of_ne_nil hmarker.1
    have hb : b = rest[completePrefix rest] := by
      rcases h with rfl | rfl <;> exact ((cons_prefix_cons).mp hpre).1
    have hascii : b < 0x80 :=
      UInt8.lt_of_le_of_lt (hmarker.2.2 b mem_cons_self).2 (by decide)
    rw [← hb, scalar_cons, if_pos hascii] at hzero
    cases hzero

/-- **The lines behind a flush**: those there are, and one that the flush
made of the end of a line. -/
theorem hasAck_unflushed (hmarker : IsMarker marker) {rest : List UInt8} (hrest : 0x0a ∉ rest)
    (t : List UInt8) :
    HasAck marker (unflushed rest ++ t) ↔ HasAck marker (rest ++ t)
      ∨ ((flushAt ≤ rest.length ∧ completePrefix rest = rest.length)
        ∧ ∃ line, IsAck marker line ∧ line <+: t) := by
  unfold unflushed
  by_cases hflush : flushAt ≤ rest.length
  case neg =>
    rw [if_neg hflush]
    exact ⟨.inl, fun h => h.resolve_right (fun hsev => hflush hsev.1.1)⟩
  rw [if_pos hflush]
  have hdrop : 0x0a ∉ rest.drop (completePrefix rest) :=
    fun hmem => hrest (mem_of_mem_drop hmem)
  -- no line that acknowledges is as long as what is in the buffer
  have hlong {line : List UInt8} (hack : IsAck marker line) : ¬ line <+: rest ++ t := by
    intro hpre
    have hlt := length_isAck hmarker hack
    have hsub : line <+: rest := by
      refine prefix_of_prefix_length_le hpre (prefix_append _ _) ?_
      unfold flushAt at hflush
      omega
    obtain ⟨body, rfl, -⟩ := isLine_of_isAck hmarker hack
    exact hrest (hsub.subset (by simp))
  constructor
  · rintro ⟨line, hack, hpre | hafter⟩
    · by_cases hall : completePrefix rest = rest.length
      · rw [hall, drop_length, nil_append] at hpre
        exact .inr ⟨⟨hflush, hall⟩, line, hack, hpre⟩
      · have hlt : completePrefix rest < rest.length := by
          rcases completePrefix_cases rest with ⟨heq, -⟩ | ⟨hlt, -⟩ <;> omega
        exact absurd hpre (not_prefix_of_severed_sequence hmarker hack hlt)
    · rw [after_append hdrop] at hafter
      exact .inl ⟨line, hack, .inr ((after_append hrest).mpr hafter)⟩
  · rintro (⟨line, hack, hpre | hafter⟩ | ⟨⟨-, hall⟩, line, hack, hpre⟩)
    · exact absurd hpre (hlong hack)
    · rw [after_append hrest] at hafter
      exact ⟨line, hack, .inr ((after_append hdrop).mpr hafter)⟩
    · rw [hall, drop_length, nil_append]
      exact ⟨line, hack, .inl hpre⟩

/-- **Which output is acknowledged**: one with the marker on a line, and one
with the marker at the end of a line severed just before it. -/
theorem exists_piece_iff (hmarker : IsMarker marker) (chunks : List (List UInt8))
    (hpending : 0x0a ∉ pending) :
    (∃ piece ∈ pieces pending chunks, IsAck marker piece)
      ↔ HasAck marker (pending ++ chunks.flatten) ∨ Severed marker pending chunks := by
  induction chunks generalizing pending with
  | nil =>
    refine iff_of_false (by simp [pieces]) ?_
    rintro (⟨line, hack, hline⟩ | ⟨pre, chunk, post, line, heq, -⟩)
    · rw [flatten_nil, append_nil] at hline
      obtain ⟨body, rfl, -⟩ := isLine_of_isAck hmarker hack
      rcases hline with hpre | ⟨pre, hpre⟩ <;> exact hpending (hpre.subset (by simp))
    · simp at heq
  | cons chunk chunks ih =>
    obtain ⟨heq, hlines, hrest⟩ := splitLines_spec [] (pending ++ chunk) (by simp)
    have hnew : 0x0a ∉ unflushed (splitLines [] (pending ++ chunk)).2 := by
      unfold unflushed
      split_ifs
      · exact fun hmem => hrest (mem_of_mem_drop hmem)
      · exact hrest
    have hstream : HasAck marker (pending ++ (chunk :: chunks).flatten)
        ↔ (∃ piece ∈ (splitLines [] (pending ++ chunk)).1, IsAck marker piece)
          ∨ HasAck marker ((splitLines [] (pending ++ chunk)).2 ++ chunks.flatten) := by
      have hjoin : pending ++ (chunk :: chunks).flatten
          = (splitLines [] (pending ++ chunk)).1.flatten
            ++ ((splitLines [] (pending ++ chunk)).2 ++ chunks.flatten) := by
        rw [← append_assoc, heq, flatten_cons, nil_append, append_assoc]
      rw [hjoin]
      have hlf {line : List UInt8} (hack : IsAck marker line) :=
        line_flatten_append hlines (isLine_of_isAck hmarker hack)
          ((splitLines [] (pending ++ chunk)).2 ++ chunks.flatten)
      constructor
      · rintro ⟨line, hack, hline⟩
        rcases (hlf hack).mp hline with hmem | hline
        · exact .inl ⟨line, hmem, hack⟩
        · exact .inr ⟨line, hack, hline⟩
      · rintro (⟨line, hmem, hack⟩ | ⟨line, hack, hline⟩)
        · exact ⟨line, hack, (hlf hack).mpr (.inl hmem)⟩
        · exact ⟨line, hack, (hlf hack).mpr (.inr hline)⟩
    have hsplit : (∃ piece ∈ pieces pending (chunk :: chunks), IsAck marker piece)
        ↔ (∃ piece ∈ (splitLines [] (pending ++ chunk)).1, IsAck marker piece)
          ∨ ∃ piece ∈ pieces (unflushed (splitLines [] (pending ++ chunk)).2) chunks,
            IsAck marker piece := by
      rw [pieces]
      simp only [mem_append, or_and_right, exists_or]
    rw [hsplit, ih hnew, hasAck_unflushed hmarker hrest, hstream, severed_cons, or_assoc,
      or_assoc]
    exact Iff.rfl

/-! ## The acknowledgement -/

/-- **When the acknowledgement is what it should be.** An acknowledgement is
received exactly for the output that has the marker on a line of its own,
except where the marker is nowhere on a line of its own and a read severed a
long line just before it. -/
theorem acknowledged_iff_hasAck_iff {decode : List UInt8 → Option (List Char)}
    (h : Decodes decode) (hmarker : IsMarker marker) (chunks : List (List UInt8))
    (hchunks : ∀ chunk ∈ chunks, 1 ≤ chunk.length ∧ chunk.length ≤ 4096) :
    (acknowledged decode marker chunks = true ↔ HasAck marker chunks.flatten)
      ↔ (HasAck marker chunks.flatten ∨ ¬ Severed marker [] chunks) := by
  rw [acknowledged_iff_pieces h hmarker (fun chunk hc => (hchunks chunk hc).2),
    exists_piece_iff hmarker chunks (by simp), nil_append]
  by_cases hsev : Severed marker [] chunks
  · simp [hsev]
  · simp [hsev]

/-- A marker as `JuiceSpawnForLaunch` makes it. -/
def sampleMarker : List UInt8 :=
  "JUICE_JIT_RUNTIME_READY pid=7 session=E621E1F8-C36C-495A-93FC-0C247A3E6E5F".toList.map
    (fun c => .ofNat c.toNat)

theorem isMarker_sampleMarker : IsMarker sampleMarker := by
  decide +kernel

/-- The hypotheses are met by a marker on a line of its own. -/
theorem acknowledged_iff_hasAck_sample : ∃ decode, Decodes decode
    ∧ ((acknowledged decode sampleMarker [sampleMarker, [0x0d], [0x0a]] = true
        ↔ HasAck sampleMarker (sampleMarker ++ [0x0d, 0x0a]))
      ↔ (HasAck sampleMarker (sampleMarker ++ [0x0d, 0x0a])
        ∨ ¬ Severed sampleMarker [] [sampleMarker, [0x0d], [0x0a]])) := by
  obtain ⟨decode, h⟩ := exists_decodes
  exact ⟨decode, h, acknowledged_iff_hasAck_iff h isMarker_sampleMarker
    [sampleMarker, [0x0d], [0x0a]] (by decide +kernel)⟩

/-! ## A long line -/

/-- A buffer without a LF has no lines. -/
theorem splitLines_of_not_mem (h : 0x0a ∉ s) : (splitLines [] s).2 = s := by
  obtain ⟨heq, hlines, -⟩ := splitLines_spec [] s (by simp)
  cases hl : (splitLines [] s).1 with
  | nil =>
    rw [hl] at heq
    simpa using heq
  | cons line lines =>
    obtain ⟨body, hbody, -⟩ := hlines line (by rw [hl]; exact mem_cons_self)
    rw [hl, hbody] at heq
    refine absurd ?_ h
    rw [← nil_append s, ← heq]
    simp

theorem completePrefix_of_ascii (h : ∀ b ∈ s, b < 0x80) : completePrefix s = s.length := by
  rcases completePrefix_cases s with ⟨heq, -⟩ | ⟨hlt, -, hzero⟩
  · exact heq
  · rw [drop_eq_getElem_cons hlt, scalar_cons, if_pos (h _ (getElem_mem hlt))] at hzero
    cases hzero

/-- Reads of a line that does not end fill the buffer. -/
theorem buffered_replicate {k : ℕ} (hk : 4096 * k < flushAt) :
    buffered [] (List.replicate k (List.replicate 4096 0x78)) = List.replicate (4096 * k) 0x78 := by
  induction k with
  | zero => rfl
  | succ k ih =>
    have hlf (n : ℕ) : (0x0a : UInt8) ∉ List.replicate n 0x78 := fun hmem =>
      absurd (eq_of_mem_replicate hmem) (by decide)
    have hfold : buffered [] (List.replicate (k + 1) (List.replicate 4096 0x78))
        = unflushed (splitLines [] (buffered [] (List.replicate k (List.replicate 4096 0x78))
          ++ List.replicate 4096 0x78)).2 := by
      unfold buffered
      rw [replicate_succ', foldl_append]
      rfl
    rw [hfold, ih (by omega), replicate_append_replicate, splitLines_of_not_mem (hlf _),
      unflushed, if_neg]
    · rfl
    · rw [length_replicate]
      omega

/-- **The end of a long line is taken for the marker.** 64 KiB of a line are
read in chunks of 4 KiB and flushed; the marker and the LF that end the line
are then acknowledged, though the output has no such line. -/
theorem acknowledged_long_line : ∃ decode, Decodes decode ∧ IsMarker sampleMarker
    ∧ acknowledged decode sampleMarker
      (List.replicate 16 (List.replicate 4096 0x78) ++ [sampleMarker ++ [0x0a]]) = true
    ∧ ¬ HasAck sampleMarker
      (List.replicate 16 (List.replicate 4096 0x78) ++ [sampleMarker ++ [0x0a]]).flatten := by
  obtain ⟨decode, h⟩ := exists_decodes
  have hlf (n : ℕ) : (0x0a : UInt8) ∉ List.replicate n 0x78 := fun hmem =>
    absurd (eq_of_mem_replicate hmem) (by decide)
  refine ⟨decode, h, isMarker_sampleMarker, ?_, ?_⟩
  · rw [acknowledged_iff_pieces h isMarker_sampleMarker, exists_piece_iff isMarker_sampleMarker _
      (by simp)]
    · refine .inr ⟨List.replicate 15 (List.replicate 4096 0x78), List.replicate 4096 0x78,
        [sampleMarker ++ [0x0a]], sampleMarker ++ [0x0a], ?_, ?_, .inl rfl, ?_⟩
      · rw [show 16 = 15 + 1 from rfl, replicate_succ', append_assoc]
        rfl
      · unfold Severs
        rw [buffered_replicate (by decide), replicate_append_replicate,
          splitLines_of_not_mem (hlf _)]
        dsimp only
        rw [completePrefix_of_ascii, length_replicate]
        · exact ⟨by decide, rfl⟩
        · intro b hb
          rw [eq_of_mem_replicate hb]
          decide
      · simp
    · refine forall_mem_append.mpr
        ⟨fun chunk hc => ?_, forall_mem_singleton.mpr (by decide +kernel)⟩
      have hlen := congrArg List.length (eq_of_mem_replicate hc)
      exact Nat.le_of_eq (hlen.trans length_replicate)
  · rintro ⟨line, hack, hline⟩
    have hstream : (List.replicate 16 (List.replicate 4096 0x78)
        ++ [sampleMarker ++ [0x0a]]).flatten
        = List.replicate 65536 0x78 ++ (sampleMarker ++ [0x0a]) := by
      rw [flatten_append, flatten_singleton, flatten_replicate_replicate]
    have hmarker : 0x0a ∉ sampleMarker := by decide +kernel
    have hwhole : IsLine (List.replicate 65536 0x78 ++ (sampleMarker ++ [0x0a])) := by
      refine ⟨List.replicate 65536 0x78 ++ sampleMarker, by rw [append_assoc], ?_⟩
      rw [mem_append, not_or]
      exact ⟨hlf _, hmarker⟩
    -- the whole output is one line, and longer than the marker
    have hshort := length_isAck isMarker_sampleMarker hack
    have hline' := isLine_of_isAck isMarker_sampleMarker hack
    rw [hstream, ← append_nil (List.replicate 65536 0x78 ++ _),
      line_append hwhole hline'] at hline
    rcases hline with rfl | hpre | ⟨pre, hpre⟩
    · rw [length_append, length_replicate] at hshort
      omega
    · obtain ⟨body, rfl, -⟩ := hline'
      simp at hpre
    · simp at hpre

end Juice
