import Mathlib.Data.List.Basic

/-!
# Quoting an argument, and parsing it back

The argument field is parsed without a shell. Whitespace separates
arguments, a pair of quotes groups what is between them, and a quote that is
doubled inside its own group stands for itself. A file that is opened with a
Windows program is passed to it through that field, and
`JuiceDataQuotedArgument` puts its path between quotes and doubles the ones
it contains – so that, says the comment, a legal file name cannot split the
path or inject options.

Two functions of Foundation take part. One is the set of whitespace
characters. The other is `stringByReplacingOccurrencesOfString:withString:`,
which without `NSLiteralSearch` compares composed characters: a quote that
is followed by a combining mark is part of another character, is not found,
and is not doubled. The parser goes by code units, and takes it for the end
of the group.

So the round trip holds exactly for the values whose quotes are all found
(`parseArguments_quoted_iff`). With a search by code units, which finds
every quote, it would hold for all.
-/

namespace Juice.Arguments

open List

/-- The quotation mark. -/
def doubleQuote : UInt16 := 0x22

/-- The apostrophe. -/
def singleQuote : UInt16 := 0x27

/-- The space that separates arguments. -/
def space : UInt16 := 0x20

/-- **What is taken from Foundation.** -/
structure Foundation where
  /-- `whitespaceAndNewlineCharacterSet` -/
  whitespace : UInt16 → Bool
  /-- What follows a quote makes another character of it. -/
  joined : List UInt16 → Bool
  whitespace_space : whitespace space = true
  whitespace_doubleQuote : whitespace doubleQuote = false
  /-- Nothing is joined to what comes last. -/
  joined_nil : joined [] = false
  /-- A mark is no whitespace and no quote. -/
  joined_cons : ∀ c rest, joined (c :: rest) = true →
    whitespace c = false ∧ c ≠ doubleQuote ∧ c ≠ singleQuote

variable (foundation : Foundation)

/-! ## The code -/

/-- The loop of `JuiceParseArguments`; `quote` is 0 outside a group. -/
def parseLoop (quote : UInt16) (started : Bool) (current : List UInt16)
    (arguments : List (List UInt16)) : List UInt16 → Except String (List (List UInt16))
  | [] =>
    if quote ≠ 0 then .error "Arguments contain an unterminated quote."
    else .ok (if started then arguments ++ [current] else arguments)
  | c :: rest =>
    if quote ≠ 0 then
      if c = quote then
        match rest with
        | [] => parseLoop 0 true current arguments []
        | d :: rest' =>
          if d = quote then parseLoop quote true (current ++ [quote]) arguments rest'
          else parseLoop 0 true current arguments (d :: rest')
      else parseLoop quote true (current ++ [c]) arguments rest
    else if c = doubleQuote ∨ c = singleQuote then parseLoop c true current arguments rest
    else if foundation.whitespace c then
      if started then parseLoop 0 false [] (arguments ++ [current]) rest
      else parseLoop 0 started current arguments rest
    else parseLoop 0 true (current ++ [c]) arguments rest

/-- **`JuiceParseArguments`** -/
def parseArguments (line : List UInt16) : Except String (List (List UInt16)) :=
  if line = [] then .ok []
  else if 0 ∈ line then .error "Arguments cannot contain a NUL character."
  else parseLoop foundation 0 false [] [] line

/-- `stringByReplacingOccurrencesOfString:@"\"" withString:@"\"\""` -/
def escaped : List UInt16 → List UInt16
  | [] => []
  | c :: rest =>
    if c = doubleQuote ∧ foundation.joined rest = false then
      doubleQuote :: doubleQuote :: escaped rest
    else c :: escaped rest

/-- **`JuiceDataQuotedArgument`** -/
def quotedArgument (value : List UInt16) : List UInt16 :=
  doubleQuote :: (escaped foundation value ++ [doubleQuote])

/-- The quoted values, joined by spaces. -/
def argumentLine (values : List (List UInt16)) : List UInt16 :=
  [space].intercalate (values.map (quotedArgument foundation))

/-! ## A group -/

/-- **Every quote of a value is found** by the search. -/
def QuotesFound : List UInt16 → Prop
  | [] => True
  | c :: rest => (c = doubleQuote → foundation.joined rest = false) ∧ QuotesFound rest

variable {foundation}
variable {started : Bool} {current : List UInt16} {arguments : List (List UInt16)}
  {rest value : List UInt16} {c : UInt16}

theorem doubleQuote_ne_zero : doubleQuote ≠ 0 := by decide

theorem not_zero_ne_zero : ¬ (0 : UInt16) ≠ 0 := fun h => h rfl

/-- The start of a line that does not go on with a quote. -/
def NoQuote (rest : List UInt16) : Prop := rest.head? ≠ some doubleQuote

/-- One turn of the loop. -/
theorem parseLoop_cons (quote : UInt16) (c : UInt16) (rest : List UInt16) :
    parseLoop foundation quote started current arguments (c :: rest)
      = if quote ≠ 0 then
          if c = quote then
            if rest.head? = some quote then
              parseLoop foundation quote true (current ++ [quote]) arguments rest.tail
            else parseLoop foundation 0 true current arguments rest
          else parseLoop foundation quote true (current ++ [c]) arguments rest
        else if c = doubleQuote ∨ c = singleQuote then
          parseLoop foundation c true current arguments rest
        else if foundation.whitespace c then
          if started then parseLoop foundation 0 false [] (arguments ++ [current]) rest
          else parseLoop foundation 0 started current arguments rest
        else parseLoop foundation 0 true (current ++ [c]) arguments rest := by
  conv_lhs => rw [parseLoop.eq_def]
  cases rest with
  | nil => rfl
  | cons d rest => simp only [List.head?_cons, Option.some_inj, tail_cons]

/-- A quote that is not doubled ends its group. -/
theorem parseLoop_close (h : NoQuote rest) :
    parseLoop foundation doubleQuote started current arguments (doubleQuote :: rest)
      = parseLoop foundation 0 true current arguments rest := by
  rw [parseLoop_cons, if_pos doubleQuote_ne_zero, if_pos rfl, if_neg h]

/-- What is not a quote is taken as it is. -/
theorem parseLoop_char (hc : c ≠ doubleQuote) (rest : List UInt16) :
    parseLoop foundation doubleQuote started current arguments (c :: rest)
      = parseLoop foundation doubleQuote true (current ++ [c]) arguments rest := by
  rw [parseLoop_cons, if_pos doubleQuote_ne_zero, if_neg hc]

/-- Outside a group what is not special is taken as it is. -/
theorem parseLoop_plain (hdouble : c ≠ doubleQuote) (hsingle : c ≠ singleQuote)
    (hspace : foundation.whitespace c = false) (rest : List UInt16) :
    parseLoop foundation 0 started current arguments (c :: rest)
      = parseLoop foundation 0 true (current ++ [c]) arguments rest := by
  rw [parseLoop_cons, if_neg not_zero_ne_zero, if_neg (not_or.mpr ⟨hdouble, hsingle⟩), hspace]
  rfl

/-- A quote starts a group. -/
theorem parseLoop_open (rest : List UInt16) :
    parseLoop foundation 0 started current arguments (doubleQuote :: rest)
      = parseLoop foundation doubleQuote true current arguments rest := by
  rw [parseLoop_cons, if_neg not_zero_ne_zero, if_pos (.inl rfl)]

/-- A space ends an argument. -/
theorem parseLoop_space (rest : List UInt16) :
    parseLoop foundation 0 true current arguments (space :: rest)
      = parseLoop foundation 0 false [] (arguments ++ [current]) rest := by
  rw [parseLoop_cons, if_neg not_zero_ne_zero, if_neg (by decide),
    if_pos foundation.whitespace_space, if_pos rfl]

/-- A doubled quote stands for itself. -/
theorem parseLoop_doubled (rest : List UInt16) :
    parseLoop foundation doubleQuote started current arguments
        (doubleQuote :: doubleQuote :: rest)
      = parseLoop foundation doubleQuote true (current ++ [doubleQuote]) arguments rest := by
  rw [parseLoop_cons, if_pos doubleQuote_ne_zero, if_pos rfl, if_pos List.head?_cons,
    tail_cons]

theorem escaped_quote (h : foundation.joined rest = false) :
    escaped foundation (doubleQuote :: rest)
      = doubleQuote :: doubleQuote :: escaped foundation rest := if_pos ⟨rfl, h⟩

theorem escaped_char (h : ¬ (c = doubleQuote ∧ foundation.joined rest = false)) :
    escaped foundation (c :: rest) = c :: escaped foundation rest := if_neg h

/-- **A group whose quotes are all found** comes back as it was. -/
theorem parseLoop_escaped (h : QuotesFound foundation value) (hrest : NoQuote rest) :
    parseLoop foundation doubleQuote started current arguments
        (escaped foundation value ++ doubleQuote :: rest)
      = parseLoop foundation 0 true (current ++ value) arguments rest := by
  induction value generalizing started current with
  | nil =>
    rw [append_nil]
    exact parseLoop_close hrest
  | cons c value ih =>
    by_cases hc : c = doubleQuote
    · subst hc
      rw [escaped_quote (h.1 rfl), cons_append, cons_append, parseLoop_doubled, ih h.2,
        append_assoc, singleton_append]
    · rw [escaped_char fun hboth => hc hboth.1, cons_append, parseLoop_char hc, ih h.2,
        append_assoc, singleton_append]

/-- **A quote that is not found** ends the group: the argument goes on with
the mark that follows it. -/
theorem parseLoop_unfound (h : ¬ QuotesFound foundation value) (rest : List UInt16) :
    ∃ before mark tail behind, value = before ++ doubleQuote :: tail ∧ mark ≠ doubleQuote
      ∧ parseLoop foundation doubleQuote started current arguments
          (escaped foundation value ++ doubleQuote :: rest)
        = parseLoop foundation 0 true (current ++ before ++ [mark]) arguments behind := by
  induction value generalizing started current with
  | nil => exact absurd trivial h
  | cons c value ih =>
    by_cases hfirst : c = doubleQuote ∧ foundation.joined value = true
    · -- The mark is there, or nothing would be joined.
      obtain ⟨rfl, hjoined⟩ := hfirst
      cases value with
      | nil => exact absurd (foundation.joined_nil.symm.trans hjoined) Bool.false_ne_true
      | cons mark tail =>
        obtain ⟨hspace, hdouble, hsingle⟩ := foundation.joined_cons mark tail hjoined
        refine ⟨[], mark, mark :: tail, escaped foundation tail ++ doubleQuote :: rest, rfl, hdouble,
          ?_⟩
        have hquote : ¬ (doubleQuote = doubleQuote ∧ foundation.joined (mark :: tail) = false) := by
          rw [hjoined]
          exact fun hboth => Bool.false_ne_true hboth.2.symm
        have hmark : NoQuote (mark :: (escaped foundation tail ++ doubleQuote :: rest)) :=
          fun hhead => hdouble (Option.some.inj hhead)
        rw [escaped_char hquote, escaped_char fun hboth => hdouble hboth.1, cons_append,
          cons_append, parseLoop_close hmark, parseLoop_plain hdouble hsingle hspace,
          append_nil]
    · have hvalue : ¬ QuotesFound foundation value := by
        refine fun hfound => h ⟨fun hc => ?_, hfound⟩
        exact Bool.eq_false_iff.mpr fun hjoined => hfirst ⟨hc, hjoined⟩
      by_cases hc : c = doubleQuote
      · subst hc
        have hfound : foundation.joined value = false :=
          Bool.eq_false_iff.mpr fun hjoined => hfirst ⟨rfl, hjoined⟩
        obtain ⟨before, mark, tail, behind, rfl, hmark, heq⟩ :=
          @ih true (current ++ [doubleQuote]) hvalue
        refine ⟨doubleQuote :: before, mark, tail, behind, rfl, hmark, ?_⟩
        rw [escaped_quote hfound, cons_append, cons_append, parseLoop_doubled, heq]
        simp
      · obtain ⟨before, mark, tail, behind, rfl, hmark, heq⟩ := @ih true (current ++ [c]) hvalue
        refine ⟨c :: before, mark, tail, behind, rfl, hmark, ?_⟩
        rw [escaped_char fun hboth => hc hboth.1, cons_append, parseLoop_char hc, heq]
        simp

/-! ## The whole line -/

/-- **What is parsed is there to stay**: the arguments so far come first,
and the one that has been started goes on as it began. -/
def Continues (started : Bool) (current : List UInt16) (arguments result : List (List UInt16)) :
    Prop :=
  arguments <+: result
    ∧ (started = true → ∃ argument behind, result = arguments ++ argument :: behind
      ∧ current <+: argument)

variable {result : List (List UInt16)}

/-- An argument that is longer by now began the same way. -/
theorem Continues.of_longer {more : List UInt16}
    (h : Continues true (current ++ more) arguments result) :
    Continues started current arguments result := by
  obtain ⟨argument, behind, heq, hpre⟩ := h.2 rfl
  exact ⟨h.1, fun _ => ⟨argument, behind, heq, (prefix_append _ _).trans hpre⟩⟩

theorem Continues.of_started (h : Continues true current arguments result) :
    Continues started current arguments result := ⟨h.1, fun _ => h.2 rfl⟩

/-- An argument that has been added is in its place. -/
theorem Continues.of_added (h : Continues false [] (arguments ++ [current]) result) :
    Continues started current arguments result := by
  obtain ⟨behind, heq⟩ := h.1
  rw [append_assoc, singleton_append] at heq
  exact ⟨⟨_, heq⟩, fun _ => ⟨current, behind, heq.symm, prefix_rfl⟩⟩

theorem continues_of_parseLoop {quote : UInt16} {line : List UInt16}
    (h : parseLoop foundation quote started current arguments line = .ok result) :
    Continues started current arguments result := by
  fun_induction parseLoop foundation quote started current arguments line with
  | case1 => cases h
  | case2 quote started current arguments =>
    cases h
    cases started with
    | true => exact ⟨prefix_append _ _, fun _ => ⟨current, [], rfl, prefix_rfl⟩⟩
    | false => exact ⟨prefix_rfl, fun hfalse => absurd hfalse Bool.false_ne_true⟩
  | case3 started current arguments c hquote ih => exact (ih h).of_started
  | case4 started current arguments c rest hquote ih => exact (ih h).of_longer
  | case5 started current arguments quote d rest hquote hd ih => exact (ih h).of_started
  | case6 quote started current arguments c rest hquote hc ih => exact (ih h).of_longer
  | case7 quote started current arguments c rest hquote hc ih => exact (ih h).of_started
  | case8 quote current arguments c rest hquote hc hspace ih => exact (ih h).of_added
  | case9 quote started current arguments c rest hquote hc hspace hstarted ih => exact ih h
  | case10 quote started current arguments c rest hquote hc hspace ih => exact (ih h).of_longer

/-- **One quoted value**, and what follows it: if its quotes are found it is
the next argument, and otherwise something else is. -/
theorem parseLoop_quoted (hrest : NoQuote rest) {following : List (List UInt16)} :
    parseLoop foundation 0 false [] arguments (quotedArgument foundation value ++ rest)
        = .ok (arguments ++ value :: following)
      ↔ QuotesFound foundation value
        ∧ parseLoop foundation 0 true value arguments rest
          = .ok (arguments ++ value :: following) := by
  have hline : quotedArgument foundation value ++ rest
      = doubleQuote :: (escaped foundation value ++ doubleQuote :: rest) := by
    unfold quotedArgument
    rw [cons_append, append_assoc, singleton_append]
  rw [hline, parseLoop_open]
  by_cases hfound : QuotesFound foundation value
  · rw [parseLoop_escaped hfound hrest, nil_append]
    exact (and_iff_right hfound).symm
  · refine iff_of_false (fun hok => ?_) (fun hboth => hfound hboth.1)
    obtain ⟨before, mark, tail, behind, rfl, hmark, heq⟩ :=
      @parseLoop_unfound foundation true [] arguments value hfound rest
    rw [heq] at hok
    obtain ⟨argument, behind', hsame, hpre⟩ := (continues_of_parseLoop hok).2 rfl
    -- The argument goes on with the mark where the value has its quote.
    have hargument : argument = before ++ doubleQuote :: tail :=
      (List.cons.inj (append_cancel_left hsame)).1.symm
    rw [hargument, nil_append, prefix_append_right_inj, cons_prefix_cons] at hpre
    exact hmark hpre.1

theorem noQuote_space (rest : List UInt16) : NoQuote (space :: rest) := by
  intro h
  exact absurd (Option.some.inj h) (by decide)

theorem argumentLine_singleton (v : List UInt16) :
    argumentLine foundation [v] = quotedArgument foundation v := by
  unfold argumentLine
  simp [List.intercalate]

theorem argumentLine_cons_cons (v w : List UInt16) (values : List (List UInt16)) :
    argumentLine foundation (v :: w :: values)
      = quotedArgument foundation v ++ space :: argumentLine foundation (w :: values) := by
  unfold argumentLine
  simp [List.intercalate]

/-- **The whole line**, by induction over the values. -/
theorem parseLoop_argumentLine (values : List (List UInt16)) :
    parseLoop foundation 0 false [] arguments (argumentLine foundation values)
        = .ok (arguments ++ values)
      ↔ ∀ v ∈ values, QuotesFound foundation v := by
  induction values generalizing arguments with
  | nil =>
    rw [append_nil]
    exact iff_of_true rfl fun v hv => absurd hv not_mem_nil
  | cons v values ih =>
    rw [forall_mem_cons]
    cases values with
    | nil =>
      rw [argumentLine_singleton, ← append_nil (quotedArgument foundation v),
        parseLoop_quoted (by simp [NoQuote])]
      exact and_congr_right fun _ => iff_of_true rfl fun v hv => absurd hv not_mem_nil
    | cons w values =>
      have hnext := @ih (arguments ++ [v])
      rw [append_assoc, singleton_append] at hnext
      rw [argumentLine_cons_cons, parseLoop_quoted (noQuote_space _), parseLoop_space, hnext]

/-! ## The condition for the round trip -/

theorem mem_escaped (h : c ∈ escaped foundation value) : c = doubleQuote ∨ c ∈ value := by
  induction value with
  | nil => exact absurd h not_mem_nil
  | cons d value ih =>
    unfold escaped at h
    split at h
    · rcases mem_cons.mp h with h | h
      · exact .inl h
      rcases mem_cons.mp h with h | h
      · exact .inl h
      · exact (ih h).imp_right (mem_cons_of_mem _)
    · rcases mem_cons.mp h with rfl | h
      · exact .inr mem_cons_self
      · exact (ih h).imp_right (mem_cons_of_mem _)

theorem zero_not_mem_quotedArgument (h : 0 ∉ value) : 0 ∉ quotedArgument foundation value := by
  intro hmem
  rcases mem_cons.mp hmem with hzero | hmem
  · exact absurd hzero (by decide)
  rcases mem_append.mp hmem with hmem | hmem
  · rcases mem_escaped hmem with hzero | hmem
    · exact absurd hzero (by decide)
    · exact h hmem
  · exact absurd (mem_singleton.mp hmem) (by decide)

theorem zero_not_mem_argumentLine {values : List (List UInt16)} (h : ∀ v ∈ values, 0 ∉ v) :
    0 ∉ argumentLine foundation values := by
  induction values with
  | nil => exact not_mem_nil
  | cons v values ih =>
    rw [forall_mem_cons] at h
    cases values with
    | nil =>
      rw [argumentLine_singleton]
      exact zero_not_mem_quotedArgument h.1
    | cons w values =>
      rw [argumentLine_cons_cons]
      intro hmem
      rcases mem_append.mp hmem with hmem | hmem
      · exact zero_not_mem_quotedArgument h.1 hmem
      rcases mem_cons.mp hmem with hzero | hmem
      · exact absurd hzero (by decide)
      · exact ih h.2 hmem

/-- A word without anything special is an argument by itself. -/
theorem parseLoop_word {word : List UInt16} (hne : word ≠ [])
    (h : ∀ c ∈ word, foundation.whitespace c = false ∧ c ≠ doubleQuote ∧ c ≠ singleQuote)
    (rest : List UInt16) :
    parseLoop foundation 0 started current arguments (word ++ rest)
      = parseLoop foundation 0 true (current ++ word) arguments rest := by
  induction word generalizing started current with
  | nil => exact absurd rfl hne
  | cons c word ih =>
    obtain ⟨hspace, hdouble, hsingle⟩ := h c mem_cons_self
    rw [cons_append, parseLoop_plain hdouble hsingle hspace]
    cases word with
    | nil => rfl
    | cons d word =>
      rw [ih (cons_ne_nil _ _) fun c hc => h c (mem_cons_of_mem _ hc), append_assoc,
        singleton_append]

/-- A line without a NUL is parsed by the loop. -/
theorem parseArguments_of_not_mem {line : List UInt16} (h : 0 ∉ line) :
    parseArguments foundation line = parseLoop foundation 0 false [] [] line := by
  unfold parseArguments
  by_cases hnil : line = []
  · rw [hnil]
    rfl
  · rw [if_neg hnil, if_neg h]

/-- **When quoted values come back.** For values without a NUL, the line of
the quoted values is parsed to exactly these values if and only if the search
finds every quote in them; and a plain word followed by a quoted value is
parsed to the two of them if and only if it finds every quote of the
value. -/
theorem parseArguments_quoted_iff (foundation : Foundation) {values : List (List UInt16)}
    (hvalues : ∀ v ∈ values, 0 ∉ v) {word value : List UInt16} (hne : word ≠ [])
    (hword : ∀ c ∈ word, foundation.whitespace c = false ∧ c ≠ doubleQuote ∧ c ≠ singleQuote
      ∧ c ≠ 0) (hvalue : 0 ∉ value) :
    (parseArguments foundation (argumentLine foundation values) = .ok values
        ↔ ∀ v ∈ values, QuotesFound foundation v)
    ∧ (parseArguments foundation (word ++ space :: quotedArgument foundation value)
          = .ok [word, value]
        ↔ QuotesFound foundation value) := by
  constructor
  · rw [parseArguments_of_not_mem (zero_not_mem_argumentLine hvalues)]
    exact @parseLoop_argumentLine foundation [] values
  · have hline : 0 ∉ word ++ space :: quotedArgument foundation value := by
      intro hmem
      rcases mem_append.mp hmem with hmem | hmem
      · exact (hword 0 hmem).2.2.2 rfl
      rcases mem_cons.mp hmem with hzero | hmem
      · exact absurd hzero (by decide)
      · exact zero_not_mem_quotedArgument hvalue hmem
    rw [parseArguments_of_not_mem hline, parseLoop_word hne
      fun c hc => ⟨(hword c hc).1, (hword c hc).2.1, (hword c hc).2.2.1⟩, parseLoop_space]
    have hquoted := @parseLoop_argumentLine foundation [word] [value]
    rw [argumentLine_singleton, forall_mem_singleton] at hquoted
    exact hquoted

/-! ## A name with an accent on its quotes -/

/-- A search that knows one combining mark, the acute accent. -/
def acute : Foundation where
  whitespace c := c == 0x20 || (decide (0x09 ≤ c) && decide (c ≤ 0x0d))
  joined rest := rest.head? == some 0x0301
  whitespace_space := rfl
  whitespace_doubleQuote := rfl
  joined_nil := rfl
  joined_cons := by
    intro c rest h
    have hc : c = 0x0301 := by simpa using h
    rw [hc]
    decide

/-- `x"y` and a name that is two backslashes: what is found comes back. -/
theorem parseArguments_acute :
    parseArguments acute (argumentLine acute [[0x78, 0x22, 0x79], [0x5c, 0x5c]])
        = .ok [[0x78, 0x22, 0x79], [0x5c, 0x5c]]
      ∧ parseArguments acute ([0x2f, 0x69] ++ space :: quotedArgument acute [0x22])
        = .ok [[0x2f, 0x69], [0x22]] := by
  have h := @parseArguments_quoted_iff acute [[0x78, 0x22, 0x79], [0x5c, 0x5c]] (by decide)
    [0x2f, 0x69] [0x22] (by decide) (by simp [acute, doubleQuote, singleQuote]) (by decide)
  exact ⟨h.1.mpr (by simp [QuotesFound, acute]), h.2.mpr (by simp [QuotesFound, acute])⟩

/-- **An injected option**: the path of a file named `a` with an accented
quote, ` /q `, and another accented quote is parsed to three arguments, of
which the second is `/q`. -/
theorem parseArguments_injects :
    parseArguments acute ([0x2f, 0x69] ++ space :: quotedArgument acute
        [0x61, 0x22, 0x0301, 0x20, 0x2f, 0x71, 0x20, 0x22, 0x0301])
      = .ok [[0x2f, 0x69], [0x61, 0x0301], [0x2f, 0x71], [0x0301]] := by
  decide

end Juice.Arguments
