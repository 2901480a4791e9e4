import Mathlib.Data.List.Nodup

/-!
# DLL overrides

A profile may say for a DLL whether Wine takes its own or the native one,
in the syntax of `WINEDLLOVERRIDES`: entries separated by semicolons, each
of them a list of modules, an equals sign, and what to load for them in
which order. `JuiceDLLOverridesValid` looks at such a string by hand, with
one cursor and three nested loops, and accepts exactly the language of the
grammar written out below (`overridesValid_iff`).

The cursor is the list of the bytes that are left. Every place at which the
code looks at a byte is a `peek`, which fails at the end of the string, and a
comparison of several bytes fails if they are not there; that none of them
ever does is part of the result.
-/

namespace Juice.Overrides

open List

/-- `,` -/
def comma : UInt8 := 0x2c

/-- `;` -/
def semicolon : UInt8 := 0x3b

/-- `=` -/
def equals : UInt8 := 0x3d

/-! ## The code -/

/-- `s[i]`; there is no such byte at the end. -/
def peek (rest : List UInt8) : Option UInt8 := rest.head?

/-- The `n` bytes that `memcmp` looks at. -/
def peekN (n : ℕ) (rest : List UInt8) : Option (List UInt8) :=
  if n ≤ rest.length then some (rest.take n) else none

/-- `module_char` -/
def moduleChar (c : UInt8) : Bool :=
  (decide (0x61 ≤ c) && decide (c ≤ 0x7a)) || (decide (0x41 ≤ c) && decide (c ≤ 0x5a))
    || (decide (0x30 ≤ c) && decide (c ≤ 0x39)) || c == 0x5f || c == 0x2d || c == 0x2e || c == 0x2a

/-- The letters a value is made of. -/
def lower (c : UInt8) : Bool := decide (0x61 ≤ c) && decide (c ≤ 0x7a)

def isSpace (c : UInt8) : Bool := c == 0x20

/-- `spaces` -/
def spaces (rest : List UInt8) : List UInt8 := rest.dropWhile isSpace

/-- Behind a module. -/
def afterModule (rest : List UInt8) : List UInt8 := (spaces rest).dropWhile moduleChar

/-- **The loop over the modules** of an entry: `none` inside if it returns
false, and otherwise what is behind the equals sign. -/
def modules (rest : List UInt8) : Option (Option (List UInt8)) :=
  if (afterModule rest).length = (spaces rest).length
      ∨ 255 < (spaces rest).length - (afterModule rest).length then some none
  else if _ : spaces (afterModule rest) ≠ [] then
    (peek (spaces (afterModule rest))).bind fun c =>
      if c = comma then modules (spaces (afterModule rest)).tail
      else (peek (spaces (afterModule rest))).bind fun c =>
        if c ≠ equals then some none else some (some (spaces (afterModule rest)).tail)
  else some none
termination_by rest.length
decreasing_by
  have hpos := List.length_pos_of_ne_nil ‹spaces (afterModule rest) ≠ []›
  have hle : (spaces (afterModule rest)).length ≤ rest.length :=
    ((List.dropWhile_suffix _).trans
      ((List.dropWhile_suffix _).trans (List.dropWhile_suffix _))).length_le
  rw [List.length_tail]
  omega

/-- `(count == 1 && s[begin] == letter) || (count == … && !memcmp(…))` -/
def wordIs (letter : UInt8) (word : List UInt8) (start : List UInt8) (count : ℕ) : Option Bool :=
  (if count = 1 then (peek start).map (fun c => decide (c = letter)) else some false).bind
    fun short =>
      if short then some true
      else if count = word.length then
        (peekN word.length start).map (fun bytes => decide (bytes = word))
      else some false

/-- `native` -/
def nativeWord : List UInt8 := [0x6e, 0x61, 0x74, 0x69, 0x76, 0x65]

/-- `builtin` -/
def builtinWord : List UInt8 := [0x62, 0x75, 0x69, 0x6c, 0x74, 0x69, 0x6e]

/-- The bit of the value with `count` letters at `start`. -/
def wordBit (start : List UInt8) (count : ℕ) : Option ℕ :=
  (wordIs 0x6e nativeWord start count).bind fun native =>
    if native then some 1
    else (wordIs 0x62 builtinWord start count).map fun builtin => if builtin then 2 else 0

/-- Behind the letters of a value. -/
def afterWord (rest : List UInt8) : List UInt8 := (spaces rest).dropWhile lower

/-- **The loop over the values** of an entry: `none` inside if it returns
false, and otherwise what is left, from the semicolon on. -/
def values (seen : ℕ) (rest : List UInt8) : Option (Option (List UInt8)) :=
  if spaces rest = [] then some (some [])
  else (peek (spaces rest)).bind fun c =>
    if c = semicolon then some (some (spaces rest))
    else (wordBit (spaces rest) ((spaces rest).length - (afterWord rest).length)).bind fun bit =>
      if bit = 0 ∨ seen &&& bit ≠ 0 then some none
      else if _ : spaces (afterWord rest) = [] then some (some [])
      else (peek (spaces (afterWord rest))).bind fun c =>
        if c = semicolon then some (some (spaces (afterWord rest)))
        else (peek (spaces (afterWord rest))).bind fun c =>
          if c ≠ comma then some none
          else if spaces (spaces (afterWord rest)).tail = [] then some none
          else (peek (spaces (spaces (afterWord rest)).tail)).bind fun c =>
            if c = semicolon then some none
            else values (seen ||| bit) (spaces (spaces (afterWord rest)).tail)
termination_by rest.length
decreasing_by
  have hpos := List.length_pos_of_ne_nil ‹¬ spaces (afterWord rest) = []›
  have hle : (spaces (afterWord rest)).length ≤ rest.length :=
    ((List.dropWhile_suffix _).trans
      ((List.dropWhile_suffix _).trans (List.dropWhile_suffix _))).length_le
  have hsuffix : (spaces (spaces (afterWord rest)).tail).length
      ≤ (spaces (afterWord rest)).tail.length := (List.dropWhile_suffix _).length_le
  rw [List.length_tail] at hsuffix
  omega

/-! ## The grammar -/

/-- One or more `P`, separated. -/
inductive SepBy (sep : UInt8) (P : List UInt8 → Prop) : List UInt8 → Prop
  | one {x : List UInt8} (hx : P x) : SepBy sep P x
  | cons {x rest : List UInt8} (hx : P x) (hrest : SepBy sep P rest) :
    SepBy sep P (x ++ sep :: rest)

/-- `SP*` -/
def Spaces (l : List UInt8) : Prop := ∀ c ∈ l, isSpace c = true

/-- `SP* P SP*` -/
def Padded (P : List UInt8 → Prop) (l : List UInt8) : Prop :=
  ∃ a w b, l = a ++ (w ++ b) ∧ Spaces a ∧ P w ∧ Spaces b

/-- `module`: 1 to 255 characters from `[A-Za-z0-9_.*-]`. -/
def Module (w : List UInt8) : Prop := w ≠ [] ∧ w.length ≤ 255 ∧ ∀ c ∈ w, moduleChar c = true

/-- What a value asks for. -/
inductive Kind
  | native
  | builtin
  deriving DecidableEq

/-- `value`: `n`, `native`, `b` or `builtin`. -/
def Value : Kind → List UInt8 → Prop
  | .native, w => w = [0x6e] ∨ w = nativeWord
  | .builtin, w => w = [0x62] ∨ w = builtinWord

/-- `SP* value SP* (',' SP* value SP*)*`, with the kinds of the values. -/
inductive ValueList : List Kind → List UInt8 → Prop
  | one {k : Kind} {x : List UInt8} (hx : Padded (Value k) x) : ValueList [k] x
  | cons {k : Kind} {kinds : List Kind} {x rest : List UInt8} (hx : Padded (Value k) x)
    (hrest : ValueList kinds rest) : ValueList (k :: kinds) (x ++ comma :: rest)

/-- `vals`: nothing, or a list of values with no kind twice. -/
def Vals (v : List UInt8) : Prop := Spaces v ∨ ∃ kinds, ValueList kinds v ∧ kinds.Nodup

/-- `entry = mods '=' vals` -/
def Entry (e : List UInt8) : Prop :=
  ∃ m v, e = m ++ equals :: v ∧ SepBy comma (Padded Module) m ∧ Vals v

/-- **The language of overrides**: nothing, or `entry (';' entry)*`. -/
def IsOverrides (s : List UInt8) : Prop := s = [] ∨ SepBy semicolon Entry s

/-! ## Scanning -/

/-- A scan for `p` stops here. -/
def Halts (p : UInt8 → Bool) (rest : List UInt8) : Prop := ∀ c ∈ rest.head?, p c = false

variable {p : UInt8 → Bool} {w rest x r : List UInt8} {k : Kind}

theorem halts_cons {c : UInt8} (h : p c = false) (rest : List UInt8) : Halts p (c :: rest) := by
  intro d hd
  rw [← Option.some.inj hd]
  exact h

theorem halts_nil : Halts p [] := fun _ h => absurd h (by simp)

/-- A scan takes all there is, and no more. -/
theorem dropWhile_append_of_halts (hw : ∀ c ∈ w, p c = true) (hrest : Halts p rest) :
    (w ++ rest).dropWhile p = rest := by
  rw [dropWhile_append_of_pos hw]
  cases rest with
  | nil => rfl
  | cons c rest => exact dropWhile_cons_of_neg (by rw [hrest c rfl]; exact Bool.false_ne_true)

/-- **What a scan does to a list.** -/
theorem exists_dropWhile (p : UInt8 → Bool) (rest : List UInt8) :
    ∃ w, rest = w ++ rest.dropWhile p ∧ (∀ c ∈ w, p c = true) ∧ Halts p (rest.dropWhile p) := by
  induction rest with
  | nil => exact ⟨[], rfl, fun c hc => absurd hc not_mem_nil, halts_nil⟩
  | cons c rest ih =>
    by_cases hc : p c = true
    · obtain ⟨w, heq, hw, hhalts⟩ := ih
      rw [dropWhile_cons_of_pos hc]
      exact ⟨c :: w, congrArg (c :: ·) heq, forall_mem_cons.mpr ⟨hc, hw⟩, hhalts⟩
    · rw [dropWhile_cons_of_neg hc]
      exact ⟨[], rfl, fun c hc => absurd hc not_mem_nil,
        halts_cons (Bool.eq_false_iff.mpr hc) rest⟩

/-- Spaces, a word and spaces, and what is left. -/
theorem exists_padded (p : UInt8 → Bool) (rest : List UInt8) :
    ∃ a w b, Spaces a ∧ (∀ c ∈ w, p c = true) ∧ Spaces b
      ∧ spaces rest = w ++ (spaces rest).dropWhile p
      ∧ rest = a ++ (w ++ b) ++ spaces ((spaces rest).dropWhile p) := by
  obtain ⟨a, ha, hspaces, -⟩ := exists_dropWhile isSpace rest
  obtain ⟨w, hw, hword, -⟩ := exists_dropWhile p (spaces rest)
  obtain ⟨b, hb, hspaces', -⟩ := exists_dropWhile isSpace ((spaces rest).dropWhile p)
  refine ⟨a, w, b, hspaces, hword, hspaces', hw, ?_⟩
  rw [append_assoc, append_assoc]
  exact ha.trans (congrArg (a ++ ·) (hw.trans (congrArg (w ++ ·) hb)))

/-! ## Modules -/

/-- No character of a module is a space or a separator. -/
theorem moduleChar_ne {c : UInt8} (h : moduleChar c = true) :
    isSpace c = false ∧ c ≠ comma ∧ c ≠ equals := by
  have hall : ∀ x : BitVec 8, moduleChar (.ofBitVec x) = true →
      isSpace (.ofBitVec x) = false ∧ UInt8.ofBitVec x ≠ comma ∧ UInt8.ofBitVec x ≠ equals := by
    decide +kernel
  exact hall c.toBitVec h

/-- A scan for a word between spaces. -/
theorem scan_padded {P : List UInt8 → Prop} (hx : Padded P x)
    (hne : ∀ w, P w → w ≠ [] ∧ ∀ c ∈ w, p c = true) (hp : ∀ c, p c = true → isSpace c = false)
    (hrest : Halts p rest) (hrest' : Halts isSpace rest) :
    ∃ w b, P w ∧ Spaces b ∧ spaces (x ++ rest) = w ++ (b ++ rest)
      ∧ (spaces (x ++ rest)).dropWhile p = b ++ rest
      ∧ spaces ((spaces (x ++ rest)).dropWhile p) = rest := by
  obtain ⟨a, w, b, rfl, ha, hw, hb⟩ := hx
  obtain ⟨hnil, hall⟩ := hne w hw
  have hstart : spaces (a ++ (w ++ b) ++ rest) = w ++ (b ++ rest) := by
    rw [append_assoc, append_assoc]
    refine dropWhile_append_of_halts ha ?_
    cases w with
    | nil => exact absurd rfl hnil
    | cons c w => exact halts_cons (hp c (hall c mem_cons_self)) _
  have hbehind : (w ++ (b ++ rest)).dropWhile p = b ++ rest := by
    refine dropWhile_append_of_halts hall ?_
    cases b with
    | nil => exact hrest
    | cons c b =>
      refine halts_cons ?_ _
      by_contra hc
      have := hp c (Bool.not_eq_false _ ▸ hc)
      rw [hb c mem_cons_self] at this
      exact Bool.false_ne_true this.symm
  refine ⟨w, b, hw, hb, hstart, ?_, ?_⟩
  · rw [hstart, hbehind]
  · rw [hstart, hbehind]
    exact dropWhile_append_of_halts hb hrest'

/-- **One module**, and the comma or the equals sign behind it. -/
theorem modules_padded (hx : Padded Module x) {d : UInt8} (hd : d = comma ∨ d = equals)
    (t : List UInt8) : modules (x ++ d :: t) = if d = comma then modules t else some (some t) := by
  have hhalts : moduleChar d = false ∧ isSpace d = false := by
    rcases hd with rfl | rfl
    · exact ⟨by decide, by decide⟩
    · exact ⟨by decide, by decide⟩
  obtain ⟨w, b, hw, -, hstart, hbehind, hrest⟩ := scan_padded hx
    (fun w hw => ⟨hw.1, hw.2.2⟩) (fun c hc => (moduleChar_ne hc).1) (halts_cons hhalts.1 t)
    (halts_cons hhalts.2 t)
  have hpos := length_pos_of_ne_nil hw.1
  have hle := hw.2.1
  have hgo : ¬ ((b ++ d :: t).length = (w ++ (b ++ d :: t)).length
      ∨ 255 < (w ++ (b ++ d :: t)).length - (b ++ d :: t).length) := by
    have hlen : (w ++ (b ++ d :: t)).length = w.length + (b ++ d :: t).length :=
      length_append
    omega
  rw [modules]
  unfold afterModule
  rw [hrest, hbehind, hstart, if_neg hgo, dif_pos (cons_ne_nil d t)]
  show (if d = comma then modules t else if d ≠ equals then some none else some (some t)) = _
  rcases hd with rfl | rfl
  · rfl
  · rfl

/-- Where the loop does not find one, it returns false. -/
theorem modules_cases (rest : List UInt8) :
    modules rest = some none
      ∨ ∃ x d t, rest = x ++ d :: t ∧ Padded Module x ∧ (d = comma ∨ d = equals) := by
  obtain ⟨a, w, b, hspaces, hword, hspaces', hw, heq⟩ := exists_padded moduleChar rest
  have hlen := congrArg List.length hw
  rw [length_append] at hlen
  by_cases hmodule : Module w
  · have hpos := length_pos_of_ne_nil hmodule.1
    have hle := hmodule.2.1
    have hgo : ¬ ((afterModule rest).length = (spaces rest).length
        ∨ 255 < (spaces rest).length - (afterModule rest).length) := by
      unfold afterModule
      omega
    change rest = _ ++ spaces (afterModule rest) at heq
    cases hnext : spaces (afterModule rest) with
    | nil =>
      left
      rw [modules, if_neg hgo, dif_neg (by rw [hnext]; exact fun h => h rfl)]
    | cons d t =>
      by_cases hd : d = comma ∨ d = equals
      · right
        rw [hnext] at heq
        exact ⟨_, d, t, heq, ⟨a, w, b, rfl, hspaces, hmodule, hspaces'⟩, hd⟩
      · left
        rw [not_or] at hd
        rw [modules, if_neg hgo, dif_pos (by rw [hnext]; exact cons_ne_nil d t), hnext]
        show (if d = comma then _ else if d ≠ equals then some none else _) = some none
        rw [if_neg hd.1, if_pos hd.2]
  · left
    rw [modules, if_pos]
    unfold afterModule
    by_contra hno
    rw [not_or] at hno
    refine hmodule ⟨?_, by omega, hword⟩
    rintro rfl
    exact hno.1 (by rw [length_nil] at hlen; omega)

/-- **The loop over the modules** finds a list of modules and the equals
sign behind it, or returns false. -/
theorem modules_sound (rest : List UInt8) :
    modules rest = some none
      ∨ ∃ m t, rest = m ++ equals :: t ∧ SepBy comma (Padded Module) m
        ∧ modules rest = some (some t) := by
  induction hn : rest.length using Nat.strongRecOn generalizing rest with
  | _ n ih =>
  rcases modules_cases rest with hfalse | ⟨x, d, t, rfl, hx, hd⟩
  · exact .inl hfalse
  rw [modules_padded hx hd]
  rcases hd with rfl | rfl
  · rw [if_pos rfl]
    have hlt : t.length < n := by
      rw [← hn, length_append, length_cons]
      omega
    rcases ih t.length hlt t rfl with hfalse | ⟨m, t', rfl, hm, heq⟩
    · exact .inl hfalse
    · refine .inr ⟨x ++ comma :: m, t', ?_, .cons hx hm, heq⟩
      rw [append_assoc, cons_append]
  · rw [if_neg (by decide)]
    exact .inr ⟨x, t, rfl, .one hx, rfl⟩

theorem modules_complete {m : List UInt8} (h : SepBy comma (Padded Module) m) (t : List UInt8) :
    modules (m ++ equals :: t) = some (some t) := by
  induction h with
  | one hx => rw [modules_padded hx (.inr rfl), if_neg (by decide)]
  | cons hx hrest ih =>
    rw [append_assoc, cons_append, modules_padded hx (.inl rfl), if_pos rfl]
    exact ih

/-! ## Values -/

/-- The bit of a kind. -/
def Kind.bit : Kind → ℕ
  | .native => 1
  | .builtin => 2

/-- The comparisons stay inside the letters of the word. -/
theorem wordIs_eq (letter : UInt8) {word : List UInt8} (hword : word.length ≠ 1)
    (w rest : List UInt8) :
    wordIs letter word (w ++ rest) w.length = some (decide (w = [letter] ∨ w = word)) := by
  unfold wordIs
  by_cases hone : w.length = 1
  · obtain ⟨c, rfl⟩ := length_eq_one_iff.mp hone
    have hne : [c] ≠ word := fun h => hword (by rw [← h]; rfl)
    rw [if_pos hone]
    show (some (decide (c = letter))).bind _ = _
    rw [Option.bind_some]
    by_cases hc : c = letter
    · subst hc
      simp
    · rw [decide_eq_false hc, if_neg Bool.false_ne_true, if_neg (fun h => hword h.symm)]
      simp [hc, hne]
  · have hne : w ≠ [letter] := fun h => hone (by rw [h]; rfl)
    rw [if_neg hone, Option.bind_some, if_neg Bool.false_ne_true]
    by_cases hlen : w.length = word.length
    · have hle : word.length ≤ (w ++ rest).length := by
        rw [length_append]
        omega
      rw [if_pos hlen, peekN, if_pos hle, ← hlen, take_left]
      simp [hne]
    · have hne' : w ≠ word := fun h => hlen (by rw [h])
      rw [if_neg hlen]
      simp [hne, hne']

theorem wordBit_eq (w rest : List UInt8) :
    wordBit (w ++ rest) w.length
      = some (if w = [0x6e] ∨ w = nativeWord then 1
          else if w = [0x62] ∨ w = builtinWord then 2 else 0) := by
  unfold wordBit
  rw [wordIs_eq _ (by decide), wordIs_eq _ (by decide), Option.bind_some, Option.map_some]
  by_cases hnative : w = [0x6e] ∨ w = nativeWord
  · rw [decide_eq_true hnative, if_pos rfl, if_pos hnative]
  · rw [decide_eq_false hnative, if_neg Bool.false_ne_true, if_neg hnative]
    by_cases hbuiltin : w = [0x62] ∨ w = builtinWord
    · rw [decide_eq_true hbuiltin, if_pos rfl, if_pos hbuiltin]
    · rw [decide_eq_false hbuiltin, if_neg Bool.false_ne_true, if_neg hbuiltin]

theorem wordBit_value (h : Value k w) (rest : List UInt8) :
    wordBit (w ++ rest) w.length = some k.bit := by
  rw [wordBit_eq]
  cases k with
  | native =>
    have hnative : w = [0x6e] ∨ w = nativeWord := h
    rw [if_pos hnative, Kind.bit]
  | builtin =>
    have hnative : ¬ (w = [0x6e] ∨ w = nativeWord) := by
      rcases h with rfl | rfl
      · decide
      · decide
    have hbuiltin : w = [0x62] ∨ w = builtinWord := h
    rw [if_neg hnative, if_pos hbuiltin, Kind.bit]

theorem wordBit_cases (w rest : List UInt8) :
    (∃ k, Value k w) ∨ wordBit (w ++ rest) w.length = some 0 := by
  rw [wordBit_eq]
  by_cases hnative : w = [0x6e] ∨ w = nativeWord
  · exact .inl ⟨.native, hnative⟩
  by_cases hbuiltin : w = [0x62] ∨ w = builtinWord
  · exact .inl ⟨.builtin, hbuiltin⟩
  · right
    rw [if_neg hnative, if_neg hbuiltin]

theorem Value.letters (h : Value k w) : w ≠ [] ∧ ∀ c ∈ w, lower c = true := by
  cases k with
  | native =>
    rcases h with rfl | rfl
    · exact ⟨by decide, by simp [lower]⟩
    · exact ⟨by decide, by simp [lower, nativeWord]⟩
  | builtin =>
    rcases h with rfl | rfl
    · exact ⟨by decide, by simp [lower]⟩
    · exact ⟨by decide, by simp [lower, builtinWord]⟩

theorem isSpace_of_lower {c : UInt8} (h : lower c = true) : isSpace c = false ∧ c ≠ semicolon := by
  have hall : ∀ x : BitVec 8, lower (.ofBitVec x) = true →
      isSpace (.ofBitVec x) = false ∧ UInt8.ofBitVec x ≠ semicolon := by
    decide +kernel
  exact hall c.toBitVec h

/-- Adding a kind to those that were seen. -/
theorem or_bit_and_bit (seen : ℕ) (k k' : Kind) :
    (seen ||| k.bit) &&& k'.bit = 0 ↔ k ≠ k' ∧ seen &&& k'.bit = 0 := by
  have hbits : k.bit &&& k'.bit = 0 ↔ k ≠ k' := by
    cases k with
    | native => cases k' <;> decide
    | builtin => cases k' <;> decide
  rw [Nat.and_or_distrib_right, Nat.or_eq_zero_iff, hbits]
  exact and_comm

/-- The end of an entry: of the string, or a semicolon. -/
def AtEnd (r : List UInt8) : Prop := r = [] ∨ ∃ t, r = semicolon :: t

theorem AtEnd.halts (h : AtEnd r) (hp : p semicolon = false) : Halts p r := by
  rcases h with rfl | ⟨t, rfl⟩
  · exact halts_nil
  · exact halts_cons hp t

theorem spaces_of_spaces {a : List UInt8} (ha : Spaces a) (hr : AtEnd r) : spaces (a ++ r) = r :=
  dropWhile_append_of_halts ha (hr.halts (by decide))

theorem spaces_spaces (rest : List UInt8) : spaces (spaces rest) = spaces rest := by
  obtain ⟨-, -, -, hhalts⟩ := exists_dropWhile isSpace rest
  exact dropWhile_append_of_halts (w := []) (fun c hc => absurd hc not_mem_nil) hhalts

/-- The loop skips spaces before it looks at anything. -/
theorem values_spaces (seen : ℕ) (rest : List UInt8) :
    values seen (spaces rest) = values seen rest := by
  conv_lhs => rw [values]
  conv_rhs => rw [values]
  unfold afterWord
  rw [spaces_spaces]

/-- **No value is left.** -/
theorem values_atEnd (seen : ℕ) (h : AtEnd (spaces rest)) :
    values seen rest = some (some (spaces rest)) := by
  rw [values]
  rcases h with hnil | ⟨t, ht⟩
  · rw [if_pos hnil, hnil]
  · rw [ht, if_neg (cons_ne_nil _ _)]
    rfl

/-- What the loop does behind a value. -/
def afterValue (seen : ℕ) (bit : ℕ) (d : List UInt8) : Option (Option (List UInt8)) :=
  if bit = 0 ∨ seen &&& bit ≠ 0 then some none
  else if d = [] then some (some [])
  else (peek d).bind fun c =>
    if c = semicolon then some (some d)
    else (peek d).bind fun c =>
      if c ≠ comma then some none
      else if spaces d.tail = [] then some none
      else (peek (spaces d.tail)).bind fun c =>
        if c = semicolon then some none else values (seen ||| bit) d.tail

/-- One turn of the loop that does not stop at once. -/
theorem values_turn (seen : ℕ) (h : ¬ AtEnd (spaces rest)) :
    values seen rest
      = (wordBit (spaces rest) ((spaces rest).length - (afterWord rest).length)).bind
          fun bit => afterValue seen bit (spaces (afterWord rest)) := by
  rw [values]
  cases hstart : spaces rest with
  | nil => exact absurd (.inl hstart) h
  | cons c t =>
    have hc : c ≠ semicolon := fun hc => h (.inr ⟨t, by rw [hstart, hc]⟩)
    rw [if_neg (cons_ne_nil c t)]
    show (if c = semicolon then _ else _) = _
    rw [if_neg hc]
    unfold afterValue
    simp only [values_spaces, dite_eq_ite]

/-- **One value** with the rest of the entry behind it. -/
theorem values_padded (hx : Padded (Value k) x) (seen : ℕ) {d : List UInt8}
    (hd : AtEnd d ∨ ∃ t, d = comma :: t) :
    ¬ AtEnd (spaces (x ++ d)) ∧ values seen (x ++ d) = afterValue seen k.bit d := by
  have hhalts : Halts lower d ∧ Halts isSpace d := by
    rcases hd with hend | ⟨t, rfl⟩
    · exact ⟨hend.halts (by decide), hend.halts (by decide)⟩
    · exact ⟨halts_cons (by decide) t, halts_cons (by decide) t⟩
  obtain ⟨w, b, hw, -, hstart, hbehind, hrest⟩ := scan_padded hx (fun w hw => hw.letters)
    (fun c hc => (isSpace_of_lower hc).1) hhalts.1 hhalts.2
  have hgo : ¬ AtEnd (spaces (x ++ d)) := by
    rw [hstart]
    obtain ⟨hne, hlower⟩ := hw.letters
    cases w with
    | nil => exact absurd rfl hne
    | cons c w =>
      rintro (hnil | ⟨t, ht⟩)
      · exact cons_ne_nil _ _ hnil
      · exact (isSpace_of_lower (hlower c mem_cons_self)).2 (head_eq_of_cons_eq ht)
  refine ⟨hgo, ?_⟩
  have hcount : (w ++ (b ++ d)).length - (b ++ d).length = w.length := by
    rw [length_append, Nat.add_sub_cancel]
  rw [values_turn seen hgo]
  unfold afterWord
  rw [hrest, hbehind, hstart, hcount, wordBit_value hw, Option.bind_some]

/-- Where the loop finds neither the end nor a value with the end or a comma
behind it, it returns false. -/
theorem values_cases (seen : ℕ) (rest : List UInt8) :
    AtEnd (spaces rest) ∨ values seen rest = some none
      ∨ ∃ k x d, rest = x ++ d ∧ Padded (Value k) x ∧ (AtEnd d ∨ ∃ t, d = comma :: t) := by
  by_cases hend : AtEnd (spaces rest)
  · exact .inl hend
  right
  obtain ⟨a, w, b, hspaces, -, hspaces', hw, heq⟩ := exists_padded lower rest
  have hcount : (spaces rest).length - (afterWord rest).length = w.length := by
    have hlen := congrArg List.length hw
    rw [length_append] at hlen
    unfold afterWord
    omega
  have hturn : values seen rest
      = (wordBit (w ++ afterWord rest) w.length).bind
          fun bit => afterValue seen bit (spaces (afterWord rest)) := by
    rw [values_turn seen hend, hcount]
    exact congrArg (fun l => (wordBit l w.length).bind _) hw
  rcases wordBit_cases w (afterWord rest) with ⟨k, hk⟩ | hzero
  · by_cases hd : AtEnd (spaces (afterWord rest)) ∨ ∃ t, spaces (afterWord rest) = comma :: t
    · exact .inr ⟨k, _, _, heq, ⟨a, w, b, rfl, hspaces, hk, hspaces'⟩, hd⟩
    · left
      rw [not_or] at hd
      rw [hturn, wordBit_value hk, Option.bind_some]
      unfold afterValue
      cases hnext : spaces (afterWord rest) with
      | nil => exact absurd (.inl hnext) hd.1
      | cons c t =>
        have hsemicolon : c ≠ semicolon := fun hc => hd.1 (.inr ⟨t, by rw [hnext, hc]⟩)
        have hcomma : c ≠ comma := fun hc => hd.2 ⟨t, by rw [hnext, hc]⟩
        split
        · rfl
        · rw [if_neg (cons_ne_nil c t)]
          show (if c = semicolon then _ else if c ≠ comma then some none else _) = some none
          rw [if_neg hsemicolon, if_pos hcomma]
  · left
    rw [hturn, hzero, Option.bind_some]
    exact if_pos (.inl rfl)

/-- A value of a kind that was not there yet is taken. -/
theorem not_refused {seen : ℕ} (hseen : seen &&& k.bit = 0) :
    ¬ (k.bit = 0 ∨ seen &&& k.bit ≠ 0) := by
  rw [not_or, not_not]
  exact ⟨by cases k <;> decide, hseen⟩

/-- Behind such a value the entry ends, … -/
theorem afterValue_atEnd {seen : ℕ} (hseen : seen &&& k.bit = 0) {d : List UInt8} (hd : AtEnd d) :
    afterValue seen k.bit d = some (some d) := by
  unfold afterValue
  rw [if_neg (not_refused hseen)]
  rcases hd with rfl | ⟨t, rfl⟩
  · rfl
  · rfl

/-- … or there is a comma, and a further value must follow. -/
theorem afterValue_comma {seen : ℕ} (hseen : seen &&& k.bit = 0) {t : List UInt8}
    (ht : ¬ AtEnd (spaces t)) : afterValue seen k.bit (comma :: t) = values (seen ||| k.bit) t := by
  unfold afterValue
  rw [if_neg (not_refused hseen), if_neg (cons_ne_nil _ _)]
  show (if spaces t = [] then some none else (peek (spaces t)).bind _) = _
  cases hstart : spaces t with
  | nil => exact absurd (.inl hstart) ht
  | cons c u =>
    have hc : c ≠ semicolon := fun hc => ht (.inr ⟨u, by rw [hstart, hc]⟩)
    rw [if_neg (cons_ne_nil c u)]
    exact if_neg hc

theorem afterValue_comma_atEnd (seen : ℕ) (k : Kind) {t : List UInt8} (ht : AtEnd (spaces t)) :
    afterValue seen k.bit (comma :: t) = some none := by
  unfold afterValue
  split
  · rfl
  · rw [if_neg (cons_ne_nil _ _)]
    show (if spaces t = [] then some none else (peek (spaces t)).bind _) = _
    rcases ht with hnil | ⟨u, hu⟩
    · exact if_pos hnil
    · rw [hu, if_neg (cons_ne_nil _ _)]
      rfl

/-- No kind of the list was seen before. -/
def Fresh (seen : ℕ) (kinds : List Kind) : Prop := ∀ k ∈ kinds, seen &&& k.bit = 0

theorem fresh_cons_iff {seen : ℕ} {kinds : List Kind} :
    Fresh seen (k :: kinds) ∧ (k :: kinds).Nodup
      ↔ seen &&& k.bit = 0 ∧ Fresh (seen ||| k.bit) kinds ∧ kinds.Nodup := by
  unfold Fresh
  rw [forall_mem_cons, nodup_cons]
  constructor
  · rintro ⟨⟨hk, hall⟩, hnot, hnodup⟩
    refine ⟨hk, fun k' hk' => (or_bit_and_bit seen k k').mpr ⟨?_, hall k' hk'⟩, hnodup⟩
    rintro rfl
    exact hnot hk'
  · rintro ⟨hk, hall, hnodup⟩
    refine ⟨⟨hk, fun k' hk' => ((or_bit_and_bit seen k k').mp (hall k' hk')).2⟩, ?_, hnodup⟩
    intro hmem
    exact ((or_bit_and_bit seen k k).mp (hall k hmem)).1 rfl

/-- **The loop over the values** finds nothing but spaces or a list of values,
and stops at the end of the entry, or returns false. -/
theorem values_sound (seen : ℕ) (rest : List UInt8) :
    values seen rest = some none
      ∨ ∃ v r, rest = v ++ r ∧ AtEnd r ∧ values seen rest = some (some r)
        ∧ (Spaces v ∨ ∃ kinds, ValueList kinds v ∧ Fresh seen kinds ∧ kinds.Nodup) := by
  induction hn : rest.length using Nat.strongRecOn generalizing seen rest with
  | _ n ih =>
  rcases values_cases seen rest with hend | hfalse | ⟨k, x, d, rfl, hx, hd⟩
  · obtain ⟨a, ha, hspaces, -⟩ := exists_dropWhile isSpace rest
    exact .inr ⟨a, spaces rest, ha, hend, values_atEnd seen hend, .inl hspaces⟩
  · exact .inl hfalse
  rw [(values_padded hx seen hd).2]
  by_cases hseen : seen &&& k.bit = 0
  swap
  · exact .inl (if_pos (.inr hseen))
  rcases hd with hend | ⟨t, rfl⟩
  · refine .inr ⟨x, d, rfl, hend, afterValue_atEnd hseen hend, .inr ⟨[k], .one hx, ?_⟩⟩
    exact ⟨forall_mem_singleton.mpr hseen, nodup_singleton k⟩
  by_cases ht : AtEnd (spaces t)
  · exact .inl (afterValue_comma_atEnd seen k ht)
  rw [afterValue_comma hseen ht]
  have hlt : t.length < n := by
    rw [← hn, length_append, length_cons]
    omega
  rcases ih t.length hlt (seen ||| k.bit) t rfl with
    hfalse | ⟨v, r, rfl, hr, heq, hspaces | ⟨kinds, hlist, hfresh⟩⟩
  · exact .inl hfalse
  · -- a comma is not followed by spaces only
    exact absurd (by rw [spaces_of_spaces hspaces hr]; exact hr) ht
  · refine .inr ⟨x ++ comma :: v, r, ?_, hr, heq, .inr ⟨k :: kinds, .cons hx hlist, ?_⟩⟩
    · rw [append_assoc, cons_append]
    · exact fresh_cons_iff.mpr ⟨hseen, hfresh⟩

theorem values_complete {kinds : List Kind} {v : List UInt8} (h : ValueList kinds v) (hr : AtEnd r) :
    ¬ AtEnd (spaces (v ++ r)) ∧ ∀ seen, Fresh seen kinds ∧ kinds.Nodup →
      values seen (v ++ r) = some (some r) := by
  induction h with
  | one hx =>
    refine ⟨(values_padded hx 0 (.inl hr)).1, fun seen hfresh => ?_⟩
    rw [(values_padded hx seen (.inl hr)).2]
    exact afterValue_atEnd (fresh_cons_iff.mp hfresh).1 hr
  | @cons k kinds x rest hx hrest ih =>
    rw [append_assoc, cons_append]
    refine ⟨(values_padded hx 0 (.inr ⟨_, rfl⟩)).1, fun seen hfresh => ?_⟩
    obtain ⟨hseen, hfresh⟩ := fresh_cons_iff.mp hfresh
    rw [(values_padded hx seen (.inr ⟨_, rfl⟩)).2, afterValue_comma hseen ih.1]
    exact ih.2 _ hfresh

theorem values_vals {v : List UInt8} (h : Vals v) (hr : AtEnd r) :
    values 0 (v ++ r) = some (some r) := by
  rcases h with hspaces | ⟨kinds, hlist, hnodup⟩
  · have hstop := spaces_of_spaces hspaces hr
    rw [values_atEnd 0 (by rw [hstop]; exact hr), hstop]
  · exact (values_complete hlist hr).2 0 ⟨fun k _ => Nat.zero_and k.bit, hnodup⟩

/-! ## Entries -/

/-- What one turn of the outer loop takes. -/
theorem entry_length {behind : List UInt8} (hmodules : modules rest = some (some behind))
    (hvalues : values 0 behind = some (some r)) :
    ∃ e, rest = e ++ r ∧ Entry e ∧ AtEnd r ∧ r.length < rest.length := by
  rcases modules_sound rest with hfalse | ⟨m, t, rfl, hm, heq⟩
  · rw [hfalse] at hmodules
    exact absurd (Option.some.inj hmodules) (by simp)
  obtain rfl := Option.some.inj (Option.some.inj (heq.symm.trans hmodules))
  rcases values_sound 0 t with hfalse | ⟨v, r', rfl, hr, heq', hv⟩
  · rw [hfalse] at hvalues
    exact absurd (Option.some.inj hvalues) (by simp)
  obtain rfl := Option.some.inj (Option.some.inj (heq'.symm.trans hvalues))
  have hvals : Vals v := by
    rcases hv with hspaces | ⟨kinds, hlist, -, hnodup⟩
    · exact .inl hspaces
    · exact .inr ⟨kinds, hlist, hnodup⟩
  refine ⟨m ++ equals :: v, ?_, ⟨m, v, rfl, hm, hvals⟩, hr, ?_⟩
  · rw [append_assoc, cons_append]
  · rw [length_append, length_cons, length_append]
    omega

/-- **The loop over the entries.** -/
def entries (rest : List UInt8) : Option Bool :=
  if rest = [] then some true
  else match _hmodules : modules rest with
    | none => none
    | some none => some false
    | some (some behind) => match _hvalues : values 0 behind with
      | none => none
      | some none => some false
      | some (some r) => if r ≠ [] ∧ r.tail = [] then some false else entries r.tail
termination_by rest.length
decreasing_by
  obtain ⟨-, -, -, -, hlt⟩ := entry_length _hmodules _hvalues
  rw [List.length_tail]
  omega

/-- `JuiceDLLOverridesValid` -/
def overridesValid (s : List UInt8) : Option Bool :=
  if 4096 < s.length then some false
  else if s = [] then some true
  else entries s

/-- **One entry**, and the end behind it. -/
theorem entries_entry {e : List UInt8} (he : Entry e) (hr : AtEnd r) :
    entries (e ++ r) = if r ≠ [] ∧ r.tail = [] then some false else entries r.tail := by
  obtain ⟨m, v, rfl, hm, hv⟩ := he
  have heq : m ++ equals :: v ++ r = m ++ equals :: (v ++ r) := by
    rw [append_assoc, cons_append]
  have hmodules := modules_complete hm (v ++ r)
  have hvalues := values_vals hv hr
  rw [heq]
  conv_lhs => rw [entries]
  rw [if_neg (by simp)]
  split
  next h => exact absurd (h.symm.trans hmodules) (by simp)
  next h => exact absurd (h.symm.trans hmodules) (by simp)
  next behind h =>
    cases Option.some.inj (Option.some.inj (h.symm.trans hmodules))
    split
    next h => exact absurd (h.symm.trans hvalues) (by simp)
    next h => exact absurd (h.symm.trans hvalues) (by simp)
    next r' h =>
      cases Option.some.inj (Option.some.inj (h.symm.trans hvalues))
      rfl

/-- Where there is none, the loop returns false. -/
theorem entries_cases (hne : rest ≠ []) :
    entries rest = some false ∨ ∃ e r, rest = e ++ r ∧ Entry e ∧ AtEnd r := by
  fun_cases entries rest
  case case1 h => exact absurd h hne
  case case2 h =>
    rcases modules_sound rest with h' | ⟨m, t, -, -, h'⟩ <;> cases h.symm.trans h'
  case case3 => exact .inl rfl
  case case4 behind _ h =>
    rcases values_sound 0 behind with h' | ⟨v, r, -, -, h', -⟩ <;> cases h.symm.trans h'
  case case5 => exact .inl rfl
  case case6 => exact .inl rfl
  case case7 behind h r h' _ =>
    obtain ⟨e, heq, he, hr, -⟩ := entry_length h h'
    exact .inr ⟨e, r, heq, he, hr⟩

theorem entries_sound (hne : rest ≠ []) :
    entries rest = some false ∨ entries rest = some true ∧ SepBy semicolon Entry rest := by
  induction hn : rest.length using Nat.strongRecOn generalizing rest with
  | _ n ih =>
  rcases entries_cases hne with hfalse | ⟨e, r, rfl, he, hr⟩
  · exact .inl hfalse
  rw [entries_entry he hr]
  rcases hr with rfl | ⟨t, rfl⟩
  · right
    rw [if_neg (fun h => h.1 rfl), append_nil]
    exact ⟨by rw [tail_nil, entries, if_pos rfl], .one he⟩
  · rw [tail_cons]
    by_cases ht : t = []
    · exact .inl (if_pos ⟨cons_ne_nil _ _, ht⟩)
    rw [if_neg (fun h => ht h.2)]
    have hlt : t.length < n := by
      rw [← hn, length_append, length_cons]
      omega
    rcases ih t.length hlt ht rfl with hfalse | ⟨htrue, hsep⟩
    · exact .inl hfalse
    · exact .inr ⟨htrue, .cons he hsep⟩

theorem Entry.ne_nil {e : List UInt8} (h : Entry e) : e ≠ [] := by
  obtain ⟨m, v, rfl, -⟩ := h
  simp

theorem SepBy.ne_nil {sep : UInt8} {P : List UInt8 → Prop} (hP : ∀ x, P x → x ≠ [])
    {s : List UInt8} (h : SepBy sep P s) : s ≠ [] := by
  cases h with
  | one hx => exact hP _ hx
  | cons hx hrest => simp

theorem entries_complete {s : List UInt8} (h : SepBy semicolon Entry s) :
    entries s = some true := by
  induction h with
  | @one x hx =>
    have hturn := entries_entry hx (.inl rfl)
    rw [append_nil] at hturn
    rw [hturn, if_neg (fun h => h.1 rfl), tail_nil, entries, if_pos rfl]
  | cons hx hrest ih =>
    rw [entries_entry hx (.inr ⟨_, rfl⟩), tail_cons,
      if_neg (fun h => hrest.ne_nil (fun _ => Entry.ne_nil) h.2)]
    exact ih

/-- **What `JuiceDLLOverridesValid` accepts**, and that it reads nothing but
the string. -/
theorem overridesValid_iff (s : List UInt8) :
    overridesValid s ≠ none
      ∧ (overridesValid s = some true ↔ s.length ≤ 4096 ∧ IsOverrides s) := by
  unfold overridesValid IsOverrides
  by_cases hlen : 4096 < s.length
  · rw [if_pos hlen]
    exact ⟨by simp, fun h => absurd h (by simp), fun h => absurd h.1 (by omega)⟩
  rw [if_neg hlen]
  by_cases hnil : s = []
  · rw [if_pos hnil]
    exact ⟨by simp, fun _ => ⟨by omega, .inl hnil⟩, fun _ => rfl⟩
  rw [if_neg hnil]
  have hcomplete : s = [] ∨ SepBy semicolon Entry s → entries s = some true :=
    fun h => h.elim (fun h => absurd h hnil) entries_complete
  rcases entries_sound hnil with hfalse | ⟨htrue, hsep⟩
  · rw [hfalse] at hcomplete ⊢
    exact ⟨by simp, fun h => absurd h (by simp), fun h => hcomplete h.2⟩
  · rw [htrue]
    exact ⟨by simp, fun _ => ⟨by omega, .inr hsep⟩, fun _ => rfl⟩

end Juice.Overrides
