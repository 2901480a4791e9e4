import Juice.Bundle.Dylib
import Mathlib.Data.List.TakeWhile

/-!
# What the walk over the load commands does to a file

The walk is a loop over offsets in a buffer that it changes. What it does is
said here without offsets: a file is its header, then its load commands one
after the other, then the rest, and the result is the same with some of the
commands replaced by others of the same length. `Rewritten` says which
command may be replaced by which, and `CommandsRewritten` follows the
commands of a file.

The step of the loop is `patchDependency_spec`. Its argument is that a
command is read and written inside its own bytes, so that what stands before
and behind it can be split off. An alias that one command has been given
stays in the table while the others get theirs (`AliasTable.Names.mono`).
-/

namespace Juice.Bundle

open List Prog ByteSeq

/-! ## Strings without a NUL -/

theorem mem_of_mem_splitOn {path part : Text} {c : UInt8} (hpart : part ∈ path.splitOn 0x2f)
    (hc : c ∈ part) : c ∈ path := by
  have hjoin : ∀ parts : List Text, part ∈ parts → c ∈ [(0x2f : UInt8)].intercalate parts := by
    intro parts
    induction parts with
    | nil => exact fun h => absurd h not_mem_nil
    | cons first rest ih =>
      intro hmem
      cases rest with
      | nil =>
        rw [mem_singleton.mp hmem] at hc
        simpa [List.intercalate] using hc
      | cons second rest =>
        rw [intercalate_cons_cons]
        rcases mem_cons.mp hmem with rfl | hmem
        · exact mem_append_left _ (mem_append_left _ hc)
        · exact mem_append_right _ (ih hmem)
  have hback : [(0x2f : UInt8)].intercalate (path.splitOn 0x2f) = path :=
    intercalate_splitOn 0x2f
  exact hback ▸ hjoin _ hpart

theorem zero_notMem_basename {path : Text} (h : 0 ∉ path) : 0 ∉ basename path := by
  unfold basename
  cases hlast : ((path.splitOn 0x2f).filter fun part => part ≠ [] ∧ part ≠ [0x2e]).getLast? with
  | none => exact not_mem_nil
  | some part =>
    have hpart := mem_of_mem_filter (mem_of_getLast? hlast)
    exact fun hzero => h (mem_of_mem_splitOn hpart hzero)

theorem zero_notMem_decodeCString (data : List UInt8) (start stop : ℕ) :
    0 ∉ decodeCString data start stop := by
  intro h
  have := mem_takeWhile_imp h
  simp at this

theorem zero_notMem_aliasName (index : ℕ) : 0 ∉ aliasName index := by
  intro h
  rcases mem_cons.mp h with h | h
  · cases h
  · exact absurd (Numeral.mem_text (by decide) (by decide) h).1 (by decide)

/-! ## The aliases in use -/

namespace AliasTable

variable {available : List Text}

/-- **A dependency on `target` may be pointed at `name`.** -/
def Names (aliases : AliasTable available) (target name : Text) : Prop :=
  name = target ∨ aliases.byTarget.lookup target = some name

/-- The table has grown. -/
def Grows (aliases aliases' : AliasTable available) : Prop :=
  ∀ target name, aliases.byTarget.lookup target = some name →
    aliases'.byTarget.lookup target = some name

theorem Grows.refl (aliases : AliasTable available) : aliases.Grows aliases := fun _ _ h => h

theorem Grows.trans {a b c : AliasTable available} (h : a.Grows b) (h' : b.Grows c) :
    a.Grows c := fun target name hname => h' target name (h target name hname)

theorem Grows.names {a b : AliasTable available} (h : a.Grows b) {target name : Text}
    (hname : a.Names target name) : b.Names target name := hname.imp_right (h target name)

theorem Names.zero_notMem {aliases : AliasTable available} {target name : Text}
    (h : aliases.Names target name) (htarget : 0 ∉ target) : 0 ∉ name := by
  rcases h with rfl | h
  · exact htarget
  · obtain ⟨index, rfl⟩ := aliases.numbered target name h
    exact zero_notMem_aliasName index

/-- **`get` returns an alias of the target**, and forgets none. -/
theorem get_spec (aliases : AliasTable available) (target : Text) (hknown : target ∈ available) :
    aliases.Grows (aliases.get target hknown).2
      ∧ (aliases.get target hknown).2.byTarget.lookup target
        = some (aliases.get target hknown).1 := by
  unfold get
  split
  next existing hexisting => exact ⟨Grows.refl _, hexisting⟩
  next hnone =>
    refine ⟨fun t n h => ?_, AList.lookup_insert _⟩
    have hne : t ≠ target := by
      rintro rfl
      rw [hnone] at h
      cases h
    exact (AList.lookup_insert_ne hne).trans h

end AliasTable

/-! ## A load command -/

/-- `name_offset` of a command. -/
def nameOffset (c : List UInt8) : ℕ := number 4 c 8

/-- The string of a command. -/
def dylibName (c : List UInt8) : Text := decodeCString c (nameOffset c) c.length

/-- **A dependency is redirected**: the command has its length and all its
bytes up to its string, which now leads to a name for the dependency beside
the file. A string that is right already is not written again. -/
structure Redirected (names : Text → Text → Prop) (c c' : List UInt8) : Prop where
  length_eq : c'.length = c.length
  le_nameOffset : 24 ≤ nameOffset c
  take_eq : c'.take (nameOffset c) = c.take (nameOffset c)
  dylibName_eq : ∃ name, names (basename (dylibName c)) name ∧ dylibName c' = loaderPath ++ name
  eq_of_dylibName : dylibName c' = dylibName c → c' = c

/-- **What becomes of a command**: a dependency on a name of the directory
is redirected, and everything else is left as it is. -/
def Rewritten (available : List Text) (names : Text → Text → Prop) (c c' : List UInt8) : Prop :=
  (number 4 c 0 ∈ dependencyCommands ∧ basename (dylibName c) ∈ available →
    Redirected names c c')
  ∧ (¬ (number 4 c 0 ∈ dependencyCommands ∧ basename (dylibName c) ∈ available) → c' = c)

/-- **The first commands of `body`**, as many as there are, are rewritten,
and the rest is as it was. -/
inductive CommandsRewritten (available : List Text) (names : Text → Text → Prop) :
    ℕ → List UInt8 → List UInt8 → Prop
  | done (body : List UInt8) : CommandsRewritten available names 0 body body
  | command {n : ℕ} {c c' body body' : List UInt8} (hsize : number 4 c 4 = c.length)
      (hle : 8 ≤ c.length) (hc : Rewritten available names c c')
      (hbody : CommandsRewritten available names n body body') :
      CommandsRewritten available names (n + 1) (c ++ body) (c' ++ body')

/-- **What becomes of a file.** -/
def Patched (available : List Text) (names : Text → Text → Prop) (data data' : List UInt8) :
    Prop :=
  if 32 ≤ data.length ∧ number 4 data 0 = magic64 then
    ∃ head body body', head.length = 32 ∧ data = head ++ body ∧ data' = head ++ body'
      ∧ CommandsRewritten available names (number 4 data 16) body body'
  else data' = data

section Mono

variable {available : List Text} {names names' : Text → Text → Prop} {c c' data : List UInt8}

/-- A command that is no dependency on a name of the directory. -/
theorem Rewritten.of_not
    (h : ¬ (number 4 c 0 ∈ dependencyCommands ∧ basename (dylibName c) ∈ available)) :
    Rewritten available names c c := ⟨fun hc => absurd hc h, fun _ => rfl⟩

theorem Rewritten.of_redirected (hcmd : number 4 c 0 ∈ dependencyCommands)
    (hknown : basename (dylibName c) ∈ available) (h : Redirected names c c') :
    Rewritten available names c c' := ⟨fun _ => h, fun hc => absurd ⟨hcmd, hknown⟩ hc⟩

/-- A file that is not Mach-O. -/
theorem Patched.of_not (h : ¬ (32 ≤ data.length ∧ number 4 data 0 = magic64)) :
    Patched available names data data := by
  unfold Patched
  rw [if_neg h]

theorem Rewritten.length_eq (h : Rewritten available names c c') : c'.length = c.length := by
  by_cases hc : number 4 c 0 ∈ dependencyCommands ∧ basename (dylibName c) ∈ available
  · exact (h.1 hc).length_eq
  · rw [h.2 hc]

theorem CommandsRewritten.length_eq {n : ℕ} {body body' : List UInt8}
    (h : CommandsRewritten available names n body body') : body'.length = body.length := by
  induction h with
  | done => rfl
  | command _ _ hc _ ih => rw [length_append, length_append, hc.length_eq, ih]

/-- **A file keeps its length.** -/
theorem Patched.length_eq {data' : List UInt8} (h : Patched available names data data') :
    data'.length = data.length := by
  unfold Patched at h
  split at h
  · obtain ⟨head, body, body', -, rfl, rfl, hbody⟩ := h
    rw [length_append, length_append, hbody.length_eq]
  · rw [h]

variable (hnames : ∀ target ∈ available, ∀ name, names target name → names' target name)
include hnames

theorem Rewritten.mono (h : Rewritten available names c c') : Rewritten available names' c c' := by
  refine ⟨fun hc => ?_, h.2⟩
  obtain ⟨name, hname, heq⟩ := (h.1 hc).dylibName_eq
  exact { h.1 hc with dylibName_eq := ⟨name, hnames _ hc.2 _ hname, heq⟩ }

theorem CommandsRewritten.mono {n : ℕ} {body body' : List UInt8}
    (h : CommandsRewritten available names n body body') :
    CommandsRewritten available names' n body body' := by
  induction h with
  | done body => exact .done body
  | command hsize hle hc _ ih => exact .command hsize hle (hc.mono hnames) ih

theorem Patched.mono {data' : List UInt8} (h : Patched available names data data') :
    Patched available names' data data' := by
  unfold Patched at h ⊢
  split
  next hmach =>
    rw [if_pos hmach] at h
    obtain ⟨head, body, body', hhead, hdata, hdata', hbody⟩ := h
    exact ⟨head, body, body', hhead, hdata, hdata', hbody.mono hnames⟩
  next hmach => rwa [if_neg hmach] at h

end Mono

/-! ## Writing a string -/

/-- A command with another string, and zeros behind it. -/
def withName (c : List UInt8) (offset : ℕ) (value : Text) : List UInt8 :=
  c.take offset ++ (value ++ List.replicate (c.length - offset - value.length) 0)

section Write

variable {c : List UInt8} {offset : ℕ} {value : Text} (hfit : offset + value.length < c.length)
include hfit

theorem length_withName : (withName c offset value).length = c.length := by
  simp [withName]
  omega

theorem take_withName : (withName c offset value).take offset = c.take offset := by
  have hlen : (c.take offset).length = offset := by rw [length_take]; omega
  rw [withName, take_append_of_le_length hlen.ge, take_take, Nat.min_self]

/-- **The string is read back.** -/
theorem decodeCString_withName (hvalue : 0 ∉ value) :
    decodeCString (withName c offset value) offset c.length = value := by
  have hlen : (c.take offset).length = offset := by rw [length_take]; omega
  have hslice : slice (withName c offset value) offset (c.length - offset)
      = value ++ List.replicate (c.length - offset - value.length) 0 := by
    have h := slice_append_length (c.take offset)
      (value ++ List.replicate (c.length - offset - value.length) 0) 0 (c.length - offset)
    rw [hlen, Nat.add_zero] at h
    rw [withName, h, slice, drop_zero]
    refine take_of_length_le ?_
    simp
    omega
  have hpos : ∀ a ∈ value, (decide (a ≠ 0)) = true := by
    intro a ha
    exact decide_eq_true fun hzero => hvalue (hzero ▸ ha)
  rw [decodeCString, hslice, takeWhile_append_of_pos hpos, takeWhile_replicate]
  simp

/-- **Where the string is written**: inside its command. -/
theorem overlay_withName (pre rest : List UInt8) :
    overlay (overlay (pre ++ (c ++ rest)) (List.replicate (c.length - offset) 0)
        (pre.length + offset)) (value ++ [0]) (pre.length + offset)
      = pre ++ (withName c offset value ++ rest) := by
  have hzeros : overlay c (List.replicate (c.length - offset) 0) offset
      = c.take offset ++ List.replicate (c.length - offset) 0 :=
    overlay_to_end (by rw [length_replicate]; omega)
  have hlen : (c.take offset).length = offset := by rw [length_take]; omega
  have hwrite : overlay (c.take offset ++ List.replicate (c.length - offset) 0)
      (value ++ [0]) offset = withName c offset value := by
    have h := overlay_append_length (c.take offset) (List.replicate (c.length - offset) 0)
      (value ++ [0]) 0
    rw [hlen, Nat.add_zero] at h
    rw [h, withName, overlay, take_zero, nil_append, drop_replicate,
      append_assoc, singleton_append, ← replicate_succ, Nat.zero_add,
      length_append, length_singleton]
    congr 4
    omega
  have hinside : offset + (value ++ [0]).length
      ≤ (c.take offset ++ List.replicate (c.length - offset) 0).length := by
    simp
    omega
  rw [overlay_append_length pre, overlay_append_left rest (by rw [length_replicate]; omega),
    hzeros, overlay_append_length pre, overlay_append_left rest hinside, hwrite]

/-- `replace_c_string` on a command in its file. -/
theorem replaceCString_append {path : Text} {pre rest data : List UInt8}
    (h : replaceCString path (pre ++ (c ++ rest)) (pre.length + offset) (pre.length + c.length)
      value = .ok data) : data = pre ++ (withName c offset value ++ rest) := by
  obtain ⟨_, _, h₁⟩ := bind_eq_ok.mp h
  have hdata := Except.ok.inj h₁
  rw [Nat.add_sub_add_left, overlay_withName hfit] at hdata
  exact hdata.symm

/-- A command that has been written to is redirected. -/
theorem redirected_withName {names : Text → Text → Prop} {name : Text}
    (hvalue : value = loaderPath ++ name) (hoffset : offset = nameOffset c) (hle : 24 ≤ offset)
    (hzero : 0 ∉ value) (hname : names (basename (dylibName c)) name)
    (hold : value ≠ dylibName c) : Redirected names c (withName c offset value) := by
  have hkept : nameOffset (withName c offset value) = offset := by
    have hlen : (c.take offset).length = offset := by rw [length_take]; omega
    have h := number_append_left (c.drop offset) (by omega : 8 + 4 ≤ (c.take offset).length)
    rw [take_append_drop] at h
    rw [nameOffset, withName, number_append_left _ (by omega), ← h]
    exact hoffset.symm
  have hread : dylibName (withName c offset value) = value := by
    rw [dylibName, hkept, length_withName hfit, decodeCString_withName hfit hzero]
  exact {
    length_eq := length_withName hfit
    le_nameOffset := hoffset ▸ hle
    take_eq := hoffset ▸ take_withName hfit
    dylibName_eq := ⟨name, hname, hread.trans hvalue⟩
    eq_of_dylibName := fun h => absurd (hread.symm.trans h) hold }

end Write

/-! ## One step -/

section Step

variable {available : List Text} {path : Text} {aliases : AliasTable available}
  {c pre rest : List UInt8} {changed : ℕ} {p : Patch available}

/-- What a dependency is pointed at. -/
theorem replacementFor_spec {name : Text} {capacity : ℕ} {aliases' : AliasTable available}
    {replacement : Option Text}
    (h : replacementFor path name capacity aliases = .ok (replacement, aliases')) :
    aliases.Grows aliases'
      ∧ ((name ∉ available ∧ replacement = none)
        ∨ (name ∈ available ∧ ∃ n, aliases'.Names name n ∧ replacement = some (loaderPath ++ n)
          ∧ (loaderPath ++ n).length < capacity)) := by
  unfold replacementFor at h
  split at h
  next hknown =>
    dsimp only at h
    split at h
    next hfit =>
      cases h
      exact ⟨.refl _, .inr ⟨hknown, name, .inl rfl, rfl, hfit⟩⟩
    next =>
      obtain ⟨_, hfit, h⟩ := bind_eq_ok.mp h
      cases h
      obtain ⟨hgrows, hget⟩ := aliases.get_spec name hknown
      exact ⟨hgrows, .inr ⟨hknown, _, .inr hget, rfl, ensure_eq_ok.mp hfit⟩⟩
  next hknown =>
    cases h
    exact ⟨.refl _, .inl ⟨hknown, rfl⟩⟩

/-- A command is read inside its own bytes. -/
theorem decodeCString_append (pre rest : List UInt8) {offset : ℕ} (h : offset ≤ c.length) :
    decodeCString (pre ++ (c ++ rest)) (pre.length + offset) (pre.length + c.length)
      = decodeCString c offset c.length := by
  rw [decodeCString, decodeCString, slice_append_length, Nat.add_sub_add_left,
    slice_append_left rest (by omega)]

/-- **A dependency command.** -/
theorem patchDependency_spec (hcmd : number 4 c 0 ∈ dependencyCommands)
    (h : patchDependency path pre.length c.length ⟨pre ++ (c ++ rest), aliases, changed⟩ = .ok p) :
    ∃ c', p.data = pre ++ (c' ++ rest) ∧ Rewritten available p.aliases.Names c c'
      ∧ aliases.Grows p.aliases ∧ changed ≤ p.changed ∧ (p.changed = changed → c' = c) := by
  unfold patchDependency at h
  obtain ⟨_, hshort, h₁⟩ := bind_eq_ok.mp h
  rw [ensure_eq_ok] at hshort
  have hoffset : number 4 (pre ++ (c ++ rest)) (pre.length + 8) = nameOffset c := by
    rw [number_append_length, number_append_left rest (by omega), nameOffset]
  dsimp only at h₁
  rw [hoffset] at h₁
  obtain ⟨_, hbounds, h₂⟩ := bind_eq_ok.mp h₁
  rw [ensure_eq_ok] at hbounds
  rw [decodeCString_append pre rest hbounds.2.le, Nat.add_sub_add_left] at h₂
  obtain ⟨⟨replacement, aliases'⟩, hreplacement, h₃⟩ := bind_eq_ok.mp h₂
  obtain ⟨hgrows, hcases⟩ := replacementFor_spec hreplacement
  -- a command that is not written to
  have hsame : ∀ q : Patch available, q = ⟨pre ++ (c ++ rest), aliases', changed⟩ →
      Rewritten available aliases'.Names c c →
      ∃ c', q.data = pre ++ (c' ++ rest) ∧ Rewritten available q.aliases.Names c c'
        ∧ aliases.Grows q.aliases ∧ changed ≤ q.changed ∧ (q.changed = changed → c' = c) := by
    rintro q rfl hc
    exact ⟨c, rfl, hc, hgrows, le_rfl, fun _ => rfl⟩
  rcases hcases with ⟨hknown, rfl⟩ | ⟨hknown, name, hname, rfl, hfit⟩
  · refine hsame p (Except.ok.inj h₃).symm ?_
    exact .of_not fun hc => hknown hc.2
  · dsimp only at h₃
    split at h₃
    next hold =>
      refine hsame p (Except.ok.inj h₃).symm ?_
      exact .of_redirected hcmd hknown
        ⟨rfl, hbounds.1, rfl, ⟨name, hname, hold.symm⟩, fun _ => rfl⟩
    next hold =>
      obtain ⟨data, hdata, h₄⟩ := bind_eq_ok.mp h₃
      cases h₄
      refine ⟨withName c (nameOffset c) (loaderPath ++ name), ?_, ?_, hgrows, Nat.le_succ _,
        fun h => absurd h (Nat.succ_ne_self _)⟩
      · exact replaceCString_append (by omega) hdata
      · have hzero : 0 ∉ loaderPath ++ name := by
          intro hmem
          rcases mem_append.mp hmem with hmem | hmem
          · exact absurd hmem (by decide)
          · exact hname.zero_notMem (zero_notMem_basename (zero_notMem_decodeCString _ _ _)) hmem
        exact .of_redirected hcmd hknown
          (redirected_withName (by omega) rfl rfl hbounds.1 hzero hname hold)

theorem patchCommand_spec (h : patchCommand path (number 4 c 0) pre.length c.length
      ⟨pre ++ (c ++ rest), aliases, changed⟩ = .ok p) :
    ∃ c', p.data = pre ++ (c' ++ rest) ∧ Rewritten available p.aliases.Names c c'
      ∧ aliases.Grows p.aliases ∧ changed ≤ p.changed ∧ (p.changed = changed → c' = c) := by
  unfold patchCommand at h
  split at h
  next hcmd => exact patchDependency_spec hcmd h
  next hcmd =>
    cases h
    exact ⟨c, rfl, .of_not fun hc => hcmd hc.1, .refl _, le_rfl, fun _ => rfl⟩

/-- **The loop over the commands.** What stands before the offset is not
touched. -/
theorem patchCommands_spec {n : ℕ}
    (h : patchCommands path n pre.length ⟨pre ++ rest, aliases, changed⟩ = .ok p) :
    ∃ rest', p.data = pre ++ rest' ∧ CommandsRewritten available p.aliases.Names n rest rest'
      ∧ aliases.Grows p.aliases ∧ changed ≤ p.changed ∧ (p.changed = changed → rest' = rest) := by
  induction n generalizing pre rest aliases changed with
  | zero =>
    cases h
    exact ⟨rest, rfl, .done rest, .refl _, le_rfl, fun _ => rfl⟩
  | succ n ih =>
    rw [patchCommands] at h
    obtain ⟨_, hheader, h₁⟩ := bind_eq_ok.mp h
    rw [ensure_eq_ok, length_append, Nat.add_le_add_iff_left] at hheader
    have hsize := number_append_length 4 pre rest 4
    have hcmd := number_append_length 4 pre rest 0
    rw [Nat.add_zero] at hcmd
    dsimp only at h₁
    rw [hsize, hcmd] at h₁
    obtain ⟨_, hbounds, h₂⟩ := bind_eq_ok.mp h₁
    rw [ensure_eq_ok, length_append, Nat.add_le_add_iff_left] at hbounds
    obtain ⟨q, hq, h₃⟩ := bind_eq_ok.mp h₂
    -- the command at the offset, and what is behind it
    obtain ⟨c, body, rfl, hlen⟩ : ∃ c body, rest = c ++ body ∧ c.length = number 4 rest 4 :=
      ⟨_, _, (take_append_drop (number 4 rest 4) rest).symm, by rw [length_take]; omega⟩
    rw [← hlen] at hbounds hq h₃
    rw [number_append_left body (by omega)] at hlen hq
    obtain ⟨c', hdata, hc, hgrows, hle, hsame⟩ := patchCommand_spec hq
    have hoffset : pre.length + c.length = (pre ++ c').length := by
      rw [length_append, hc.length_eq]
    obtain ⟨qdata, qaliases, qchanged⟩ := q
    obtain rfl : qdata = (pre ++ c') ++ body := by rw [append_assoc]; exact hdata
    rw [hoffset] at h₃
    obtain ⟨body', hdata', hbody, hgrows', hle', hsame'⟩ := ih h₃
    refine ⟨c' ++ body', by rw [hdata', append_assoc],
      .command hlen.symm hbounds.1 (hc.mono fun _ _ _ => hgrows'.names) hbody, hgrows.trans hgrows',
      hle.trans hle', fun h => ?_⟩
    have hmid : qchanged = changed := le_antisymm (hle'.trans h.le) hle
    rw [hsame hmid, hsame' (h.trans hmid.symm)]

/-- **`patch_one`**: what becomes of a file. -/
theorem patchOne_spec {data : List UInt8} (h : patchOne path data aliases = .ok p) :
    Patched available p.aliases.Names data p.data ∧ aliases.Grows p.aliases
      ∧ (p.changed = 0 → p.data = data) := by
  unfold patchOne at h
  split at h
  next hshort =>
    cases h
    exact ⟨.of_not fun hc => absurd hc.1 (Nat.not_le.mpr hshort), .refl _, fun _ => rfl⟩
  next hshort =>
    split at h
    next hmagic =>
      cases h
      exact ⟨.of_not fun hc => hmagic hc.2, .refl _, fun _ => rfl⟩
    next hmagic =>
      obtain ⟨_, -, h₁⟩ := bind_eq_ok.mp h
      have hlong : 32 ≤ data.length := Nat.not_lt.mp hshort
      have hhead : (data.take 32).length = 32 := by rw [length_take]; omega
      have hwalk : patchCommands path (number 4 data 16) (data.take 32).length
          ⟨data.take 32 ++ data.drop 32, aliases, 0⟩ = .ok p := by
        rw [hhead, take_append_drop]
        exact h₁
      obtain ⟨body', hdata, hbody, hgrows, -, hsame⟩ := patchCommands_spec hwalk
      refine ⟨?_, hgrows, fun h => by rw [hdata, hsame h, take_append_drop]⟩
      unfold Patched
      rw [if_pos ⟨hlong, not_not.mp hmagic⟩]
      exact ⟨_, _, body', hhead, (take_append_drop 32 data).symm, hdata, hbody⟩

end Step

end Juice.Bundle
