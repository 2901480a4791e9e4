import Juice.Lib.Bytes
import Juice.Lib.Numeral
import Juice.Lib.Prog
import Mathlib.Data.List.AList
import Mathlib.Data.List.Sort

/-!
# The paths of bundled dylibs

`patch-bundled-dylib-paths.py` makes the libraries of one directory find one
another there. It walks the load commands of every Mach-O file and points
each dependency whose basename is in the directory at `@loader_path`. Where
the command is too small for the name, it invents a short alias. When all
files are patched, every symbolic link becomes a copy of what it leads to,
and every alias a copy of what it stands for.

The directory is a table from names to files and links. What is around it
does not change and shows only in the links that lead out: `follow` says
where the text of a link leads, which may be back into the directory.
Strings keep the bytes they were decoded from (`surrogateescape`) and are
represented by them. The order in which Python sorts strings, in which the
files are patched, is a parameter too.

`AliasTable.get` looks for a name that is not reserved, and the walk reads
from the buffer that it writes to. A table carries what its entries have in
common: an alias is new, and it stands for one target only.
-/

namespace Juice.Bundle

open Prog ByteSeq

/-- A string. -/
abbrev Text := List UInt8

/-- What Python has in a dictionary whose keys are strings. -/
abbrev Table (α : Type) := AList fun _ : Text => α

/-- What is found in a table with one more entry. -/
theorem lookup_insert_cases {α : Type} {table : Table α} {key k : Text} {value v : α}
    (h : (table.insert key value).lookup k = some v) :
    (k = key ∧ v = value) ∨ (k ≠ key ∧ table.lookup k = some v) := by
  by_cases hk : k = key
  · subst hk
    rw [AList.lookup_insert] at h
    exact .inl ⟨rfl, (Option.some.inj h).symm⟩
  · rw [AList.lookup_insert_ne hk] at h
    exact .inr ⟨hk, h⟩

/-- **An entry of the directory.** -/
inductive Node
  | file (content : List UInt8)
  | link (text : Text)
  | other
  deriving DecidableEq

abbrev Directory := Table Node

/-- Where the text of a link leads. -/
inductive Lead
  | entry (name : Text)
  | outside (target : Text)
  | missing
  deriving DecidableEq

/-- The messages of `fail`, with what they name, and an exception that the
script does not catch. -/
inductive Failure
  | truncatedLoadCommands (path : Text)
  | truncatedLoadCommandHeader (path : Text)
  | invalidLoadCommandSize (size : ℕ) (path : Text)
  | shortDylibLoadCommand (path : Text)
  | invalidDylibNameOffset (path : Text)
  | compactAliasDoesNotFit (path compact : Text) (length capacity : ℕ)
  | replacementDoesNotFit (path value : Text) (length capacity : ℕ)
  | danglingSymlink (entry : Text)
  | symlinkEscapes (entry target : Text)
  | symlinkTargetIsNotFile (entry target : Text)
  | aliasTargetDisappeared (source : Text)
  | aliasDestinationExists (destination : Text)
  | exception
  deriving DecidableEq

/-- A part of the script. -/
abbrev Script := Prog Directory Failure

/-! ## Strings -/

/-- `decode_c_string` -/
def decodeCString (data : List UInt8) (start stop : ℕ) : Text :=
  (slice data start (stop - start)).takeWhile fun b => b ≠ 0

/-- `encoded_length` -/
def encodedLength (value : Text) : ℕ := value.length + 1

/-- `replace_c_string` -/
def replaceCString (path : Text) (data : List UInt8) (start stop : ℕ) (value : Text) :
    Except Failure (List UInt8) := do
  let encoded := value ++ [0]
  let capacity := stop - start
  ensure (encoded.length ≤ capacity) (.replacementDoesNotFit path value encoded.length capacity)
  return overlay (overlay data (List.replicate capacity 0) start) encoded start

/-- `PurePosixPath(path).name` -/
def basename (path : Text) : Text :=
  ((path.splitOn 0x2f).filter fun part => part ≠ [] ∧ part ≠ [0x2e]).getLast?.getD []

/-- `@loader_path/` -/
def loaderPath : Text :=
  [0x40, 0x6c, 0x6f, 0x61, 0x64, 0x65, 0x72, 0x5f, 0x70, 0x61, 0x74, 0x68, 0x2f]

/-! ## Aliases -/

/-- The names that are tried for an alias: `j0`, `j1`, … -/
def aliasName (index : ℕ) : Text := 0x6a :: Numeral.text 10 index

theorem aliasName_injective : Function.Injective aliasName := fun _ _ h =>
  Numeral.text_injective (by decide) (by decide) (List.cons.inj h).2

/-- **The aliases that have been given out** for names in a directory with
the names `available`. They are new, and different targets have different
ones. -/
structure AliasTable (available : List Text) where
  reservedNames : List Text
  byTarget : Table Text
  available_subset : available ⊆ reservedNames
  reserved : ∀ target name, byTarget.lookup target = some name → name ∈ reservedNames
  new : ∀ target name, byTarget.lookup target = some name → name ∉ available
  known : ∀ target name, byTarget.lookup target = some name → target ∈ available
  numbered : ∀ target name, byTarget.lookup target = some name → ∃ index, name = aliasName index
  injective : ∀ target target' name, byTarget.lookup target = some name →
    byTarget.lookup target' = some name → target = target'

namespace AliasTable

variable {available : List Text}

/-- `AliasTable.__init__` -/
def init (available : List Text) : AliasTable available where
  reservedNames := available
  byTarget := ∅
  available_subset := List.Subset.refl _
  reserved _ _ h := by rw [AList.lookup_empty] at h; cases h
  new _ _ h := by rw [AList.lookup_empty] at h; cases h
  known _ _ h := by rw [AList.lookup_empty] at h; cases h
  numbered _ _ h := by rw [AList.lookup_empty] at h; cases h
  injective _ _ _ h := by rw [AList.lookup_empty] at h; cases h

/-- The name that `get` gives to a target without one. -/
def freshName (aliases : AliasTable available) : Text :=
  aliasName (Numeral.next aliasName aliases.reservedNames aliases.byTarget.keys.length)

theorem freshName_notMem (aliases : AliasTable available) :
    aliases.freshName ∉ aliases.reservedNames :=
  Numeral.next_notMem aliasName_injective _

/-- The table with an alias for one more target. -/
def add (aliases : AliasTable available) (target : Text) (hknown : target ∈ available) :
    AliasTable available where
  reservedNames := aliases.freshName :: aliases.reservedNames
  byTarget := aliases.byTarget.insert target aliases.freshName
  available_subset := List.subset_cons_of_subset _ aliases.available_subset
  reserved t n h := by
    rcases lookup_insert_cases h with ⟨-, rfl⟩ | ⟨-, h⟩
    · exact List.mem_cons_self
    · exact List.mem_cons_of_mem _ (aliases.reserved t n h)
  new t n h := by
    rcases lookup_insert_cases h with ⟨-, rfl⟩ | ⟨-, h⟩
    · exact fun hmem => aliases.freshName_notMem (aliases.available_subset hmem)
    · exact aliases.new t n h
  known t n h := by
    rcases lookup_insert_cases h with ⟨rfl, -⟩ | ⟨-, h⟩
    · exact hknown
    · exact aliases.known t n h
  numbered t n h := by
    rcases lookup_insert_cases h with ⟨-, rfl⟩ | ⟨-, h⟩
    · exact ⟨_, rfl⟩
    · exact aliases.numbered t n h
  injective t t' n h h' := by
    rcases lookup_insert_cases h with ⟨ht, hn⟩ | ⟨-, h₁⟩
    · rcases lookup_insert_cases h' with ⟨ht', -⟩ | ⟨-, h₁'⟩
      · rw [ht, ht']
      · exact absurd (aliases.reserved t' n h₁') (hn ▸ aliases.freshName_notMem)
    · rcases lookup_insert_cases h' with ⟨-, hn'⟩ | ⟨-, h₁'⟩
      · exact absurd (aliases.reserved t n h₁) (hn' ▸ aliases.freshName_notMem)
      · exact aliases.injective t t' n h₁ h₁'

/-- `AliasTable.get` -/
def get (aliases : AliasTable available) (target : Text) (hknown : target ∈ available) :
    Text × AliasTable available :=
  match aliases.byTarget.lookup target with
  | some existing => (existing, aliases)
  | none => (aliases.freshName, aliases.add target hknown)

/-- `by_target.items()` -/
def pairs (aliases : AliasTable available) : List (Text × Text) :=
  aliases.byTarget.entries.map fun entry => (entry.1, entry.2)

theorem mem_pairs (aliases : AliasTable available) {target name : Text} :
    (target, name) ∈ aliases.pairs ↔ aliases.byTarget.lookup target = some name := by
  have hentry : aliases.byTarget.lookup target = some name
      ↔ Sigma.mk target name ∈ aliases.byTarget.entries := AList.mem_lookup_iff
  rw [hentry, pairs, List.mem_map]
  refine ⟨fun ⟨⟨t, n⟩, hmem, heq⟩ => ?_, fun h => ⟨_, h, rfl⟩⟩
  cases heq
  exact hmem

/-- An alias is given out once. -/
theorem nodup_pairs (aliases : AliasTable available) : (aliases.pairs.map Prod.snd).Nodup := by
  have hentries : aliases.byTarget.entries.Nodup := aliases.byTarget.nodupKeys.nodup
  have hpairs : aliases.pairs.Nodup := by
    refine hentries.map fun x y h => ?_
    obtain ⟨t, n⟩ := x
    obtain ⟨t', n'⟩ := y
    cases h
    rfl
  refine hpairs.map_on fun x hx y hy h => ?_
  have htarget := aliases.injective x.1 y.1 x.2 (aliases.mem_pairs.mp hx)
    (h ▸ aliases.mem_pairs.mp hy)
  exact Prod.ext htarget h

end AliasTable

/-! ## Load commands -/

/-- `MH_MAGIC_64` -/
def magic64 : ℕ := 0xfeedfacf

/-- `DEPENDENCY_COMMANDS` -/
def dependencyCommands : List ℕ := [0xc, 0x80000018, 0x8000001f, 0x20, 0x80000023]

/-- The variables of `patch_one`. -/
structure Patch (available : List Text) where
  data : List UInt8
  aliases : AliasTable available
  changed : ℕ

section Walk

variable {available : List Text} (path : Text)

/-- What a dependency is pointed at, if it is in the directory. -/
def replacementFor (name : Text) (capacity : ℕ) (aliases : AliasTable available) :
    Except Failure (Option Text × AliasTable available) :=
  if hknown : name ∈ available then
    let direct := loaderPath ++ name
    if encodedLength direct ≤ capacity then .ok (some direct, aliases)
    else do
      let compact := loaderPath ++ (aliases.get name hknown).1
      ensure (encodedLength compact ≤ capacity)
        (.compactAliasDoesNotFit path compact (encodedLength compact) capacity)
      return (some compact, (aliases.get name hknown).2)
  else .ok (none, aliases)

/-- A dependency command. -/
def patchDependency (offset cmdsize : ℕ) (p : Patch available) :
    Except Failure (Patch available) := do
  ensure (24 ≤ cmdsize) (.shortDylibLoadCommand path)
  let nameOffset := number 4 p.data (offset + 8)
  ensure (24 ≤ nameOffset ∧ nameOffset < cmdsize) (.invalidDylibNameOffset path)
  let start := offset + nameOffset
  let stop := offset + cmdsize
  let old := decodeCString p.data start stop
  let (replacement, aliases) ← replacementFor path (basename old) (stop - start) p.aliases
  match replacement with
  | none => return { p with aliases }
  | some value =>
    if value = old then return { p with aliases }
    else
      let data ← replaceCString path p.data start stop value
      return { data, aliases, changed := p.changed + 1 }

/-- A load command. `LC_ID_DYLIB` is not a dependency and is left intact. -/
def patchCommand (cmd offset cmdsize : ℕ) (p : Patch available) :
    Except Failure (Patch available) :=
  if cmd ∈ dependencyCommands then patchDependency path offset cmdsize p else .ok p

/-- The loop over the load commands. -/
def patchCommands : ℕ → ℕ → Patch available → Except Failure (Patch available)
  | 0, _, p => .ok p
  | ncmds + 1, offset, p => do
    ensure (offset + 8 ≤ p.data.length) (.truncatedLoadCommandHeader path)
    let cmd := number 4 p.data offset
    let cmdsize := number 4 p.data (offset + 4)
    ensure (8 ≤ cmdsize ∧ offset + cmdsize ≤ p.data.length) (.invalidLoadCommandSize cmdsize path)
    let p ← patchCommand path cmd offset cmdsize p
    patchCommands ncmds (offset + cmdsize) p

/-- `patch_one`, on what it has read. -/
def patchOne (data : List UInt8) (aliases : AliasTable available) :
    Except Failure (Patch available) :=
  if data.length < 32 then .ok ⟨data, aliases, 0⟩
  else if number 4 data 0 ≠ magic64 then .ok ⟨data, aliases, 0⟩
  else do
    ensure (32 + number 4 data 20 ≤ data.length) (.truncatedLoadCommands path)
    patchCommands path (number 4 data 16) 32 ⟨data, aliases, 0⟩

end Walk

/-! ## Files and links -/

/-- `path.read_bytes()` of a regular file. -/
def readBytes (path : Text) : Script (List UInt8) := do
  match ← gets fun d : Directory => d.lookup path with
  | some (.file content) => pure content
  | _ => fail .exception

/-- `path.write_bytes(content)` -/
def writeBytes (path : Text) (content : List UInt8) : Script Unit :=
  modify fun d => d.insert path (.file content)

/-- `path.unlink()` -/
def unlink (path : Text) : Script Unit := modify fun d => d.erase path

/-- What a path leads to. -/
inductive Place
  | entry (name : Text)
  | outside (target : Text)
  | missing
  | loop
  deriving DecidableEq

section Links

variable (follow : Text → Lead)

/-- `path.resolve(strict=True)`, over at most `limit` links. -/
def resolveWithin (d : Directory) : ℕ → Text → Place
  | limit, name =>
    match d.lookup name with
    | none => .missing
    | some (.link text) =>
      match follow text with
      | .missing => .missing
      | .outside target => .outside target
      | .entry next =>
        match limit with
        | 0 => .loop
        | limit + 1 => resolveWithin d limit next
    | some _ => .entry name

/-- `path.resolve(strict=True)`. A path that leads over more links than
there are entries leads in a circle. -/
def resolve (d : Directory) (name : Text) : Place := resolveWithin follow d d.keys.length name

/-- `shutil.copy2(source, destination)` to a name that is not there. -/
def copy (source destination : Text) : Script Unit := do
  match ← gets fun d => resolve follow d source with
  | .entry target => do
    let content ← readBytes target
    writeBytes destination content
  | _ => fail .exception

/-- A loop over pairs of a source and a destination. -/
def copyEach (step : Text → Text → Script Unit) : List (Text × Text) → Script Unit
  | [] => pure ()
  | (source, destination) :: rest => do
    step source destination
    copyEach step rest

/-- The first loop of `materialize_symlinks`: the links, each behind its
target. -/
def links (d : Directory) : List Text → Except Failure (List (Text × Text))
  | [] => .ok []
  | entry :: rest =>
    match d.lookup entry with
    | some (.link _) =>
      match resolve follow d entry with
      | .loop => .error .exception
      | .missing => .error (.danglingSymlink entry)
      | .outside target => .error (.symlinkEscapes entry target)
      | .entry target =>
        match d.lookup target with
        | some (.file _) => do
          let found ← links d rest
          return (target, entry) :: found
        | _ => .error (.symlinkTargetIsNotFile entry target)
    | _ => links d rest

/-- A copy in place of a link. -/
def replaceLink (target entry : Text) : Script Unit := do
  unlink entry
  copy follow target entry

/-- A copy under an alias. -/
def copyAlias (source destination : Text) : Script Unit := do
  let found ← gets fun d => resolve follow d source
  lift (ensure (found ≠ .missing ∧ found ≠ .loop) (.aliasTargetDisappeared source))
  let taken ← gets fun d : Directory => d.lookup destination
  lift (ensure (taken = none) (.aliasDestinationExists destination))
  copy follow source destination

variable (le : Text → Text → Prop) [DecidableRel le]

/-- `materialize_symlinks` -/
def materializeSymlinks (entries : List Text) : Script ℕ := do
  let found ← gets fun d => links follow d entries
  let found ← lift found
  copyEach (replaceLink follow) (found.insertionSort fun a b => le a.2 b.2)
  return found.length

/-- `AliasTable.materialize` -/
def AliasTable.materialize {available : List Text} (aliases : AliasTable available) :
    Script ℕ := do
  copyEach (copyAlias follow) (aliases.pairs.insertionSort fun a b => le a.2 b.2)
  return aliases.pairs.length

end Links

/-! ## The script -/

/-- The counts that the script prints. -/
structure Report where
  files : ℕ
  rewrites : ℕ
  symlinks : ℕ
  aliases : ℕ
  deriving DecidableEq

section Patching

variable {available : List Text}

/-- `patch_one` -/
def patchFile (path : Text) (aliases : AliasTable available) :
    Script (ℕ × AliasTable available) := do
  let data ← readBytes path
  let p ← lift (patchOne path data aliases)
  if p.changed = 0 then pure (p.changed, p.aliases)
  else do
    writeBytes path p.data
    pure (p.changed, p.aliases)

/-- The loop over the files, with `patched_files` and `rewritten_commands`. -/
def patchFiles : List Text → ℕ → ℕ → AliasTable available →
    Script (ℕ × ℕ × AliasTable available)
  | [], patchedFiles, rewrittenCommands, aliases => pure (patchedFiles, rewrittenCommands, aliases)
  | path :: rest, patchedFiles, rewrittenCommands, aliases => do
    let (count, aliases) ← patchFile path aliases
    patchFiles rest (if count = 0 then patchedFiles else patchedFiles + 1)
      (rewrittenCommands + count) aliases

end Patching

/-- An entry that is a regular file and not a link to one. -/
def isRegular (d : Directory) (name : Text) : Bool :=
  match d.lookup name with
  | some (.file _) => true
  | _ => false

/-- `main` -/
def main (follow : Text → Lead) (le : Text → Text → Prop) [DecidableRel le] : Script Report := do
  let entries ← gets AList.keys
  let files ← gets fun d => entries.filter (isRegular d)
  let (patchedFiles, rewrittenCommands, aliases) ←
    patchFiles (files.insertionSort le) 0 0 (AliasTable.init entries)
  let symlinkCount ← materializeSymlinks follow le entries
  let aliasCount ← aliases.materialize follow le
  return ⟨patchedFiles, rewrittenCommands, symlinkCount, aliasCount⟩

end Juice.Bundle
