import Juice.Lib.LinkTree
import Mathlib.Data.List.Sort
import Mathlib.Data.Nat.Digits.Defs

/-!
# Release deltas

`juice-release-delta.py` turns one release of the application into the next.
`create_delta` compares two directories and writes a manifest: an entry for
each file or symbolic link of the target that is not in the base as it is,
then one for each that is only in the base. `apply_delta` carries the
entries out one after the other, and in the end compares a digest over the
whole tree with the one of the target.

The file system is a tree with links, and every path an entry names is
walked through it as it is at that moment. Texts are the bytes of their
UTF-8 encoding, whose order is the one in which Python sorts strings. What
is not the script's own – SHA-256 and zstd – are parameters.

The archive has been unpacked below the temporary directory `stage` when
the entries are read. A value in the manifest that is missing, or of the
wrong type, raises an exception when it is asked for, and so does every
failing system call; they all end the script.
-/

namespace Juice.Release

open Prog LinkTree

/-- A string, in UTF-8. -/
abbrev Text := List UInt8

/-- `/` -/
def slash : UInt8 := 0x2f

/-! ## Names and paths -/

/-- **A name in a directory.** -/
structure Name where
  bytes : Text
  ne_nil : bytes ≠ []
  ne_dot : bytes ≠ [0x2e]
  ne_dotdot : bytes ≠ [0x2e, 0x2e]
  no_slash : slash ∉ bytes
  no_nul : 0 ∉ bytes
  deriving DecidableEq

/-- **What a symbolic link holds.** -/
structure Target where
  bytes : Text
  ne_nil : bytes ≠ []
  no_nul : 0 ∉ bytes
  deriving DecidableEq

/-- **A file**: its permission bits and its content. -/
structure Data where
  mode : BitVec 12
  content : List UInt8
  deriving DecidableEq

/-- What stands between two slashes. -/
def toStep (w : Text) : Step Name :=
  if w = [] ∨ w = [0x2e] then .here
  else if w = [0x2e, 0x2e] then .up
  else if h : w ≠ [] ∧ w ≠ [0x2e] ∧ w ≠ [0x2e, 0x2e] ∧ slash ∉ w ∧ 0 ∉ w then
    .name ⟨w, h.1, h.2.1, h.2.2.1, h.2.2.2.1, h.2.2.2.2⟩
  else .bad

/-- The steps of a path. -/
def steps (text : Text) : List (Step Name) := (text.splitOn slash).map toStep

/-- Where a link leads. -/
def route (target : Target) : Route Name :=
  ⟨target.bytes.head? == some slash, steps target.bytes⟩

/-- The number of links that a path may lead over. -/
def linkLimit : ℕ := 40

/-- `Path(name).parts` -/
def parts (text : Text) : List (Step Name) := (steps text).filter fun s => s ≠ .here

/-- `as_posix` -/
def nameText (p : List Name) : Text := [slash].intercalate (p.map Name.bytes)

/-- `safe_path` -/
def safePath (root : List Name) (name : Text) : Except Errno (List (Step Name)) :=
  if name.head? = some slash ∨ .up ∈ parts name then .error .exit
  else .ok (root.map .name ++ parts name)

/-- The file system of the script. -/
abbrev Files := Tree Name Data Target

/-- A part of the script. -/
abbrev Script := Sys Name Data Target

/-! ## Digests -/

/-- **SHA-256**, as the digits that `hexdigest` returns. -/
structure Sha256 where
  hexdigest : List UInt8 → Text
  no_nul : ∀ x, 0 ∉ hexdigest x

/-- What `members` finds under a name. -/
inductive Member
  | link (target : Target)
  | file (data : Data)
  deriving DecidableEq

/-- A node that is a member. -/
def Member.ofNode : Node Data Target → Option Member
  | .dir => none
  | .file data => some (.file data)
  | .link target => some (.link target)

/-- The files and links below a physical path. -/
def membersBelow (t : Files) (root : List Name) : List (Text × Member) :=
  t.nodes.filterMap fun x =>
    if root <+: x.1 ∧ x.1 ≠ root then
      (Member.ofNode x.2).map fun m => (nameText (x.1.drop root.length), m)
    else none

/-- `sorted(members(root).items())` -/
def members (t : Files) (root : List Name) : List (Text × Member) :=
  match t.locates route linkLimit true (root.map .name) with
  | .error _ => []
  | .ok p =>
    if t.look p = some .dir then (membersBelow t p).insertionSort fun a b => a.1 ≤ b.1 else []

/-- A number as `:o` prints it. -/
def octal (n : ℕ) : Text :=
  if n = 0 then [0x30] else (Nat.digits 8 n).reverse.map fun d => UInt8.ofNat (0x30 + d)

/-- The record of a member in `tree_digest`. -/
def record (sha : Sha256) : Text × Member → List UInt8
  | (name, .link target) => 0x4c :: 0 :: (name ++ 0 :: (target.bytes ++ [0x0a]))
  | (name, .file data) =>
    0x46 :: 0 :: (name ++ 0 :: (octal data.mode.toNat ++ 0 :: (sha.hexdigest data.content ++ [0x0a])))

/-- What `tree_digest` feeds to SHA-256. -/
def stream (sha : Sha256) (l : List (Text × Member)) : List UInt8 := l.flatMap (record sha)

/-- `tree_digest` -/
def treeDigest (sha : Sha256) (t : Files) (root : List Name) : Text :=
  sha.hexdigest (stream sha (members t root))

/-! ## The manifest -/

/-- `entry["kind"]` -/
inductive Kind
  | delete
  | symlink
  | mode
  | patch
  | full
  | other
  deriving DecidableEq

/-- An entry of the manifest, with what it has of the values that may be
asked for. -/
structure Entry where
  path : Option Text
  kind : Option Kind
  target : Option Text := none
  mode : Option ℕ := none
  blob : Option Text := none
  sha256 : Option Text := none
  deriving DecidableEq

structure Manifest where
  format : Option ℕ
  targetTreeSha256 : Option Text
  entries : Option (List Entry)

/-- `entry[…]` -/
def field {α : Type} : Option α → Script α
  | none => fail .exit
  | some a => pure a

theorem takes_field {α β : Type} {I K : World Name Data Target → Prop} {o : Option α}
    {f : α → Script β} (hIK : ∀ w, I w → K w) (hf : ∀ a, o = some a → Takes I K (f a)) :
    Takes I K (field o >>= f) := by
  intro w hw
  cases o with
  | none => exact hIK w hw
  | some a => exact hf a rfl w hw

theorem keeps_field {α : Type} {I : World Name Data Target → Prop} (o : Option α) :
    Keeps I (field o) := by
  cases o with
  | none => exact keeps_fail _
  | some a => exact keeps_pure a

/-- **zstd**, with and without `--patch-from`. What has been compressed is
restored from the same file. -/
structure Zstd where
  compress : List UInt8 → List UInt8
  decompress : List UInt8 → Option (List UInt8)
  patchFrom : List UInt8 → List UInt8 → List UInt8
  unpatch : List UInt8 → List UInt8 → Option (List UInt8)
  decompress_compress : ∀ x, decompress (compress x) = some x
  unpatch_patchFrom : ∀ base x, unpatch base (patchFrom base x) = some x

/-! ## Applying a delta -/

/-- `path.mkdir(parents=True, exist_ok=True)`, with the steps of the path in
reverse. -/
def mkdirs : List (Step Name) → Script Unit
  | [] => mkdirOnce []
  | step :: up => do
    match ← attempt (mkdir route linkLimit (step :: up).reverse) with
    | .ok _ => pure ()
    | .error .enoent => do
      mkdirs up
      mkdirOnce (step :: up).reverse
    | .error e => do
      if ← isDir route linkLimit (step :: up).reverse then pure () else fail e
where
  /-- `path.mkdir(exist_ok=True)` -/
  mkdirOnce (path : List (Step Name)) : Script Unit := do
    match ← attempt (mkdir route linkLimit path) with
    | .ok _ => pure ()
    | .error .enoent => fail .enoent
    | .error e => do
      if ← isDir route linkLimit path then pure () else fail e

/-- `path.unlink(missing_ok=True)` -/
def unlinkMissingOk (path : List (Step Name)) : Script Unit := do
  match ← attempt (unlink route linkLimit path) with
  | .ok _ => pure ()
  | .error .enoent => pure ()
  | .error e => fail e

/-- `path.symlink_to(target)` -/
def symlinkTo (target : Text) (path : List (Step Name)) : Script Unit :=
  if h : target ≠ [] ∧ 0 ∉ target then symlink route linkLimit ⟨target, h.1, h.2⟩ path
  else fail .einval

/-- `path.chmod(mode)` -/
def chmod (mode : ℕ) (path : List (Step Name)) : Script Unit :=
  change route linkLimit (fun data => { data with mode := BitVec.ofNat 12 mode }) path

/-- `.juice-delta` -/
def deltaSuffix : Text :=
  [0x2e, 0x6a, 0x75, 0x69, 0x63, 0x65, 0x2d, 0x64, 0x65, 0x6c, 0x74, 0x61]

/-- The name a file has while it is written. -/
def Name.delta (n : Name) : Name where
  bytes := n.bytes ++ deltaSuffix
  ne_nil := by simp [deltaSuffix]
  ne_dot := by
    intro h
    have hlen := congrArg List.length h
    rw [List.length_append] at hlen
    exact absurd hlen (by simp [deltaSuffix])
  ne_dotdot := by
    intro h
    have hlen := congrArg List.length h
    rw [List.length_append] at hlen
    exact absurd hlen (by simp [deltaSuffix])
  no_slash := by
    intro h
    rcases List.mem_append.mp h with h | h
    · exact n.no_slash h
    · exact absurd h (by decide)
  no_nul := by
    intro h
    rcases List.mem_append.mp h with h | h
    · exact n.no_nul h
    · exact absurd h (by decide)

/-- `destination.with_name(destination.name + ".juice-delta")` -/
def withDelta (destination : List (Step Name)) : Except Errno (List (Step Name)) :=
  match destination.getLast? with
  | some (.name n) => .ok (destination.dropLast ++ [.name n.delta])
  | some _ => .ok (destination.dropLast ++ [.bad])
  | none => .error .einval

/-- `blobs` -/
def blobsName : Name where
  bytes := [0x62, 0x6c, 0x6f, 0x62, 0x73]
  ne_nil := by decide
  ne_dot := by decide
  ne_dotdot := by decide
  no_slash := by decide
  no_nul := by decide

/-- `stage / "blobs" / blob` -/
def blobPath (stage : List Name) (blob : Text) : List (Step Name) :=
  if blob.head? = some slash then parts blob
  else (stage ++ [blobsName]).map .name ++ parts blob

section Apply

variable (sha : Sha256) (zstd : Zstd) (base stage : List Name)

/-- The part of `apply_delta` from the decompressed file on. -/
def replaceWith (entry : Entry) (replacement destination : List (Step Name))
    (content : Option (List UInt8)) : Script Unit := do
  let content ← field content
  -- zstd does not overwrite without -f, and a new file gets bits that do not matter
  create route linkLimit ⟨0x1a4, content⟩ replacement
  let written ← read route linkLimit true replacement
  let expected ← field entry.sha256
  lift (ensure (sha.hexdigest written.content = expected) .exit)
  let mode ← field entry.mode
  chmod mode replacement
  rename route linkLimit replacement destination

/-- **One entry of the manifest.** -/
def applyEntry (entry : Entry) : Script Unit := do
  let path ← field entry.path
  let destination ← lift (safePath base path)
  match ← field entry.kind with
  | .delete => do
    let dir ← isDir route linkLimit destination
    let link ← isLink route linkLimit destination
    if dir && !link then rmtree route linkLimit destination
    else unlinkMissingOk destination
  | .symlink => do
    mkdirs destination.dropLast.reverse
    unlinkMissingOk destination
    let target ← field entry.target
    symlinkTo target destination
  | .mode => do
    mkdirs destination.dropLast.reverse
    let mode ← field entry.mode
    chmod mode destination
  | .patch => do
    mkdirs destination.dropLast.reverse
    let blob ← field entry.blob
    let replacement ← lift (withDelta destination)
    let dictionary ← read route linkLimit true destination
    let compressed ← read route linkLimit false (blobPath stage blob)
    replaceWith sha entry replacement destination
      (zstd.unpatch dictionary.content compressed.content)
  | .full => do
    mkdirs destination.dropLast.reverse
    let blob ← field entry.blob
    let replacement ← lift (withDelta destination)
    let compressed ← read route linkLimit false (blobPath stage blob)
    replaceWith sha entry replacement destination (zstd.decompress compressed.content)
  | .other => do
    mkdirs destination.dropLast.reverse
    let _ ← field entry.blob
    let _ ← lift (withDelta destination)
    fail .exit

/-- The loop over the entries. -/
def applyEntries : List Entry → Script Unit
  | [] => pure ()
  | entry :: rest => do
    applyEntry sha zstd base stage entry
    applyEntries rest

/-- `apply_delta` -/
def applyDelta (manifest : Manifest) : Script Unit := do
  lift (ensure (manifest.format = some 1) .exit)
  let entries ← field manifest.entries
  applyEntries sha zstd base stage entries
  let actual ← gets fun w => treeDigest sha w.tree base
  let expected ← field manifest.targetTreeSha256
  lift (ensure (actual = expected) .exit)

end Apply

end Juice.Release
