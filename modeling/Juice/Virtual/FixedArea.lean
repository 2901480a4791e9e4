import Juice.Lib.Prog
import Juice.Virtual.ReservedArea

/-!
# Mapping at a fixed address

An allocation at an address the program asked for goes to
`map_fixed_area`. It cuts the range at the borders of the reserved areas:
a piece outside of them is only taken if the kernel finds it free, a piece
inside one of them is replaced with `MAP_FIXED`. If a piece is refused, what
has been mapped so far is given back.

The addresses of a request are machine words, but none of the sums wraps:
the areas end below the end of the address space, and so does the request
after it has been rounded up to host pages (`FixedRequest.toNat_stop`).
-/

namespace Juice.Virtual

open Prog

/-! ## The layout of the address space -/

/-- **The host page size**, a power of two, as the mask of its low bits. -/
structure HostPage where
  /-- `host_page_mask` -/
  mask : UInt64
  bits : ℕ
  bits_lt : bits < 64
  mask_eq : mask.toNat = 2 ^ bits - 1

/-- The size in bytes. -/
def HostPage.size (page : HostPage) : ℕ := 2 ^ page.bits

/-- **The reserved areas**, upwards. `mmap_add_reserved_area` takes whole
host pages and merges what touches; an area up to the very end of the
address space is made one byte shorter. -/
structure Areas (page : HostPage) where
  list : List Range
  sorted : list.Pairwise (fun a b => a.stop ≤ b.base.toNat)
  fits : ∀ a ∈ list, a.stop < 2 ^ 64
  aligned : ∀ a ∈ list, a.base &&& page.mask = 0
  aligned_stop : ∀ a ∈ list, a.stop = 2 ^ 64 - 1 ∨ (a.base + a.size) &&& page.mask = 0

/-- **A request for a range at a fixed address.** `map_view` has compared
it with the limits of the address space, so that its end, rounded up, is a
machine word. -/
structure FixedRequest (page : HostPage) where
  base : UInt64
  size : UInt64
  fits : base.toNat + size.toNat + page.mask.toNat < 2 ^ 64

/-! ## Calls to the kernel -/

/-- `errno` -/
inductive Errno
  | enomem
  | eexist
  | other
  deriving DecidableEq, Repr

/-- The answer to an `mmap` with a hint. -/
inductive Hinted
  | there
  | elsewhere (ptr : UInt64)
  | failed (errno : Errno)
  deriving DecidableEq, Repr

/-- **The answers of the kernel.** -/
structure Kernel where
  /-- to an `mmap` with `MAP_FIXED` -/
  fixed : Range → Option Errno
  /-- to an `mmap` with an address as a hint -/
  hinted : Range → Hinted

/-- How a call ends early: an assertion ends the process, a failed call
sets `errno`. -/
inductive Stop
  | aborted
  | failed (errno : Errno)
  deriving DecidableEq, Repr

/-- **What `map_fixed_area` keeps track of**, and what it has done. -/
structure Progress where
  /-- The local variable `start`. -/
  start : UInt64
  /-- The ranges given to `mmap` with `MAP_FIXED`. -/
  replaced : List Range

section

variable (page : HostPage) (kernel : Kernel) (userSpaceLimit : UInt64)

/-- **`anon_mmap_fixed`** -/
def anonMmapFixed (range : Range) : Prog Progress Stop Unit := do
  lift (ensure (range.base &&& page.mask = 0) .aborted)
  lift (ensure (range.size &&& page.mask = 0) .aborted)
  modify (fun s => { s with replaced := s.replaced ++ [range] })
  match kernel.fixed range with
  | none => pure ()
  | some errno => fail (.failed errno)

/-- A call whose result is not looked at; a failed assertion still ends the
process. -/
def ignoring (call : Prog Progress Stop Unit) : Prog Progress Stop Unit := do
  match ← attempt call with
  | .error .aborted => fail .aborted
  | .error (.failed _) => pure ()
  | .ok () => pure ()

/-- **`unmap_area_above_user_limit`** returns the size that is left below
the limit. -/
def unmapAreaAboveUserLimit (range : Range) : Prog Progress Stop UInt64 :=
  if range.base < userSpaceLimit then
    if range.size ≤ userSpaceLimit - range.base then pure range.size
    else do
      ignoring (anonMmapFixed page kernel
        ⟨userSpaceLimit, range.size - (userSpaceLimit - range.base)⟩)
      pure (userSpaceLimit - range.base)
  else do
    ignoring (anonMmapFixed page kernel range)
    pure 0

/-- **`anon_mmap_tryfixed`**, as it is built for iOS: the address is a
hint, and a mapping that came to lie elsewhere is taken away again. -/
def anonMmapTryfixed (range : Range) : Prog Progress Stop Unit :=
  match kernel.hinted range with
  | .there => pure ()
  | .failed errno => fail (.failed errno)
  | .elsewhere ptr => do
    let _ ← unmapAreaAboveUserLimit page kernel userSpaceLimit ⟨ptr, range.size⟩
    fail (.failed .eexist)

/-- The loop of `unmap_area`; pieces outside the reserved areas go to
`munmap`. -/
def unmapPieces (stop : UInt64) : List Range → UInt64 → Prog Progress Stop Unit
  | [], _ => pure ()
  | area :: areas, start =>
    if stop ≤ area.base then pure ()
    else if area.base + area.size ≤ start then unmapPieces stop areas start
    else
      let start := if start < area.base then area.base else start
      if stop ≤ area.base + area.size then
        ignoring (anonMmapFixed page kernel ⟨start, stop - start⟩)
      else do
        ignoring (anonMmapFixed page kernel ⟨start, area.base + area.size - start⟩)
        unmapPieces stop areas (area.base + area.size)

/-- **`unmap_area`** -/
def unmapArea (areas : List Range) (start size : UInt64) : Prog Progress Stop Unit := do
  lift (ensure (start &&& page.mask = 0) .aborted)
  let size ← unmapAreaAboveUserLimit page kernel userSpaceLimit ⟨start, roundSize 0 size page.mask⟩
  if size = 0 then pure () else unmapPieces page kernel (start + size) areas start

/-! ## `map_fixed_area` -/

/-- The piece in front of an area, outside all of them. -/
def takeGap (area : Range) : Prog Progress Stop Unit := do
  let start ← gets Progress.start
  if start < area.base then do
    anonMmapTryfixed page kernel userSpaceLimit ⟨start, area.base - start⟩
    modify (fun s => { s with start := area.base })
  else pure ()

/-- The piece behind the last area that matters. -/
def takeRest (stop : UInt64) : Prog Progress Stop Unit := do
  let start ← gets Progress.start
  anonMmapTryfixed page kernel userSpaceLimit ⟨start, stop - start⟩

/-- The piece from `start` inside an area. -/
def replacePiece (stop : UInt64) : Prog Progress Stop Unit := do
  let start ← gets Progress.start
  anonMmapFixed page kernel ⟨start, stop - start⟩

/-- **The loop of `map_fixed_area`** over the reserved areas. -/
def mapPieces (stop : UInt64) : List Range → Prog Progress Stop Unit
  | [] => takeRest page kernel userSpaceLimit stop
  | area :: areas => do
    let start ← gets Progress.start
    if stop ≤ area.base then takeRest page kernel userSpaceLimit stop
    else if area.base + area.size ≤ start then mapPieces stop areas
    else do
      takeGap page kernel userSpaceLimit area
      if stop ≤ area.base + area.size then replacePiece page kernel stop
      else do
        replacePiece page kernel (area.base + area.size)
        modify (fun s => { s with start := area.base + area.size })
        mapPieces stop areas

/-- `NTSTATUS` -/
inductive NtStatus
  | success
  | conflictingAddresses
  | noMemory
  | invalidParameter
  deriving DecidableEq, Repr

/-- The status for an `errno`. -/
def Errno.status : Errno → NtStatus
  | .enomem => .noMemory
  | .eexist => .conflictingAddresses
  | .other => .invalidParameter

/-- `find_view_range`: is there a view in the range? -/
def findViewRange (views : List Range) (addr size : UInt64) : Bool :=
  views.any (fun view => decide (¬ addr + size ≤ view.base ∧ ¬ view.base + view.size ≤ addr))

/-- **The call is turned down** before anything is mapped. -/
def Rejected (views : List Range) (base size : UInt64) : Prop :=
  base &&& page.mask ≠ 0 ∨ findViewRange views base size = true

instance (views : List Range) (base size : UInt64) : Decidable (Rejected page views base size) :=
  inferInstanceAs (Decidable (_ ∨ _))

/-- **`map_fixed_area`** -/
def mapFixedArea (areas views : List Range) (base size : UInt64) :
    Prog Progress Stop NtStatus :=
  if Rejected page views base size then pure .conflictingAddresses
  else do
    match ← attempt (mapPieces page kernel userSpaceLimit
        (base + roundSize 0 size page.mask) areas) with
    | .ok () => pure .success
    | .error .aborted => fail .aborted
    | .error (.failed errno) => do
      let start ← gets Progress.start
      unmapArea page kernel userSpaceLimit areas base (start - base)
      pure errno.status

/-- The ranges a call replaces. -/
def replacedBy (areas views : List Range) (base size : UInt64) : List Range :=
  (mapFixedArea page kernel userSpaceLimit areas views base size ⟨base, []⟩).2.replaced

end

/-! ## Rounding to host pages -/

namespace HostPage

variable {page : HostPage}

theorem aligned_iff {x : UInt64} : x &&& page.mask = 0 ↔ 2 ^ page.bits ∣ x.toNat := by
  rw [← UInt64.toNat_inj, UInt64.toNat_and, page.mask_eq, Nat.and_two_pow_sub_one_eq_mod,
    Nat.dvd_iff_mod_eq_zero]
  exact Iff.rfl

theorem aligned_sub {x y : UInt64} (hx : x &&& page.mask = 0) (hy : y &&& page.mask = 0)
    (hle : y.toNat ≤ x.toNat) : (x - y) &&& page.mask = 0 := by
  rw [aligned_iff] at hx hy ⊢
  rw [UInt64.toNat_sub_of_le _ _ (UInt64.le_iff_toNat_le.mpr hle)]
  exact Nat.dvd_sub hx hy

/-- `ROUND_SIZE` of a size alone. -/
theorem toNat_roundSize {size : UInt64} (hfits : size.toNat + page.mask.toNat < 2 ^ 64) :
    (roundSize 0 size page.mask).toNat
      = (size.toNat + (2 ^ page.bits - 1)) / 2 ^ page.bits * 2 ^ page.bits := by
  rw [Virtual.toNat_roundSize page.bits_lt page.mask_eq (by simpa using hfits), page.mask_eq,
    UInt64.toNat_zero, Nat.zero_mod, Nat.add_zero]

/-- A size of whole pages stays as it is. -/
theorem roundSize_of_aligned {size : UInt64} (h : size &&& page.mask = 0) :
    (roundSize 0 size page.mask).toNat = size.toNat := by
  obtain ⟨n, hn⟩ := aligned_iff.mp h
  have hpos := Nat.two_pow_pos page.bits
  -- The next multiple of the page size is at most the end of the address space.
  have hfits : size.toNat + page.mask.toNat < 2 ^ 64 := by
    obtain ⟨m, hm⟩ : 2 ^ page.bits ∣ 2 ^ 64 := Nat.pow_dvd_pow 2 (Nat.le_of_lt page.bits_lt)
    have hlt := size.toNat_lt
    rw [hn, hm] at hlt
    have hnext : 2 ^ page.bits * (n + 1) ≤ 2 ^ page.bits * m :=
      Nat.mul_le_mul_left _ (Nat.lt_of_mul_lt_mul_left hlt)
    rw [hn, page.mask_eq, hm]
    rw [Nat.mul_add] at hnext
    omega
  rw [toNat_roundSize hfits, hn, Nat.mul_add_div hpos, Nat.div_eq_of_lt (by omega), Nat.add_zero,
    Nat.mul_comm]

end HostPage

/-- The end of a request, as a number. -/
def FixedRequest.stop {page : HostPage} (request : FixedRequest page) : ℕ :=
  request.base.toNat + (roundSize 0 request.size page.mask).toNat

namespace FixedRequest

variable {page : HostPage} (request : FixedRequest page)

theorem stop_lt : request.stop < 2 ^ 64 := by
  have hfits := request.fits
  have hround := (Align.le_round_up (n := request.size.toNat) (Nat.two_pow_pos page.bits)).2
  unfold stop
  rw [HostPage.toNat_roundSize (by omega)]
  rw [page.mask_eq] at hfits
  omega

theorem toNat_stop : (request.base + roundSize 0 request.size page.mask).toNat = request.stop := by
  rw [UInt64.toNat_add]
  exact Nat.mod_eq_of_lt request.stop_lt

theorem aligned_stop (h : request.base &&& page.mask = 0) :
    (request.base + roundSize 0 request.size page.mask) &&& page.mask = 0 := by
  have hfits := request.fits
  rw [HostPage.aligned_iff, toNat_stop]
  unfold stop
  rw [HostPage.toNat_roundSize (by omega)]
  exact Nat.dvd_add (HostPage.aligned_iff.mp h) (Nat.dvd_mul_left _ _)

end FixedRequest

/-- A piece between two addresses. -/
theorem stop_piece {start stop : UInt64} (h : start.toNat ≤ stop.toNat) :
    (⟨start, stop - start⟩ : Range).stop = stop.toNat := by
  show start.toNat + (stop - start).toNat = stop.toNat
  rw [UInt64.toNat_sub_of_le _ _ (UInt64.le_iff_toNat_le.mpr h)]
  omega

end Juice.Virtual
