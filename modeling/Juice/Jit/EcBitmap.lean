import Juice.Lib.Align

/-!
# The map of ARM64EC code

Wine keeps one bit for each page of 4 KiB that says whether the page has
ARM64EC code, in words of 64 bits. `set_arm64ec_range` and
`clear_arm64ec_range` change the bits of a range of addresses, the words at
its ends by a mask and those between them as a whole.

The map is as long as the address space, and is allocated in pages of the
host. The translator reads the bit of every constant branch target below
`EC_CODE_BITMAP_MAX_ADDRESS`, which does not depend on how long the map is.
-/

namespace Juice.Jit

/-- The words of the map. -/
abbrev EcMap := ℕ → BitVec 64

/-- The bit of a page. -/
def EcMap.bit (map : EcMap) (page : ℕ) : Bool := (map (page / 64)).getLsbD (page % 64)

/-- `maskbits`. -/
def maskbits (idx : ℕ) : BitVec 64 := BitVec.allOnes 64 <<< (idx % 64)

/-- The first page of a range. -/
def firstPage (addr : ℕ) : ℕ := addr / 2 ^ 12

/-- The first page behind a range. -/
def endPage (addr size : ℕ) : ℕ := (addr + size + (2 ^ 12 - 1)) / 2 ^ 12

/-- **`set_arm64ec_range`.** -/
def setArm64ecRange (map : EcMap) (addr size : ℕ) : EcMap :=
  let idx := firstPage addr
  let stop := endPage addr size
  let pos := idx / 64
  let endPos := stop / 64
  fun k =>
    if pos < endPos then
      if k = pos then map k ||| maskbits idx
      else if pos < k ∧ k < endPos then BitVec.allOnes 64
      else if k = endPos ∧ stop % 64 ≠ 0 then map k ||| ~~~ maskbits stop
      else map k
    else if k = pos then map k ||| (maskbits idx &&& ~~~ maskbits stop)
    else map k

/-- **`clear_arm64ec_range`.** -/
def clearArm64ecRange (map : EcMap) (addr size : ℕ) : EcMap :=
  let idx := firstPage addr
  let stop := endPage addr size
  let pos := idx / 64
  let endPos := stop / 64
  fun k =>
    if pos < endPos then
      if k = pos then map k &&& ~~~ maskbits idx
      else if pos < k ∧ k < endPos then 0#64
      else if k = endPos ∧ stop % 64 ≠ 0 then map k &&& maskbits stop
      else map k
    else if k = pos then map k &&& (~~~ maskbits idx ||| maskbits stop)
    else map k

/-! ## Bits -/

theorem getLsbD_maskbits (idx : ℕ) {b : ℕ} (hb : b < 64) :
    (maskbits idx).getLsbD b = decide (idx % 64 ≤ b) := by
  unfold maskbits
  rw [BitVec.getLsbD_shiftLeft, BitVec.getLsbD_allOnes]
  by_cases h : idx % 64 ≤ b
  · simp [h, hb, Nat.not_lt.mpr h]
    omega
  · simp [h, Nat.lt_of_not_le h]

/-- **Maps with the same bits are equal.** -/
theorem EcMap.ext_bit {map map' : EcMap} (h : ∀ page, map.bit page = map'.bit page) :
    map = map' := by
  funext k
  refine BitVec.eq_of_getLsbD_eq (fun b hb => ?_)
  have hpage := h (64 * k + b)
  unfold EcMap.bit at hpage
  rw [Nat.mul_add_div (by decide), Nat.div_eq_of_lt hb, Nat.add_zero, Nat.mul_add_mod,
    Nat.mod_eq_of_lt hb] at hpage
  exact hpage

/-- The bits of a word that are in a range of pages. -/
def rangeMask (idx stop k : ℕ) : BitVec 64 :=
  if idx / 64 < stop / 64 then
    if k = idx / 64 then maskbits idx
    else if idx / 64 < k ∧ k < stop / 64 then BitVec.allOnes 64
    else if k = stop / 64 ∧ stop % 64 ≠ 0 then ~~~ maskbits stop
    else 0#64
  else if k = idx / 64 then maskbits idx &&& ~~~ maskbits stop
  else 0#64

theorem getLsbD_rangeMask {idx stop : ℕ} (hle : idx ≤ stop) (page : ℕ) :
    (rangeMask idx stop (page / 64)).getLsbD (page % 64)
      = decide (idx ≤ page ∧ page < stop) := by
  have hb : page % 64 < 64 := Nat.mod_lt _ (by decide)
  have hfirst := getLsbD_maskbits idx hb
  have hlast : (~~~ maskbits stop).getLsbD (page % 64) = decide (page % 64 < stop % 64) := by
    rw [BitVec.getLsbD_not, getLsbD_maskbits stop hb, decide_eq_true hb, Bool.true_and,
      ← decide_not]
    exact decide_eq_decide.mpr Nat.not_le
  have hzero : ¬ (idx ≤ page ∧ page < stop) →
      (0#64).getLsbD (page % 64) = decide (idx ≤ page ∧ page < stop) := by
    intro hnot
    rw [BitVec.getLsbD_zero, decide_eq_false hnot]
  unfold rangeMask
  split
  · split
    · rw [hfirst, decide_eq_decide]
      omega
    · split
      · rw [BitVec.getLsbD_allOnes, decide_eq_decide]
        omega
      · split
        · rw [hlast, decide_eq_decide]
          omega
        · exact hzero (by omega)
  · split
    · rw [BitVec.getLsbD_and, hfirst, hlast, ← Bool.decide_and, decide_eq_decide]
      omega
    · exact hzero (by omega)

theorem firstPage_le_endPage (addr size : ℕ) : firstPage addr ≤ endPage addr size := by
  unfold firstPage endPage
  omega

/-- The words between the ends of a range are set as a whole. -/
theorem setArm64ecRange_eq (map : EcMap) (addr size k : ℕ) :
    setArm64ecRange map addr size k
      = map k ||| rangeMask (firstPage addr) (endPage addr size) k := by
  unfold setArm64ecRange rangeMask
  split
  · split
    · rfl
    · split
      · rw [BitVec.or_allOnes]
      · split
        · rfl
        · rw [BitVec.or_zero]
  · split
    · rfl
    · rw [BitVec.or_zero]

theorem clearArm64ecRange_eq (map : EcMap) (addr size k : ℕ) :
    clearArm64ecRange map addr size k
      = map k &&& ~~~ rangeMask (firstPage addr) (endPage addr size) k := by
  unfold clearArm64ecRange rangeMask
  split
  · split
    · rfl
    · split
      · rw [BitVec.not_allOnes, BitVec.and_zero]
      · split
        · rw [BitVec.not_not]
        · rw [BitVec.not_zero, BitVec.and_allOnes]
  · split
    · rw [BitVec.not_and, BitVec.not_not]
    · rw [BitVec.not_zero, BitVec.and_allOnes]

/-- **The bits of a range are set.** -/
theorem bit_setArm64ecRange (map : EcMap) (addr size page : ℕ) :
    (setArm64ecRange map addr size).bit page
      = (map.bit page || decide (firstPage addr ≤ page ∧ page < endPage addr size)) := by
  show (setArm64ecRange map addr size (page / 64)).getLsbD (page % 64) = _
  rw [setArm64ecRange_eq, BitVec.getLsbD_or,
    getLsbD_rangeMask (firstPage_le_endPage addr size)]
  rfl

/-- **The bits of a range are cleared.** -/
theorem bit_clearArm64ecRange (map : EcMap) (addr size page : ℕ) :
    (clearArm64ecRange map addr size).bit page
      = (map.bit page && !decide (firstPage addr ≤ page ∧ page < endPage addr size)) := by
  have hb : page % 64 < 64 := Nat.mod_lt _ (by decide)
  show (clearArm64ecRange map addr size (page / 64)).getLsbD (page % 64) = _
  rw [clearArm64ecRange_eq, BitVec.getLsbD_and, BitVec.getLsbD_not, decide_eq_true hb,
    Bool.true_and, getLsbD_rangeMask (firstPage_le_endPage addr size)]
  rfl

/-! ## The size of the map -/

/-- The pages of the host, of which one has at least 4 KiB. -/
structure HostPages where
  shift : ℕ
  le : 12 ≤ shift
  lt : shift < 64

/-- `host_page_mask`. -/
def HostPages.mask (host : HostPages) : ℕ := 2 ^ host.shift - 1

/-- `ROUND_SIZE( 0, size, host_page_mask )`. -/
def HostPages.roundSize (host : HostPages) (size : ℕ) : ℕ :=
  (size + host.mask) % 2 ^ 64 &&& (2 ^ 64 - 1 - host.mask)

theorem HostPages.mask_lt (host : HostPages) : host.mask < 2 ^ 64 - 1 := by
  have hlt := Nat.pow_lt_pow_right (a := 2) (by decide) host.lt
  unfold HostPages.mask
  omega

/-- **A size is rounded up** to the pages of the host. -/
theorem HostPages.roundSize_eq (host : HostPages) {size : ℕ} (h : size + host.mask < 2 ^ 64) :
    host.roundSize size = (size + host.mask) / 2 ^ host.shift * 2 ^ host.shift := by
  unfold HostPages.roundSize
  rw [Nat.mod_eq_of_lt h]
  exact Align.and_mask_eq h host.lt

/-- The size of the map that `alloc_arm64ec_map` allocates. -/
def arm64ecMapSize (host : HostPages) (addressSpaceLimit hostAddrSpaceLimit : UInt64) : ℕ :=
  let bitmapLimit := min addressSpaceLimit hostAddrSpaceLimit
  host.roundSize ((bitmapLimit + 4096) >>> 15).toNat

/-- `EC_CODE_BITMAP_MAX_ADDRESS`. -/
def EC_CODE_BITMAP_MAX_ADDRESS : ℕ := 2 ^ 47

/-- The word that `JuiceIsEcCode` reads for an address. -/
def ecWord (address : UInt64) : ℕ := (address >>> 12).toNat / 64

/-- **`JuiceIsEcCode`**, where there is a map. -/
def juiceIsEcCode (map : EcMap) (address : UInt64) : Bool :=
  (map (ecWord address) >>> ((address >>> 12).toNat % 64)).getLsbD 0

/-- The word that is read for a constant branch target in `ExitFunction`. -/
def exitFunctionWord (newRIP : UInt64) : Option ℕ :=
  if newRIP.toNat < EC_CODE_BITMAP_MAX_ADDRESS then some (ecWord newRIP) else none

/-- The word at an index lies in a map of `size` bytes. -/
def WordInside (size word : ℕ) : Prop := 8 * word + 8 ≤ size

/-- `JuiceIsEcCode` reads the bit of the page. -/
theorem juiceIsEcCode_eq (map : EcMap) (address : UInt64) :
    juiceIsEcCode map address = map.bit (address.toNat / 2 ^ 12) := by
  unfold juiceIsEcCode ecWord EcMap.bit
  rw [BitVec.getLsbD_ushiftRight, Nat.add_zero, UInt64.toNat_shiftRight]
  show (map (address.toNat >>> 12 / 64)).getLsbD (address.toNat >>> 12 % 64) = _
  rw [Nat.shiftRight_eq_div_pow]

theorem ecWord_eq (address : UInt64) : ecWord address = address.toNat / 2 ^ 18 := by
  unfold ecWord
  rw [UInt64.toNat_shiftRight]
  show address.toNat >>> 12 / 64 = _
  rw [Nat.shiftRight_eq_div_pow, Nat.div_div_eq_div_mul]
  rfl

/-- How many bytes of the map have a bit for a page up to the lower limit. -/
def limitBytes (addressSpaceLimit hostAddrSpaceLimit : UInt64) : ℕ :=
  (((min addressSpaceLimit hostAddrSpaceLimit).toNat + 4096) % 2 ^ 64) / 2 ^ 15

/-- **The size of the map**: a bit for each page up to the lower limit, in
whole pages of the host. -/
theorem arm64ecMapSize_eq (host : HostPages) (addressSpaceLimit hostAddrSpaceLimit : UInt64) :
    arm64ecMapSize host addressSpaceLimit hostAddrSpaceLimit
      = (limitBytes addressSpaceLimit hostAddrSpaceLimit + host.mask) / 2 ^ host.shift
        * 2 ^ host.shift := by
  have hsize : ((min addressSpaceLimit hostAddrSpaceLimit + 4096) >>> 15).toNat
      = limitBytes addressSpaceLimit hostAddrSpaceLimit := by
    rw [UInt64.toNat_shiftRight, UInt64.toNat_add, Nat.shiftRight_eq_div_pow]
    rfl
  have hmask : host.mask < 2 ^ 63 := by
    have hle : 2 ^ host.shift ≤ 2 ^ 63 :=
      Nat.pow_le_pow_right (by decide) (Nat.le_of_lt_succ host.lt)
    have hpos : 0 < 2 ^ host.shift := Nat.two_pow_pos _
    unfold HostPages.mask
    omega
  unfold arm64ecMapSize
  dsimp only
  rw [hsize]
  refine host.roundSize_eq ?_
  unfold limitBytes
  omega

/-- **What is read for a branch target lies in the map** exactly if the target
is beyond the check of `ExitFunction`, or the rounded map has a bit for it.
The check does not see to that: where a limit is below it, the map is
shorter. -/
theorem exitFunction_reads_inside_iff (host : HostPages)
    (addressSpaceLimit hostAddrSpaceLimit newRIP : UInt64) :
    (∀ word, exitFunctionWord newRIP = some word →
        WordInside (arm64ecMapSize host addressSpaceLimit hostAddrSpaceLimit) word)
      ↔ (newRIP.toNat < EC_CODE_BITMAP_MAX_ADDRESS →
          newRIP.toNat / 2 ^ 15
            < (limitBytes addressSpaceLimit hostAddrSpaceLimit + host.mask) / 2 ^ host.shift
              * 2 ^ host.shift) := by
  have hdvd : 8 ∣ (limitBytes addressSpaceLimit hostAddrSpaceLimit + host.mask) / 2 ^ host.shift
      * 2 ^ host.shift :=
    Nat.dvd_mul_left_of_dvd (pow_dvd_pow 2 (Nat.le_trans (show 3 ≤ 12 by decide) host.le)) _
  have hword : WordInside (arm64ecMapSize host addressSpaceLimit hostAddrSpaceLimit)
        (ecWord newRIP)
      ↔ newRIP.toNat / 2 ^ 15
        < (limitBytes addressSpaceLimit hostAddrSpaceLimit + host.mask) / 2 ^ host.shift
          * 2 ^ host.shift := by
    rw [arm64ecMapSize_eq, ecWord_eq]
    unfold WordInside
    omega
  unfold exitFunctionWord
  by_cases hguard : newRIP.toNat < EC_CODE_BITMAP_MAX_ADDRESS
  · rw [if_pos hguard, ← hword]
    exact ⟨fun h _ => h _ rfl, fun h word heq => Option.some.inj heq ▸ h hguard⟩
  · rw [if_neg hguard]
    exact iff_of_true nofun (fun h => absurd h hguard)

/-- Pages of 16 KiB. -/
def sixteenKiB : HostPages := ⟨14, by decide, by decide⟩

/-- **A host with less address space than the check allows.** -/
theorem exitFunction_reads_outside :
    exitFunctionWord 0x7fffffffe000 = some 0x1fffffff
      ∧ ¬ WordInside (arm64ecMapSize sixteenKiB 0x7fffffff0000 0x8000000000) 0x1fffffff := by
  refine ⟨by decide, ?_⟩
  unfold WordInside
  decide

end Juice.Jit
