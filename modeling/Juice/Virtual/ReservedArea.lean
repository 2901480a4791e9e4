import Juice.Lib.Align
import Juice.Virtual.MachMap

/-!
# Mapping inside a reserved area

An allocation that may go anywhere is first tried inside one of the
reserved areas. `map_reserved_area` goes through them, upwards or downwards,
and in each of them looks for a gap between the views – the free ranges are
kept in order in an array of their own – outside the range the preloader
keeps for itself. What it finds it replaces with `MAP_FIXED`, but not before
`reserved_area_is_still_empty` has looked at the VM map.

A native mapping does not come to harm here (`mapReservedArea_spares`): the
candidate comes out of a free range, so its end is a machine word, and the
walk is right about it.
-/

namespace Juice.Virtual

/-- `ROUND_ADDR` -/
def roundAddr (addr mask : UInt64) : UInt64 := addr &&& ~~~mask

/-- `ROUND_SIZE` -/
def roundSize (addr size mask : UInt64) : UInt64 := (size + (addr &&& mask) + mask) &&& ~~~mask

/-- **`ROUND_SIZE` is exact** where the sum is a word. -/
theorem toNat_roundSize {addr size mask : UInt64} {k : ℕ} (hk : k < 64)
    (hmask : mask.toNat = 2 ^ k - 1) (h : size.toNat + addr.toNat % 2 ^ k + mask.toNat < 2 ^ 64) :
    (roundSize addr size mask).toNat
      = (size.toNat + addr.toNat % 2 ^ k + mask.toNat) / 2 ^ k * 2 ^ k := by
  have hand : (addr &&& mask).toNat = addr.toNat % 2 ^ k := by
    rw [UInt64.toNat_and, hmask, Nat.and_two_pow_sub_one_eq_mod]
  rw [roundSize, Align.toNat_and_not hk hmask, UInt64.toNat_add, UInt64.toNat_add, hand,
    Nat.mod_add_mod, Nat.mod_eq_of_lt h]

/-! ## Pages that are nobody's business -/

/-- **A page of a live mapping that is not a Wine view**: the address is
mapped with some access, and no view reaches into its host page. -/
def Native (vm : VmMap) (views : List Range) (page q : ℕ) : Prop :=
  (∃ r ∈ vm.regions, r.Has q ∧ r.protection ≠ 0)
    ∧ ∀ view ∈ views, ∀ x, view.Has x → x / page ≠ q / page

theorem not_native_of_noAccess {vm : VmMap} {views : List Range} {page q : ℕ}
    (h : NoAccess vm q) : ¬ Native vm views page q := by
  rintro ⟨⟨r, hr, hhas, hprot⟩, -⟩
  obtain ⟨r', hr', hhas', hnone⟩ := h
  cases VmMap.eq_of_has hr hr' hhas hhas'
  exact hprot hnone

/-! ## Looking for a gap -/

/-- An entry of `free_ranges`. -/
structure FreeRange where
  base : UInt64
  stop : UInt64

/-- `free_ranges_lower_bound`: the place of the first range that does not
end below an address. -/
def freeRangesLowerBound (ranges : List FreeRange) (addr : UInt64) : ℕ :=
  ranges.findIdx (fun r => decide (addr ≤ r.stop))

section

variable (base stop size alignMask : UInt64)

/-- The loop of `find_reserved_free_area`, over the ranges that are still
to be tried in the order they are tried in; `start` is where in the first
of them the area would be, and `place` where it would be in another. Zero
stands for the null pointer. -/
def searchRanges (place : FreeRange → UInt64) : List FreeRange → UInt64 → UInt64
  | [], _ => 0
  | range :: ranges, start =>
    if stop ≤ start ∨ start < base ∨ stop - start < size then 0
    else if start < range.stop ∧ range.base ≤ start ∧ size ≤ range.stop - start then start
    else
      match ranges with
      | [] => 0
      | next :: _ => searchRanges place ranges (place next)

/-- `find_reserved_free_area`; `none` where one of its assertions fails and
ends the process. -/
def findReservedFreeArea (ranges : List FreeRange) (topDown : Bool) : Option UInt64 :=
  let base := roundAddr (base + alignMask) alignMask
  let stop := roundAddr (stop - size) alignMask + size
  if topDown then
    let start := stop - size
    let i := freeRangesLowerBound ranges start
    let place := fun range : FreeRange => roundAddr (range.stop - size) alignMask
    (ranges[i]?).map fun range =>
      searchRanges base stop size place (ranges.take (i + 1)).reverse
        (if range.stop - start < size then place range else start)
  else
    let start := base
    let i := freeRangesLowerBound ranges start
    let place := fun range : FreeRange => roundAddr (range.base + alignMask) alignMask
    (ranges[i]?).map fun range =>
      searchRanges base stop size place (ranges.drop i)
        (if start < range.base then place range else start)

end

/-- **The state of Wine's memory manager** that the search reads. -/
structure Manager where
  /-- `reserved_areas`, upwards. -/
  areas : List Range
  /-- `free_ranges`, upwards. -/
  freeRanges : List FreeRange
  /-- `preload_reserve_start` -/
  preloadReserveStart : UInt64
  /-- `preload_reserve_end` -/
  preloadReserveEnd : UInt64
  /-- `host_page_mask` -/
  hostPageMask : UInt64

/-- **A request** for memory anywhere in an area. -/
structure Request where
  limitLow : UInt64
  limitHigh : UInt64
  size : UInt64
  topDown : Bool
  alignMask : UInt64

section

variable (manager : Manager) (request : Request) {stop found : UInt64}

/-- `find_reserved_free_area_outside_preloader` -/
def findOutsidePreloader (start stop : UInt64) : Option UInt64 :=
  let find := fun start stop =>
    findReservedFreeArea start stop request.size request.alignMask manager.freeRanges
      request.topDown
  if stop ≤ manager.preloadReserveEnd then
    if manager.preloadReserveStart ≤ start then some 0
    else find start
      (if manager.preloadReserveStart < stop then manager.preloadReserveStart else stop)
  else if manager.preloadReserveStart ≤ start then
    find (if start < manager.preloadReserveEnd then manager.preloadReserveEnd else start) stop
  else if request.topDown then
    (find manager.preloadReserveEnd stop).bind fun found =>
      if found ≠ 0 then some found else find start manager.preloadReserveStart
  else
    (find start manager.preloadReserveStart).bind fun found =>
      if found ≠ 0 then some found else find manager.preloadReserveEnd stop

/-- The part of an area that is inside the limits, searched. -/
def findInArea (area : Range) : Option UInt64 :=
  findOutsidePreloader manager request
    (if area.base < request.limitLow then roundSize 0 request.limitLow manager.hostPageMask
      else area.base)
    (if request.limitHigh < area.base + area.size then
        roundAddr request.limitHigh manager.hostPageMask
      else area.base + area.size)

/-- The loops of `map_reserved_area` over the areas, in the order they go. -/
def findInAreas : List Range → Option UInt64
  | [] => some 0
  | area :: areas =>
    let search := (findInArea manager request area).bind fun found =>
      if found ≠ 0 then some found else findInAreas areas
    if request.topDown then
      if request.limitHigh ≤ area.base then findInAreas areas
      else if area.base + area.size ≤ request.limitLow then some 0
      else search
    else
      if request.limitHigh ≤ area.base then some 0
      else if area.base + area.size ≤ request.limitLow then findInAreas areas
      else search

/-- **`map_reserved_area`**: the ranges it replaces with `MAP_FIXED`. The
answer of the kernel decides what is returned and nothing else. -/
def mapReservedArea (vm : VmMap) : List Range :=
  match findInAreas manager request
      (if request.topDown then manager.areas.reverse else manager.areas) with
  | some found =>
    if found ≠ 0 ∧ reservedAreaIsStillEmpty vm found request.size then [⟨found, request.size⟩]
    else []
  | none => []

/-! ## What is found fits -/

/-- **An area that can be replaced**: null, or an area that ends at a
machine word. -/
def Fits (size found : UInt64) : Prop := found ≠ 0 → found.toNat + size.toNat < 2 ^ 64

theorem fits_zero (size : UInt64) : Fits size 0 := fun h => absurd rfl h

/-- What the loop finds lies inside a free range. -/
theorem searchRanges_fits {base size : UInt64} {place : FreeRange → UInt64}
    (ranges : List FreeRange) (start : UInt64) :
    Fits size (searchRanges base stop size place ranges start) := by
  induction ranges generalizing start with
  | nil => exact fits_zero size
  | cons range ranges ih =>
    unfold searchRanges
    split
    · exact fits_zero size
    split
    next hin =>
      intro _
      have hlt := UInt64.lt_iff_toNat_lt.mp hin.1
      have hroom := UInt64.le_iff_toNat_le.mp hin.2.2
      rw [UInt64.toNat_sub_of_le _ _ (UInt64.le_of_lt hin.1)] at hroom
      have := range.stop.toNat_lt
      omega
    next =>
      cases ranges with
      | nil => exact fits_zero size
      | cons next ranges => exact ih (place next)

theorem findReservedFreeArea_fits {base size alignMask : UInt64} {ranges : List FreeRange}
    {topDown : Bool} (h : findReservedFreeArea base stop size alignMask ranges topDown = some found)
    :
    Fits size found := by
  unfold findReservedFreeArea at h
  dsimp only at h
  split at h
  · obtain ⟨range, -, rfl⟩ := Option.map_eq_some_iff.mp h
    exact searchRanges_fits _ _
  · obtain ⟨range, -, rfl⟩ := Option.map_eq_some_iff.mp h
    exact searchRanges_fits _ _

variable {manager request}

/-- A search that is tried again where it finds nothing. -/
theorem fits_of_bind {first again : Option UInt64}
    (h : (first.bind fun found => if found ≠ 0 then some found else again) = some found)
    (hfirst : ∀ found, first = some found → Fits request.size found)
    (hagain : ∀ found, again = some found → Fits request.size found) : Fits request.size found := by
  obtain ⟨found', hfound', h⟩ := Option.bind_eq_some_iff.mp h
  split at h
  · cases h
    exact hfirst _ hfound'
  · exact hagain _ h

theorem findOutsidePreloader_fits {start : UInt64}
    (h : findOutsidePreloader manager request start stop = some found) :
    Fits request.size found := by
  unfold findOutsidePreloader at h
  dsimp only at h
  split at h
  · split at h
    · cases h
      exact fits_zero _
    · exact findReservedFreeArea_fits h
  · split at h
    · exact findReservedFreeArea_fits h
    split at h
    · exact fits_of_bind h (fun _ => findReservedFreeArea_fits) (fun _ => findReservedFreeArea_fits)
    · exact fits_of_bind h (fun _ => findReservedFreeArea_fits) (fun _ => findReservedFreeArea_fits)

theorem findInAreas_fits {areas : List Range} (h : findInAreas manager request areas = some found) :
    Fits request.size found := by
  induction areas generalizing found with
  | nil =>
    cases h
    exact fits_zero _
  | cons area areas ih =>
    have hsearch : ((findInArea manager request area).bind fun found =>
        if found ≠ 0 then some found else findInAreas manager request areas) = some found →
        Fits request.size found :=
      fun h => fits_of_bind h (fun _ => findOutsidePreloader_fits) (fun _ => ih)
    have hnull : some 0 = some found → Fits request.size found := by
      intro h
      cases h
      exact fits_zero _
    unfold findInAreas at h
    dsimp only at h
    split at h
    · split at h
      · exact ih h
      split at h
      · exact hnull h
      · exact hsearch h
    · split at h
      · exact hnull h
      split at h
      · exact ih h
      · exact hsearch h

/-- **`map_reserved_area` spares native mappings**: nothing it replaces is
a page of a live mapping that is not a view. -/
theorem mapReservedArea_spares (vm : VmMap) (views : List Range) (page : ℕ) {range : Range}
    (h : range ∈ mapReservedArea manager request vm) {q : ℕ} (hq : range.Has q) :
    ¬ Native vm views page q := by
  unfold mapReservedArea at h
  split at h
  next found hfound =>
    split at h
    next hempty =>
      rw [List.mem_singleton.mp h] at hq
      have hfits := findInAreas_fits hfound hempty.1
      exact not_native_of_noAccess
        (((reservedAreaIsStillEmpty_iff found request.size).mpr hfits).mp hempty.2 q hq)
    next => cases h
  next => cases h

end

end Juice.Virtual
