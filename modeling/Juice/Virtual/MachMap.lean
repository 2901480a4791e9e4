import Mathlib.Algebra.Group.Nat.Defs
import Mathlib.Data.List.Pairwise

/-!
# The Mach VM map, and a walk over it

Wine reserves large ranges of the address space when a process starts, as
mappings without access, and later puts Win32 allocations into them with
`MAP_FIXED`, which replaces whatever is there. On Darwin the system may
have put something else there in the meantime, a thread stack for example.
`reserved_area_is_still_empty` asks the kernel: it walks over the regions
of the VM map from the start of the candidate to its end, and says yes if
all of it is still mapped without access.

The walk is done on machine words, and it is right as long as the end of
the candidate is one: `reservedAreaIsStillEmpty_iff`.
-/

namespace Juice.Virtual

/-- **A range of addresses**, given by its base and its size. -/
structure Range where
  base : UInt64
  size : UInt64
  deriving DecidableEq, Repr

/-- The first address behind a range. -/
def Range.stop (r : Range) : ℕ := r.base.toNat + r.size.toNat

/-- The addresses of a range. -/
def Range.Has (r : Range) (q : ℕ) : Prop := r.base.toNat ≤ q ∧ q < r.stop

instance (r : Range) (q : ℕ) : Decidable (r.Has q) := inferInstanceAs (Decidable (_ ∧ _))

/-- **A region of the VM map.** -/
structure Region extends Range where
  /-- `VM_PROT_NONE` is zero. -/
  protection : UInt32
  deriving DecidableEq, Repr

/-- **The VM map**: its regions in order. -/
structure VmMap where
  regions : List Region
  /-- They do not overlap. -/
  sorted : regions.Pairwise (fun a b => a.stop ≤ b.base.toNat)
  /-- They end below the last address. -/
  fits : ∀ r ∈ regions, r.stop < 2 ^ 64

variable (vm : VmMap)

/-- **`vm_region_64`**: the region that contains an address, or the next
one above it, or none. -/
def vmRegion64 (address : UInt64) : Option Region :=
  vm.regions.find? (fun r => decide (address.toNat < r.stop))

/-- The walk goes on behind a region, or at the end of the candidate. -/
def Region.next (region : Region) (stop : UInt64) : UInt64 :=
  if region.base + region.size < stop then region.base + region.size else stop

theorem Region.lt_next {region : Region} {cursor stop : UInt64} (hstop : cursor < stop)
    (hregion : ¬ region.base + region.size ≤ cursor) : cursor < region.next stop := by
  unfold next
  split
  · exact UInt64.not_le.mp hregion
  · exact hstop

/-- **The walk** of `reserved_area_is_still_empty`. It ends because the
cursor moves on at every turn. -/
def stillEmptyFrom (cursor stop : UInt64) : Bool :=
  if hstop : cursor < stop then
    match vmRegion64 vm cursor with
    | none => false
    | some region =>
      if hregion : region.size = 0 ∨ cursor < region.base ∨ region.base + region.size ≤ cursor
          ∨ region.protection ≠ 0 then false
      else
        have : cursor < region.next stop :=
          Region.lt_next hstop (fun h => hregion (.inr (.inr (.inl h))))
        stillEmptyFrom (region.next stop) stop
  else true
termination_by stop.toNat - cursor.toNat
decreasing_by
  have hlt : cursor.toNat < stop.toNat := UInt64.lt_iff_toNat_lt.mp hstop
  have hnext : cursor.toNat < (region.next stop).toNat := UInt64.lt_iff_toNat_lt.mp this
  omega

/-- **`reserved_area_is_still_empty`** -/
def reservedAreaIsStillEmpty (base size : UInt64) : Bool := stillEmptyFrom vm base (base + size)

/-! ## What the walk says -/

variable {vm}

/-- The region that contains an address is the one that is returned. -/
theorem vmRegion64_of_has {r : Region} {address : UInt64} (hr : r ∈ vm.regions)
    (h : r.Has address.toNat) : vmRegion64 vm address = some r := by
  obtain ⟨before, behind, heq⟩ := List.append_of_mem hr
  have hsorted := vm.sorted
  rw [heq] at hsorted
  unfold vmRegion64
  rw [heq, List.find?_append, List.find?_eq_none.mpr, Option.none_or]
  · exact List.find?_cons_of_pos (decide_eq_true h.2)
  · intro a ha
    have hstop := (List.pairwise_append.mp hsorted).2.2 a ha r List.mem_cons_self
    exact fun hlt => absurd (of_decide_eq_true hlt) (Nat.not_lt.mpr (Nat.le_trans hstop h.1))

/-- Regions do not overlap. -/
theorem VmMap.eq_of_has {a b : Region} (ha : a ∈ vm.regions) (hb : b ∈ vm.regions) {q : ℕ}
    (hqa : a.Has q) (hqb : b.Has q) : a = b := by
  have hq : (UInt64.ofNat q).toNat = q :=
    UInt64.toNat_ofNat_of_lt' (Nat.lt_trans hqa.2 (vm.fits a ha))
  rw [← hq] at hqa hqb
  exact Option.some.inj ((vmRegion64_of_has ha hqa).symm.trans (vmRegion64_of_has hb hqb))

/-- **An address mapped without access.** -/
def NoAccess (vm : VmMap) (q : ℕ) : Prop := ∃ r ∈ vm.regions, r.Has q ∧ r.protection = 0

/-- The end of a region is a machine word. -/
theorem VmMap.toNat_stop {r : Region} (hr : r ∈ vm.regions) : (r.base + r.size).toNat = r.stop := by
  rw [UInt64.toNat_add]
  exact Nat.mod_eq_of_lt (vm.fits r hr)

/-- What the walk asks of the region it is given, in terms of the map. -/
theorem vmRegion64_rejects_iff {cursor : UInt64} {region : Region}
    (h : vmRegion64 vm cursor = some region) :
    (region.size = 0 ∨ cursor < region.base ∨ region.base + region.size ≤ cursor
        ∨ region.protection ≠ 0) ↔ ¬ NoAccess vm cursor.toNat := by
  have hmem : region ∈ vm.regions := List.mem_of_find?_eq_some h
  have hfind : vm.regions.find? (fun r => decide (cursor.toNat < r.stop)) = some region := h
  have hlt : cursor.toNat < region.stop := by simpa using List.find?_some hfind
  have hstop := VmMap.toNat_stop hmem
  rw [UInt64.lt_iff_toNat_lt, UInt64.le_iff_toNat_le, hstop]
  constructor
  · rintro hbad ⟨r, hr, hhas, hprot⟩
    -- The region the cursor is in is the one returned.
    cases Option.some.inj (h.symm.trans (vmRegion64_of_has hr hhas))
    rcases hbad with hsize | hbase | hend | hprot'
    · have : region.stop = region.base.toNat := by
        show region.base.toNat + region.size.toNat = _
        rw [hsize]
        rfl
      exact absurd (Nat.lt_of_le_of_lt hhas.1 hlt) (by omega)
    · exact absurd hhas.1 (Nat.not_le.mpr hbase)
    · exact absurd hlt (Nat.not_lt.mpr hend)
    · exact hprot' hprot
  · intro hnot
    by_contra hgood
    simp only [not_or, Nat.not_lt, not_not] at hgood
    exact hnot ⟨region, hmem, ⟨hgood.2.1, hlt⟩, hgood.2.2.2⟩

/-- **The walk says yes exactly if all of the rest is mapped without
access.** -/
theorem stillEmptyFrom_iff (cursor stop : UInt64) :
    stillEmptyFrom vm cursor stop = true
      ↔ ∀ q, cursor.toNat ≤ q → q < stop.toNat → NoAccess vm q := by
  fun_induction stillEmptyFrom vm cursor stop with
  | case1 cursor hstop hnone =>
    refine iff_of_false Bool.false_ne_true (fun hall => ?_)
    obtain ⟨r, hr, hhas, -⟩ := hall cursor.toNat (Nat.le_refl _) (UInt64.lt_iff_toNat_lt.mp hstop)
    rw [vmRegion64_of_has hr hhas] at hnone
    cases hnone
  | case2 cursor hstop region hregion hbad =>
    refine iff_of_false Bool.false_ne_true (fun hall => ?_)
    exact (vmRegion64_rejects_iff hregion).mp hbad
      (hall cursor.toNat (Nat.le_refl _) (UInt64.lt_iff_toNat_lt.mp hstop))
  | case3 cursor hstop region hregion hgood hlt ih =>
    rw [ih]
    have hnext : cursor.toNat < (region.next stop).toNat := UInt64.lt_iff_toNat_lt.mp hlt
    refine ⟨fun hall q hq hq' => ?_, fun hall q hq hq' => hall q (by omega) hq'⟩
    by_cases hbehind : (region.next stop).toNat ≤ q
    · exact hall q hbehind hq'
    · -- Up to there it is the region itself.
      have hmem : region ∈ vm.regions := List.mem_of_find?_eq_some hregion
      simp only [not_or, not_not] at hgood
      have hbase := UInt64.le_iff_toNat_le.mp (UInt64.not_lt.mp hgood.2.1)
      refine ⟨region, hmem, ⟨Nat.le_trans hbase hq, ?_⟩, hgood.2.2.2⟩
      rw [← VmMap.toNat_stop hmem]
      unfold Region.next at hbehind
      split at hbehind
      next => omega
      next hge =>
        have := UInt64.le_iff_toNat_le.mp (UInt64.not_lt.mp hge)
        omega
  | case4 cursor hstop =>
    have hge : stop.toNat ≤ cursor.toNat := UInt64.le_iff_toNat_le.mp (UInt64.not_lt.mp hstop)
    exact iff_of_true rfl (fun q hq hq' => absurd hq' (by omega))

/-- **`reserved_area_is_still_empty` is right exactly if the candidate ends
below the last address.** It says yes if and only if every address of the
candidate is mapped without access; a candidate whose end wraps it takes
without looking. -/
theorem reservedAreaIsStillEmpty_iff (base size : UInt64) :
    (reservedAreaIsStillEmpty vm base size = true
        ↔ ∀ q, (⟨base, size⟩ : Range).Has q → NoAccess vm q)
      ↔ base.toNat + size.toNat < 2 ^ 64 := by
  unfold reservedAreaIsStillEmpty
  rw [stillEmptyFrom_iff]
  constructor
  · intro h
    by_contra hwrap
    have hbase := base.toNat_lt
    have hsize := size.toNat_lt
    have hstop : (base + size).toNat < base.toNat := by
      rw [UInt64.toNat_add]
      omega
    -- The last address is in the candidate, and in no region.
    have hlast : (⟨base, size⟩ : Range).Has (2 ^ 64 - 1) := by
      unfold Range.Has Range.stop
      dsimp only
      omega
    obtain ⟨r, hr, hhas, -⟩ := h.mp (fun q hq hq' => absurd hq' (by omega)) _ hlast
    have hfits := vm.fits r hr
    have := hhas.2
    omega
  · intro hfits
    have hstop : (base + size).toNat = base.toNat + size.toNat := by
      rw [UInt64.toNat_add]
      exact Nat.mod_eq_of_lt hfits
    rw [hstop]
    exact ⟨fun h q hq => h q hq.1 hq.2, fun h q hq hq' => h q ⟨hq, hq'⟩⟩

end Juice.Virtual
