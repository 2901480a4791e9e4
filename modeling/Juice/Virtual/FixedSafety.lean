import Juice.Virtual.FixedArea

/-!
# What a mapping at a fixed address destroys

`map_fixed_area` does not look at the VM map before it replaces a piece of
a reserved area, in spite of what the comment on
`reserved_area_is_still_empty` asks for. A native mapping inside a reserved
area is therefore destroyed as soon as a program asks for its address
(`mapFixedArea_replaces_stack`).

How much of the range is touched depends on the answers of the kernel. A
piece outside the reserved areas is only granted where nothing is mapped, so
what can be reached is everything up to the first address outside them that
is in use. The invariant of the loop (`Taken`) says which areas it has
passed and that everything below `start` could be reached. With it two
things are shown by induction over the areas: that the pieces replaced lie
in what can be reached (`mapPieces_ended`), and that for a kernel that
grants what it can all of it is replaced (`mapPieces_reaches`). Together
they give the exact condition in `native_mappings_survive_iff`.
-/

namespace Juice.Virtual

open List Prog

/-! ## What the calls replace -/

section

variable {page : HostPage} {kernel : Kernel} {userSpaceLimit : UInt64}
variable {vm : VmMap} {views : List Range} {I : Progress → Prop} {s : Progress} {range : Range}
  {stop base : UInt64}

/-- **`I` allows that a range is replaced.** -/
def Allows (I : Progress → Prop) (r : Range) : Prop :=
  ∀ s, I s → I { s with replaced := s.replaced ++ [r] }

/-- … and every range between two addresses. -/
def AllowsAll (I : Progress → Prop) (lo hi : ℕ) : Prop :=
  ∀ r : Range, lo ≤ r.base.toNat → r.stop ≤ hi → Allows I r

theorem AllowsAll.mono {lo hi lo' hi' : ℕ} (h : AllowsAll I lo hi) (hlo : lo ≤ lo')
    (hhi : hi' ≤ hi) : AllowsAll I lo' hi' :=
  fun r hr hr' => h r (Nat.le_trans hlo hr) (Nat.le_trans hr' hhi)

theorem keeps_anonMmapFixed (h : Allows I range) : Keeps I (anonMmapFixed page kernel range) := by
  unfold anonMmapFixed
  refine keeps_bind (keeps_lift _) fun _ => keeps_bind (keeps_lift _) fun _ =>
    keeps_bind (keeps_modify h) fun _ => ?_
  cases kernel.fixed range with
  | none => exact keeps_pure _
  | some errno => exact keeps_fail _

theorem keeps_ignoring {call : Prog Progress Stop Unit} (h : Keeps I call) :
    Keeps I (ignoring call) := by
  unfold ignoring
  refine keeps_bind (keeps_attempt h) fun r => ?_
  rcases r with (_ | errno) | _
  · exact keeps_fail _
  · exact keeps_pure _
  · exact keeps_pure _

/-- What lies above the limit is part of the range. -/
theorem wp_unmapAreaAboveUserLimit (hrange : AllowsAll I range.base.toNat range.stop) (hs : I s) :
    (unmapAreaAboveUserLimit page kernel userSpaceLimit range).wp
      (fun left t => I t ∧ left.toNat ≤ range.size.toNat) (fun _ => I) s := by
  have hcut : ∀ (r : Range) (left : UInt64), range.base.toNat ≤ r.base.toNat →
      r.stop ≤ range.stop → left.toNat ≤ range.size.toNat →
      (do ignoring (anonMmapFixed page kernel r); pure left : Prog Progress Stop UInt64).wp
        (fun left t => I t ∧ left.toNat ≤ range.size.toNat) (fun _ => I) s := by
    intro r left hlo hhi hleft
    rw [wp_bind]
    exact wp_imp ((keeps_ignoring (keeps_anonMmapFixed (hrange r hlo hhi))).wp hs)
      (fun _ t ht => wp_pure.mpr ⟨ht, hleft⟩) fun _ _ ht => ht
  unfold unmapAreaAboveUserLimit
  split
  next hbelow =>
    split
    · exact wp_pure.mpr ⟨hs, Nat.le_refl _⟩
    next hlarge =>
      have hbase := UInt64.lt_iff_toNat_lt.mp hbelow
      have hleft : (userSpaceLimit - range.base).toNat = userSpaceLimit.toNat - range.base.toNat :=
        UInt64.toNat_sub_of_le _ _ (UInt64.le_of_lt hbelow)
      have hlt := UInt64.lt_iff_toNat_lt.mp (UInt64.not_le.mp hlarge)
      have hrest : (range.size - (userSpaceLimit - range.base)).toNat
          = range.size.toNat - (userSpaceLimit.toNat - range.base.toNat) := by
        rw [UInt64.toNat_sub_of_le _ _ (UInt64.le_of_lt (UInt64.not_le.mp hlarge)), hleft]
      refine hcut _ _ (Nat.le_of_lt hbase) ?_ (Nat.le_of_lt hlt)
      show userSpaceLimit.toNat + _ ≤ range.base.toNat + _
      rw [hrest]
      rw [hleft] at hlt
      omega
  next => exact hcut range 0 (Nat.le_refl _) (Nat.le_refl _) (Nat.zero_le _)

/-- **An address nothing is mapped at.** -/
def Unmapped (vm : VmMap) (q : ℕ) : Prop := ∀ r ∈ vm.regions, ¬ r.Has q

/-- **A kernel that does not give away what is in use.** -/
structure Kernel.Honest (kernel : Kernel) (vm : VmMap) : Prop where
  there : ∀ r, kernel.hinted r = .there → ∀ q, r.base.toNat ≤ q → q < r.stop → Unmapped vm q
  elsewhere : ∀ r ptr, kernel.hinted r = .elsewhere ptr →
    ∀ q, ptr.toNat ≤ q → q < ptr.toNat + r.size.toNat → Unmapped vm q

/-- A hint replaces nothing that was mapped. -/
theorem wp_anonMmapTryfixed (hkernel : kernel.Honest vm)
    (hfree : ∀ r : Range, (∀ q, r.Has q → Unmapped vm q) → Allows I r) (hs : I s) :
    (anonMmapTryfixed page kernel userSpaceLimit range).wp
      (fun _ t => I t ∧ t.start = s.start ∧ ∀ q, range.base.toNat ≤ q → q < range.stop →
        Unmapped vm q)
      (fun _ t => I t ∧ t.start = s.start) s := by
  unfold anonMmapTryfixed
  cases hhint : kernel.hinted range with
  | there => exact wp_pure.mpr ⟨hs, rfl, hkernel.there range hhint⟩
  | failed errno => exact wp_fail.mpr ⟨hs, rfl⟩
  | elsewhere ptr =>
    dsimp only
    rw [wp_bind]
    have hkept : AllowsAll (fun t => I t ∧ t.start = s.start) ptr.toNat
        (ptr.toNat + range.size.toNat) := fun r hlo hhi t ht =>
      ⟨hfree r (fun q hq => hkernel.elsewhere range ptr hhint q (by exact hlo.trans hq.1)
        (by exact Nat.lt_of_lt_of_le hq.2 hhi)) t ht.1, ht.2⟩
    exact wp_imp (wp_unmapAreaAboveUserLimit hkept ⟨hs, rfl⟩) (fun _ t ht => wp_fail.mpr ht.1)
      fun _ _ ht => ht

/-! ## Giving back -/

/-- The end of an area is a machine word. -/
theorem toNat_areaStop {area : Range} (h : area.stop < 2 ^ 64) :
    (area.base + area.size).toNat = area.stop := by
  rw [UInt64.toNat_add]
  exact Nat.mod_eq_of_lt h

/-- What `unmap_area` replaces lies in the range it is given. -/
theorem keeps_unmapPieces (areas : List Range) (cursor : UInt64)
    (hareas : ∀ a ∈ areas, a.stop < 2 ^ 64) (hle : cursor.toNat ≤ stop.toNat)
    (hrange : AllowsAll I cursor.toNat stop.toNat) :
    Keeps I (unmapPieces page kernel stop areas cursor) := by
  induction areas generalizing cursor with
  | nil => exact keeps_pure _
  | cons area areas ih =>
    have hrest : ∀ a ∈ areas, a.stop < 2 ^ 64 := fun a ha => hareas a (mem_cons_of_mem _ ha)
    have hstop := toNat_areaStop (hareas area mem_cons_self)
    unfold unmapPieces
    split
    · exact keeps_pure _
    next hbelow =>
      split
      · exact ih cursor hrest hle hrange
      next hbehind =>
        have hbase := UInt64.lt_iff_toNat_lt.mp (UInt64.not_le.mp hbelow)
        have hend := UInt64.lt_iff_toNat_lt.mp (UInt64.not_le.mp hbehind)
        -- The piece starts in the range, and not behind the area.
        generalize hfirst : (if cursor < area.base then area.base else cursor) = first
        have hcursor : cursor.toNat ≤ first.toNat ∧ first.toNat ≤ area.stop
            ∧ first.toNat ≤ stop.toNat := by
          rw [← hfirst]
          have : area.base.toNat ≤ area.stop := Nat.le_add_right _ _
          split
          next hlt => exact ⟨Nat.le_of_lt (UInt64.lt_iff_toNat_lt.mp hlt), this, Nat.le_of_lt hbase⟩
          next => exact ⟨Nat.le_refl _, by omega, hle⟩
        have hpiece : ∀ last : UInt64, first.toNat ≤ last.toNat → last.toNat ≤ stop.toNat →
            Keeps I (ignoring (anonMmapFixed page kernel ⟨first, last - first⟩)) := by
          intro last hfirst hlast
          refine keeps_ignoring (keeps_anonMmapFixed (hrange _ hcursor.1 ?_))
          rwa [stop_piece hfirst]
        dsimp only
        split
        next => exact hpiece stop hcursor.2.2 (Nat.le_refl _)
        next hmore =>
          have hlt := UInt64.lt_iff_toNat_lt.mp (UInt64.not_le.mp hmore)
          refine keeps_bind (hpiece _ (hcursor.2.1.trans_eq hstop.symm) (Nat.le_of_lt hlt)) ?_
          exact fun _ => ih _ hrest (Nat.le_of_lt hlt) (hrange.mono (by omega) (Nat.le_refl _))

theorem keeps_unmapArea {areas : List Range} {start : UInt64}
    (hareas : ∀ a ∈ areas, a.stop < 2 ^ 64) (hbase : base &&& page.mask = 0)
    (hstart : start &&& page.mask = 0) (hle : base.toNat ≤ start.toNat)
    (hrange : AllowsAll I base.toNat start.toNat) :
    Keeps I (unmapArea page kernel userSpaceLimit areas base (start - base)) := by
  intro s hs
  have hsub : (start - base).toNat = start.toNat - base.toNat :=
    UInt64.toNat_sub_of_le _ _ (UInt64.le_iff_toNat_le.mpr hle)
  have hround : (roundSize 0 (start - base) page.mask).toNat = start.toNat - base.toNat := by
    rw [HostPage.roundSize_of_aligned (HostPage.aligned_sub hstart hbase hle), hsub]
  have hstop : (⟨base, roundSize 0 (start - base) page.mask⟩ : Range).stop = start.toNat := by
    show base.toNat + (roundSize 0 (start - base) page.mask).toNat = _
    omega
  apply wp_state.mp
  unfold unmapArea
  rw [wp_bind, wp_ensure]
  refine ⟨fun _ => ?_, fun _ => hs⟩
  rw [wp_bind]
  refine wp_imp (wp_unmapAreaAboveUserLimit (by rw [hstop]; exact hrange) hs) ?_ (fun _ _ ht => ht)
  rintro left t ⟨ht, hleft⟩
  dsimp only at hleft
  have hsum : (base + left).toNat = base.toNat + left.toNat := by
    rw [UInt64.toNat_add]
    have := start.toNat_lt
    exact Nat.mod_eq_of_lt (by omega)
  split
  · exact wp_pure.mpr ht
  · exact (keeps_unmapPieces areas base hareas (by omega)
      (hrange.mono (Nat.le_refl _) (by omega))).wp ht

/-! ## Taking the pieces -/

/-- **An address outside the reserved areas.** -/
def Outside (areas : List Range) (q : ℕ) : Prop := ∀ a ∈ areas, ¬ a.Has q

/-- **The range can be taken up to an address**: of what lies below,
nothing outside the reserved areas is in use. -/
def Reached (vm : VmMap) (areas : List Range) (base q : ℕ) : Prop :=
  ∀ p, base ≤ p → p < q → Outside areas p → Unmapped vm p

/-- **Nothing native in the way**: an address of the range that is inside a
reserved area, and up to which the range can be taken, is not in a native
mapping. -/
def NothingInTheWay (vm : VmMap) (views areas : List Range) (page : HostPage) (base stop : ℕ) :
    Prop :=
  ∀ q, base ≤ q → q < stop → ¬ Outside areas q → Reached vm areas base q →
    ¬ Native vm views page.size q

section Pieces

variable {areas : Areas page} {base stop start : UInt64}

/-- **Where the loop is**: `before` are the areas it has passed, and the
range is taken up to `start`. -/
structure Taken (vm : VmMap) (areas : Areas page) (base stop : UInt64)
    (before rest : List Range) (start : UInt64) : Prop where
  split : areas.list = before ++ rest
  passed : ∀ a ∈ before, a.stop ≤ start.toNat
  base_le : base.toNat ≤ start.toNat
  le_stop : start.toNat ≤ stop.toNat
  aligned : start &&& page.mask = 0
  reached : Reached vm areas.list base.toNat start.toNat

namespace Taken

variable {before rest : List Range} {area : Range}

theorem mem (h : Taken vm areas base stop before (area :: rest) start) : area ∈ areas.list := by
  rw [h.split]
  exact mem_append_right _ mem_cons_self

theorem toNat_stop (h : Taken vm areas base stop before (area :: rest) start) :
    (area.base + area.size).toNat = area.stop := toNat_areaStop (areas.fits area h.mem)

/-- An area that ends below is passed. -/
theorem skip (h : Taken vm areas base stop before (area :: rest) start)
    (hbehind : area.stop ≤ start.toNat) :
    Taken vm areas base stop (before ++ [area]) rest start where
  split := by rw [h.split, append_assoc, singleton_append]
  passed := forall_mem_append.mpr ⟨h.passed, forall_mem_singleton.mpr hbehind⟩
  base_le := h.base_le
  le_stop := h.le_stop
  aligned := h.aligned
  reached := h.reached

/-- What is between `start` and the next area is outside all areas. -/
theorem outside_gap (h : Taken vm areas base stop before (area :: rest) start) {q : ℕ}
    (hq : start.toNat ≤ q) (hq' : q < area.base.toNat) : Outside areas.list q := by
  intro a ha hhas
  have hsorted := areas.sorted
  rw [h.split] at ha hsorted
  rcases mem_append.mp ha with ha | ha
  · exact absurd hhas.2 (Nat.not_lt.mpr ((h.passed a ha).trans hq))
  rcases mem_cons.mp ha with rfl | ha
  · exact absurd hhas.1 (Nat.not_le.mpr hq')
  · have hbehind := rel_of_pairwise_cons (pairwise_append.mp hsorted).2.1 ha
    have : area.base.toNat ≤ area.stop := Nat.le_add_right _ _
    exact absurd hhas.1 (by omega)

/-- What is behind the last area is outside all areas. -/
theorem outside_rest (h : Taken vm areas base stop before rest start)
    (hrest : ∀ a ∈ rest, stop.toNat ≤ a.base.toNat) {q : ℕ} (hq : start.toNat ≤ q)
    (hq' : q < stop.toNat) : Outside areas.list q := by
  intro a ha hhas
  rw [h.split] at ha
  rcases mem_append.mp ha with ha | ha
  · exact absurd hhas.2 (Nat.not_lt.mpr ((h.passed a ha).trans hq))
  · exact absurd hhas.1 (Nat.not_le.mpr (Nat.lt_of_lt_of_le hq' (hrest a ha)))

/-- The gap in front of an area is taken. -/
theorem gap (h : Taken vm areas base stop before (area :: rest) start)
    (hgap : start.toNat ≤ area.base.toNat) (hstop : area.base.toNat ≤ stop.toNat)
    (hfree : ∀ q, start.toNat ≤ q → q < area.base.toNat → Unmapped vm q) :
    Taken vm areas base stop before (area :: rest) area.base where
  split := h.split
  passed := fun a ha => (h.passed a ha).trans hgap
  base_le := h.base_le.trans hgap
  le_stop := hstop
  aligned := areas.aligned area h.mem
  reached := by
    intro p hp hp' hout
    by_cases hlt : p < start.toNat
    · exact h.reached p hp hlt hout
    · exact hfree p (Nat.not_lt.mp hlt) hp'

/-- What lies below `start`, or behind it in the area it is in, can be
reached. -/
theorem reachable (h : Taken vm areas base stop before (area :: rest) start)
    (hin : area.base.toNat ≤ start.toNat) {q : ℕ} (hq : start.toNat ≤ q) (hq' : q < area.stop) :
    ¬ Outside areas.list q ∧ Reached vm areas.list base.toNat q := by
  have hhas : ∀ p, start.toNat ≤ p → p ≤ q → ¬ Outside areas.list p :=
    fun p hp hpq hout => hout area h.mem ⟨hin.trans hp, by omega⟩
  refine ⟨hhas q hq (Nat.le_refl _), fun p hp hp' hout => ?_⟩
  by_cases hlt : p < start.toNat
  · exact h.reached p hp hlt hout
  · exact absurd hout (hhas p (Nat.not_lt.mp hlt) (Nat.le_of_lt hp'))

/-- All of the rest of an area is taken. -/
theorem piece (h : Taken vm areas base stop before (area :: rest) start)
    (hin : area.base.toNat ≤ start.toNat) (hle : start.toNat ≤ area.stop)
    (hstop : area.stop < stop.toNat) :
    Taken vm areas base stop (before ++ [area]) rest (area.base + area.size) := by
  have htoNat := h.toNat_stop
  refine skip ⟨h.split, ?_, ?_, ?_, ?_, ?_⟩ (Nat.le_of_eq htoNat.symm)
  · exact fun a ha => (h.passed a ha).trans (by omega)
  · exact h.base_le.trans (by omega)
  · omega
  · have := stop.toNat_lt
    exact (areas.aligned_stop area h.mem).resolve_left (by omega)
  · intro p hp hp' hout
    by_cases hlt : p < start.toNat
    · exact h.reached p hp hlt hout
    · exact absurd ⟨hin.trans (Nat.not_lt.mp hlt), by omega⟩ (hout area h.mem)

end Taken

/-- **An address that may be replaced**: nothing is mapped there, or it is
in a reserved area and can be reached. -/
def Exposed (vm : VmMap) (areas : List Range) (base stop q : ℕ) : Prop :=
  Unmapped vm q ∨ base ≤ q ∧ q < stop ∧ ¬ Outside areas q ∧ Reached vm areas base q

/-- **`I` allows what the loop may do.** -/
structure Tolerates (vm : VmMap) (areas : Areas page) (base stop : UInt64)
    (I : Progress → Prop) : Prop where
  allows : ∀ r : Range, (∀ q, r.Has q → Exposed vm areas.list base.toNat stop.toNat q) →
    Allows I r
  moves : ∀ s start, I s → I { s with start := start }

/-- **How the loop may end**: if it stops early, what it has taken is
known. -/
structure Ended (vm : VmMap) (areas : Areas page) (base stop : UInt64) (I : Progress → Prop)
    (s : Progress) : Prop where
  kept : I s
  aligned : s.start &&& page.mask = 0
  base_le : base.toNat ≤ s.start.toNat
  le_stop : s.start.toNat ≤ stop.toNat
  reached : Reached vm areas.list base.toNat s.start.toNat

variable {before rest : List Range} {area : Range}

theorem Taken.ended (h : Taken vm areas base stop before rest start) {s : Progress}
    (hs : s.start = start) (hI : I s) : Ended vm areas base stop I s := by
  subst hs
  exact ⟨hI, h.aligned, h.base_le, h.le_stop, h.reached⟩

/-- What the loop has taken may be replaced once more. -/
theorem Ended.allowsAll (h : Ended vm areas base stop I s)
    (htolerates : Tolerates vm areas base stop I) : AllowsAll I base.toNat s.start.toNat := by
  refine fun r hlo hhi => htolerates.allows r fun q hq => ?_
  have hq₀ : base.toNat ≤ q := hlo.trans hq.1
  have hq₁ : q < s.start.toNat := Nat.lt_of_lt_of_le hq.2 hhi
  by_cases hout : Outside areas.list q
  · exact .inl (h.reached q hq₀ hq₁ hout)
  · exact .inr ⟨hq₀, Nat.lt_of_lt_of_le hq₁ h.le_stop, hout,
      fun p hp hp' => h.reached p hp (hp'.trans hq₁)⟩

theorem takeRest_ended (hkernel : kernel.Honest vm) (htolerates : Tolerates vm areas base stop I)
    (h : Taken vm areas base stop before rest s.start) (hs : I s) :
    (takeRest page kernel userSpaceLimit stop).wp (fun _ => Ended vm areas base stop I)
      (fun _ => Ended vm areas base stop I) s := by
  unfold takeRest
  rw [wp_bind, wp_gets]
  exact wp_imp (wp_anonMmapTryfixed hkernel (fun r hr => htolerates.allows r fun q hq =>
    .inl (hr q hq)) hs) (fun _ _ ht => h.ended ht.2.1 ht.1) (fun _ _ ht => h.ended ht.2 ht.1)

/-- Behind the gap the loop is at an address of the area. -/
theorem takeGap_taken (hkernel : kernel.Honest vm) (htolerates : Tolerates vm areas base stop I)
    (h : Taken vm areas base stop before (area :: rest) s.start) (hs : I s)
    (hstop : area.base.toNat < stop.toNat) (hend : s.start.toNat < area.stop) :
    (takeGap page kernel userSpaceLimit area).wp
      (fun _ t => I t ∧ Taken vm areas base stop before (area :: rest) t.start
        ∧ area.base.toNat ≤ t.start.toNat ∧ t.start.toNat ≤ area.stop)
      (fun _ => Ended vm areas base stop I) s := by
  unfold takeGap
  rw [wp_bind, wp_gets]
  split
  next hgap =>
    have hlt := UInt64.lt_iff_toNat_lt.mp hgap
    rw [wp_bind]
    refine wp_imp (wp_anonMmapTryfixed hkernel (fun r hr => htolerates.allows r fun q hq =>
      .inl (hr q hq)) hs) ?_ (fun _ _ ht => h.ended ht.2 ht.1)
    rintro _ t ⟨ht, -, hfree⟩
    rw [stop_piece (Nat.le_of_lt hlt)] at hfree
    rw [wp_modify]
    exact ⟨htolerates.moves t _ ht, h.gap (Nat.le_of_lt hlt) (Nat.le_of_lt hstop) hfree,
      Nat.le_refl _, Nat.le_add_right _ _⟩
  next hin =>
    exact wp_pure.mpr ⟨hs, h, UInt64.le_iff_toNat_le.mp (UInt64.not_lt.mp hin), Nat.le_of_lt hend⟩

/-- A piece of an area is replaced. -/
theorem replacePiece_keeps (htolerates : Tolerates vm areas base stop I)
    (h : Taken vm areas base stop before (area :: rest) s.start) (hs : I s)
    (hin : area.base.toNat ≤ s.start.toNat) {last : UInt64} (hle : s.start.toNat ≤ last.toNat)
    (harea : last.toNat ≤ area.stop) (hstop : last.toNat ≤ stop.toNat) :
    (replacePiece page kernel last).wp (fun _ t => I t ∧ t.start = s.start)
      (fun _ t => I t ∧ t.start = s.start) s := by
  unfold replacePiece
  rw [wp_bind, wp_gets]
  have hallows : Allows I ⟨s.start, last - s.start⟩ := by
    refine htolerates.allows _ fun q hq => .inr ?_
    have hq₁ : q < last.toNat := stop_piece hle ▸ hq.2
    exact ⟨h.base_le.trans hq.1, by omega, h.reachable hin hq.1 (by omega)⟩
  exact (keeps_anonMmapFixed fun t ht => ⟨hallows t ht.1, ht.2⟩).wp ⟨hs, rfl⟩

/-- **What the loop does is tolerated**, and it ends with what it has
taken. -/
theorem mapPieces_ended (hkernel : kernel.Honest vm) (htolerates : Tolerates vm areas base stop I)
    (h : Taken vm areas base stop before rest s.start) (hs : I s) :
    (mapPieces page kernel userSpaceLimit stop rest).wp (fun _ => Ended vm areas base stop I)
      (fun _ => Ended vm areas base stop I) s := by
  induction rest generalizing before s with
  | nil =>
    unfold mapPieces
    exact takeRest_ended hkernel htolerates h hs
  | cons area rest ih =>
    have htoNat := h.toNat_stop
    unfold mapPieces
    rw [wp_bind, wp_gets]
    split
    · exact takeRest_ended hkernel htolerates h hs
    next hbelow =>
      have hbase := UInt64.lt_iff_toNat_lt.mp (UInt64.not_le.mp hbelow)
      split
      next hbehind =>
        refine ih (h.skip ?_) hs
        rw [← htoNat]
        exact UInt64.le_iff_toNat_le.mp hbehind
      next hbehind =>
        have hend := UInt64.lt_iff_toNat_lt.mp (UInt64.not_le.mp hbehind)
        rw [wp_bind]
        refine wp_imp (takeGap_taken hkernel htolerates h hs hbase (by omega)) ?_ (fun _ _ ht => ht)
        rintro _ t ⟨ht, h', hin, hle⟩
        split
        next hlast =>
          have hlast := UInt64.le_iff_toNat_le.mp hlast
          exact wp_imp (replacePiece_keeps htolerates h' ht hin h'.le_stop (hlast.trans_eq htoNat)
            (Nat.le_refl _)) (fun _ _ hu => h'.ended hu.2 hu.1) (fun _ _ hu => h'.ended hu.2 hu.1)
        next hmore =>
          have hlt := UInt64.lt_iff_toNat_lt.mp (UInt64.not_le.mp hmore)
          rw [wp_bind]
          refine wp_imp (replacePiece_keeps htolerates h' ht hin (by omega) (Nat.le_of_eq htoNat)
            (by omega)) ?_ (fun _ _ hu => h'.ended hu.2 hu.1)
          intro _ u hu
          rw [wp_bind, wp_modify]
          exact ih (h'.piece hin hle (by omega)) (htolerates.moves u _ hu.1)

/-! ## What is in the way is replaced -/

/-- **A kernel that grants what it can**: every replacement, and a hint
where nothing is mapped. -/
noncomputable def Kernel.granting (vm : VmMap) : Kernel :=
  open Classical in
  { fixed := fun _ => none
    hinted := fun r =>
      if ∀ q, r.base.toNat ≤ q → q < r.stop → Unmapped vm q then .there else .failed .eexist }

theorem honest_granting (vm : VmMap) : (Kernel.granting vm).Honest vm := by
  constructor
  · intro r h
    unfold Kernel.granting at h
    dsimp only at h
    split at h
    · assumption
    · cases h
  · intro r ptr h
    unfold Kernel.granting at h
    dsimp only at h
    split at h
    · cases h
    · cases h

theorem hinted_granting {range : Range}
    (h : ∀ q, range.base.toNat ≤ q → q < range.stop → Unmapped vm q) :
    (Kernel.granting vm).hinted range = .there := by
  unfold Kernel.granting
  exact if_pos h

/-- A range that has been replaced stays on record. -/
theorem tolerates_mem (r : Range) :
    Tolerates vm areas base stop (fun s : Progress => r ∈ s.replaced) :=
  ⟨fun _ _ _ hs => mem_append_left _ hs, fun _ _ hs => hs⟩

/-- A piece of whole pages is replaced. -/
theorem replacePiece_granting {hi : UInt64} (hstart : s.start &&& page.mask = 0)
    (hhi : hi &&& page.mask = 0) (hle : s.start.toNat ≤ hi.toNat) :
    (replacePiece page (.granting vm) hi).wp
      (fun _ t => t.start = s.start ∧ ⟨s.start, hi - s.start⟩ ∈ t.replaced)
      (fun _ _ => False) s := by
  unfold replacePiece anonMmapFixed
  rw [wp_bind, wp_gets, wp_bind, wp_ensure]
  refine ⟨fun _ => ?_, fun hnot => hnot hstart⟩
  rw [wp_bind, wp_ensure]
  refine ⟨fun _ => ?_, fun hnot => hnot (HostPage.aligned_sub hhi hstart hle)⟩
  rw [wp_bind, wp_modify]
  exact wp_pure.mpr ⟨rfl, mem_append_right _ (mem_singleton.mpr rfl)⟩

/-- The gaps below a reachable address are granted. -/
theorem takeGap_granting {q : ℕ} (h : Taken vm areas base stop before (area :: rest) s.start)
    (hreached : Reached vm areas.list base.toNat q)
    (hq : area.base.toNat ≤ q) (hstop : area.base.toNat < stop.toNat)
    (hend : s.start.toNat < area.stop) (hle : s.start.toNat ≤ q) :
    (takeGap page (.granting vm) userSpaceLimit area).wp
      (fun _ t => Taken vm areas base stop before (area :: rest) t.start
        ∧ area.base.toNat ≤ t.start.toNat ∧ t.start.toNat ≤ area.stop ∧ t.start.toNat ≤ q)
      (fun _ _ => False) s := by
  unfold takeGap
  rw [wp_bind, wp_gets]
  split
  next hgap =>
    have hlt := UInt64.lt_iff_toNat_lt.mp hgap
    have hfree : ∀ p, s.start.toNat ≤ p → p < area.base.toNat → Unmapped vm p :=
      fun p hp hp' => hreached p (h.base_le.trans hp) (by omega) (h.outside_gap hp hp')
    have hthere : (Kernel.granting vm).hinted ⟨s.start, area.base - s.start⟩ = .there := by
      apply hinted_granting
      rw [stop_piece (Nat.le_of_lt hlt)]
      exact hfree
    unfold anonMmapTryfixed
    rw [wp_bind, hthere, wp_pure, wp_modify]
    exact ⟨h.gap (Nat.le_of_lt hlt) (Nat.le_of_lt hstop) hfree, Nat.le_refl _,
      Nat.le_add_right _ _, hq⟩
  next hin =>
    exact wp_pure.mpr ⟨h, UInt64.le_iff_toNat_le.mp (UInt64.not_lt.mp hin), Nat.le_of_lt hend, hle⟩

/-- **The loop replaces every address of a reserved area it can reach.** -/
theorem mapPieces_reaches {q : ℕ} (halign : stop &&& page.mask = 0) (hin : ¬ Outside areas.list q)
    (hreached : Reached vm areas.list base.toNat q) (hstop : q < stop.toNat)
    (h : Taken vm areas base stop before rest s.start) (hq : s.start.toNat ≤ q) :
    (mapPieces page (.granting vm) userSpaceLimit stop rest).wp
      (fun _ t => ∃ r, r.Has q ∧ Ended vm areas base stop (r ∈ ·.replaced) t)
      (fun _ t => ∃ r, r.Has q ∧ Ended vm areas base stop (r ∈ ·.replaced) t) s := by
  induction rest generalizing before s with
  | nil => exact absurd (h.outside_rest (fun a ha => absurd ha not_mem_nil) hq hstop) hin
  | cons area rest ih =>
    have htoNat := h.toNat_stop
    unfold mapPieces
    rw [wp_bind, wp_gets]
    split
    next hbelow =>
      have hbelow := UInt64.le_iff_toNat_le.mp hbelow
      refine absurd (h.outside_rest (fun a ha => ?_) hq hstop) hin
      rcases mem_cons.mp ha with rfl | ha
      · exact hbelow
      · have hsorted := areas.sorted
        rw [h.split] at hsorted
        have := rel_of_pairwise_cons (pairwise_append.mp hsorted).2.1 ha
        have : area.base.toNat ≤ area.stop := Nat.le_add_right _ _
        omega
    next hbelow =>
      have hbase := UInt64.lt_iff_toNat_lt.mp (UInt64.not_le.mp hbelow)
      split
      next hbehind =>
        refine ih (h.skip ?_) hq
        rw [← htoNat]
        exact UInt64.le_iff_toNat_le.mp hbehind
      next hbehind =>
        have hend := UInt64.lt_iff_toNat_lt.mp (UInt64.not_le.mp hbehind)
        -- An address in front of the area would be outside all of them.
        have hge : area.base.toNat ≤ q := Nat.not_lt.mp fun hlt => hin (h.outside_gap hq hlt)
        rw [wp_bind]
        refine wp_imp (takeGap_granting h hreached hge hbase (by omega) hq) ?_
          (fun _ _ hfalse => hfalse.elim)
        rintro _ t ⟨h', hin', hle, hq'⟩
        split
        next hlast =>
          refine wp_imp (replacePiece_granting h'.aligned halign h'.le_stop) ?_
            (fun _ _ hfalse => hfalse.elim)
          rintro _ u ⟨hstart, hu⟩
          refine ⟨_, ⟨hq', ?_⟩, h'.ended hstart hu⟩
          rw [stop_piece h'.le_stop]
          exact hstop
        next hmore =>
          have hlt := UInt64.lt_iff_toNat_lt.mp (UInt64.not_le.mp hmore)
          have htaken := h'.piece hin' hle (by omega)
          rw [wp_bind]
          refine wp_imp (replacePiece_granting h'.aligned htaken.aligned (by omega)) ?_
            (fun _ _ hfalse => hfalse.elim)
          rintro _ u ⟨-, hu⟩
          rw [wp_bind, wp_modify]
          by_cases hhere : q < area.stop
          · have hhas : (⟨t.start, area.base + area.size - t.start⟩ : Range).Has q := by
              refine ⟨hq', ?_⟩
              rw [stop_piece (by omega), htoNat]
              exact hhere
            exact wp_imp (mapPieces_ended (honest_granting vm) (tolerates_mem _) htaken hu)
              (fun _ _ hv => ⟨_, hhas, hv⟩) (fun _ _ hv => ⟨_, hhas, hv⟩)
          · exact ih htaken (by show (area.base + area.size).toNat ≤ q; omega)

end Pieces

/-! ## The whole call -/

variable {areas : Areas page} {request : FixedRequest page}

/-- The loop starts with nothing taken. -/
theorem taken_start (h : request.base &&& page.mask = 0) :
    Taken vm areas request.base (request.base + roundSize 0 request.size page.mask) []
      areas.list request.base where
  split := (List.nil_append _).symm
  passed := fun a ha => absurd ha List.not_mem_nil
  base_le := Nat.le_refl _
  le_stop := by
    rw [request.toNat_stop]
    exact Nat.le_add_right _ _
  aligned := h
  reached := fun p hp hp' => absurd hp (Nat.not_le.mpr hp')

/-- Of what may be replaced nothing is native, if nothing is in the way. -/
theorem tolerates_spared (hway : NothingInTheWay vm views areas.list page base.toNat stop.toNat) :
    Tolerates vm areas base stop
      (fun s => ∀ r ∈ s.replaced, ∀ q, r.Has q → ¬ Native vm views page.size q) := by
  refine ⟨fun r hr s hs => forall_mem_append.mpr ⟨hs, forall_mem_singleton.mpr
    fun q hq => ?_⟩, fun _ _ hs => hs⟩
  rcases hr q hq with hfree | ⟨hlo, hhi, hin, hreached⟩
  · rintro ⟨⟨region, hregion, hhas, -⟩, -⟩
    exact hfree region hregion hhas
  · exact hway q hlo hhi hin hreached

theorem aligned_of_accepted {size : UInt64} (h : ¬ Rejected page views base size) :
    base &&& page.mask = 0 := by
  by_contra hne
  exact h (.inl hne)

/-- What the loop leaves is given back where it stopped early. -/
theorem mapFixedArea_of_ended {areas : Areas page} {size : UInt64}
    (haccepted : ¬ Rejected page views base size) (htolerates : Tolerates vm areas base stop I)
    (h : Ended vm areas base stop I (mapPieces page kernel userSpaceLimit
      (base + roundSize 0 size page.mask) areas.list ⟨base, []⟩).2) :
    I (mapFixedArea page kernel userSpaceLimit areas.list views base size ⟨base, []⟩).2 := by
  have halign := aligned_of_accepted haccepted
  apply wp_state.mp
  unfold mapFixedArea
  rw [if_neg haccepted, wp_bind, wp_attempt]
  refine wp_imp (wp_state.mpr h) (fun _ t ht => wp_pure.mpr ht.kept) (fun e t ht => ?_)
  cases e with
  | aborted => exact wp_fail.mpr ht.kept
  | failed errno =>
    dsimp only
    rw [wp_bind, wp_gets, wp_bind]
    exact wp_imp ((keeps_unmapArea areas.fits halign ht.aligned ht.base_le
      (ht.allowsAll htolerates)).wp ht.kept) (fun _ _ hu => wp_pure.mpr hu) (fun _ _ hu => hu)

end

/-- **When native mappings survive.** `reserved_area_is_still_empty` always
returns, and is right exactly about candidates whose end does not wrap;
`map_reserved_area` never replaces a page of a native mapping; and
`map_fixed_area` never does, whatever an honest kernel answers, exactly if
the call is turned down or nothing native is in its way. -/
theorem native_mappings_survive_iff (vm : VmMap) (views : List Range) (page : HostPage)
    (areas : Areas page) (userSpaceLimit : UInt64) :
    (∀ base size : UInt64,
      (reservedAreaIsStillEmpty vm base size = true
          ↔ ∀ q, (⟨base, size⟩ : Range).Has q → NoAccess vm q)
        ↔ base.toNat + size.toNat < 2 ^ 64)
    ∧ (∀ (manager : Manager) (request : Request), ∀ r ∈ mapReservedArea manager request vm,
        ∀ q, r.Has q → ¬ Native vm views page.size q)
    ∧ ∀ request : FixedRequest page,
      (∀ kernel : Kernel, kernel.Honest vm →
          ∀ r ∈ replacedBy page kernel userSpaceLimit areas.list views request.base request.size,
          ∀ q, r.Has q → ¬ Native vm views page.size q)
        ↔ Rejected page views request.base request.size
          ∨ NothingInTheWay vm views areas.list page request.base.toNat request.stop := by
  refine ⟨fun base size => reservedAreaIsStillEmpty_iff base size,
    fun manager request r hr q hq => mapReservedArea_spares vm views page.size hr hq,
    fun request => ⟨fun h => ?_, fun h => ?_⟩⟩
  · by_cases hrejected : Rejected page views request.base request.size
    · exact .inl hrejected
    · refine .inr (fun q hq hstop hin hreached hnative => ?_)
      have halign := aligned_of_accepted hrejected
      have hex : ∃ r : Range, r.Has q ∧ Ended vm areas request.base
          (request.base + roundSize 0 request.size page.mask) (r ∈ ·.replaced)
          (mapPieces page (.granting vm) userSpaceLimit
            (request.base + roundSize 0 request.size page.mask) areas.list ⟨request.base, []⟩).2 :=
        wp_state.mp (mapPieces_reaches (request.aligned_stop halign) hin hreached
          (by rw [request.toNat_stop]; exact hstop) (taken_start halign) hq)
      obtain ⟨r, hhas, hended⟩ := hex
      exact h _ (honest_granting vm) r
        (mapFixedArea_of_ended hrejected (tolerates_mem r) hended) q hhas hnative
  · intro kernel hkernel r hr q hhas
    by_cases hrejected : Rejected page views request.base request.size
    · have hnone : replacedBy page kernel userSpaceLimit areas.list views request.base request.size
          = [] := by
        unfold replacedBy mapFixedArea
        rw [if_pos hrejected]
        rfl
      rw [hnone] at hr
      cases hr
    · have hway := h.resolve_left hrejected
      rw [← request.toNat_stop] at hway
      have htolerates := tolerates_spared hway
      exact mapFixedArea_of_ended hrejected htolerates (wp_state.mp (mapPieces_ended hkernel
        htolerates (taken_start (aligned_of_accepted hrejected))
        (fun r hr => absurd hr not_mem_nil))) r hr q hhas

/-! ## A thread stack in a reserved area -/

theorem largePage_bits_lt : 14 < 64 := by decide

/-- Host pages of 16 KiB. -/
def largePage : HostPage := ⟨0x3fff, 14, largePage_bits_lt, by decide⟩

/-- A reservation of 256 MiB in which the system has put a stack. -/
def stackMap : VmMap where
  regions := [⟨⟨0x10000000, 0x4000⟩, 0⟩, ⟨⟨0x10004000, 0x4000⟩, 3⟩, ⟨⟨0x10008000, 0xfff8000⟩, 0⟩]
  sorted := by decide
  fits := by decide

/-- The reservation as Wine has it on record. -/
def stackAreas : Areas largePage where
  list := [⟨0x10000000, 0x10000000⟩]
  sorted := by decide
  fits := by decide
  aligned := by decide
  aligned_stop := by decide

/-- A request for 64 KiB from the start of the reservation. -/
def stackRequest : FixedRequest largePage := ⟨0x10000000, 0x10000, by decide⟩

/-- **The stack is replaced**: there is no view in the way, and the one
piece goes over it. -/
theorem mapFixedArea_replaces_stack :
    ∃ kernel : Kernel, kernel.Honest stackMap
      ∧ ∃ r ∈ replacedBy largePage kernel 0x7fffffff0000 stackAreas.list [] stackRequest.base
          stackRequest.size,
        r.Has 0x10004000 ∧ Native stackMap [] largePage.size 0x10004000 := by
  refine ⟨⟨fun _ => none, fun _ => .failed .eexist⟩, ⟨by simp, by simp⟩,
    ⟨0x10000000, 0x10000⟩, by decide +kernel, by decide, ?_, by simp⟩
  exact ⟨⟨⟨0x10004000, 0x4000⟩, 3⟩, by decide, by decide, by decide⟩

end Juice.Virtual
