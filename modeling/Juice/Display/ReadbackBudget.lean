import Juice.Display.GraphicsPolicy
import Juice.Lib.Machine
import Juice.Lib.Slots

/-!
# The budget of the Metal readback buffers

Every client surface of `vulkan.m` owns the buffer that its frames are
read back into, and all of them together stay within one budget. A surface
that needs a larger buffer reserves the new size before it allocates,
while its old buffer still counts, and gives the old size back once it has
the new buffer. The counter is only touched under its lock; between two
uses of the lock other surfaces may do anything, and each such use is a
step here.

What a surface has of the budget is what it has recorded and what it has
reserved (`ClientSurface.held`); a step changes the counter by what it
changes of that (`ClientSurface.act_spec`).
-/

namespace Juice.Readback

/-- `JUICE_GRAPHICS_TOTAL_BYTES`. -/
def JUICE_GRAPHICS_TOTAL_BYTES : UInt64 := 256 * 1024 * 1024

/-- **The budget**: `readback_budget_used`, and whether the assertion of
`iosdrv_release_readback_budget` has failed. -/
structure Budget where
  used : UInt64 := 0
  aborted : Bool := false
  deriving DecidableEq, Repr

/-- `juice_readback_budget_reserve`. -/
def juiceReadbackBudgetReserve (b : Budget) (bytes : UInt64) : Option Budget :=
  if bytes = 0 ∨ bytes > JUICE_GRAPHICS_MAX_BYTES ∨ b.used > JUICE_GRAPHICS_TOTAL_BYTES
      ∨ bytes > JUICE_GRAPHICS_TOTAL_BYTES - b.used then none
  else some { b with used := b.used + bytes }

/-- `iosdrv_release_readback_budget`. -/
def releaseReadbackBudget (b : Budget) (bytes : UInt64) : Budget :=
  if bytes ≤ b.used then { b with used := b.used - bytes } else { b with aborted := true }

/-- What a call of `iosdrv_prepare_readback` was made for. -/
structure Request where
  width : UInt64
  height : UInt64
  layout : ReadbackLayout
  deriving DecidableEq, Repr

/-- Where a surface is: between two calls of `iosdrv_prepare_readback`, or
before the next thing that its call does. -/
inductive Phase where
  | idle
  | reserving (q : Request)
  | allocating (q : Request)
  | failed (q : Request)
  | replacing (q : Request)
  | destroyed
  deriving DecidableEq, Repr

/-- `struct iosdrv_client_surface`, as far as readback goes. -/
structure ClientSurface where
  /-- The length of the buffer. -/
  readback : Option UInt64 := none
  readbackSize : UInt64 := 0
  readbackStride : UInt64 := 0
  phase : Phase := .idle
  /-- What the last call has prepared the buffer for, if it succeeded. -/
  prepared : Option (UInt64 × UInt64) := none
  deriving DecidableEq, Repr

/-- What a thread does with its surface next. -/
inductive Act where
  /-- Calls `iosdrv_prepare_readback`. -/
  | prepare (width height : UInt64)
  /-- Takes the lock to reserve. -/
  | reserve
  /-- `newBufferWithLength`, which may fail. -/
  | allocate (ok : Bool)
  /-- Takes the lock to give back, and records the new buffer. -/
  | release
  /-- `iosdrv_client_surface_destroy`, by the holder of the last reference. -/
  | destroy
  deriving DecidableEq, Repr

/-- **One step of a surface.** -/
def ClientSurface.act (c : ClientSurface) (b : Budget) (a : Act) : Option (ClientSurface × Budget) :=
  match a, c.phase with
  | .prepare width height, .idle =>
    match juiceReadbackLayout width height 256 with
    | none => some ({ c with prepared := none }, b)
    | some layout =>
      if c.readback.isSome ∧ layout.bytes ≤ c.readbackSize ∧ c.readbackStride = layout.stride then
        some ({ c with prepared := some (width, height) }, b)
      else some ({ c with prepared := none, phase := .reserving ⟨width, height, layout⟩ }, b)
  | .reserve, .reserving q =>
    match juiceReadbackBudgetReserve b q.layout.bytes with
    | none => some ({ c with phase := .idle }, b)
    | some b' => some ({ c with phase := .allocating q }, b')
  | .allocate ok, .allocating q =>
    some ({ c with phase := if ok then .replacing q else .failed q }, b)
  | .release, .failed q =>
    some ({ c with phase := .idle }, releaseReadbackBudget b q.layout.bytes)
  | .release, .replacing q =>
    -- Only this thread reads the three fields before the call returns.
    some ({ readback := some q.layout.bytes, readbackSize := q.layout.bytes,
            readbackStride := q.layout.stride, phase := .idle,
            prepared := some (q.width, q.height) }, releaseReadbackBudget b c.readbackSize)
  | .destroy, .idle =>
    some ({ c with phase := .destroyed, prepared := none }, releaseReadbackBudget b c.readbackSize)
  | _, _ => none

/-- **All surfaces of the process.** -/
structure Surfaces where
  surfaces : List ClientSurface := []
  budget : Budget := {}
  deriving DecidableEq

/-- A surface is created, or one of them moves on. -/
inductive Action where
  | create
  | act (i : ℕ) (a : Act)

def step (s : Surfaces) : Action → Option Surfaces
  | .create => some { s with surfaces := s.surfaces ++ [{}] }
  | .act i a => do
    let c ← s.surfaces[i]?
    let (c', b') ← c.act s.budget a
    return ⟨s.surfaces.set i c', b'⟩

/-- **The readback machine.** -/
def machine : Machine Surfaces Action := ⟨{}, step⟩

/-! ## What a surface has of the budget -/

namespace ClientSurface

/-- The recorded size, of a surface that is not destroyed. -/
def liveSize (c : ClientSurface) : ℕ :=
  if c.phase = .destroyed then 0 else c.readbackSize.toNat

/-- The reservation in progress. -/
def reservation (c : ClientSurface) : ℕ :=
  match c.phase with
  | .allocating q | .failed q | .replacing q => q.layout.bytes.toNat
  | _ => 0

def held (c : ClientSurface) : ℕ := c.liveSize + c.reservation

/-- The request that a call in progress serves. -/
def request (c : ClientSurface) : Option Request :=
  match c.phase with
  | .reserving q | .allocating q | .failed q | .replacing q => some q
  | _ => none

/-- **What holds of a surface at any time.** -/
structure Ok (c : ClientSurface) : Prop where
  buffer : ∀ len, c.readback = some len → len = c.readbackSize
  request : ∀ q, c.request = some q →
    juiceReadbackLayout q.width q.height 256 = some q.layout
  prepared : ∀ w h, c.prepared = some (w, h) → c.readback = some c.readbackSize
    ∧ ∃ l, juiceReadbackLayout w h 256 = some l ∧ l.stride = c.readbackStride
      ∧ l.bytes ≤ c.readbackSize

end ClientSurface

variable {b b' : Budget} {c c' : ClientSurface} {bytes : UInt64}

theorem juiceReadbackBudgetReserve_eq_some (h : juiceReadbackBudgetReserve b bytes = some b') :
    b'.used.toNat = b.used.toNat + bytes.toNat ∧ b'.used.toNat ≤ 256 * 1024 * 1024
      ∧ b'.aborted = b.aborted := by
  unfold juiceReadbackBudgetReserve at h
  split at h
  · cases h
  rename_i hguard
  simp only [not_or, gt_iff_lt, UInt64.not_lt, UInt64.le_iff_toNat_le] at hguard
  obtain ⟨-, -, hused, hfree⟩ := hguard
  rw [UInt64.toNat_sub_of_le _ _ (UInt64.le_iff_toNat_le.mpr hused)] at hfree
  have htotal : JUICE_GRAPHICS_TOTAL_BYTES.toNat = 256 * 1024 * 1024 := rfl
  cases h
  show (b.used + bytes).toNat = _ ∧ (b.used + bytes).toNat ≤ _ ∧ _
  rw [UInt64.toNat_add]
  exact ⟨by omega, by omega, rfl⟩

/-- What was counted can be given back. -/
theorem releaseReadbackBudget_spec (h : bytes.toNat ≤ b.used.toNat) :
    (releaseReadbackBudget b bytes).used.toNat + bytes.toNat = b.used.toNat
      ∧ (releaseReadbackBudget b bytes).aborted = b.aborted := by
  have hle : bytes ≤ b.used := UInt64.le_iff_toNat_le.mpr h
  rw [releaseReadbackBudget, if_pos hle]
  refine ⟨?_, rfl⟩
  show (b.used - bytes).toNat + _ = _
  rw [UInt64.toNat_sub_of_le _ _ hle]
  omega

/-- **One step of a surface** changes the counter by what it changes of the
surface's own part, and keeps the surface in order. -/
theorem ClientSurface.act_spec {a : Act} (h : c.act b a = some (c', b')) (hc : c.Ok)
    (hheld : c.held ≤ b.used.toNat) :
    c'.Ok ∧ b'.used.toNat + c.held = b.used.toNat + c'.held
      ∧ (b.used.toNat ≤ 256 * 1024 * 1024 → b'.used.toNat ≤ 256 * 1024 * 1024)
      ∧ b'.aborted = b.aborted := by
  obtain ⟨hbuffer, hrequest, hprepared⟩ := hc
  unfold act at h
  cases hphase : c.phase with
  | idle =>
    rw [hphase] at h
    simp only [held, liveSize, reservation, hphase] at hheld ⊢
    cases a with
    | prepare width height =>
      dsimp only at h
      split at h
      · cases h
        exact ⟨⟨hbuffer, by simp [ClientSurface.request], by simp⟩, by simp, id, rfl⟩
      next layout hlayout =>
        split at h
        next hreuse =>
          cases h
          obtain ⟨hsome, hbytes, hstride⟩ := hreuse
          obtain ⟨len, hlen⟩ := Option.isSome_iff_exists.mp hsome
          refine ⟨⟨hbuffer, by simp [ClientSurface.request], ?_⟩, by simp, id, rfl⟩
          rintro w h ⟨⟩
          exact ⟨hbuffer len hlen ▸ hlen, layout, hlayout, hstride.symm, hbytes⟩
        next =>
          cases h
          exact ⟨⟨hbuffer, by simpa [ClientSurface.request] using hlayout, by simp⟩, by simp, id, rfl⟩
    | destroy =>
      cases h
      obtain ⟨hused, haborted⟩ := releaseReadbackBudget_spec hheld
      exact ⟨⟨hbuffer, by simp [ClientSurface.request], by simp⟩, by simpa using hused, by omega,
        haborted⟩
    | _ => cases h
  | reserving q =>
    rw [hphase] at h
    have hq := hrequest q (by simp [ClientSurface.request, hphase])
    cases a with
    | reserve =>
      dsimp only at h
      split at h
      · cases h
        exact ⟨⟨hbuffer, by simp [ClientSurface.request], hprepared⟩,
          by simp [held, liveSize, reservation, hphase], id, rfl⟩
      next hreserve =>
        cases h
        obtain ⟨hused, hle, haborted⟩ := juiceReadbackBudgetReserve_eq_some hreserve
        refine ⟨⟨hbuffer, by simpa [ClientSurface.request] using hq, hprepared⟩, ?_,
          fun _ => hle, haborted⟩
        simp [held, liveSize, reservation, hphase]
        omega
    | _ => cases h
  | allocating q =>
    rw [hphase] at h
    have hq := hrequest q (by simp [ClientSurface.request, hphase])
    cases a with
    | allocate ok =>
      cases h
      refine ⟨⟨hbuffer, ?_, hprepared⟩, ?_, id, rfl⟩
      · cases ok <;> simpa [ClientSurface.request] using hq
      · cases ok <;> simp [held, liveSize, reservation, hphase]
    | _ => cases h
  | failed q =>
    rw [hphase] at h
    cases a with
    | release =>
      cases h
      simp only [held, liveSize, reservation, hphase] at hheld ⊢
      obtain ⟨hused, haborted⟩ := releaseReadbackBudget_spec
        (Nat.le_trans (Nat.le_add_left _ _) hheld)
      exact ⟨⟨hbuffer, by simp [ClientSurface.request], hprepared⟩, by simp; omega, by omega,
        haborted⟩
    | _ => cases h
  | replacing q =>
    rw [hphase] at h
    have hq := hrequest q (by simp [ClientSurface.request, hphase])
    cases a with
    | release =>
      cases h
      simp [held, liveSize, reservation, hphase] at hheld ⊢
      obtain ⟨hused, haborted⟩ := releaseReadbackBudget_spec
        (Nat.le_trans (Nat.le_add_right _ _) hheld)
      refine ⟨⟨by simp, by simp [ClientSurface.request], ?_⟩, by omega, by omega, haborted⟩
      rintro w h ⟨⟩
      exact ⟨rfl, q.layout, hq, rfl, UInt64.le_refl _⟩
    | _ => cases h
  | destroyed =>
    rw [hphase] at h
    cases a <;> cases h

/-! ## All surfaces -/

/-- **The invariant**: the counter is the sum of the parts. -/
structure Inv (s : Surfaces) : Prop where
  used_eq : s.budget.used.toNat = (s.surfaces.map ClientSurface.held).sum
  used_le : s.budget.used.toNat ≤ 256 * 1024 * 1024
  not_aborted : s.budget.aborted = false
  ok : ∀ c ∈ s.surfaces, c.Ok

theorem inv_step {s t : Surfaces} {a : Action} (hs : Inv s) (h : step s a = some t) : Inv t := by
  cases a with
  | create =>
    cases h
    refine ⟨?_, hs.used_le, hs.not_aborted, ?_⟩
    · simpa [ClientSurface.held, ClientSurface.liveSize, ClientSurface.reservation]
        using hs.used_eq
    · refine Slots.forall_mem_concat hs.ok ?_
      constructor <;> simp [ClientSurface.request]
  | act i a =>
    simp only [step, Option.bind_eq_bind, Option.bind_eq_some_iff, Option.pure_def,
      Option.some.injEq] at h
    obtain ⟨c, hc, ⟨c', b'⟩, hact, rfl⟩ := h
    have hheld := Slots.le_sum_map hc ClientSurface.held
    have hsum := Slots.sum_map_set hc ClientSurface.held c'
    rw [← hs.used_eq] at hheld hsum
    obtain ⟨hok, hused, hle, haborted⟩ :=
      ClientSurface.act_spec hact (hs.ok c (List.mem_of_getElem? hc)) hheld
    refine ⟨?_, hle hs.used_le, haborted.trans hs.not_aborted,
      Slots.forall_mem_set hs.ok i hok⟩
    show b'.used.toNat = ((s.surfaces.set i c').map ClientSurface.held).sum
    omega

/-- **The readback budget**: in every interleaving the counter is what the
live surfaces have recorded and what is reserved, within the limit; the
assertion never fails; with the last surface everything is given back; and
a buffer that was prepared holds the rows it was prepared for. -/
theorem readback_budget {s : Surfaces} (h : machine.Reachable s) :
    s.budget.used.toNat = (s.surfaces.map ClientSurface.liveSize).sum
        + (s.surfaces.map ClientSurface.reservation).sum
      ∧ s.budget.used.toNat ≤ 256 * 1024 * 1024
      ∧ s.budget.aborted = false
      ∧ ((∀ c ∈ s.surfaces, c.phase = .destroyed) → s.budget.used = 0)
      ∧ ∀ c ∈ s.surfaces, ∀ width height, c.prepared = some (width, height) →
        c.readbackStride.toNat = (width.toNat * 4 + 255) / 256 * 256
          ∧ ∃ len, c.readback = some len
            ∧ c.readbackStride.toNat * height.toNat ≤ len.toNat := by
  have hinv : Inv s := h.invariant (I := Inv)
    ⟨rfl, Nat.zero_le _, rfl, fun _ hc => absurd hc List.not_mem_nil⟩
    (fun _ _ _ _ hs hst => inv_step hs hst)
  refine ⟨?_, hinv.used_le, hinv.not_aborted, ?_, ?_⟩
  · rw [hinv.used_eq, ← List.sum_map_add]
    rfl
  · intro hall
    have hzero : (s.surfaces.map ClientSurface.held).sum = 0 := by
      refine List.sum_eq_zero (fun n hn => ?_)
      obtain ⟨c, hc, rfl⟩ := List.mem_map.mp hn
      simp [ClientSurface.held, ClientSurface.liveSize, ClientSurface.reservation, hall c hc]
    exact UInt64.toNat_inj.mp (hinv.used_eq.trans hzero)
  · intro c hc width height hprepared
    obtain ⟨hbuffer, l, hl, hstride, hbytes⟩ := (hinv.ok c hc).prepared width height hprepared
    obtain ⟨-, -, -, -, -, -, hround, -, heq⟩ := juiceReadbackLayout_eq_some hl
    rw [← hstride]
    refine ⟨hround, _, hbuffer, ?_⟩
    rw [← heq]
    exact UInt64.le_iff_toNat_le.mp hbytes

/-- A surface that failed to outgrow its buffer, beside one that is gone. -/
def outgrown : Surfaces where
  surfaces := [{ readback := some 25600, readbackSize := 25600, readbackStride := 512 },
    { phase := .destroyed }]
  budget := { used := 25600 }

theorem readback_budget_outgrown :
    outgrown.budget.used.toNat = (outgrown.surfaces.map ClientSurface.liveSize).sum
        + (outgrown.surfaces.map ClientSurface.reservation).sum ∧ outgrown.budget.aborted = false :=
  have h := readback_budget (s := outgrown) ⟨[.create, .create, .act 0 (.prepare 100 50),
    .act 0 .reserve, .act 0 (.allocate true), .act 0 .release, .act 0 (.prepare 200 100),
    .act 0 .reserve, .act 1 .destroy, .act 0 (.allocate false), .act 0 .release],
    by decide +kernel⟩
  ⟨h.1, h.2.2.1⟩

end Juice.Readback
