import Juice.Jit.EcBitmap
import Juice.Lib.Tiling

/-!
# The registry of executable mappings

`NtWineAllocateJitMemory` has memory mapped to execute, by the debugger or by
the kernel, maps it once more to write, makes a view of each mapping, and
adds a record of the pair. Each of these can fail, and then all that was done
before is undone. `NtWineFreeJitMemory` takes a pair away if there is a
record of it, and `NtWineDetachJitDebugger` ends it that pairs are made.

The calls run one at a time, under a lock. What the system returns is part of
the call: the kernel maps at any address where nothing is mapped. The views
are a list here, and a tree in the source; as they are apart, at most one
contains an address.

A view of the system can outlive its memory, when that is unmapped behind
the back of Wine. Such a view is deleted when another is made in its place,
and it stays deleted if the call fails after that.
-/

namespace Juice.Jit

open Tiling

/-! ## States -/

/-- `struct file_view`, with the flags `VPROT_SYSTEM`, `VPROT_JUICE_JIT` and
`VPROT_ARM64EC`. -/
structure FileView where
  span : Span
  system : Bool
  jit : Bool
  arm64ec : Bool
  deriving DecidableEq, Repr

/-- `struct juice_jit_record`. -/
structure JitRecord where
  write : ℕ
  exec : ℕ
  size : ℕ
  deriving DecidableEq, Repr

/-- What is mapped and viewed of a record. -/
def JitRecord.spans (r : JitRecord) : List Span := [⟨r.write, r.size⟩, ⟨r.exec, r.size⟩]

/-- **The state of the registry**, with the views and the kernel. -/
structure Registry where
  /-- `juice_jit_allocation_sealed`. -/
  sealed : Bool
  records : List JitRecord
  views : List FileView
  /-- What these calls have mapped. -/
  mappings : List Span
  /-- What else is mapped. -/
  others : List Span
  /-- The map behind `arm64ec_view`, if there is one. -/
  map : Option EcMap

inductive NtStatus where
  | success
  | invalidParameter
  | noMemory
  | accessDenied
  | unsuccessful
  | invalidAddress
  deriving DecidableEq, Repr

/-! ## Views -/

/-- What `delete_view` does to the map. -/
def unmark (map : EcMap) (view : FileView) : EcMap :=
  if view.arm64ec then clearArm64ecRange map view.span.offset view.span.size else map

/-- `delete_view` of a view of the system, which does not unmap anything. -/
def deleteView (s : Registry) (view : FileView) : Registry :=
  { s with views := s.views.erase view, map := s.map.map (fun map => unmark map view) }

/-- The views that `find_view_range` finds, one after the other. -/
def overlapping (span : Span) (views : List FileView) : List FileView :=
  views.filter (fun view => ¬ view.span.Apart span)

/-- The loop of `create_view` over these. -/
def deleteOverlapping (span : Span) (s : Registry) : Registry :=
  (overlapping span s.views).foldl deleteView s

/-- **`create_view`** of a JIT view. The result is nothing where an assertion
fails; `ok` is whether there is memory. -/
def createView (host : HostPages) (span : Span) (ok : Bool) (s : Registry) :
    Option (Bool × Registry) :=
  if ¬ 2 ^ host.shift ∣ span.offset ∨ ¬ 2 ^ 12 ∣ span.size
      ∨ (overlapping span s.views).any (fun view => !view.system) then none
  else
    let s := deleteOverlapping span s
    if ok then some (true, { s with views := ⟨span, true, true, false⟩ :: s.views })
    else some (false, s)

/-- `commit_arm64ec_map` and `set_arm64ec_range` for the view that was made,
where there is a map. -/
def commitArm64ecMap (view : FileView) (s : Registry) : FileView × Registry :=
  match s.map with
  | none => (view, s)
  | some map =>
    ({ view with arm64ec := true }, { s with
      views := { view with arm64ec := true } :: s.views.erase view
      map := some (setArm64ecRange map view.span.offset view.span.size) })

/-- **`juice_register_jit_views`.** -/
def juiceRegisterJitViews (host : HostPages) (write exec : Span) (execOk writeOk : Bool)
    (s : Registry) : Option (Bool × Registry) :=
  match createView host exec execOk s with
  | none => none
  | some (false, s) => some (false, s)
  | some (true, s) =>
    let committed := commitArm64ecMap ⟨exec, true, true, false⟩ s
    match createView host write writeOk committed.2 with
    | none => none
    | some (true, s) => some (true, s)
    | some (false, s) => some (false, deleteView s committed.1)

/-- `find_view`. -/
def findView (span : Span) (views : List FileView) : Option FileView :=
  views.find? (fun view => span.Within view.span)

/-- **`juice_unregister_jit_pair_locked`.** -/
def juiceUnregisterJitPairLocked (record : JitRecord) (s : Registry) : Option Registry :=
  match findView ⟨record.write, record.size⟩ s.views,
    findView ⟨record.exec, record.size⟩ s.views with
  | some write, some exec =>
    if write = exec ∨ write.span ≠ ⟨record.write, record.size⟩
        ∨ exec.span ≠ ⟨record.exec, record.size⟩ ∨ write.jit = false ∨ exec.jit = false then none
    else some (deleteView (deleteView s write) exec)
  | _, _ => none

/-! ## Calls -/

/-- What the system makes of the calls of `NtWineAllocateJitMemory`. -/
structure Results where
  malloc : Bool
  /-- What the two breakpoints return. -/
  mark : UInt64
  get : UInt64
  mmap : Option ℕ
  vmRemap : Option ℕ
  vmProtect : Bool
  execView : Bool
  writeView : Bool

/-- The variables of the process. -/
structure Config where
  host : HostPages
  enabled : Bool
  txm : Bool

/-- `juice_invalid_breakpoint_mapping`. -/
def juiceInvalidBreakpointMapping (value : UInt64) : Bool :=
  value = 0 ∨ value = 0xffffffffffffffff ∨ value = 0xcccccccc690000e0 ∨ value = 0x690000e0

/-- The mapping to execute. -/
def execMapping (cfg : Config) (results : Results) : Option ℕ :=
  if cfg.txm then
    let exec := if juiceInvalidBreakpointMapping results.mark then results.get else results.mark
    if juiceInvalidBreakpointMapping exec then none else some exec.toNat
  else results.mmap

/-- **Where the kernel maps anew**: nothing is mapped there. -/
def Fresh (host : HostPages) (s : Registry) (span : Span) : Prop :=
  0 < span.offset ∧ 2 ^ host.shift ∣ span.offset ∧ span.stop < 2 ^ 64
    ∧ (∀ m ∈ s.mappings, m.Apart span) ∧ ∀ m ∈ s.others, m.Apart span

instance (host : HostPages) (s : Registry) (span : Span) : Decidable (Fresh host s span) :=
  inferInstanceAs (Decidable (_ ∧ _ ∧ _ ∧ (∀ m ∈ s.mappings, m.Apart span) ∧ _))

/-- The kernel maps memory. -/
def mapped (span : Span) (s : Registry) : Registry := { s with mappings := span :: s.mappings }

/-- `vm_deallocate`. -/
def vmDeallocate (span : Span) (s : Registry) : Registry :=
  { s with mappings := s.mappings.erase span }

/-- The steps of `NtWineAllocateJitMemory` from `vm_remap` on. -/
def mapPair (cfg : Config) (exec : Span) (results : Results) (s : Registry) :
    Option (NtStatus × Registry) :=
  match results.vmRemap with
  | none => some (.noMemory, vmDeallocate exec s)
  | some address =>
    let write : Span := ⟨address, exec.size⟩
    if ¬ Fresh cfg.host s write then none
    else
      let s := mapped write s
      if ¬ results.vmProtect then
        some (.unsuccessful, vmDeallocate exec (vmDeallocate write s))
      else
        match juiceRegisterJitViews cfg.host write exec results.execView results.writeView s with
        | none => none
        | some (false, s) => some (.noMemory, vmDeallocate exec (vmDeallocate write s))
        | some (true, s) =>
          some (.success, { s with records := ⟨write.offset, exec.offset, exec.size⟩ :: s.records })

/-- **`NtWineAllocateJitMemory`**, called with two pointers, which may be null.
The result is nothing where the system could not have returned the results. -/
def ntWineAllocateJitMemory (cfg : Config) (writePtr execPtr : Bool) (size : UInt64)
    (results : Results) (s : Registry) : Option (NtStatus × Registry) :=
  if writePtr = false ∨ execPtr = false ∨ size = 0 ∨ cfg.enabled = false
      ∨ 2 ^ 64 - 1 - cfg.host.mask < size.toNat then some (.invalidParameter, s)
  else if results.malloc = false then some (.noMemory, s)
  else if s.sealed then some (.accessDenied, s)
  else
    match execMapping cfg results with
    | none => some (.noMemory, s)
    | some address =>
      let exec : Span := ⟨address, cfg.host.roundSize size.toNat⟩
      if ¬ Fresh cfg.host s exec then none
      else mapPair cfg exec results (mapped exec s)

/-- **`NtWineFreeJitMemory`.** -/
def ntWineFreeJitMemory (cfg : Config) (write exec size : UInt64) (s : Registry) :
    NtStatus × Registry :=
  if write = 0 ∨ exec = 0 ∨ size = 0 ∨ 2 ^ 64 - 1 - cfg.host.mask < size.toNat then
    (.invalidParameter, s)
  else
    let record : JitRecord := ⟨write.toNat, exec.toNat, cfg.host.roundSize size.toNat⟩
    if record ∉ s.records then (.invalidAddress, s)
    else
      match juiceUnregisterJitPairLocked record s with
      | none => (.invalidAddress, s)
      | some s => (.success,
          vmDeallocate ⟨record.exec, record.size⟩ (vmDeallocate ⟨record.write, record.size⟩
            { s with records := s.records.erase record }))

/-- **`NtWineDetachJitDebugger`.** -/
def ntWineDetachJitDebugger (cfg : Config) (s : Registry) : NtStatus × Registry :=
  if cfg.enabled = false then (.invalidParameter, s)
  else if s.sealed then (.success, s)
  else if s.records = [] then (.invalidParameter, s)
  else (.success, { s with sealed := true })

inductive JitCall where
  | allocate (writePtr execPtr : Bool) (size : UInt64) (results : Results)
  | free (write exec size : UInt64)
  | detach

/-- A call, with what it returns. -/
def jitCall (cfg : Config) (s : Registry) : JitCall → Option (NtStatus × Registry)
  | .allocate writePtr execPtr size results =>
    ntWineAllocateJitMemory cfg writePtr execPtr size results s
  | .free write exec size => some (ntWineFreeJitMemory cfg write exec size s)
  | .detach => some (ntWineDetachJitDebugger cfg s)

/-! ## Sequences of calls -/

/-- The pages of a span. -/
def InPages (span : Span) (page : ℕ) : Prop :=
  firstPage span.offset ≤ page ∧ page < endPage span.offset span.size

instance (span : Span) (page : ℕ) : Decidable (InPages span page) :=
  inferInstanceAs (Decidable (_ ∧ _))

/-- **Views that Wine can have**: they are made of pages, they are apart, and
only pages with ARM64EC code have a bit. -/
structure Viewed (views : List FileView) (map : Option EcMap) : Prop where
  pages : ∀ v ∈ views, 2 ^ 12 ∣ v.span.offset ∧ 2 ^ 12 ∣ v.span.size ∧ 0 < v.span.size
  apart : views.Pairwise (fun v w => v.span.Apart w.span)
  marked : ∀ m ∈ map, ∀ page, m.bit page = true →
    ∃ v ∈ views, v.arm64ec = true ∧ InPages v.span page

/-- The views that are not of the system are of memory that Wine has mapped. -/
def Owned (views : List FileView) (others : List Span) : Prop :=
  ∀ v ∈ views, v.system = false → ∃ m ∈ others, v.span.Within m

/-- **What happens between the calls.** The views of the registry stay. -/
structure Elsewhere (s : Registry) (views : List FileView) (others : List Span)
    (map : Option EcMap) : Prop where
  viewed : Viewed views map
  owned : Owned views others
  jit : views.filter (·.jit) = s.views.filter (·.jit)

/-- **A step**: a call, or something else. -/
inductive RegistryStep (cfg : Config) : Registry → Registry → Prop where
  | call {s t : Registry} {status : NtStatus} (call : JitCall)
      (h : jitCall cfg s call = some (status, t)) : RegistryStep cfg s t
  | other {s : Registry} (views : List FileView) (others : List Span) (map : Option EcMap)
      (h : Elsewhere s views others map) :
      RegistryStep cfg s { s with views := views, others := others, map := map }

end Juice.Jit
