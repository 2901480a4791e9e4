import Mathlib.Data.List.AList
import Juice.Display.Mirror

/-!
# The framebuffers the host retains

`JuiceDisplayTransportHardening.m` keeps, for each window of each client,
the last frame in full: a full frame sets it, and a dirty frame is merged
into it. The frames are objects, referred to from a table by window, by
readers between two critical sections and by deliveries in flight, so they
live in a heap here and are named by their place in it. An object that is
taken out of the table is *invalidated*, which is how those who still hold
it learn that it is no longer the frame of its window.

Ownership is by descriptor: an object remembers the connection and the
process it was last set by. A dirty frame is merged only for the owner,
and a connection takes down only what it owns. A full frame is accepted
from anyone, and passes the ownership to its sender.
-/

namespace Juice

open JuiceMsg

/-- A file descriptor, `int`. -/
abbrev Fd : Type := ℤ

/-- `JUICE_DISPLAY_MAX_RETAINED_BYTES`. -/
def MAX_RETAINED_BYTES : ℕ := 256 * 1024 * 1024
/-- `JUICE_DISPLAY_MAX_RETAINED_WINDOWS`. -/
def MAX_RETAINED_WINDOWS : ℕ := 128

/-- **A retained frame**, `JuiceDisplayFramebuffer`. -/
structure Framebuffer where
  /-- `nil` once the frame is invalidated. -/
  bytes : Option (List UInt8)
  hwnd : UInt64
  lastSnapshotNS : UInt64
  width : Int32
  height : Int32
  stride : UInt32
  clientFD : Fd
  peerPID : Int32
  generation : ℕ
  received : ℕ
  rendered : ℕ
  coalesced : ℕ
  scheduled : Bool
  firstPending : Bool
  invalidated : Bool
  deriving DecidableEq, Repr, Inhabited

namespace Framebuffer

/-- `frame.bytes.length`, zero for `nil`. -/
def length (fb : Framebuffer) : ℕ := (fb.bytes.getD []).length

/-- The plane a frame shows. -/
def plane (fb : Framebuffer) : Plane :=
  ⟨fb.width.toUInt32.toNat, fb.height.toUInt32.toNat, fb.stride.toNat, fb.bytes.getD []⟩

/-- `frame.invalidated=YES;frame.bytes=nil;` -/
def invalidate (fb : Framebuffer) : Framebuffer := { fb with invalidated := true, bytes := none }

/-- The frame a full frame makes. -/
def new (m : JuiceMsg) (data : List UInt8) (fd : Fd) (pid : Int32) : Framebuffer :=
  { bytes := some data, hwnd := m.hwnd, lastSnapshotNS := 0, width := m.width, height := m.height,
    stride := m.stride, clientFD := fd, peerPID := pid, generation := 1, received := 1,
    rendered := 0, coalesced := 0, scheduled := false, firstPending := false,
    invalidated := false }

/-- Whether a full frame can be stored in the object of the last one. -/
def Reusable (fb : Framebuffer) (m : JuiceMsg) (data : List UInt8) : Prop :=
  fb.invalidated = false ∧ fb.width = m.width ∧ fb.height = m.height ∧ fb.stride = m.stride
    ∧ fb.length = data.length

instance (fb : Framebuffer) (m : JuiceMsg) (data : List UInt8) : Decidable (fb.Reusable m data) := by
  unfold Reusable
  infer_instance

/-- A full frame stored in the object of the last one. -/
def reuse (fb : Framebuffer) (data : List UInt8) (fd : Fd) (pid : Int32) : Framebuffer :=
  { fb with bytes := some data, clientFD := fd, peerPID := pid, generation := fb.generation + 1,
            received := fb.received + 1 }

/-- The conditions `JuiceApplyDirty` makes on the frame, under its lock. -/
def Accepts (fb : Framebuffer) (m : JuiceMsg) (fd : Fd) (pid : Int32) : Prop :=
  fb.invalidated = false ∧ fb.clientFD = fd ∧ fb.peerPID = pid
    ∧ m.left + m.cols ≤ fb.width.toUInt32.toNat ∧ m.top + m.rows ≤ fb.height.toUInt32.toNat

instance (fb : Framebuffer) (m : JuiceMsg) (fd : Fd) (pid : Int32) :
    Decidable (fb.Accepts m fd pid) := by
  unfold Accepts
  infer_instance

/-- The loop of `JuiceApplyDirty` over the rows, and what follows it. -/
def merge (fb : Framebuffer) (m : JuiceMsg) (data : List UInt8) (fd : Fd) (pid : Int32) :
    Framebuffer :=
  { fb with
    bytes := fb.bytes.map (fun b => ByteSeq.blit b fb.stride.toNat (m.left * 4) m.top data
      m.stride.toNat (m.cols * 4) m.rows)
    clientFD := fd, peerPID := pid, generation := fb.generation + 1, received := fb.received + 1 }

end Framebuffer

/-- The table of frames by window. -/
abbrev FrameTable : Type := AList (fun _ : UInt64 => ℕ)

/-- **The frames of the host**: the objects made so far, and the table. -/
structure Frames where
  heap : ℕ → Framebuffer
  /-- The name of the next object. -/
  next : ℕ
  table : FrameTable

namespace Frames

/-- No frames. -/
def empty : Frames := ⟨fun _ => default, 0, ∅⟩

/-- A change to one object. -/
def modify (fs : Frames) (f : ℕ) (g : Framebuffer → Framebuffer) : Frames :=
  { fs with heap := Function.update fs.heap f (g (fs.heap f)) }

/-- A new object in the table. -/
def insertNew (fs : Frames) (hwnd : UInt64) (fb : Framebuffer) : Frames where
  heap := Function.update fs.heap fs.next fb
  next := fs.next + 1
  table := fs.table.insert hwnd fs.next

/-- The table without the entries that fail a test. -/
def keep (table : FrameTable) (p : ℕ → Bool) : FrameTable :=
  ⟨table.entries.filter (fun e => p e.2), table.nodupKeys.sublist List.filter_sublist⟩

/-- `JuiceInvalidateHWND`. -/
def juiceInvalidateHWND (fs : Frames) (hwnd : UInt64) (fd : Fd) : Frames :=
  match fs.table.lookup hwnd with
  | none => { fs with table := fs.table.erase hwnd }
  | some f =>
    if (fs.heap f).clientFD ≠ fd then fs
    else { fs.modify f Framebuffer.invalidate with table := fs.table.erase hwnd }

/-- `JuiceInvalidateClient`. -/
def juiceInvalidateClient (fs : Frames) (fd : Fd) : Frames where
  heap f := if fs.table.entries.any (fun e => e.2 = f) ∧ (fs.heap f).clientFD = fd
    then (fs.heap f).invalidate else fs.heap f
  next := fs.next
  table := keep fs.table (fun f => (fs.heap f).clientFD ≠ fd)

/-- The bytes retained for some windows. -/
def total (fs : Frames) (table : FrameTable) : ℕ :=
  (table.entries.map (fun e => (fs.heap e.2).length)).sum

/-- `JuiceApplyFull`: the frames it leaves and the object it returns, `none`
for `nil`. -/
def juiceApplyFull (fs : Frames) (m : JuiceMsg) (data : List UInt8) (fd : Fd) (pid : Int32) :
    Frames × Option ℕ :=
  if !juiceFullHeaderValid m ∨ data.length ≠ m.size.toNat then (fs, none)
  else
    let retained := fs.total (fs.table.erase m.hwnd)
    if fs.table.lookup m.hwnd = none ∧ fs.table.entries.length ≥ MAX_RETAINED_WINDOWS then
      (fs, none)
    else if retained > MAX_RETAINED_BYTES ∨ data.length > MAX_RETAINED_BYTES - retained then
      (fs, none)
    else match fs.table.lookup m.hwnd with
      | none => (fs.insertNew m.hwnd (.new m data fd pid), some fs.next)
      | some f =>
        if (fs.heap f).Reusable m data then (fs.modify f (fun fb => fb.reuse data fd pid), some f)
        else ((fs.modify f Framebuffer.invalidate).insertNew m.hwnd (.new m data fd pid),
          some fs.next)

/-- The first critical section of `JuiceApplyDirty`: the object to merge
into, `none` where it returns `nil`. -/
def juiceApplyDirty (fs : Frames) (m : JuiceMsg) (data : List UInt8) : Option ℕ :=
  if !juiceDirtyHeaderValid m ∨ data.length ≠ m.size.toNat then none
  else fs.table.lookup m.hwnd

/-- The second critical section of `JuiceApplyDirty`: the frames it leaves
and the object it returns, `none` for `nil`. -/
def mergeDirty (fs : Frames) (f : ℕ) (m : JuiceMsg) (data : List UInt8) (fd : Fd) (pid : Int32) :
    Frames × Option ℕ :=
  if (fs.heap f).Accepts m fd pid then
    (fs.modify f (fun fb => fb.merge m data fd pid), some f)
  else (fs, none)

/-- **What `JuiceApplyFull` does**: nothing, or it makes a new object, or it
stores the frame in the object there is. -/
theorem juiceApplyFull_cases (fs : Frames) (m : JuiceMsg) (data : List UInt8) (fd : Fd)
    (pid : Int32) :
    fs.juiceApplyFull m data fd pid = (fs, none)
    ∨ ((juiceFullHeaderValid m = true ∧ data.length = m.size.toNat
        ∧ fs.total (fs.table.erase m.hwnd) + data.length ≤ MAX_RETAINED_BYTES)
      ∧ ((fs.table.lookup m.hwnd = none ∧ fs.table.entries.length < MAX_RETAINED_WINDOWS
          ∧ fs.juiceApplyFull m data fd pid
            = (fs.insertNew m.hwnd (.new m data fd pid), some fs.next))
        ∨ (∃ f, fs.table.lookup m.hwnd = some f ∧ (fs.heap f).Reusable m data
          ∧ fs.juiceApplyFull m data fd pid
            = (fs.modify f (fun fb => fb.reuse data fd pid), some f))
        ∨ (∃ f, fs.table.lookup m.hwnd = some f ∧ ¬ (fs.heap f).Reusable m data
          ∧ fs.juiceApplyFull m data fd pid
            = ((fs.modify f Framebuffer.invalidate).insertNew m.hwnd (.new m data fd pid),
              some fs.next)))) := by
  by_cases h₁ : !juiceFullHeaderValid m ∨ data.length ≠ m.size.toNat
  · exact .inl (by rw [juiceApplyFull, if_pos h₁])
  by_cases h₂ : fs.table.lookup m.hwnd = none ∧ fs.table.entries.length ≥ MAX_RETAINED_WINDOWS
  · exact .inl (by rw [juiceApplyFull, if_neg h₁, if_pos h₂])
  by_cases h₃ : fs.total (fs.table.erase m.hwnd) > MAX_RETAINED_BYTES
      ∨ data.length > MAX_RETAINED_BYTES - fs.total (fs.table.erase m.hwnd)
  · exact .inl (by simp only [juiceApplyFull, if_neg h₁, if_neg h₂, if_pos h₃])
  right
  have hval : fs.juiceApplyFull m data fd pid = match fs.table.lookup m.hwnd with
      | none => (fs.insertNew m.hwnd (.new m data fd pid), some fs.next)
      | some f =>
        if (fs.heap f).Reusable m data then (fs.modify f (fun fb => fb.reuse data fd pid), some f)
        else ((fs.modify f Framebuffer.invalidate).insertNew m.hwnd (.new m data fd pid),
          some fs.next) := by
    simp only [juiceApplyFull, if_neg h₁, if_neg h₂, if_neg h₃]
  simp only [not_or, Bool.not_eq_true', Bool.not_eq_false, not_not] at h₁
  refine ⟨⟨h₁.1, h₁.2, by omega⟩, ?_⟩
  cases hlook : fs.table.lookup m.hwnd with
  | none =>
    rw [hlook] at hval h₂
    exact .inl ⟨rfl, by simpa using h₂, hval⟩
  | some f =>
    rw [hlook] at hval
    by_cases hr : (fs.heap f).Reusable m data
    · exact .inr (.inl ⟨f, rfl, hr, hval.trans (if_pos hr)⟩)
    · exact .inr (.inr ⟨f, rfl, hr, hval.trans (if_neg hr)⟩)

/-- Where `JuiceApplyFull` returns `nil`, it has changed nothing. -/
theorem eq_of_juiceApplyFull_none {fs fs' : Frames} {m : JuiceMsg} {data : List UInt8} {fd : Fd}
    {pid : Int32} (h : fs.juiceApplyFull m data fd pid = (fs', none)) : fs = fs' := by
  rcases juiceApplyFull_cases fs m data fd pid with
    heq | ⟨-, ⟨-, -, heq⟩ | ⟨f, -, -, heq⟩ | ⟨f, -, -, heq⟩⟩ <;> rw [heq] at h <;> cases h
  rfl

/-- What `JuiceApplyDirty` has checked where it finds an object. -/
theorem juiceApplyDirty_some {fs : Frames} {m : JuiceMsg} {data : List UInt8} {f : ℕ}
    (h : fs.juiceApplyDirty m data = some f) :
    juiceDirtyHeaderValid m = true ∧ data.length = m.size.toNat
      ∧ fs.table.lookup m.hwnd = some f := by
  unfold juiceApplyDirty at h
  split at h
  · cases h
  · rename_i hvalid
    simp only [not_or, Bool.not_eq_true', Bool.not_eq_false, not_not] at hvalid
    exact ⟨hvalid.1, hvalid.2, h⟩

/-! ## The table -/

@[simp] theorem modify_table (fs : Frames) (f : ℕ) (g : Framebuffer → Framebuffer) :
    (fs.modify f g).table = fs.table := rfl

@[simp] theorem modify_next (fs : Frames) (f : ℕ) (g : Framebuffer → Framebuffer) :
    (fs.modify f g).next = fs.next := rfl

@[simp] theorem modify_heap_self (fs : Frames) (f : ℕ) (g : Framebuffer → Framebuffer) :
    (fs.modify f g).heap f = g (fs.heap f) := Function.update_self ..

theorem modify_heap_of_ne (fs : Frames) {f f' : ℕ} (g : Framebuffer → Framebuffer) (h : f' ≠ f) :
    (fs.modify f g).heap f' = fs.heap f' := Function.update_of_ne h ..

theorem mem_lookup_keep {table : FrameTable} {p : ℕ → Bool} {hwnd : UInt64} {f : ℕ} :
    (keep table p).lookup hwnd = some f ↔ table.lookup hwnd = some f ∧ p f = true := by
  rw [← Option.mem_def, AList.mem_lookup_iff, ← Option.mem_def, AList.mem_lookup_iff]
  exact List.mem_filter

/-- An entry of the table is what the lookup of its window finds. -/
theorem any_entries_iff {table : FrameTable} {f : ℕ} :
    table.entries.any (fun e => e.2 = f) = true ↔ ∃ hwnd, table.lookup hwnd = some f := by
  rw [List.any_eq_true]
  constructor
  · rintro ⟨⟨hwnd, g⟩, he, hg⟩
    obtain rfl : g = f := of_decide_eq_true hg
    exact ⟨hwnd, AList.mem_lookup_iff.mpr he⟩
  · rintro ⟨hwnd, h⟩
    exact ⟨⟨hwnd, f⟩, AList.mem_lookup_iff.mp h, decide_eq_true rfl⟩

end Frames

end Juice
