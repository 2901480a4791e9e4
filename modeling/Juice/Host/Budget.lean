import Juice.Lib.Slots
import Juice.Host.Transport

/-!
# The host's limits on memory

A client decides what it sends, and a hostile one sends anything. Whatever
arrives on however many connections, and however their readers take turns,
the host keeps to its limits: on the payloads it holds while they are read
and applied, and on the frames it retains.

The payload counter is the place where this could go wrong silently, since
it is unsigned: a release too many would wrap it, and so let through
everything that follows. `Transport.Inv` says that it is at all times the
sum over the readers of what each has reserved and not yet given back, a
number that can be read off where the reader is. A release then subtracts
one of the terms of the sum.
-/

namespace Juice

open JuiceMsg ByteSeq

/-- The room a reader has reserved and not given back. -/
def ReaderPc.held : ReaderPc → ℕ
  | reserved m => m.size.toNat
  | loaded m _ => m.size.toNat
  | merging m _ _ => m.size.toNat
  | applied m _ => m.size.toNat
  | releasing m _ => m.size.toNat
  | _ => 0

/-- What a reader between two critical sections knows. -/
def ReaderPc.Ok (next : ℕ) : ReaderPc → Prop
  | merging m data f => juiceDirtyHeaderValid m = true ∧ data.length = m.size.toNat ∧ f < next
  | applied _ f => f < next
  | _ => True

theorem ReaderPc.Ok.mono {next next' : ℕ} {pc : ReaderPc} (h : pc.Ok next) (hle : next ≤ next') :
    pc.Ok next' := by
  cases pc with
  | merging m data f => exact ⟨h.1, h.2.1, h.2.2.trans_le hle⟩
  | applied m f => exact Nat.lt_of_lt_of_le h hle
  | _ => trivial

namespace Transport

/-- **What holds of the transport at all times.** -/
structure Inv (t : Transport) : Prop where
  frames : t.frames.Ok
  readers : ∀ r ∈ t.readers, r.pc.Ok t.frames.next
  deliveries : ∀ d ∈ t.deliveries, d.frame < t.frames.next
  pending_eq : t.pending.toNat = (t.readers.map (fun r => r.pc.held)).sum
  pending_le : t.pending.toNat ≤ MAX_BYTES

theorem inv_start : start.Inv where
  frames := Frames.ok_empty
  readers _ h := by cases h
  deliveries _ h := by cases h
  pending_eq := rfl
  pending_le := Nat.zero_le _

/-! ## The counter -/

/-- A reservation adds to the counter what is asked for, within the
limit. -/
theorem juiceReserveDisplayPayload_some {pending pending' : UInt64} {bytes : UInt32}
    (hle : pending.toNat ≤ MAX_BYTES)
    (h : juiceReserveDisplayPayload pending bytes = some pending') :
    pending'.toNat = pending.toNat + bytes.toNat ∧ pending'.toNat ≤ MAX_BYTES := by
  unfold juiceReserveDisplayPayload at h
  split at h
  · cases h
  rename_i hfits
  cases h
  have hmax : (UInt64.ofNat MAX_BYTES).toNat = MAX_BYTES := by decide
  have hsub : (UInt64.ofNat MAX_BYTES - pending).toNat = MAX_BYTES - pending.toNat := by
    rw [UInt64.toNat_sub_of_le _ _ (UInt64.le_iff_toNat_le.mpr (hmax ▸ hle)), hmax]
  have hfits : bytes.toNat ≤ MAX_BYTES - pending.toNat := by
    simpa [UInt64.lt_iff_toNat_lt, hsub] using hfits
  have hadd : (pending + bytes.toUInt64).toNat = pending.toNat + bytes.toNat := by
    rw [UInt64.toNat_add, UInt32.toNat_toUInt64, Nat.mod_eq_of_lt]
    have : MAX_BYTES < 2 ^ 64 := by decide
    omega
  rw [hadd]
  exact ⟨rfl, by omega⟩

variable {t t' u : Transport} {r r' : Reader} {a : ReaderAction}

/-- **An action of a reader changes the counter by what it changes its
reservation.** -/
theorem ReaderEffect.pending (h : ReaderEffect t r a u r') (hle : t.pending.toNat ≤ MAX_BYTES)
    (hheld : r.pc.held ≤ t.pending.toNat) :
    u.pending.toNat + r.pc.held = t.pending.toNat + r'.pc.held ∧ u.pending.toNat ≤ MAX_BYTES := by
  cases h with
  | reserve hpc hm hres =>
    obtain ⟨heq, hle'⟩ := juiceReserveDisplayPayload_some hle hres
    rw [hpc]
    exact ⟨heq, hle'⟩
  | @release m leave hpc =>
    rw [hpc] at hheld ⊢
    replace hheld : m.size.toNat ≤ t.pending.toNat := hheld
    have hsub : (t.pending - m.size.toUInt64).toNat = t.pending.toNat - m.size.toNat :=
      UInt64.toNat_sub_of_le _ _ (UInt64.le_iff_toNat_le.mpr (by simpa using hheld))
    have hnone : (if leave then ReaderPc.closing else ReaderPc.loop).held = 0 := by
      cases leave <;> rfl
    show (t.pending - m.size.toUInt64).toNat + m.size.toNat
        = t.pending.toNat + (if leave then ReaderPc.closing else ReaderPc.loop).held
      ∧ (t.pending - m.size.toUInt64).toNat ≤ MAX_BYTES
    rw [hsub, hnone]
    omega
  | @schedule m f hpc =>
    have hpending : (t.juiceScheduleFrame f r.firstFrame).pending = t.pending := by
      unfold juiceScheduleFrame
      split <;> rfl
    rw [hpc, hpending]
    exact ⟨rfl, hle⟩
  | _ hpc =>
    rw [hpc]
    exact ⟨rfl, hle⟩

/-! ## Frames and readers -/

/-- An action of a reader keeps the frames right. -/
theorem ReaderEffect.frames_ok (h : ReaderEffect t r a u r') (hfs : t.frames.Ok)
    (hpc : r.pc.Ok t.frames.next) : u.frames.Ok := by
  cases h with
  | destroy => exact hfs.juiceInvalidateHWND _ _
  | full _ _ hf => exact hfs.juiceApplyFull hf
  | merged hr hf =>
    rw [hr] at hpc
    exact hfs.mergeDirty hpc.1 hpc.2.1 hpc.2.2 hf
  | schedule => exact hfs.sameContent (sameContent_juiceScheduleFrame ..)
  | invalidate => exact hfs.juiceInvalidateClient _
  | _ => exact hfs

/-- Objects stay objects. -/
theorem ReaderEffect.next_le (h : ReaderEffect t r a u r') : t.frames.next ≤ u.frames.next := by
  cases h with
  | destroy => exact (Frames.takenDown_juiceInvalidateHWND ..).next_eq.ge
  | full _ _ hf => exact Frames.next_le_juiceApplyFull hf
  | schedule => exact (sameContent_juiceScheduleFrame ..).next_eq.ge
  | _ => exact le_rfl

/-- What a reader takes with it to its next critical section is right. -/
theorem ReaderEffect.pc_ok (h : ReaderEffect t r a u r') (hfs : t.frames.Ok)
    (hpc : r.pc.Ok t.frames.next) : r'.pc.Ok u.frames.next := by
  cases h with
  | found hr hm hf =>
    obtain ⟨hvalid, hlen, hlook⟩ := Frames.juiceApplyDirty_some hf
    exact ⟨hvalid, hlen, (hfs.entry hlook).1⟩
  | full hr hm hf => exact ((hfs.juiceApplyFull hf).entry (Frames.lookup_juiceApplyFull hf)).1
  | merged hr hf =>
    rw [hr] at hpc
    exact hpc.2.2
  | @release m leave hr => cases leave <;> trivial
  | _ => trivial

/-- An action of a reader adds a delivery of an object, or none. -/
theorem ReaderEffect.deliveries (h : ReaderEffect t r a u r') (hpc : r.pc.Ok t.frames.next) :
    ∀ d ∈ u.deliveries, d ∈ t.deliveries ∨ d.frame < t.frames.next := by
  cases h with
  | @schedule m f hr =>
    rw [hr] at hpc
    intro d hd
    refine (mem_juiceScheduleFrame hd).imp_right (fun heq => ?_)
    rw [heq]
    exact hpc
  | _ => exact fun d hd => .inl hd

/-- **Every step keeps what holds of the transport.** -/
theorem Inv.step (h : t.Inv) {a : Action} (hst : t.step a = some t') : t'.Inv := by
  cases effect_of_step hst with
  | accept hfd hfree =>
    refine ⟨h.frames, Slots.forall_mem_concat h.readers trivial, h.deliveries, ?_, h.pending_le⟩
    rw [h.pending_eq]
    simp [Reader.new, ReaderPc.held]
  | @reader c r r' a u hr e =>
    have hpc := h.readers r (List.mem_of_getElem? hr)
    have hsum := Slots.sum_map_set hr (fun r => r.pc.held) r'
    have hheld : r.pc.held ≤ t.pending.toNat := by
      rw [h.pending_eq]
      exact Slots.le_sum_map hr (fun r => r.pc.held)
    obtain ⟨hpending, hle⟩ := e.pending h.pending_le hheld
    refine ⟨e.frames_ok h.frames hpc, ?_, ?_, ?_, hle⟩
    · exact Slots.forall_mem_set (fun x hx => (h.readers x hx).mono e.next_le) c
        (e.pc_ok h.frames hpc)
    · intro d hd
      rcases e.deliveries hpc d hd with hd | hd
      · exact (h.deliveries d hd).trans_le e.next_le
      · exact hd.trans_le e.next_le
    · show u.pending.toNat = ((t.readers.set c r').map (fun r => r.pc.held)).sum
      have := h.pending_eq
      omega
  | @delivery i d a _ hd e =>
    obtain ⟨hsame, hreaders, hpending⟩ := e.frame
    refine ⟨h.frames.sameContent hsame, ?_, ?_, ?_, ?_⟩
    · rw [hreaders, hsame.next_eq]
      exact h.readers
    · rw [hsame.next_eq]
      rcases e.deliveries with ⟨d', heq, hd'⟩ | heq <;> rw [heq]
      · exact Slots.forall_mem_set h.deliveries i (hd' ▸ h.deliveries d (List.mem_of_getElem? hd))
      · exact fun x hx => h.deliveries x (List.mem_of_mem_eraseIdx hx)
    · rw [hpending, hreaders]
      exact h.pending_eq
    · exact hpending ▸ h.pending_le

/-- **It holds in every state of every run.** -/
theorem inv_of_reachable (h : machine.Reachable t) : t.Inv :=
  h.invariant (I := Inv) inv_start (fun _ _ _ _ hs hst => hs.step hst)

/-! ## The limits -/

/-- **The limits, and what makes them safe**: what the counter stands for,
how much is retained, and that no copy leaves its buffers. -/
structure Budgets (t : Transport) : Prop where
  /-- The counter is the sum of the sizes of the frames between the
  reservation of their payload and its release. -/
  pending_eq : t.pending.toNat = (t.readers.map (fun r => r.pc.held)).sum
  pending_le : t.pending.toNat ≤ 128 * 1024 * 1024
  /-- A release never takes more than there is. -/
  release_le : ∀ r ∈ t.readers, ∀ m leave, r.pc = .releasing m leave →
    m.size.toNat ≤ t.pending.toNat
  count_le : t.frames.table.entries.length ≤ 128
  total_le : (t.frames.table.entries.map (fun e => (t.frames.heap e.2).length)).sum
    ≤ 256 * 1024 * 1024
  /-- A retained frame has a buffer for its rows, and its rows are as long
  as its pixels ask for. -/
  retained : ∀ hwnd f, t.frames.table.lookup hwnd = some f →
    ∃ b, (t.frames.heap f).bytes = some b
      ∧ (b.length : ℤ) = (t.frames.heap f).stride.toNat * (t.frames.heap f).height.toInt
      ∧ 4 * (t.frames.heap f).width.toInt ≤ (t.frames.heap f).stride.toNat
  /-- A row that `JuiceApplyDirty` copies lies inside the frame's buffer and
  inside the payload. -/
  copies : ∀ r ∈ t.readers, ∀ m data f, r.pc = .merging m data f →
    (t.frames.heap f).Accepts m r.fd r.peerPID →
    ∃ b, (t.frames.heap f).bytes = some b ∧ ∀ row < m.rows,
      (m.top + row) * (t.frames.heap f).stride.toNat + m.left * 4 + m.cols * 4 ≤ b.length
      ∧ row * m.stride.toNat + m.cols * 4 ≤ data.length
  /-- An apply that returns `nil`, after which its reader goes on to the
  release, has changed no frame. -/
  nil_unchanged : ∀ c a t', t.step (.reader c a) = some t' → (a = .apply ∨ a = .merge) →
    (∃ r ∈ t'.readers[c]?, ∃ m leave, r.pc = .releasing m leave) → t'.frames = t.frames

/-- The rows of a merge lie inside the buffers. -/
theorem copies_inside {fb : Framebuffer} (h : fb.Shaped) {m : JuiceMsg} {data : List UInt8}
    {fd : Fd} {pid : Int32} (hm : juiceDirtyHeaderValid m = true)
    (hlen : data.length = m.size.toNat) (hfb : fb.Accepts m fd pid) {row : ℕ}
    (hrow : row < m.rows) :
    (m.top + row) * fb.stride.toNat + m.left * 4 + m.cols * 4 ≤ fb.length
      ∧ row * m.stride.toNat + m.cols * 4 ≤ data.length := by
  obtain ⟨-, -, hframed⟩ := juiceFullHeaderValid_iff.mp (juiceDirtyHeaderValid_iff.mp hm).1
  obtain ⟨-, -, -, hx, hy⟩ := hfb
  have hwide : fb.width.toUInt32.toNat * 4 ≤ fb.stride.toNat := h.plane_wf.row_le
  constructor
  · refine row_end_le (by omega) (show m.top + row < fb.height.toUInt32.toNat by omega) ?_
    rw [h.length_eq, mul_comm]
  · have hrows : m.rows * m.stride.toNat ≤ data.length := by
      rw [hlen, ← hframed.size_eq, mul_comm]
    simpa using row_end_le (x := 0) (by simpa using hframed.row_le) hrow hrows

/-- **In every run, whatever the connections carry and however their readers
take turns, the host keeps to its limits.** -/
theorem budgets_of_reachable (t : Transport) (h : machine.Reachable t) : t.Budgets := by
  have hinv := inv_of_reachable h
  constructor
  · exact hinv.pending_eq
  · exact hinv.pending_le
  · intro r hr m leave hpc
    obtain ⟨c, hc⟩ := List.getElem?_of_mem hr
    have hheld := Slots.le_sum_map hc (fun r => r.pc.held)
    rw [← hinv.pending_eq, hpc] at hheld
    exact hheld
  · exact hinv.frames.count_le
  · exact hinv.frames.total_le
  · intro hwnd f hf
    obtain ⟨hlt, hi, -⟩ := hinv.frames.entry hf
    exact (hinv.frames.shaped hlt hi).sizes
  · intro r hr m data f hpc hfb
    obtain ⟨hm, hlen, hf⟩ : ReaderPc.Ok t.frames.next (.merging m data f) :=
      hpc ▸ hinv.readers r hr
    have hshaped := hinv.frames.shaped hf hfb.1
    obtain ⟨b, hb⟩ := Option.isSome_iff_exists.mp hshaped.stored
    refine ⟨b, hb, fun row hrow => ?_⟩
    have hcopy := copies_inside hshaped hm hlen hfb hrow
    rwa [Framebuffer.length, hb] at hcopy
  · rintro c a t' hst ha ⟨r', hr', m, leave, hpc⟩
    cases effect_of_step hst with
    | @reader c r r₁ a u hr e =>
      obtain rfl : r₁ = r' := by
        rw [show (Transport.readers _) = t.readers.set c r₁ from rfl,
          Slots.getElem?_set_self hr] at hr'
        exact Option.some.inj hr'
      rcases ha with rfl | rfl <;> cases e <;> first | rfl | cases hpc

/-- A pixel of a window, to be retained or to be merged. -/
def pixel (hwnd : UInt64) (flags : UInt32) : JuiceMsg :=
  ⟨MAGIC, FRAME, 4, hwnd, 0, 0, 1, 1, 4, flags⟩

/-- A frame is retained, and another one is about to be merged into it. -/
def twoFrames : List Action :=
  [.accept 3, .reader 0 (.header (pixel 7 0)), .reader 0 .reserve, .reader 0 (.payload [1, 2, 3, 4]),
    .reader 0 .apply, .reader 0 .schedule, .reader 0 .release,
    .reader 0 (.header (pixel 7 DIRTY)), .reader 0 .reserve, .reader 0 (.payload [5, 6, 7, 8]),
    .reader 0 .apply]

/-- The limits in the middle of a run, with a payload in flight and a frame
retained. -/
theorem budgets_twoFrames :
    ∃ t, machine.run twoFrames = some t ∧ t.pending = 4 ∧ t.frames.table.entries.length = 1
      ∧ t.Budgets := by
  obtain ⟨t, ht, hpending, hlen⟩ : ∃ t, machine.run twoFrames = some t ∧ t.pending = 4
      ∧ t.frames.table.entries.length = 1 := by
    decide +kernel
  exact ⟨t, ht, hpending, hlen, budgets_of_reachable t (.of_run ht)⟩

end Transport

end Juice
