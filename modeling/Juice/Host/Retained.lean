import Mathlib.Algebra.Order.BigOperators.Group.List
import Juice.Host.Framebuffer

/-!
# What holds of the frames at all times

The table and the objects are tied together by `Frames.Ok`: what is in the
table is not invalidated, what is not invalidated is in the table, under
its own window, and its buffer has the size its geometry asks for. The
limits on the number of frames and on their bytes are part of it, since it
is the same operations that keep them.

One lemma for each operation on the frames says that it keeps `Frames.Ok`.
Replacing a frame by one of another geometry is taking it down and making a
new one, and is not looked at on its own. What deliveries do to a frame –
flags, counters and clocks – changes nothing that matters here:
`Framebuffer.content` forgets those, and `Frames.SameContent` compares what
is left.
-/

namespace Juice

open JuiceMsg ByteSeq

namespace Framebuffer

variable {fb : Framebuffer} {m : JuiceMsg} {data : List UInt8} {fd : Fd} {pid : Int32}

/-- A frame without what its delivery has to do with. -/
def content (fb : Framebuffer) : Framebuffer :=
  { fb with lastSnapshotNS := 0, rendered := 0, coalesced := 0, scheduled := false,
            firstPending := false }

/-- What does not depend on the delivery of a frame depends on its content
only. -/
theorem congr_content {α : Type} {g : Framebuffer → α} (hg : ∀ fb, g fb.content = g fb)
    {fb' : Framebuffer} (h : fb'.content = fb.content) : g fb' = g fb := by
  rw [← hg fb', h, hg]

/-- **A frame of the right size**: there is a buffer, and it holds rows as
long as the stride, which is at least the width. -/
structure Shaped (fb : Framebuffer) : Prop where
  width_pos : 0 < fb.width.toInt
  height_pos : 0 < fb.height.toInt
  stored : fb.bytes.isSome
  plane_wf : fb.plane.Wf

theorem Shaped.length_eq (h : fb.Shaped) :
    fb.length = fb.stride.toNat * fb.height.toUInt32.toNat := h.plane_wf.length_bytes

/-- The sizes in a retained frame, as signed numbers. -/
theorem Shaped.sizes (h : fb.Shaped) :
    ∃ b, fb.bytes = some b ∧ (b.length : ℤ) = fb.stride.toNat * fb.height.toInt
      ∧ 4 * fb.width.toInt ≤ fb.stride.toNat := by
  obtain ⟨b, hb⟩ := Option.isSome_iff_exists.mp h.stored
  have hlen := h.length_eq
  have hrow : fb.width.toUInt32.toNat * 4 ≤ fb.stride.toNat := h.plane_wf.row_le
  have hw := toNat_toUInt32_cast h.width_pos.le
  refine ⟨b, hb, ?_, by omega⟩
  rw [← toNat_toUInt32_cast h.height_pos.le, ← Nat.cast_mul, ← hlen, length, hb]
  rfl

theorem shaped_new (hm : juiceFullHeaderValid m = true) (hlen : data.length = m.size.toNat) :
    (new m data fd pid).Shaped := by
  obtain ⟨hw, hh, hframed⟩ := juiceFullHeaderValid_iff.mp hm
  exact ⟨hw, hh, rfl, hframed.row_le, hlen.trans hframed.size_eq.symm⟩

theorem Shaped.reuse (h : fb.Shaped) (hlen : fb.length = data.length) :
    (fb.reuse data fd pid).Shaped :=
  ⟨h.width_pos, h.height_pos, rfl, h.plane_wf.row_le, hlen.symm.trans h.length_eq⟩

/-- A merge patches the plane. -/
theorem plane_merge (h : fb.bytes.isSome) :
    (fb.merge m data fd pid).plane
      = fb.plane.patch m.left m.top data m.stride.toNat (m.cols * 4) m.rows := by
  obtain ⟨b, hb⟩ := Option.isSome_iff_exists.mp h
  simp [plane, merge, Plane.patch, hb]

theorem Shaped.merge (h : fb.Shaped) (hm : juiceDirtyHeaderValid m = true)
    (hlen : data.length = m.size.toNat) (hfb : fb.Accepts m fd pid) :
    (fb.merge m data fd pid).Shaped := by
  obtain ⟨-, -, hframed⟩ := juiceFullHeaderValid_iff.mp (juiceDirtyHeaderValid_iff.mp hm).1
  obtain ⟨-, -, -, hx, hy⟩ := hfb
  refine ⟨h.width_pos, h.height_pos, ?_, ?_⟩
  · rw [Framebuffer.merge, Option.isSome_map]
    exact h.stored
  · rw [plane_merge h.stored]
    refine h.plane_wf.patch hx hy hframed.row_le ?_
    rw [hlen, ← hframed.size_eq, mul_comm]

theorem Shaped.of_content {fb' : Framebuffer} (h : fb.Shaped) (heq : fb'.content = fb.content) :
    fb'.Shaped := by
  have hplane : fb'.plane = fb.plane := congr_content (fun _ => rfl) heq
  have hbytes : fb'.bytes = fb.bytes := congr_content (fun _ => rfl) heq
  have hwidth : fb'.width = fb.width := congr_content (fun _ => rfl) heq
  have hheight : fb'.height = fb.height := congr_content (fun _ => rfl) heq
  exact ⟨hwidth ▸ h.width_pos, hheight ▸ h.height_pos, hbytes ▸ h.stored, hplane ▸ h.plane_wf⟩

end Framebuffer

namespace Frames

variable {table : FrameTable} {f : ℕ} {m : JuiceMsg} {data : List UInt8} {fd : Fd} {pid : Int32}

/-- **What holds of the frames at all times.** -/
structure Ok (fs : Frames) : Prop where
  /-- What is in the table is an object, not invalidated, of that window. -/
  entry : ∀ {hwnd f}, fs.table.lookup hwnd = some f →
    f < fs.next ∧ (fs.heap f).invalidated = false ∧ (fs.heap f).hwnd = hwnd
  /-- An object that is not invalidated is in the table. -/
  live : ∀ {f}, f < fs.next → (fs.heap f).invalidated = false →
    fs.table.lookup (fs.heap f).hwnd = some f
  /-- And it has the right size. -/
  shaped : ∀ {f}, f < fs.next → (fs.heap f).invalidated = false → (fs.heap f).Shaped
  count_le : fs.table.entries.length ≤ MAX_RETAINED_WINDOWS
  total_le : fs.total fs.table ≤ MAX_RETAINED_BYTES

theorem ok_empty : empty.Ok where
  entry h := by cases h
  live h := by cases h
  shaped h := by cases h
  count_le := Nat.zero_le _
  total_le := Nat.zero_le _

variable {fs fs' : Frames}

/-! ## Bytes retained -/

theorem total_congr (fs fs' : Frames)
    (h : ∀ hwnd f, table.lookup hwnd = some f → (fs'.heap f).length = (fs.heap f).length) :
    fs'.total table = fs.total table := by
  unfold total
  congr 1
  exact List.map_congr_left (fun e he => h e.1 e.2 (AList.mem_lookup_iff.mpr he))

theorem total_mono {table' : FrameTable} (h : table'.entries.Sublist table.entries) :
    fs.total table' ≤ fs.total table :=
  (h.map _).sum_le_sum (fun _ _ => Nat.zero_le _)

theorem entries_erase (table : FrameTable) (hwnd : UInt64) :
    (table.erase hwnd).entries = table.entries.kerase hwnd :=
  rfl

theorem total_insert (table : FrameTable) (hwnd : UInt64) (f : ℕ) :
    fs.total (table.insert hwnd f) = (fs.heap f).length + fs.total (table.erase hwnd) := by
  simp [total, AList.entries_insert, entries_erase]

/-! ## The operations -/

/-- Nothing but what deliveries have to do with is changed. -/
structure SameContent (fs fs' : Frames) : Prop where
  table_eq : fs'.table = fs.table
  next_eq : fs'.next = fs.next
  content_eq : ∀ f, (fs'.heap f).content = (fs.heap f).content

theorem SameContent.refl (fs : Frames) : fs.SameContent fs := ⟨rfl, rfl, fun _ => rfl⟩

theorem sameContent_modify (fs : Frames) (f : ℕ) {g : Framebuffer → Framebuffer}
    (hg : ∀ fb, (g fb).content = fb.content) : fs.SameContent (fs.modify f g) := by
  refine ⟨rfl, rfl, fun f' => ?_⟩
  by_cases h : f' = f
  · rw [h, modify_heap_self, hg]
  · rw [modify_heap_of_ne fs g h]

theorem Ok.sameContent (h : fs.Ok) (hsame : fs.SameContent fs') : fs'.Ok := by
  obtain ⟨htable, hnext, hcontent⟩ := hsame
  have hinv : ∀ f, (fs'.heap f).invalidated = (fs.heap f).invalidated :=
    fun f => Framebuffer.congr_content (fun _ => rfl) (hcontent f)
  have hhwnd : ∀ f, (fs'.heap f).hwnd = (fs.heap f).hwnd :=
    fun f => Framebuffer.congr_content (fun _ => rfl) (hcontent f)
  constructor
  · intro hwnd f hlook
    rw [hnext, hinv, hhwnd]
    exact h.entry (htable ▸ hlook)
  · intro f hf hi
    rw [hhwnd, htable]
    exact h.live (hnext ▸ hf) (hinv f ▸ hi)
  · intro f hf hi
    exact (h.shaped (hnext ▸ hf) (hinv f ▸ hi)).of_content (hcontent f)
  · exact htable ▸ h.count_le
  · rw [htable, total_congr fs fs' ?_]
    · exact h.total_le
    · exact fun _ f _ => Framebuffer.congr_content (fun _ => rfl) (hcontent f)

/-- An object stays where it is, with other bytes of the same size. -/
theorem Ok.modify (h : fs.Ok) {g : Framebuffer → Framebuffer}
    (hinv : (g (fs.heap f)).invalidated = (fs.heap f).invalidated)
    (hhwnd : (g (fs.heap f)).hwnd = (fs.heap f).hwnd)
    (hshaped : (fs.heap f).invalidated = false → f < fs.next → (g (fs.heap f)).Shaped)
    (hlen : (g (fs.heap f)).length = (fs.heap f).length) : (fs.modify f g).Ok := by
  have hinv' : ∀ f', ((fs.modify f g).heap f').invalidated = (fs.heap f').invalidated := by
    intro f'
    by_cases hf : f' = f
    · rw [hf, modify_heap_self, hinv]
    · rw [modify_heap_of_ne fs g hf]
  have hhwnd' : ∀ f', ((fs.modify f g).heap f').hwnd = (fs.heap f').hwnd := by
    intro f'
    by_cases hf : f' = f
    · rw [hf, modify_heap_self, hhwnd]
    · rw [modify_heap_of_ne fs g hf]
  constructor
  · intro hwnd f' hlook
    rw [hinv', hhwnd']
    exact h.entry hlook
  · intro f' hf' hi
    rw [hhwnd']
    exact h.live hf' (hinv' f' ▸ hi)
  · intro f' hf' hi
    rw [hinv'] at hi
    by_cases hf : f' = f
    · subst hf
      rw [modify_heap_self]
      exact hshaped hi hf'
    · rw [modify_heap_of_ne fs g hf]
      exact h.shaped hf' hi
  · exact h.count_le
  · rw [modify_table, total_congr fs _ ?_]
    · exact h.total_le
    · intro hwnd f' _
      by_cases hf : f' = f
      · rw [hf, modify_heap_self, hlen]
      · rw [modify_heap_of_ne fs g hf]

/-- Some of the entries are taken out of the table and their objects
invalidated. -/
theorem Ok.takeDown (h : fs.Ok) {heap : ℕ → Framebuffer} (gone : ℕ → Prop)
    (hgone : ∀ f, gone f → (heap f).invalidated = true) (hkept : ∀ f, ¬ gone f → heap f = fs.heap f)
    (hlook : ∀ hwnd f, table.lookup hwnd = some f ↔ fs.table.lookup hwnd = some f ∧ ¬ gone f)
    (hsub : table.entries.Sublist fs.table.entries) : (Frames.mk heap fs.next table).Ok := by
  have hnot : ∀ {f}, (heap f).invalidated = false → ¬ gone f := by
    intro f hi hg
    rw [hgone f hg] at hi
    cases hi
  constructor
  · intro hwnd f hf
    obtain ⟨hlk, hng⟩ := (hlook hwnd f).mp hf
    show f < fs.next ∧ (heap f).invalidated = false ∧ (heap f).hwnd = hwnd
    rw [hkept f hng]
    exact h.entry hlk
  · intro f hf hi
    have hng := hnot hi
    show table.lookup (heap f).hwnd = some f
    replace hi : (heap f).invalidated = false := hi
    rw [hkept f hng] at hi ⊢
    exact (hlook _ f).mpr ⟨h.live hf hi, hng⟩
  · intro f hf hi
    have hng := hnot hi
    show (heap f).Shaped
    replace hi : (heap f).invalidated = false := hi
    rw [hkept f hng] at hi ⊢
    exact h.shaped hf hi
  · exact hsub.length_le.trans h.count_le
  · show (Frames.mk heap fs.next table).total table ≤ _
    rw [total_congr fs _ ?_]
    · exact (total_mono hsub).trans h.total_le
    · intro hwnd f hf
      show (heap f).length = _
      rw [hkept f ((hlook hwnd f).mp hf).2]

/-- A new object is put in the table. -/
theorem Ok.insertNew (h : fs.Ok) (fb : Framebuffer) (hnone : fs.table.lookup fb.hwnd = none)
    (hcount : fs.table.entries.length < MAX_RETAINED_WINDOWS)
    (htotal : fs.total fs.table + fb.length ≤ MAX_RETAINED_BYTES) (hinv : fb.invalidated = false)
    (hshaped : fb.Shaped) : (fs.insertNew fb.hwnd fb).Ok := by
  have hnew : (fs.insertNew fb.hwnd fb).heap fs.next = fb := Function.update_self ..
  have hold : ∀ {f}, f ≠ fs.next → (fs.insertNew fb.hwnd fb).heap f = fs.heap f :=
    fun hf => Function.update_of_ne hf ..
  have hsplit : ∀ {f}, f < fs.next + 1 → f = fs.next ∨ f < fs.next := fun hf => by omega
  constructor
  · intro hwnd f hlook
    by_cases hw : hwnd = fb.hwnd
    · subst hw
      replace hlook : (fs.table.insert fb.hwnd fs.next).lookup fb.hwnd = some f := hlook
      rw [AList.lookup_insert, Option.some.injEq] at hlook
      subst hlook
      rw [hnew]
      exact ⟨Nat.lt_succ_self _, hinv, rfl⟩
    · obtain ⟨hf, hi, hh⟩ := h.entry ((AList.lookup_insert_ne hw).symm.trans hlook)
      rw [hold (Nat.ne_of_lt hf)]
      exact ⟨Nat.lt_succ_of_lt hf, hi, hh⟩
  · intro f hf hi
    rcases hsplit hf with rfl | hlt
    · rw [hnew]
      exact AList.lookup_insert _
    · rw [hold (Nat.ne_of_lt hlt)] at hi ⊢
      have hlook := h.live hlt hi
      refine (AList.lookup_insert_ne (fun heq => ?_)).trans hlook
      rw [heq, hnone] at hlook
      cases hlook
  · intro f hf hi
    rcases hsplit hf with rfl | hlt
    · rw [hnew]
      exact hshaped
    · rw [hold (Nat.ne_of_lt hlt)] at hi ⊢
      exact h.shaped hlt hi
  · show (fs.table.insert fb.hwnd fs.next).entries.length ≤ _
    rw [AList.entries_insert, List.length_cons]
    exact (Nat.succ_le_succ (List.kerase_sublist _ _).length_le).trans hcount
  · show (fs.insertNew fb.hwnd fb).total (fs.table.insert fb.hwnd fs.next) ≤ _
    have hle : (fs.insertNew fb.hwnd fb).total (fs.table.erase fb.hwnd) ≤ fs.total fs.table := by
      rw [total_congr fs _ ?_]
      · exact total_mono (List.kerase_sublist _ _)
      · intro hwnd f hlook
        have hne : hwnd ≠ fb.hwnd := by
          rintro rfl
          rw [AList.lookup_erase] at hlook
          cases hlook
        rw [AList.lookup_erase_ne hne] at hlook
        rw [hold (Nat.ne_of_lt (h.entry hlook).1)]
    rw [total_insert, hnew]
    omega

/-- The object of a window is taken down. -/
theorem Ok.erase (h : fs.Ok) {hwnd : UInt64} (hf : fs.table.lookup hwnd = some f) :
    Ok { fs.modify f Framebuffer.invalidate with table := fs.table.erase hwnd } := by
  refine h.takeDown (fun f' => f' = f) ?_ (fun f' hne => modify_heap_of_ne fs _ hne) ?_
    (List.kerase_sublist _ _)
  · rintro f' rfl
    show ((fs.modify f' Framebuffer.invalidate).heap f').invalidated = true
    rw [modify_heap_self]
    rfl
  · intro hwnd' f'
    by_cases hw : hwnd' = hwnd
    · subst hw
      rw [AList.lookup_erase, hf]
      simp [eq_comm]
    · rw [AList.lookup_erase_ne hw]
      refine ⟨fun hlook => ⟨hlook, ?_⟩, And.left⟩
      rintro rfl
      exact hw ((h.entry hlook).2.2.symm.trans (h.entry hf).2.2)

theorem erase_of_lookup_none {hwnd : UInt64} (h : table.lookup hwnd = none) :
    table.erase hwnd = table :=
  AList.ext (List.kerase_of_notMem_keys (AList.lookup_eq_none.mp h))

theorem insert_erase (table : FrameTable) (hwnd : UInt64) (f : ℕ) :
    (table.erase hwnd).insert hwnd f = table.insert hwnd f := by
  refine AList.ext ?_
  rw [AList.entries_insert, AList.entries_insert, entries_erase,
    List.kerase_of_notMem_keys (List.notMem_keys_kerase _ table.nodupKeys)]

theorem Ok.juiceInvalidateHWND (h : fs.Ok) (hwnd : UInt64) (fd : Fd) :
    (fs.juiceInvalidateHWND hwnd fd).Ok := by
  unfold Frames.juiceInvalidateHWND
  split
  · rename_i hnone
    rw [erase_of_lookup_none hnone]
    exact h
  · rename_i f hf
    split
    · exact h
    · exact h.erase hf

theorem Ok.juiceInvalidateClient (h : fs.Ok) (fd : Fd) : (fs.juiceInvalidateClient fd).Ok := by
  refine h.takeDown (fun f => fs.table.entries.any (fun e => e.2 = f) = true
    ∧ (fs.heap f).clientFD = fd) ?_ (fun f hf => if_neg hf) ?_ List.filter_sublist
  · intro f hf
    rw [if_pos hf]
    rfl
  · intro hwnd f
    rw [mem_lookup_keep, decide_eq_true_eq]
    refine and_congr_right (fun hlook => ⟨fun hne hg => hne hg.2, fun hng hfd => hng ⟨?_, hfd⟩⟩)
    exact any_entries_iff.mpr ⟨hwnd, hlook⟩

/-- Objects may have been taken down, and nothing else has happened to
them. -/
structure TakenDown (fs fs' : Frames) : Prop where
  next_eq : fs'.next = fs.next
  heap_eq : ∀ f, fs'.heap f = fs.heap f ∨ fs'.heap f = (fs.heap f).invalidate

theorem takenDown_juiceInvalidateHWND (fs : Frames) (hwnd : UInt64) (fd : Fd) :
    fs.TakenDown (fs.juiceInvalidateHWND hwnd fd) := by
  unfold Frames.juiceInvalidateHWND
  split
  · exact ⟨rfl, fun _ => .inl rfl⟩
  · rename_i f hf
    split
    · exact ⟨rfl, fun _ => .inl rfl⟩
    · refine ⟨rfl, fun f' => ?_⟩
      show (fs.modify f Framebuffer.invalidate).heap f' = _ ∨ _
      by_cases hf : f' = f
      · rw [hf]
        exact .inr (modify_heap_self ..)
      · exact .inl (modify_heap_of_ne fs _ hf)

theorem takenDown_juiceInvalidateClient (fs : Frames) (fd : Fd) :
    fs.TakenDown (fs.juiceInvalidateClient fd) := by
  refine ⟨rfl, fun f => ?_⟩
  unfold Frames.juiceInvalidateClient
  dsimp only
  split
  · exact .inr rfl
  · exact .inl rfl

theorem Ok.mergeDirty (h : fs.Ok) (hm : juiceDirtyHeaderValid m = true)
    (hlen : data.length = m.size.toNat) (hf : f < fs.next) (hfb : (fs.heap f).Accepts m fd pid) :
    (fs.modify f (fun fb => fb.merge m data fd pid)).Ok := by
  have hshaped := (h.shaped hf hfb.1).merge hm hlen hfb
  refine h.modify rfl rfl (fun _ _ => hshaped) ?_
  rw [hshaped.length_eq, (h.shaped hf hfb.1).length_eq]
  rfl

/-- **A full frame keeps the frames right and within the limits.** -/
theorem Ok.juiceApplyFull (h : fs.Ok) (happly : fs.juiceApplyFull m data fd pid = (fs', some f)) :
    fs'.Ok := by
  rcases juiceApplyFull_cases fs m data fd pid with
    heq | ⟨⟨hm, hlen, htotal⟩, ⟨hnone, hcount, heq⟩ | ⟨g, hg, hr, heq⟩ | ⟨g, hg, hr, heq⟩⟩
  · rw [heq] at happly
    cases happly
  · obtain ⟨rfl, -⟩ := Prod.mk.injEq .. ▸ heq.symm.trans happly
    rw [erase_of_lookup_none hnone] at htotal
    exact h.insertNew _ hnone hcount htotal rfl (Framebuffer.shaped_new hm hlen)
  · obtain ⟨rfl, -⟩ := Prod.mk.injEq .. ▸ heq.symm.trans happly
    obtain ⟨hgn, hinv, -⟩ := h.entry hg
    refine h.modify rfl rfl (fun _ _ => (h.shaped hgn hinv).reuse hr.2.2.2.2) ?_
    exact hr.2.2.2.2.symm
  · obtain ⟨rfl, -⟩ := Prod.mk.injEq .. ▸ heq.symm.trans happly
    -- taken down and made anew
    have herase := h.erase hg
    have hcount : (fs.table.erase m.hwnd).entries.length < MAX_RETAINED_WINDOWS := by
      refine Nat.lt_of_lt_of_le ?_ h.count_le
      have hmem : m.hwnd ∈ fs.table.keys := AList.lookup_isSome.mp (by rw [hg]; rfl)
      have hlt : (fs.table.erase m.hwnd).keys.length < fs.table.keys.length := by
        rw [AList.keys_erase, List.length_erase_of_mem hmem]
        exact Nat.pred_lt (List.length_pos_of_mem hmem).ne'
      simpa [AList.keys, List.keys] using hlt
    have hret : total { fs.modify g Framebuffer.invalidate with table := fs.table.erase m.hwnd }
        (fs.table.erase m.hwnd) = fs.total (fs.table.erase m.hwnd) := by
      refine total_congr fs _ (fun hwnd f' hlook => ?_)
      have hne : hwnd ≠ m.hwnd := by
        rintro rfl
        rw [AList.lookup_erase] at hlook
        cases hlook
      rw [AList.lookup_erase_ne hne] at hlook
      have hne' : f' ≠ g := by
        rintro rfl
        exact hne ((h.entry hlook).2.2.symm.trans (h.entry hg).2.2)
      show ((fs.modify g Framebuffer.invalidate).heap f').length = _
      rw [modify_heap_of_ne fs _ hne']
    have hnew := herase.insertNew (.new m data fd pid) (AList.lookup_erase _ _) hcount
      (by rw [hret]; exact htotal) rfl (Framebuffer.shaped_new hm hlen)
    simpa [Frames.insertNew, Framebuffer.new, insert_erase] using hnew

/-- The object `JuiceApplyFull` returns is the one in the table. -/
theorem lookup_juiceApplyFull (happly : fs.juiceApplyFull m data fd pid = (fs', some f)) :
    fs'.table.lookup m.hwnd = some f := by
  rcases juiceApplyFull_cases fs m data fd pid with
    heq | ⟨-, ⟨-, -, heq⟩ | ⟨g, hg, -, heq⟩ | ⟨g, -, -, heq⟩⟩ <;>
    cases heq.symm.trans happly
  · exact AList.lookup_insert _
  · exact hg
  · exact AList.lookup_insert _

/-- Objects are never given back. -/
theorem next_le_juiceApplyFull {o : Option ℕ} (happly : fs.juiceApplyFull m data fd pid = (fs', o))
    :
    fs.next ≤ fs'.next := by
  rcases juiceApplyFull_cases fs m data fd pid with
    heq | ⟨-, ⟨-, -, heq⟩ | ⟨g, -, -, heq⟩ | ⟨g, -, -, heq⟩⟩ <;>
    cases heq.symm.trans happly
  · exact le_rfl
  · exact Nat.le_succ _
  · exact le_rfl
  · exact Nat.le_succ _

end Frames

end Juice
