import Juice.Host.Budget

/-!
# No frame is lost

Frames arrive faster than they can be shown, so their delivery is
coalesced: a frame has a delivery in flight or it has none, its `scheduled`
flag says which, and a frame that changes while a delivery is in flight
gets no second one. What makes sure that the change is not lost is that the
delivery, before it ends, compares the generation it has taken with the one
the frame has by then.

Two facts carry the argument. The flag counts the deliveries (`Counts`), so
that the delivery that ends, and clears the flag, was the only one. And the
snapshot a delivery carries is the last one taken of its frame, so that a
delivery that ends because the generations agree leaves a frame that has
been shown as it is.
-/

namespace Juice

open Function JuiceMsg

/-! ## Flags and deliveries -/

/-- The flags count the deliveries. -/
def Counts (ds : List Delivery) (flag : ℕ → Bool) (n : ℕ) : Prop :=
  ∀ f < n, ds.countP (fun d => d.frame = f) = if flag f then 1 else 0

namespace Counts

variable {ds : List Delivery} {flag : ℕ → Bool} {n : ℕ} {d : Delivery}

theorem congr (h : Counts ds flag n) {flag' : ℕ → Bool} (heq : ∀ f < n, flag' f = flag f) :
    Counts ds flag' n := by
  intro f hf
  rw [heq f hf]
  exact h f hf

/-- A delivery goes on. -/
theorem set (h : Counts ds flag n) {i : ℕ} {d' : Delivery} (hd : ds[i]? = some d)
    (hframe : d'.frame = d.frame) : Counts (ds.set i d') flag n := by
  intro f hf
  have hset := Slots.countP_set hd (fun d => d.frame = f) d'
  rw [hframe] at hset
  rw [← h f hf]
  omega

/-- A frame with a delivery is flagged. -/
theorem flag_of_mem (h : Counts ds flag n) (hd : d ∈ ds) (hf : d.frame < n) :
    flag d.frame = true := by
  by_contra hflag
  have hzero := h d.frame hf
  rw [if_neg hflag] at hzero
  exact List.countP_eq_zero.mp hzero d hd (decide_eq_true rfl)

/-- A delivery ends, and its frame is no longer flagged. -/
theorem erase (h : Counts ds flag n) {i : ℕ} (hd : ds[i]? = some d) :
    Counts (ds.eraseIdx i) (Function.update flag d.frame false) n := by
  intro f hf
  have herase := Slots.countP_eraseIdx hd (fun d => d.frame = f)
  have hcount := h f hf
  by_cases hfd : d.frame = f
  · subst hfd
    rw [h.flag_of_mem (List.mem_of_getElem? hd) hf] at hcount
    simp only [decide_true, if_true] at herase hcount
    rw [update_self, if_neg Bool.false_ne_true]
    omega
  · rw [update_of_ne (Ne.symm hfd), ← hcount, ← herase]
    simp [hfd]

/-- A frame that is not flagged is scheduled. -/
theorem push (h : Counts ds flag n) {f : ℕ} (hflag : flag f = false) :
    Counts (ds ++ [.queued f]) (Function.update flag f true) n := by
  intro f' hf'
  have hcount := h f' hf'
  rw [List.countP_append, hcount]
  by_cases hf : f' = f
  · subst hf
    simp [Delivery.frame, hflag]
  · simp [Delivery.frame, update_of_ne hf, Ne.symm hf]

/-- Two deliveries of one frame are one. -/
theorem unique (h : Counts ds flag n) {d' : Delivery} (hd : d ∈ ds) (hd' : d' ∈ ds)
    (hframe : d.frame = d'.frame) (hf : d'.frame < n) : d = d' := by
  refine Slots.eq_of_countP_le_one (p := fun x => x.frame = d'.frame) ?_ hd hd'
    (decide_eq_true hframe) (decide_eq_true rfl)
  rw [h d'.frame hf]
  split <;> omega

end Counts

/-! ## What a reader does to the frames -/

/-- The frames have evolved: new ones are not flagged, flags have not
changed, and a frame that is not invalidated and has another generation is
one of those touched. -/
structure Frames.Evolves (fs fs' : Frames) (touched : ℕ → Prop) : Prop where
  next_le : fs.next ≤ fs'.next
  flag_eq : ∀ f < fs.next, (fs'.heap f).scheduled = (fs.heap f).scheduled
  fresh : ∀ f < fs'.next, fs.next ≤ f → (fs'.heap f).scheduled = false
  changed : ∀ f < fs'.next, (fs'.heap f).invalidated = false → touched f
    ∨ (f < fs.next ∧ (fs.heap f).invalidated = false
      ∧ (fs'.heap f).generation = (fs.heap f).generation)

namespace Frames

variable {fs fs' : Frames} {touched : ℕ → Prop}

theorem Evolves.refl (fs : Frames) (touched : ℕ → Prop) : fs.Evolves fs touched :=
  ⟨le_rfl, fun _ _ => rfl, fun _ h h' => absurd h (Nat.not_lt.mpr h'),
    fun _ h hi => .inr ⟨h, hi, rfl⟩⟩

theorem Evolves.trans {fs₁ fs₂ : Frames} (h₁ : fs.Evolves fs₁ touched)
    (h₂ : fs₁.Evolves fs₂ touched) : fs.Evolves fs₂ touched := by
  refine ⟨h₁.next_le.trans h₂.next_le, fun f hf => ?_, fun f hf hle => ?_, fun f hf hi => ?_⟩
  · exact (h₂.flag_eq f (hf.trans_le h₁.next_le)).trans (h₁.flag_eq f hf)
  · by_cases hlt : f < fs₁.next
    · exact (h₂.flag_eq f hlt).trans (h₁.fresh f hlt hle)
    · exact h₂.fresh f hf (Nat.not_lt.mp hlt)
  · rcases h₂.changed f hf hi with ht | ⟨hlt, hi', hgen⟩
    · exact .inl ht
    · exact (h₁.changed f hlt hi').imp_right (fun h => ⟨h.1, h.2.1, hgen.trans h.2.2⟩)

theorem TakenDown.evolves (h : fs.TakenDown fs') : fs.Evolves fs' touched := by
  refine ⟨h.next_eq.ge, fun f _ => ?_, fun f hf hle => ?_, fun f hf hi => ?_⟩
  · rcases h.heap_eq f with heq | heq <;> rw [heq]
    rfl
  · rw [h.next_eq] at hf
    exact absurd hf (Nat.not_lt.mpr hle)
  · rw [h.next_eq] at hf
    rcases h.heap_eq f with heq | heq <;> rw [heq] at hi ⊢
    · exact .inr ⟨hf, hi, rfl⟩
    · cases hi

/-- One object is touched. -/
theorem evolves_modify (f : ℕ) {g : Framebuffer → Framebuffer}
    (hg : ∀ fb, (g fb).scheduled = fb.scheduled) (hf : touched f) :
    fs.Evolves (fs.modify f g) touched := by
  refine ⟨le_rfl, fun f' _ => ?_, fun f' h h' => absurd h (Nat.not_lt.mpr h'), fun f' h hi => ?_⟩
  · by_cases hff : f' = f
    · rw [hff, modify_heap_self, hg]
    · rw [modify_heap_of_ne fs g hff]
  · by_cases hff : f' = f
    · exact .inl (hff ▸ hf)
    · rw [modify_heap_of_ne fs g hff] at hi ⊢
      exact .inr ⟨h, hi, rfl⟩

/-- A new object is made. -/
theorem evolves_insertNew (fs : Frames) (hwnd : UInt64) {fb : Framebuffer} (hfb : fb.scheduled = false)
    (hf : touched fs.next) : fs.Evolves (fs.insertNew hwnd fb) touched := by
  have hnew : (fs.insertNew hwnd fb).heap fs.next = fb := update_self ..
  have hold : ∀ {f}, f < fs.next → (fs.insertNew hwnd fb).heap f = fs.heap f :=
    fun hlt => update_of_ne (Nat.ne_of_lt hlt) ..
  have hsplit : ∀ {f}, f < fs.next + 1 → f = fs.next ∨ f < fs.next := fun h => by omega
  refine ⟨Nat.le_succ _, fun f h => by rw [hold h], fun f h hle => ?_, fun f h hi => ?_⟩
  · rcases hsplit h with rfl | hlt
    · rw [hnew, hfb]
    · exact absurd hlt (Nat.not_lt.mpr hle)
  · rcases hsplit h with rfl | hlt
    · exact .inl hf
    · rw [hold hlt] at hi ⊢
      exact .inr ⟨hlt, hi, rfl⟩

/-- `JuiceApplyFull` touches the object it returns. -/
theorem evolves_juiceApplyFull {m : JuiceMsg} {data : List UInt8} {fd : Fd} {pid : Int32} {f : ℕ}
    (h : fs.juiceApplyFull m data fd pid = (fs', some f)) (hf : touched f) :
    fs.Evolves fs' touched := by
  rcases juiceApplyFull_cases fs m data fd pid with
    heq | ⟨-, ⟨-, -, heq⟩ | ⟨g, -, -, heq⟩ | ⟨g, -, -, heq⟩⟩ <;> cases heq.symm.trans h
  · exact evolves_insertNew fs _ rfl hf
  · exact evolves_modify _ (fun _ => rfl) hf
  · -- the old object is invalidated, which takes it out of consideration
    have hdown : fs.TakenDown (fs.modify g Framebuffer.invalidate) := by
      refine ⟨rfl, fun f' => ?_⟩
      by_cases hff : f' = g
      · rw [hff]
        exact .inr (modify_heap_self ..)
      · exact .inl (modify_heap_of_ne fs _ hff)
    exact hdown.evolves.trans (evolves_insertNew _ _ rfl hf)

end Frames

namespace Transport

variable {t t' u : Transport} {r r' : Reader} {a : ReaderAction} {d : Delivery}

/-- The flag of a frame. -/
def flag (t : Transport) (f : ℕ) : Bool := (t.frames.heap f).scheduled

/-- A reader has applied a frame and not scheduled it yet. -/
def Held (t : Transport) (f : ℕ) : Prop := ∃ r ∈ t.readers, ∃ m, r.pc = .applied m f

/-- An action of a reader other than scheduling a frame. -/
theorem ReaderEffect.evolves (h : ReaderEffect t r a u r') (ha : a ≠ .schedule) :
    t.frames.Evolves u.frames (fun f => ∃ m, r'.pc = .applied m f)
      ∧ u.deliveries = t.deliveries ∧ u.snapshots = t.snapshots ∧ u.presented = t.presented := by
  cases h with
  | destroy => exact ⟨(Frames.takenDown_juiceInvalidateHWND ..).evolves, rfl, rfl, rfl⟩
  | @full m _ _ f _ _ hf =>
    have htouched : ∃ m', ReaderPc.applied m f = .applied m' f := ⟨m, rfl⟩
    exact ⟨Frames.evolves_juiceApplyFull hf htouched, rfl, rfl, rfl⟩
  | @merged m data f _ _ =>
    have htouched : ∃ m', ReaderPc.applied m f = .applied m' f := ⟨m, rfl⟩
    have hg : ∀ fb : Framebuffer, (fb.merge m data r.fd r.peerPID).scheduled = fb.scheduled :=
      fun _ => rfl
    exact ⟨Frames.evolves_modify f hg htouched, rfl, rfl, rfl⟩
  | schedule => exact absurd rfl ha
  | invalidate => exact ⟨(Frames.takenDown_juiceInvalidateClient ..).evolves, rfl, rfl, rfl⟩
  | _ => exact ⟨.refl _ _, rfl, rfl, rfl⟩

/-- Only scheduling it makes a reader let go of a frame it has applied. -/
theorem ReaderEffect.held {c : ℕ} (h : ReaderEffect t r a u r') (hr : t.readers[c]? = some r)
    (ha : a ≠ .schedule) {f : ℕ} (hf : t.Held f) :
    Held { u with readers := t.readers.set c r' } f := by
  obtain ⟨x, hx, m, hm⟩ := hf
  rcases Slots.mem_set_or_eq hr r' hx with hx | rfl
  · exact ⟨x, hx, m, hm⟩
  · cases h with
    | schedule => exact absurd rfl ha
    | _ hpc =>
      rw [hm] at hpc
      cases hpc

/-! ## Deliveries -/

/-- **What holds of the deliveries at all times**, in runs where snapshots
can be copied. -/
structure Delivered (t : Transport) : Prop where
  /-- A frame has one delivery if it is flagged, and none if it is not. -/
  counts : Counts t.deliveries t.flag t.frames.next
  /-- The snapshot a delivery carries is the last one of its frame. -/
  last : ∀ f s, (.block f s ∈ t.deliveries ∨ ∃ p, .presenting f s p ∈ t.deliveries) →
    t.snapshots f = some s.generation
  /-- A frame that has changed since its last snapshot is going to be
  delivered. -/
  stale : ∀ f < t.frames.next, (t.frames.heap f).invalidated = false →
    t.snapshots f ≠ some (t.frames.heap f).generation → t.flag f = true ∨ t.Held f
  copied : ∀ f, .failed f ∉ t.deliveries

theorem delivered_start : start.Delivered where
  counts f hf := by cases hf
  last f s h := by rcases h with h | ⟨p, h⟩ <;> cases h
  stale f hf := by cases hf
  copied f h := by cases h

theorem flag_modify (fs : Frames) (f : ℕ) {g : Framebuffer → Framebuffer}
    (hg : ∀ fb, (g fb).scheduled = fb.scheduled) (f' : ℕ) :
    ((fs.modify f g).heap f').scheduled = (fs.heap f').scheduled := by
  by_cases hf : f' = f
  · rw [hf, Frames.modify_heap_self, hg]
  · rw [Frames.modify_heap_of_ne fs g hf]

/-- Changing the flag of a frame. -/
theorem flag_modify_eq (fs : Frames) (f : ℕ) {g : Framebuffer → Framebuffer} {b : Bool}
    (hg : ∀ fb, (g fb).scheduled = b) (f' : ℕ) :
    ((fs.modify f g).heap f').scheduled
      = Function.update (fun f => (fs.heap f).scheduled) f b f' := by
  by_cases hf : f' = f
  · rw [hf, Frames.modify_heap_self, hg, update_self]
  · rw [Frames.modify_heap_of_ne fs g hf, update_of_ne hf]

/-- What has changed since its last snapshot is taken care of, also when the
flags have changed since. -/
theorem Delivered.flag_or_held (h : t.Delivered) {fs : Frames} (hsame : t.frames.SameContent fs)
    {f : ℕ} (hf : f < fs.next) (hi : (fs.heap f).invalidated = false)
    (hne : t.snapshots f ≠ some (fs.heap f).generation) : t.flag f = true ∨ t.Held f := by
  have hinv : (fs.heap f).invalidated = (t.frames.heap f).invalidated :=
    Framebuffer.congr_content (fun _ => rfl) (hsame.content_eq f)
  have hgen : (fs.heap f).generation = (t.frames.heap f).generation :=
    Framebuffer.congr_content (fun _ => rfl) (hsame.content_eq f)
  exact h.stale f (hsame.next_eq ▸ hf) (hinv ▸ hi) (hgen ▸ hne)

/-- After a frame is scheduled it is flagged, unless it is invalidated. -/
theorem flag_juiceScheduleFrame (t : Transport) (f : ℕ) (first : Bool) (f' : ℕ) :
    (t.juiceScheduleFrame f first).flag f'
      = if (t.frames.heap f).invalidated then t.flag f' else Function.update t.flag f true f' := by
  unfold juiceScheduleFrame
  split
  · rfl
  · exact flag_modify_eq t.frames f (fun _ => rfl) f'

theorem counts_juiceScheduleFrame (h : Counts t.deliveries t.flag t.frames.next) (f : ℕ)
    (first : Bool) :
    Counts (t.juiceScheduleFrame f first).deliveries (t.juiceScheduleFrame f first).flag
      t.frames.next := by
  refine Counts.congr ?_ (fun f' _ => flag_juiceScheduleFrame t f first f')
  unfold juiceScheduleFrame
  split
  · exact h
  · dsimp only
    split
    · rename_i hs
      refine h.congr (fun f' _ => ?_)
      rw [show true = t.flag f from hs.symm, update_eq_self]
    · rename_i hs
      exact h.push (by simpa [flag] using hs)

/-- **Scheduling a frame puts a delivery in flight if there is none.** -/
theorem Delivered.schedule (h : t.Delivered) {c f : ℕ} {m : JuiceMsg} (hr : t.readers[c]? = some r)
    (hpc : r.pc = .applied m f) (r' : Reader) :
    Delivered { t.juiceScheduleFrame f r.firstFrame with readers := t.readers.set c r' } := by
  have hsame := sameContent_juiceScheduleFrame t f r.firstFrame
  have hsnap : (t.juiceScheduleFrame f r.firstFrame).snapshots = t.snapshots := by
    unfold juiceScheduleFrame
    split <;> rfl
  refine ⟨?_, fun f' s hmem => ?_, fun f' hf' hi hne => ?_, fun f' hmem => ?_⟩
  · show Counts _ _ (t.juiceScheduleFrame f r.firstFrame).frames.next
    rw [hsame.next_eq]
    exact counts_juiceScheduleFrame h.counts f r.firstFrame
  · refine (congrFun hsnap f').trans (h.last f' s ?_)
    refine hmem.imp (fun hm => ?_) (fun ⟨p, hm⟩ => ⟨p, ?_⟩) <;>
      exact (mem_juiceScheduleFrame hm).resolve_right (by simp)
  · -- the reader lets go of the frame, and the frame is flagged
    show (t.juiceScheduleFrame f r.firstFrame).flag f' = true ∨ _
    rw [flag_juiceScheduleFrame]
    by_cases hff : f' = f
    · subst hff
      have hinv : (t.frames.heap f').invalidated = false :=
        (Framebuffer.congr_content (fun _ => rfl) (hsame.content_eq f')).symm.trans hi
      simp [hinv]
    · rcases h.flag_or_held hsame hf' hi (hsnap ▸ hne) with hs | ⟨x, hx, m', hm'⟩
      · left
        split
        · exact hs
        · rw [update_of_ne hff, hs]
      · rcases Slots.mem_set_or_eq hr r' hx with hx | rfl
        · exact .inr ⟨x, hx, m', hm'⟩
        · rw [hm'] at hpc
          cases hpc
          exact absurd rfl hff
  · exact h.copied f' ((mem_juiceScheduleFrame hmem).resolve_right (by simp))

/-- Any other action of a reader. -/
theorem Delivered.reader (h : t.Delivered) (hinv : t.Inv) {c : ℕ} (hr : t.readers[c]? = some r)
    (e : ReaderEffect t r a u r') (ha : a ≠ .schedule) :
    Delivered { u with readers := t.readers.set c r' } := by
  obtain ⟨hev, hds, hsnap, -⟩ := e.evolves ha
  refine ⟨fun f hf => ?_, ?_, fun f hf hi hne => ?_, ?_⟩
  · show u.deliveries.countP _ = if (u.frames.heap f).scheduled then 1 else 0
    rw [hds]
    by_cases hlt : f < t.frames.next
    · rw [hev.flag_eq f hlt]
      exact h.counts f hlt
    · -- there is no delivery of an object not made yet
      rw [hev.fresh f hf (Nat.not_lt.mp hlt)]
      refine List.countP_eq_zero.mpr (fun d hd hdf => hlt ?_)
      rw [← of_decide_eq_true hdf]
      exact hinv.deliveries d hd
  · show ∀ f s, (_ ∈ u.deliveries ∨ ∃ p, _ ∈ u.deliveries) → u.snapshots f = _
    rw [hds, hsnap]
    exact h.last
  · rcases hev.changed f hf hi with ⟨m, hm⟩ | ⟨hlt, hi', hgen⟩
    · have hmem : r' ∈ t.readers.set c r' :=
        List.mem_of_getElem? (Slots.getElem?_set_self hr r')
      exact .inr ⟨r', hmem, m, hm⟩
    · have hne' : t.snapshots f ≠ some (t.frames.heap f).generation := by
        rw [← hsnap, ← hgen]
        exact hne
      rcases h.stale f hlt hi' hne' with hs | hs
      · exact .inl ((hev.flag_eq f hlt).trans hs)
      · exact .inr (e.held hr ha hs)
  · show ∀ f, _ ∉ u.deliveries
    rw [hds]
    exact h.copied

/-- Flags, content and deliveries as they were. -/
theorem Delivered.sameFlags (h : t.Delivered) {fs : Frames} (hsame : t.frames.SameContent fs)
    (hflag : ∀ f, (fs.heap f).scheduled = t.flag f) (presented : List Presented) :
    Delivered { t with frames := fs, presented } := by
  refine ⟨?_, h.last, fun f hf hi hne => ?_, h.copied⟩
  · show Counts _ _ fs.next
    rw [hsame.next_eq]
    exact h.counts.congr (fun f _ => hflag f)
  · exact (h.flag_or_held hsame hf hi hne).imp_left (fun hs => (hflag f).trans hs)

/-- A delivery goes on. -/
theorem Delivered.redeliver (h : t.Delivered) {i : ℕ} {d' : Delivery}
    (hd : t.deliveries[i]? = some d) (hframe : d'.frame = d.frame)
    (hlast : ∀ f s, (d' = .block f s ∨ ∃ p, d' = .presenting f s p) →
      t.snapshots f = some s.generation) (hcopied : ∀ f, d' ≠ .failed f) :
    (t.redeliver i d').Delivered := by
  refine ⟨h.counts.set hd hframe, fun f s hmem => ?_, h.stale, fun f hmem => ?_⟩
  · rcases hmem with hmem | ⟨p, hmem⟩ <;> rcases List.mem_or_eq_of_mem_set hmem with hm | heq
    · exact h.last f s (.inl hm)
    · exact hlast f s (.inl heq.symm)
    · exact h.last f s (.inr ⟨p, hm⟩)
    · exact hlast f s (.inr ⟨p, heq.symm⟩)
  · rcases List.mem_or_eq_of_mem_set hmem with hm | heq
    · exact h.copied f hm
    · exact hcopied f heq.symm

/-- A snapshot is recorded, of a frame whose delivery carries none. -/
theorem Delivered.snapshot (h : t.Delivered) {f : ℕ} (hq : .queued f ∈ t.deliveries)
    (hf : f < t.frames.next) :
    Delivered { t with
      snapshots := Function.update t.snapshots f (some (t.frames.heap f).generation) } := by
  refine ⟨h.counts, fun f' s hmem => ?_, fun f' hf' hi hne => ?_, h.copied⟩
  · have hff : f' ≠ f := by
      rintro rfl
      rcases hmem with hmem | ⟨p, hmem⟩ <;> cases h.counts.unique hq hmem rfl hf
    exact (update_of_ne hff ..).trans (h.last f' s hmem)
  · refine h.stale f' hf' hi (fun heq => hne ?_)
    by_cases hff : f' = f
    · subst hff
      exact update_self ..
    · exact (update_of_ne hff ..).trans heq

/-- A delivery ends, of a frame that is invalidated or was shown as it
is. -/
theorem Delivered.unschedule (h : t.Delivered) {i : ℕ} (hd : t.deliveries[i]? = some d)
    (hdone : (t.frames.heap d.frame).invalidated = true
      ∨ t.snapshots d.frame = some (t.frames.heap d.frame).generation) :
    (t.unschedule i d.frame).Delivered := by
  have hflag : ∀ f, (t.unschedule i d.frame).flag f = Function.update t.flag d.frame false f :=
    flag_modify_eq t.frames d.frame (fun _ => rfl)
  have hsame : t.frames.SameContent (t.unschedule i d.frame).frames :=
    Frames.sameContent_modify _ _ Framebuffer.content_unschedule
  refine ⟨(h.counts.erase hd).congr (fun f _ => hflag f), fun f s hmem => ?_,
    fun f hf hi hne => ?_, fun f hmem => h.copied f (List.mem_of_mem_eraseIdx hmem)⟩
  · exact h.last f s (hmem.imp List.mem_of_mem_eraseIdx
      (fun ⟨p, hm⟩ => ⟨p, List.mem_of_mem_eraseIdx hm⟩))
  · have hff : f ≠ d.frame := by
      rintro rfl
      rcases hdone with hd' | hd'
      · have := (Framebuffer.congr_content (fun _ => rfl) (hsame.content_eq d.frame)).symm.trans hi
        rw [hd'] at this
        cases this
      · refine hne (hd'.trans (congrArg some ?_))
        exact (Framebuffer.congr_content (fun _ => rfl) (hsame.content_eq d.frame)).symm
    refine (h.flag_or_held hsame hf hi hne).imp_left (fun hs => ?_)
    rw [hflag, update_of_ne hff, hs]

/-- **An action of a delivery whose copy, if it makes one, succeeds.** -/
theorem Delivered.delivery (h : t.Delivered) (hinv : t.Inv) {i : ℕ} {a : DeliveryAction}
    (hd : t.deliveries[i]? = some d) (e : DeliveryEffect t i d a t')
    (ha : ∀ now fps, a ≠ .deliver now fps false) : t'.Delivered := by
  have hmem := List.mem_of_getElem? hd
  cases e with
  | stale hi => exact h.unschedule hd (.inl hi)
  | delay => exact h.redeliver hd rfl (by simp) (by simp)
  | @copy f now fps hi =>
    have hflag : ∀ f', ((t.frames.modify f (fun fb => fb.taken now)).heap f').scheduled
        = t.flag f' := flag_modify t.frames f (fun _ => rfl)
    have hsame := Frames.sameContent_modify t.frames f (Framebuffer.content_taken now)
    refine Delivered.redeliver (d := .queued f)
      ((h.snapshot hmem (hinv.deliveries _ hmem)).sameFlags hsame hflag t.presented) hd rfl ?_
      (by simp)
    intro f' s heq
    simp only [Delivery.block.injEq, reduceCtorEq, exists_false, or_false] at heq
    obtain ⟨rfl, rfl⟩ := heq
    exact update_self ..
  | fail => exact absurd rfl (ha _ _)
  | elapse => exact h.redeliver hd rfl (by simp) (by simp)
  | @abandon f => exact absurd hmem (h.copied f)
  | @present f s hs =>
    refine Delivered.redeliver (d := .block f s) (h.sameFlags
      (Frames.sameContent_modify _ f Framebuffer.content_render)
      (flag_modify t.frames f (fun _ => rfl)) _) hd rfl ?_ (by simp)
    intro f' s' heq
    simp only [reduceCtorEq, Delivery.presenting.injEq, exists_and_left, exists_eq', and_true,
      false_or] at heq
    obtain ⟨rfl, rfl⟩ := heq
    exact h.last f s (.inl hmem)
  | @discard f s hs =>
    refine h.redeliver hd rfl ?_ (by simp)
    intro f' s' heq
    simp only [reduceCtorEq, Delivery.presenting.injEq, exists_and_left, exists_eq', and_true,
      false_or] at heq
    obtain ⟨rfl, rfl⟩ := heq
    exact h.last f s (.inl hmem)
  | again => exact h.redeliver hd rfl (by simp) (by simp)
  | @done f s p hdone =>
    refine h.unschedule hd (hdone.imp_right (fun hgen => ?_))
    exact (h.last f s (.inr ⟨p, hmem⟩)).trans (congrArg some hgen.symm)

/-! ## Whole runs -/

/-- The copy of a frame's bytes succeeds wherever one is made. -/
def copiesSucceed (_ : Transport) : Action → Bool
  | .delivery _ (.deliver _ _ copied) => copied
  | _ => true

/-- In every run whose copies succeed. -/
theorem delivered_of_reachable (h : (machine.restrict copiesSucceed).Reachable t) :
    t.Delivered := by
  suffices hinv : t.Inv ∧ t.Delivered from hinv.2
  refine h.invariant (I := fun t => t.Inv ∧ t.Delivered) ⟨inv_start, delivered_start⟩ ?_
  rintro t a t' - ⟨hinv, hdel⟩ hst
  obtain ⟨hcopied, hst⟩ := Machine.restrict_step.mp hst
  refine ⟨hinv.step hst, ?_⟩
  cases effect_of_step hst with
  | accept =>
    refine ⟨hdel.counts, hdel.last, fun f hf hi hne => ?_, hdel.copied⟩
    refine (hdel.stale f hf hi hne).imp_right (fun ⟨r, hr, hm⟩ => ⟨r, ?_, hm⟩)
    exact List.mem_append_left _ hr
  | @reader c r r' a u hr e =>
    by_cases ha : a = .schedule
    · subst ha
      cases e with
      | schedule hpc => exact hdel.schedule hr hpc _
    · exact hdel.reader hinv hr e ha
  | @delivery i d a _ hd e =>
    refine hdel.delivery hinv hd e ?_
    rintro now fps rfl
    cases hcopied

/-- **No frame is lost**: the flags and the deliveries agree, what has
changed is going to be delivered, and what is presented is fit to be. -/
structure Coalesced (t : Transport) : Prop where
  /-- A frame has at most one delivery in flight. -/
  at_most_one : ∀ f < t.frames.next, t.deliveries.countP (fun d => d.frame = f) ≤ 1
  /-- It has exactly one if its flag is set. -/
  exactly_one : ∀ f < t.frames.next, (t.frames.heap f).scheduled = true →
    t.deliveries.countP (fun d => d.frame = f) = 1
  /-- A frame that is not invalidated, and whose generation is not that of
  its last snapshot, is scheduled, or a reader is about to schedule it. -/
  no_lost : ∀ f < t.frames.next, (t.frames.heap f).invalidated = false →
    t.snapshots f ≠ some (t.frames.heap f).generation →
    (t.frames.heap f).scheduled = true ∨ ∃ r ∈ t.readers, ∃ m, r.pc = .applied m f
  /-- A step presents nothing, or it is the decision to present the snapshot
  of a delivery, and the frame is not invalidated and has the descriptor
  and the process recorded with the snapshot. -/
  decided : ∀ a t', t.step a = some t' → t'.presented = t.presented
    ∨ ∃ i f s, a = .delivery i .decide ∧ t.deliveries[i]? = some (.block f s)
      ∧ t'.presented = t.presented ++ [Presented.mk f s (t.frames.heap f)]
      ∧ (t.frames.heap f).invalidated = false
      ∧ (t.frames.heap f).clientFD = s.clientFD ∧ (t.frames.heap f).peerPID = s.peerPID

/-- What a step presents. -/
theorem presented_of_step {a : Action} (hst : t.step a = some t') :
    t'.presented = t.presented
      ∨ ∃ i f s, a = .delivery i .decide ∧ t.deliveries[i]? = some (.block f s)
        ∧ t'.presented = t.presented ++ [Presented.mk f s (t.frames.heap f)]
        ∧ (t.frames.heap f).Presents s := by
  cases effect_of_step hst with
  | accept => exact .inl rfl
  | @reader c r r' a u hr e =>
    left
    cases e with
    | schedule =>
      show (t.juiceScheduleFrame _ _).presented = _
      unfold juiceScheduleFrame
      split <;> rfl
    | _ => rfl
  | @delivery i d a _ hd e =>
    cases e with
    | @present f s hs => exact .inr ⟨i, f, s, rfl, hd, rfl, hs⟩
    | _ => exact .inl rfl

/-- **In every run whose copies succeed, no frame is lost.** -/
theorem coalesced_of_reachable (t : Transport)
    (h : (machine.restrict copiesSucceed).Reachable t) : t.Coalesced := by
  have hdel := delivered_of_reachable h
  refine ⟨fun f hf => ?_, fun f hf hs => ?_, hdel.stale, fun a t' hst => presented_of_step hst⟩
  · rw [hdel.counts f hf]
    split <;> omega
  · rw [hdel.counts f hf]
    exact if_pos hs

/-- A frame changes while its snapshot is on the main queue. -/
def changedMeanwhile : List Action :=
  [.accept 3, .reader 0 (.header (pixel 7 0)), .reader 0 .reserve, .reader 0 (.payload [1, 2, 3, 4]),
    .reader 0 .apply, .reader 0 .schedule, .reader 0 .release,
    .delivery 0 (.deliver 1 60 true), .delivery 0 .decide,
    .reader 0 (.header (pixel 7 DIRTY)), .reader 0 .reserve, .reader 0 (.payload [5, 6, 7, 8]),
    .reader 0 .apply, .reader 0 .merge, .reader 0 .schedule, .delivery 0 .finish]

/-- The change is on its way again. -/
theorem coalesced_changedMeanwhile :
    ∃ t, (machine.restrict copiesSucceed).run changedMeanwhile = some t
      ∧ t.presented.length = 1 ∧ t.deliveries = [.queued 0]
      ∧ t.snapshots 0 ≠ some (t.frames.heap 0).generation ∧ t.Coalesced := by
  obtain ⟨t, ht, hpresented, hdeliveries, hne⟩ : ∃ t,
      (machine.restrict copiesSucceed).run changedMeanwhile = some t ∧ t.presented.length = 1
        ∧ t.deliveries = [.queued 0] ∧ t.snapshots 0 ≠ some (t.frames.heap 0).generation := by
    decide +kernel
  exact ⟨t, ht, hpresented, hdeliveries, hne, coalesced_of_reachable t (.of_run ht)⟩

end Transport

end Juice
