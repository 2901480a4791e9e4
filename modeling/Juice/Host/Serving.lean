import Juice.Host.Budget

/-!
# The host shows what its records say

A connection describes planes (`Mirror`), and the host retains frames. Here
the two are compared: as long as a reader goes on, the frame of a window is
the plane that the records it has handled show there, and is owned by the
reader's connection (`Serves`). This is the host's half of the display being
a mirror of the client's surfaces.

What another connection does cannot disturb this – it does not own the
frame, and its descriptor is another one – with one exception: a full frame
is accepted from anyone. It is a hypothesis here that another connection
sends none for a window that is shown; two later modules use the lemmas, one
where it is met because connections take turns, and one where it is not.
-/

namespace Juice

open Function JuiceMsg ByteSeq

/-! ## Entries that stay -/

namespace Frames

/-- The entry of a window stays, and so does what is in the frame. -/
structure Keeps (fs fs' : Frames) (hwnd : UInt64) (f : ℕ) : Prop where
  lookup_eq : fs'.table.lookup hwnd = some f
  content_eq : (fs'.heap f).content = (fs.heap f).content

variable {fs fs' : Frames} {hwnd : UInt64} {f : ℕ} {fd : Fd} {m : JuiceMsg} {data : List UInt8}
  {pid : Int32}

theorem SameContent.keeps (h : fs.SameContent fs') (hf : fs.table.lookup hwnd = some f) :
    fs.Keeps fs' hwnd f :=
  ⟨h.table_eq ▸ hf, h.content_eq f⟩

/-- A `DESTROY` leaves other windows, and what it does not own. -/
theorem keeps_juiceInvalidateHWND (hok : fs.Ok) (hf : fs.table.lookup hwnd = some f)
    {hwnd' : UInt64} (h : hwnd ≠ hwnd' ∨ (fs.heap f).clientFD ≠ fd) :
    fs.Keeps (fs.juiceInvalidateHWND hwnd' fd) hwnd f := by
  unfold Frames.juiceInvalidateHWND
  split
  · rename_i hnone
    rw [erase_of_lookup_none hnone]
    exact ⟨hf, rfl⟩
  · rename_i g hg
    split
    · exact ⟨hf, rfl⟩
    · rename_i hfd
      rw [not_not] at hfd
      have hne : hwnd ≠ hwnd' := by
        rcases h with h | h
        · exact h
        · rintro rfl
          rw [hg, Option.some.injEq] at hf
          exact h (hf ▸ hfd)
      have hfg : f ≠ g := by
        rintro rfl
        exact hne ((hok.entry hf).2.2.symm.trans (hok.entry hg).2.2)
      refine ⟨(AList.lookup_erase_ne hne).trans hf, ?_⟩
      show ((fs.modify g Framebuffer.invalidate).heap f).content = _
      rw [modify_heap_of_ne fs _ hfg]

/-- The end of a connection leaves what it does not own. -/
theorem keeps_juiceInvalidateClient (hf : fs.table.lookup hwnd = some f)
    (h : (fs.heap f).clientFD ≠ fd) : fs.Keeps (fs.juiceInvalidateClient fd) hwnd f := by
  refine ⟨mem_lookup_keep.mpr ⟨hf, decide_eq_true h⟩, ?_⟩
  show (if _ then _ else fs.heap f).content = _
  rw [if_neg (fun hh => h hh.2)]

/-- A full frame leaves other windows. -/
theorem keeps_juiceApplyFull (hok : fs.Ok) (hf : fs.table.lookup hwnd = some f) {o : Option ℕ}
    (happly : fs.juiceApplyFull m data fd pid = (fs', o)) (h : hwnd ≠ m.hwnd) :
    fs.Keeps fs' hwnd f := by
  have hlt := (hok.entry hf).1
  have hother : ∀ g, fs.table.lookup m.hwnd = some g → f ≠ g := by
    rintro g hg rfl
    exact h ((hok.entry hf).2.2.symm.trans (hok.entry hg).2.2)
  rcases juiceApplyFull_cases fs m data fd pid with
    heq | ⟨-, ⟨-, -, heq⟩ | ⟨g, hg, -, heq⟩ | ⟨g, hg, -, heq⟩⟩ <;>
    cases heq.symm.trans happly
  · exact ⟨hf, rfl⟩
  · refine ⟨(AList.lookup_insert_ne h).trans hf, ?_⟩
    show (Function.update fs.heap fs.next _ f).content = _
    rw [update_of_ne (Nat.ne_of_lt hlt)]
  · refine ⟨hf, ?_⟩
    rw [modify_heap_of_ne fs _ (hother g hg)]
  · refine ⟨(AList.lookup_insert_ne h).trans hf, ?_⟩
    show (Function.update (fs.modify g Framebuffer.invalidate).heap fs.next _ f).content = _
    rw [update_of_ne (Nat.ne_of_lt hlt), modify_heap_of_ne fs _ (hother g hg)]

/-- A change to another object. -/
theorem keeps_modify (hf : fs.table.lookup hwnd = some f) {f' : ℕ}
    (g : Framebuffer → Framebuffer) (h : f ≠ f') : fs.Keeps (fs.modify f' g) hwnd f := by
  refine ⟨hf, ?_⟩
  rw [modify_heap_of_ne fs g h]

/-- The object `JuiceApplyFull` returns holds the frame, for its sender. -/
theorem heap_juiceApplyFull {f : ℕ} (happly : fs.juiceApplyFull m data fd pid = (fs', some f)) :
    (fs'.heap f).plane = Content.plane (m, data) ∧ (fs'.heap f).clientFD = fd
      ∧ (fs'.heap f).peerPID = pid := by
  rcases juiceApplyFull_cases fs m data fd pid with
    heq | ⟨-, ⟨-, -, heq⟩ | ⟨g, hg, hr, heq⟩ | ⟨g, hg, -, heq⟩⟩ <;>
    cases heq.symm.trans happly
  · show (Function.update fs.heap fs.next _ fs.next).plane = _ ∧ _
    simp [insertNew, Framebuffer.new, Framebuffer.plane, Content.plane, cols, rows]
  · obtain ⟨-, hw, hh, hs, -⟩ := hr
    rw [modify_heap_self]
    simp [Framebuffer.reuse, Framebuffer.plane, Content.plane, cols, rows, hw, hh, hs]
  · simp [insertNew, Framebuffer.new, Framebuffer.plane, Content.plane, cols, rows]

theorem TakenDown.hwnd_eq (h : fs.TakenDown fs') (f : ℕ) :
    (fs'.heap f).hwnd = (fs.heap f).hwnd := by
  rcases h.heap_eq f with heq | heq <;> rw [heq]
  rfl

theorem hwnd_modify (fs : Frames) (f : ℕ) {g : Framebuffer → Framebuffer}
    (hg : ∀ fb, (g fb).hwnd = fb.hwnd) (f' : ℕ) :
    ((fs.modify f g).heap f').hwnd = (fs.heap f').hwnd := by
  by_cases h : f' = f
  · rw [h, modify_heap_self, hg]
  · rw [modify_heap_of_ne fs g h]

theorem hwnd_juiceApplyFull {o : Option ℕ} (happly : fs.juiceApplyFull m data fd pid = (fs', o))
    {f : ℕ} (hf : f < fs.next) : (fs'.heap f).hwnd = (fs.heap f).hwnd := by
  rcases juiceApplyFull_cases fs m data fd pid with
    heq | ⟨-, ⟨-, -, heq⟩ | ⟨g, -, -, heq⟩ | ⟨g, -, -, heq⟩⟩ <;>
    cases heq.symm.trans happly
  · rfl
  · exact congrArg Framebuffer.hwnd (update_of_ne (Nat.ne_of_lt hf) ..)
  · have hreuse : ∀ fb : Framebuffer, (fb.reuse data fd pid).hwnd = fb.hwnd := fun _ => rfl
    exact hwnd_modify fs g hreuse f
  · have hinvalidate : ∀ fb : Framebuffer, fb.invalidate.hwnd = fb.hwnd := fun _ => rfl
    refine (congrArg Framebuffer.hwnd (update_of_ne (Nat.ne_of_lt hf) ..)).trans ?_
    exact hwnd_modify fs g hinvalidate f

end Frames

namespace Transport

variable {t t' u : Transport} {r r' : Reader} {a : ReaderAction}

/-- **What another connection leaves alone**: a frame it does not own, as
long as it sends no full frame for its window. -/
theorem ReaderEffect.keeps (e : ReaderEffect t r a u r') (hok : t.frames.Ok) {hwnd : UInt64}
    {f : ℕ} (hf : t.frames.table.lookup hwnd = some f) (hfd : (t.frames.heap f).clientFD ≠ r.fd)
    (hfull : ∀ m data, a = .apply → r.pc = .loaded m data → m.dirty = false → m.hwnd ≠ hwnd) :
    t.frames.Keeps u.frames hwnd f := by
  cases e with
  | destroy => exact Frames.keeps_juiceInvalidateHWND hok hf (.inr hfd)
  | full hpc hm happly =>
    exact Frames.keeps_juiceApplyFull hok hf happly (hfull _ _ rfl hpc hm).symm
  | @merged m data g hpc hacc =>
    refine Frames.keeps_modify hf (fun fb => fb.merge m data r.fd r.peerPID) ?_
    rintro rfl
    exact hfd hacc.2.1
  | schedule => exact (sameContent_juiceScheduleFrame ..).keeps hf
  | invalidate => exact Frames.keeps_juiceInvalidateClient hf hfd
  | _ => exact ⟨hf, rfl⟩

/-- The window of an object never changes. -/
theorem ReaderEffect.hwnd_eq (e : ReaderEffect t r a u r') {f : ℕ} (hf : f < t.frames.next) :
    (u.frames.heap f).hwnd = (t.frames.heap f).hwnd := by
  cases e with
  | destroy => exact (Frames.takenDown_juiceInvalidateHWND ..).hwnd_eq f
  | full hpc hm happly => exact Frames.hwnd_juiceApplyFull happly hf
  | @merged m data g =>
    have hg : ∀ fb : Framebuffer, (fb.merge m data r.fd r.peerPID).hwnd = fb.hwnd := fun _ => rfl
    exact Frames.hwnd_modify t.frames g hg f
  | schedule =>
    exact Framebuffer.congr_content (fun _ => rfl) ((sameContent_juiceScheduleFrame ..).content_eq f)
  | invalidate => exact (Frames.takenDown_juiceInvalidateClient ..).hwnd_eq f
  | _ => rfl

/-! ## What a reader has checked -/

end Transport

/-- What is known of the record a reader is at. -/
def ReaderPc.Checked (fs : Frames) : ReaderPc → Prop
  | admitted m => juiceCheckHeader m = none
  | reserved m => m.type = FRAME ∧ juiceCheckHeader m = none
  | loaded m data => m.type = FRAME ∧ juiceCheckHeader m = none ∧ data.length = m.size.toNat
  | merging m _ f => m.type = FRAME ∧ m.dirty = true ∧ (fs.heap f).hwnd = m.hwnd
  | _ => True

theorem ReaderPc.Checked.mono {fs fs' : Frames} {pc : ReaderPc} (h : pc.Checked fs)
    (hok : pc.Ok fs.next) (heq : ∀ f < fs.next, (fs'.heap f).hwnd = (fs.heap f).hwnd) :
    pc.Checked fs' := by
  cases pc with
  | merging m data f => exact ⟨h.1, h.2.1, (heq f hok.2.2).trans h.2.2⟩
  | _ => exact h

namespace Transport

variable {t t' u : Transport} {r r' : Reader} {a : ReaderAction} {m : JuiceMsg} {data : List UInt8}

/-- A reader keeps to the records it has checked. -/
theorem ReaderEffect.checked (e : ReaderEffect t r a u r') (hok : t.frames.Ok)
    (h : r.pc.Checked t.frames) : r'.pc.Checked u.frames := by
  cases e with
  | pass hpc hm => exact hm
  | reserve hpc hm hres =>
    rw [hpc] at h
    exact ⟨hm, h⟩
  | payload hpc hlen =>
    rw [hpc] at h
    exact ⟨h.1, h.2, hlen⟩
  | found hpc hm hf =>
    rw [hpc] at h
    exact ⟨h.1, hm, (hok.entry (Frames.juiceApplyDirty_some hf).2.2).2.2⟩
  | @release m leave hpc => cases leave <;> trivial
  | _ => trivial

/-- **Readers are at records they have checked, on descriptors of their
own.** -/
structure Reading (t : Transport) : Prop where
  checked : ∀ r ∈ t.readers, r.pc.Checked t.frames
  distinct : ∀ (c c' : ℕ) (r r' : Reader), t.readers[c]? = some r → t.readers[c']? = some r' → c ≠ c' →
    r.pc ≠ .closed → r'.pc ≠ .closed → r.fd ≠ r'.fd

theorem reading_start : start.Reading where
  checked _ h := by cases h
  distinct c c' r r' h := by cases h

/-- A reader keeps its descriptor, and does nothing once it has closed
it. -/
theorem ReaderEffect.fd_eq (e : ReaderEffect t r a u r') : r'.fd = r.fd ∧ r.pc ≠ .closed := by
  cases e with
  | _ hpc => exact ⟨rfl, by rw [hpc]; simp⟩

theorem Reading.step (h : t.Reading) (hinv : t.Inv) {a : Action} (hst : t.step a = some t') :
    t'.Reading := by
  cases effect_of_step hst with
  | @accept fd hfd hfree =>
    have hnew : ∀ c r, (t.readers ++ [Reader.new fd])[c]? = some r → r.pc ≠ .closed →
        (t.readers[c]? = some r ∧ r.fd ≠ fd) ∨ (c = t.readers.length ∧ r.fd = fd) := by
      intro c r hr hpc
      rcases Slots.getElem?_concat_cases hr with ⟨hc, rfl⟩ | hr
      · exact .inr ⟨hc, rfl⟩
      · exact .inl ⟨hr, fun heq => hfree ⟨r, List.mem_of_getElem? hr, heq, hpc⟩⟩
    refine ⟨Slots.forall_mem_concat h.checked trivial, fun c c' r r' hr hr' hne hpc hpc' => ?_⟩
    · rcases hnew c r hr hpc with ⟨h₁, h₂⟩ | ⟨h₁, h₂⟩ <;>
        rcases hnew c' r' hr' hpc' with ⟨h₃, h₄⟩ | ⟨h₃, h₄⟩
      · exact h.distinct c c' r r' h₁ h₃ hne hpc hpc'
      · rw [h₄]
        exact h₂
      · rw [h₂]
        exact h₄.symm
      · exact absurd (h₁.trans h₃.symm) hne
  | @reader c₀ r₀ r₀' a u hr₀ e =>
    obtain ⟨hfd, hopen⟩ := e.fd_eq
    have hold : ∀ (c : ℕ) (r : Reader), (t.readers.set c₀ r₀')[c]? = some r → r.pc ≠ .closed →
        ∃ r₁, t.readers[c]? = some r₁ ∧ r₁.fd = r.fd ∧ r₁.pc ≠ .closed := by
      intro c r hr hpc
      by_cases hc : c₀ = c
      · subst hc
        rw [Slots.getElem?_set_self hr₀, Option.some.injEq] at hr
        exact ⟨r₀, hr₀, hr ▸ hfd.symm, hopen⟩
      · rw [List.getElem?_set_ne hc] at hr
        exact ⟨r, hr, rfl, hpc⟩
    refine ⟨?_, fun c c' r r' hr hr' hne hpc hpc' => ?_⟩
    · refine Slots.forall_mem_set (fun r hr => ?_) c₀
        (e.checked hinv.frames (h.checked r₀ (List.mem_of_getElem? hr₀)))
      exact (h.checked r hr).mono (hinv.readers r hr) (fun f hf => e.hwnd_eq hf)
    · obtain ⟨r₁, h₁, h₂, h₃⟩ := hold c r hr hpc
      obtain ⟨r₂, h₄, h₅, h₆⟩ := hold c' r' hr' hpc'
      rw [← h₂, ← h₅]
      exact h.distinct c c' r₁ r₂ h₁ h₄ hne h₃ h₆
  | delivery hd e =>
    obtain ⟨hsame, hreaders, -⟩ := e.frame
    refine ⟨?_, hreaders ▸ h.distinct⟩
    rw [hreaders]
    intro r hr
    refine (h.checked r hr).mono (hinv.readers r hr) (fun f _ => ?_)
    exact Framebuffer.congr_content (fun _ => rfl) (hsame.content_eq f)

theorem reading_of_reachable (h : machine.Reachable t) : t.Reading := by
  suffices hboth : t.Inv ∧ t.Reading from hboth.2
  refine h.invariant (I := fun t => t.Inv ∧ t.Reading) ⟨inv_start, reading_start⟩ ?_
  rintro t a t' - ⟨hinv, hreading⟩ hst
  exact ⟨hinv.step hst, hreading.step hinv hst⟩

/-! ## What the records of a reader show -/

/-- **The frames hold what the records of a reader show**, and its
connection owns them. A reader that is about to merge a frame has the right
object in hand. -/
structure Serves (fs : Frames) (r : Reader) : Prop where
  shown : ∀ hwnd p, Mirror.after r.handled hwnd = some p →
    ∃ f, fs.table.lookup hwnd = some f ∧ (fs.heap f).plane = p
      ∧ (fs.heap f).clientFD = r.fd ∧ (fs.heap f).peerPID = r.peerPID
  merging : ∀ m data f p, r.pc = .merging m data f → Mirror.after r.handled m.hwnd = some p →
    fs.table.lookup m.hwnd = some f

theorem serves_new (fs : Frames) (fd : Fd) : Serves fs (.new fd) where
  shown hwnd p h := by cases h
  merging m data f p h := by cases h

variable {fs : Frames}

/-- What is shown is still served where its entries stay. -/
theorem Serves.of_keeps (h : Serves t.frames r) (hk : ∀ hwnd f, t.frames.table.lookup hwnd = some f →
      (t.frames.heap f).clientFD = r.fd → Mirror.after r.handled hwnd ≠ none →
      t.frames.Keeps fs hwnd f) : Serves fs r := by
  refine ⟨fun hwnd p hp => ?_, fun m data f p hpc hp => ?_⟩
  · obtain ⟨f, hf, hplane, hfd, hpid⟩ := h.shown hwnd p hp
    obtain ⟨hlook, hcontent⟩ := hk hwnd f hf hfd (by rw [hp]; simp)
    refine ⟨f, hlook, ?_, ?_, ?_⟩
    · exact (Framebuffer.congr_content (fun _ => rfl) hcontent).trans hplane
    · exact (Framebuffer.congr_content (fun _ => rfl) hcontent).trans hfd
    · exact (Framebuffer.congr_content (fun _ => rfl) hcontent).trans hpid
  · obtain ⟨f', hf', -, hfd, -⟩ := h.shown m.hwnd p hp
    have hf := h.merging m data f p hpc hp
    rw [hf, Option.some.injEq] at hf'
    exact (hk m.hwnd f hf (hf' ▸ hfd) (by rw [hp]; simp)).lookup_eq

/-- **Another connection does not disturb what is shown**, if it sends no
full frame for it. -/
theorem Serves.other (h : Serves t.frames r) (hok : t.frames.Ok) {r₀ r₀' : Reader}
    (e : ReaderEffect t r₀ a u r₀') (hfd : r₀.fd ≠ r.fd)
    (hfull : ∀ m data, a = .apply → r₀.pc = .loaded m data → m.dirty = false →
      Mirror.after r.handled m.hwnd = none) : Serves u.frames r := by
  refine h.of_keeps (fun hwnd f hf hown hshown => ?_)
  refine e.keeps hok hf (by rw [hown]; exact hfd.symm) (fun m data ha hpc hm => ?_)
  rintro rfl
  exact hshown (hfull m data ha hpc hm)

/-- A delivery does not disturb it either. -/
theorem Serves.sameContent (h : Serves t.frames r) (hsame : t.frames.SameContent fs) :
    Serves fs r :=
  h.of_keeps (fun _ _ hf _ _ => hsame.keeps hf)

/-- The reader goes to where it has no object in hand. -/
theorem Serves.goto (h : Serves fs r) (hfd : r'.fd = r.fd) (hpid : r'.peerPID = r.peerPID)
    (hhandled : r'.handled = r.handled) (hpc : ∀ m data f, r'.pc ≠ .merging m data f) :
    Serves fs r' := by
  refine ⟨fun hwnd p hp => ?_, fun m data f p h' => absurd h' (hpc m data f)⟩
  rw [hfd, hpid]
  exact h.shown hwnd p (hhandled ▸ hp)

/-- The reader has dealt with a record, and what the record shows is
served. -/
theorem Serves.handle (h : Serves t.frames r) (hhandled : r'.handled = r.handled ++ [(m, data)])
    (hfd : r'.fd = r.fd) (hpid : r'.peerPID = r.peerPID)
    (hpc : ∀ m data f, r'.pc ≠ .merging m data f)
    (hother : ∀ hwnd f, t.frames.table.lookup hwnd = some f → hwnd ≠ m.hwnd →
      t.frames.Keeps fs hwnd f)
    (hown : ∀ p, (Mirror.after r.handled).apply (m, data) m.hwnd = some p →
      ∃ f, fs.table.lookup m.hwnd = some f ∧ (fs.heap f).plane = p
        ∧ (fs.heap f).clientFD = r.fd ∧ (fs.heap f).peerPID = r.peerPID) : Serves fs r' := by
  refine ⟨fun hwnd p hp => ?_, fun m data f p h' => absurd h' (hpc m data f)⟩
  rw [hhandled, Mirror.after_concat] at hp
  rw [hfd, hpid]
  by_cases hw : hwnd = m.hwnd
  · subst hw
    exact hown p hp
  · rw [Mirror.apply_of_ne hw] at hp
    obtain ⟨f, hf, hplane, howner, hproc⟩ := h.shown hwnd p hp
    obtain ⟨hlook, hcontent⟩ := hother hwnd f hf hw
    refine ⟨f, hlook, ?_, ?_, ?_⟩
    · exact (Framebuffer.congr_content (fun _ => rfl) hcontent).trans hplane
    · exact (Framebuffer.congr_content (fun _ => rfl) hcontent).trans howner
    · exact (Framebuffer.congr_content (fun _ => rfl) hcontent).trans hproc

/-- A dirty frame that finds no frame is for a window that is not shown. -/
theorem Serves.missing (h : Serves t.frames r) (hpc : ReaderPc.Checked t.frames (.loaded m data))
    (hm : m.dirty = true) (hf : t.frames.juiceApplyDirty m data = none) :
    Mirror.after r.handled m.hwnd = none := by
  obtain ⟨ht, hcheck, hlen⟩ := hpc
  have hvalid := frameValid_of_juiceCheckHeader hcheck ht
  rw [if_pos hm] at hvalid
  have hlook : t.frames.table.lookup m.hwnd = none := by
    simpa [Frames.juiceApplyDirty, hvalid, hlen] using hf
  cases hp : Mirror.after r.handled m.hwnd with
  | none => rfl
  | some p =>
    obtain ⟨f, hf, -⟩ := h.shown m.hwnd p hp
    rw [hlook] at hf
    cases hf

/-- A frame that accepts a dirty frame shows what it is merged into. -/
theorem Serves.merged (h : Serves t.frames r) (hok : t.frames.Ok) {f : ℕ}
    (hpc : r.pc = .merging m data f) (ht : m.type = FRAME) (hm : m.dirty = true)
    (hacc : (t.frames.heap f).Accepts m r.fd r.peerPID) {p : Plane}
    (hp : (Mirror.after r.handled).apply (m, data) m.hwnd = some p) :
    t.frames.table.lookup m.hwnd = some f
      ∧ ((t.frames.heap f).merge m data r.fd r.peerPID).plane = p := by
  rw [Mirror.apply_dirty ht hm, update_self, Option.map_eq_some_iff] at hp
  obtain ⟨p₀, hp₀, hp⟩ := hp
  have hf := h.merging m data f p₀ hpc hp₀
  obtain ⟨f', hf', hplane, -, -⟩ := h.shown m.hwnd p₀ hp₀
  rw [hf, Option.some.injEq] at hf'
  subst hf'
  obtain ⟨hlt, hinv, -⟩ := hok.entry hf
  refine ⟨hf, ?_⟩
  have hfits : Content.FitsIn (m, data) p₀ := hplane ▸ hacc.2.2.2
  rw [if_pos hfits] at hp
  rw [Framebuffer.plane_merge (hok.shaped hlt hinv).stored, hplane]
  exact hp

/-- A frame that does not accept a dirty frame of its owner is too small for
it. -/
theorem Serves.dropped (h : Serves t.frames r) (hok : t.frames.Ok) {f : ℕ}
    (hpc : r.pc = .merging m data f) (ht : m.type = FRAME) (hm : m.dirty = true)
    (hacc : ¬ (t.frames.heap f).Accepts m r.fd r.peerPID) :
    (Mirror.after r.handled).apply (m, data) m.hwnd = Mirror.after r.handled m.hwnd := by
  rw [Mirror.apply_dirty ht hm, update_self]
  cases hp : Mirror.after r.handled m.hwnd with
  | none => rfl
  | some p =>
    have hf := h.merging m data f p hpc hp
    obtain ⟨f', hf', hplane, hfd, hpid⟩ := h.shown m.hwnd p hp
    rw [hf, Option.some.injEq] at hf'
    subst hf' hplane
    have hfits : ¬ Content.FitsIn (m, data) (t.frames.heap f).plane := fun hfits =>
      hacc ⟨(hok.entry hf).2.1, hfd, hpid, hfits⟩
    simp [hfits]

/-- **A reader serves what its records show**, as long as it goes on and
says who it is before anything else. -/
theorem Serves.own (h : Serves t.frames r) (hok : t.frames.Ok) (hpc : r.pc.Checked t.frames)
    (e : ReaderEffect t r a u r')
    (hhello : ∀ m, a = .dispatch → r.pc = .admitted m → m.type = HELLO → r.handled = [])
    (ha : a ≠ .invalidate) : Serves u.frames r' := by
  cases e with
  | @hello m hr hm =>
    have hnil := hhello m rfl hr hm
    refine ⟨fun hwnd p hp => ?_, fun _ _ _ _ h' => by cases h'⟩
    rw [hnil, List.nil_append, ← List.nil_append [(m, [])], Mirror.after_concat,
      Mirror.apply_other (by rw [hm]; decide) (by rw [hm]; decide)] at hp
    cases hp
  | @destroy m hr hm =>
    refine h.handle rfl rfl rfl (by simp) ?_ ?_
    · exact fun hwnd f hf hne => Frames.keeps_juiceInvalidateHWND hok hf (.inl hne)
    · intro p hp
      rw [Mirror.apply_destroy hm, update_self] at hp
      cases hp
  | @window m hr hframe hhello' hdestroy =>
    refine h.handle rfl rfl rfl (by simp) (fun hwnd f hf _ => ⟨hf, rfl⟩) ?_
    intro p hp
    rw [Mirror.apply_other hframe hdestroy] at hp
    exact h.shown m.hwnd p hp
  | @missing m data hr hm hf =>
    rw [hr] at hpc
    refine h.handle rfl rfl rfl (by simp) (fun hwnd f hf _ => ⟨hf, rfl⟩) ?_
    intro p hp
    rw [Mirror.apply_dirty hpc.1 hm, update_self, h.missing hpc hm hf] at hp
    cases hp
  | @found m data f hr hm hf =>
    refine ⟨h.shown, fun m' data' f' p hpc' hp => ?_⟩
    cases hpc'
    exact (Frames.juiceApplyDirty_some hf).2.2
  | @full m data fs f hr hm happly =>
    rw [hr] at hpc
    refine h.handle rfl rfl rfl (by simp) ?_ ?_
    · exact fun hwnd f' hf hne => Frames.keeps_juiceApplyFull hok hf happly hne
    · intro p hp
      rw [Mirror.apply_full hpc.1 hm, update_self, Option.some.injEq] at hp
      obtain ⟨hplane, hfd, hpid⟩ := Frames.heap_juiceApplyFull happly
      exact ⟨f, Frames.lookup_juiceApplyFull happly, hplane.trans hp, hfd, hpid⟩
  | @dropped m data f hr hacc =>
    have hmerging := hpc
    rw [hr] at hmerging
    refine h.handle rfl rfl rfl (by simp) (fun hwnd f hf _ => ⟨hf, rfl⟩) ?_
    intro p hp
    rw [h.dropped hok hr hmerging.1 hmerging.2.1 hacc] at hp
    exact h.shown m.hwnd p hp
  | @merged m data f hr hacc =>
    have hmerging := hpc
    rw [hr] at hmerging
    obtain ⟨ht, hm, hhwnd⟩ := hmerging
    have hother : ∀ hwnd f', t.frames.table.lookup hwnd = some f' → hwnd ≠ m.hwnd →
        t.frames.Keeps (t.frames.modify f (fun fb => fb.merge m data r.fd r.peerPID)) hwnd f' := by
      intro hwnd f' hf' hne
      refine Frames.keeps_modify hf' _ ?_
      rintro rfl
      exact hne ((hok.entry hf').2.2.symm.trans hhwnd)
    refine h.handle rfl rfl rfl (by simp) hother (fun p hp => ?_)
    obtain ⟨hlook, hplane⟩ := h.merged hok hr ht hm hacc hp
    refine ⟨f, hlook, ?_⟩
    rw [Frames.modify_heap_self]
    exact ⟨hplane, rfl, rfl⟩
  | schedule hr =>
    exact (h.sameContent (sameContent_juiceScheduleFrame ..)).goto rfl rfl rfl (by simp)
  | @release m leave hr =>
    refine h.goto rfl rfl rfl (fun m data f => ?_)
    cases leave <;> simp
  | invalidate => exact absurd rfl ha
  | _ => exact h.goto rfl rfl rfl (by simp)

end Transport

end Juice
