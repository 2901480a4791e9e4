import Juice.Host.Serving

/-!
# A connection and the one after it

A driver that loses its connection opens another one, and for a while the
host has a reader for each: the reader of the older connection may still
have records to work off before it comes to the end of its stream. The
newer connection has begun to send frames by then. What the older reader
still does should not touch them.

It mostly does not. A dirty frame, a `DESTROY` and the teardown all ask who
owns the frame, and the older connection does not. `JuiceApplyFull` does not
ask: a full frame that was still in the older connection's buffer replaces
the newer one's picture and takes over the ownership, after which the dirty
frames of the newer connection are dropped, silently, until it happens to
send a full one again.

So the theorem has a condition, and the condition is about that one case:
among what the older reader still works off there is no full frame for a
window of which the newer connection has had a full frame applied.
-/

namespace Juice

open JuiceMsg

namespace Frames

variable {fs fs' : Frames} {hwnd : UInt64} {f : ℕ}

theorem lookup_of_juiceInvalidateHWND (hok : fs.Ok) {hwnd' : UInt64} {fd : Fd}
    (h : (fs.juiceInvalidateHWND hwnd' fd).table.lookup hwnd = some f) :
    fs.table.lookup hwnd = some f ∧ (fs.juiceInvalidateHWND hwnd' fd).heap f = fs.heap f := by
  unfold Frames.juiceInvalidateHWND at h ⊢
  split at h
  · rename_i hnone
    rw [erase_of_lookup_none hnone] at h
    exact ⟨h, rfl⟩
  · rename_i g hg
    split at h
    · rename_i hfd
      rw [if_pos hfd]
      exact ⟨h, rfl⟩
    · rename_i hfd
      rw [if_neg hfd]
      replace h : (fs.table.erase hwnd').lookup hwnd = some f := h
      have hne : hwnd ≠ hwnd' := by
        rintro rfl
        rw [AList.lookup_erase] at h
        cases h
      rw [AList.lookup_erase_ne hne] at h
      refine ⟨h, modify_heap_of_ne fs _ ?_⟩
      rintro rfl
      exact hne ((hok.entry h).2.2.symm.trans (hok.entry hg).2.2)

theorem lookup_of_juiceInvalidateClient {fd : Fd}
    (h : (fs.juiceInvalidateClient fd).table.lookup hwnd = some f) :
    fs.table.lookup hwnd = some f ∧ (fs.heap f).clientFD ≠ fd
      ∧ (fs.juiceInvalidateClient fd).heap f = fs.heap f := by
  obtain ⟨hlook, hfd⟩ := mem_lookup_keep.mp h
  have hne := of_decide_eq_true hfd
  exact ⟨hlook, hne, if_neg (fun hh => hne hh.2)⟩

theorem lookup_of_juiceApplyFull {m : JuiceMsg} {data : List UInt8} {fd : Fd} {pid : Int32}
    {o : Option ℕ} (happly : fs.juiceApplyFull m data fd pid = (fs', o)) (hne : hwnd ≠ m.hwnd)
    (h : fs'.table.lookup hwnd = some f) : fs.table.lookup hwnd = some f := by
  rcases juiceApplyFull_cases fs m data fd pid with
    heq | ⟨-, ⟨-, -, heq⟩ | ⟨g, hg, -, heq⟩ | ⟨g, hg, -, heq⟩⟩ <;>
    cases heq.symm.trans happly
  · exact h
  · exact (AList.lookup_insert_ne hne).symm.trans h
  · exact h
  · exact (AList.lookup_insert_ne hne).symm.trans h

end Frames

/-- A full frame of a window. -/
def Content.FullFor (r : Content) (hwnd : UInt64) : Prop :=
  r.1.type = FRAME ∧ r.1.dirty = false ∧ r.1.hwnd = hwnd

instance (r : Content) (hwnd : UInt64) : Decidable (r.FullFor hwnd) := by
  unfold Content.FullFor
  infer_instance

/-- What is shown was shown by a full frame. -/
theorem Mirror.exists_full_of_after {l : List Content} {hwnd : UInt64}
    (h : Mirror.after l hwnd ≠ none) : ∃ r ∈ l, r.FullFor hwnd := by
  induction l using List.reverseRecOn with
  | nil => exact absurd rfl h
  | append_singleton l r ih =>
    rw [Mirror.after_concat] at h
    by_cases hfull : r.FullFor hwnd
    · exact ⟨r, by simp, hfull⟩
    · have hbefore : Mirror.after l hwnd ≠ none := by
        intro hnone
        refine h ?_
        unfold Mirror.apply
        split_ifs with ht hd hdes
        · by_cases hw : hwnd = r.1.hwnd
          · subst hw
            simp [hnone]
          · rw [Function.update_of_ne hw, hnone]
        · rw [Function.update_of_ne, hnone]
          rintro rfl
          exact hfull ⟨ht, by simpa using hd, rfl⟩
        · by_cases hw : hwnd = r.1.hwnd
          · subst hw
            simp
          · rw [Function.update_of_ne hw, hnone]
        · exact hnone
      obtain ⟨x, hx, hf⟩ := ih hbefore
      exact ⟨x, List.mem_append_left _ hx, hf⟩

namespace Transport

variable {t t' u : Transport} {r r' : Reader} {a : ReaderAction}

/-- **An entry comes from a full frame, or it was there**, with the owner it
had. -/
theorem ReaderEffect.lookup_some (e : ReaderEffect t r a u r') (hok : t.frames.Ok)
    {hwnd : UInt64} {f : ℕ} (hf : u.frames.table.lookup hwnd = some f) :
    ((∃ m data, a = .apply ∧ r.pc = .loaded m data ∧ m.dirty = false ∧ m.hwnd = hwnd)
      ∧ (u.frames.heap f).clientFD = r.fd)
    ∨ (t.frames.table.lookup hwnd = some f
      ∧ (u.frames.heap f).clientFD = (t.frames.heap f).clientFD
      ∧ (a = .invalidate → (t.frames.heap f).clientFD ≠ r.fd)) := by
  cases e with
  | destroy =>
    obtain ⟨hlook, heq⟩ := Frames.lookup_of_juiceInvalidateHWND hok hf
    exact .inr ⟨hlook, congrArg Framebuffer.clientFD heq, by simp⟩
  | @full m data fs g hpc hm happly =>
    by_cases hw : hwnd = m.hwnd
    · subst hw
      have hg := Frames.lookup_juiceApplyFull happly
      obtain rfl : g = f := Option.some.inj (hg.symm.trans hf)
      exact .inl ⟨⟨m, data, rfl, hpc, hm, rfl⟩, (Frames.heap_juiceApplyFull happly).2.1⟩
    · have hlook := Frames.lookup_of_juiceApplyFull happly hw hf
      have hkeeps := Frames.keeps_juiceApplyFull hok hlook happly hw
      exact .inr ⟨hlook, Framebuffer.congr_content (fun _ => rfl) hkeeps.content_eq, by simp⟩
  | @merged m data g hpc hacc =>
    refine .inr ⟨hf, ?_, by simp⟩
    dsimp only
    by_cases hfg : f = g
    · rw [hfg, Frames.modify_heap_self]
      exact hacc.2.1.symm
    · rw [Frames.modify_heap_of_ne _ _ hfg]
  | @schedule m g =>
    have hsame := sameContent_juiceScheduleFrame t g r.firstFrame
    exact .inr ⟨hsame.table_eq ▸ hf, Framebuffer.congr_content (fun _ => rfl) (hsame.content_eq f),
      by simp⟩
  | invalidate =>
    obtain ⟨hlook, hne, heq⟩ := Frames.lookup_of_juiceInvalidateClient hf
    exact .inr ⟨hlook, congrArg Framebuffer.clientFD heq, fun _ => hne⟩
  | _ => exact .inr ⟨hf, rfl, by simp⟩

/-! ## Two connections of a driver -/

/-- A record of a driver: it says who it is first, and once. -/
def helloFirst (t : Transport) : Action → Bool
  | .reader c .dispatch => (t.readers[c]?).all (fun r =>
      match r.pc with
      | .admitted m => m.type ≠ HELLO ∨ r.handled = []
      | _ => true)
  | _ => true

/-- There are two connections, the older and the newer one, and both are
those of a driver. -/
def twoConnections (t : Transport) : Action → Bool
  | .accept _ => t.readers.length < 2
  | a => helloFirst t a

/-- A full frame of the newer connection has been applied for a window. -/
def NewerApplied (t : Transport) (hwnd : UInt64) : Prop :=
  ∃ r ∈ t.readers[1]?, ∃ c ∈ r.handled, Content.FullFor c hwnd

instance (t : Transport) (hwnd : UInt64) : Decidable (t.NewerApplied hwnd) :=
  decidable_of_iff ((t.readers[1]?).any (fun r => r.handled.any (fun c => c.FullFor hwnd)) = true)
    (by simp [NewerApplied, Option.any_eq_true])

/-- **The condition**: the older reader applies no full frame for a window
of which a full frame of the newer connection has been applied. -/
def noLateFull (t : Transport) : Action → Bool
  | .reader 0 .apply => (t.readers[0]?).all (fun r =>
      match r.pc with
      | .loaded m _ => m.dirty ∨ ¬ t.NewerApplied m.hwnd
      | _ => true)
  | _ => true

/-- **The older reader leaves the newer connection's frames alone**, in a
state of a run of a machine. -/
structure Undisturbed (M : Machine Transport Action) (t : Transport) : Prop where
  /-- A step of the older reader keeps the frame of a window of which the
  newer connection has had a full frame applied, and what is in it. -/
  older : ∀ a t', M.step t (.reader 0 a) = some t' → ∀ hwnd, t.NewerApplied hwnd →
    t'.frames.table.lookup hwnd = t.frames.table.lookup hwnd
      ∧ ∀ f, t.frames.table.lookup hwnd = some f →
        (t'.frames.heap f).content = (t.frames.heap f).content
  /-- As long as the newer connection shows a window, its dirty frame finds
  the frame of the window. -/
  found : ∀ r ∈ t.readers[1]?, ∀ m data, r.pc = .loaded m data → m.dirty = true →
    Mirror.after r.handled m.hwnd ≠ none → (t.frames.juiceApplyDirty m data).isSome
  /-- And if it lies inside the frame, it is merged. -/
  merged : ∀ r ∈ t.readers[1]?, ∀ m data f p, r.pc = .merging m data f →
    Mirror.after r.handled m.hwnd = some p → Content.FitsIn (m, data) p →
    t.frames.table.lookup m.hwnd = some f
      ∧ (t.frames.mergeDirty f m data r.fd r.peerPID).2 = some f

/-- What holds in every state of a run that meets the condition. -/
structure ReconnectInv (t : Transport) : Prop where
  inv : t.Inv
  reading : t.Reading
  length_le : t.readers.length ≤ 2
  owned : ∀ r, t.readers[1]? = some r → ∀ hwnd f, t.NewerApplied hwnd →
    t.frames.table.lookup hwnd = some f →
    (t.frames.heap f).clientFD = r.fd ∧ r.pc ≠ .detaching ∧ r.pc ≠ .closed
  serves : ∀ r, t.readers[1]? = some r → r.pc ≠ .detaching → r.pc ≠ .closed → Serves t.frames r

theorem helloFirst_spec {c : ℕ} (h : helloFirst t (.reader c a) = true)
    (hr : t.readers[c]? = some r) (m : JuiceMsg) (ha : a = .dispatch) (hpc : r.pc = .admitted m)
    (hm : m.type = HELLO) : r.handled = [] := by
  subst ha
  simpa [helloFirst, hr, hpc, hm] using h

theorem noLateFull_spec (h : noLateFull t (.reader 0 a) = true) (hr : t.readers[0]? = some r)
    (m : JuiceMsg) (data : List UInt8) (ha : a = .apply) (hpc : r.pc = .loaded m data)
    (hm : m.dirty = false) : ¬ t.NewerApplied m.hwnd := by
  subst ha
  simpa [noLateFull, hr, hpc, hm] using h

/-- What counts as applied depends on the newer reader only. -/
theorem newerApplied_congr (h : t'.readers[1]? = t.readers[1]?) (hwnd : UInt64) :
    t'.NewerApplied hwnd ↔ t.NewerApplied hwnd := by
  rw [NewerApplied, h]
  rfl

/-- **A step of the older reader.** -/
theorem ReconnectInv.older (h : t.ReconnectInv) (hr : t.readers[0]? = some r)
    (e : ReaderEffect t r a u r')
    (hlate : ∀ m data, a = .apply → r.pc = .loaded m data → m.dirty = false →
      ¬ t.NewerApplied m.hwnd) (hwnd : UInt64) (happlied : t.NewerApplied hwnd) :
    u.frames.table.lookup hwnd = t.frames.table.lookup hwnd
      ∧ ∀ f, t.frames.table.lookup hwnd = some f →
        (u.frames.heap f).content = (t.frames.heap f).content := by
  have hfull : ∀ m data, a = .apply → r.pc = .loaded m data → m.dirty = false →
      m.hwnd ≠ hwnd := by
    rintro m data ha hpc hm rfl
    exact hlate m data ha hpc hm happlied
  cases hlook : t.frames.table.lookup hwnd with
  | none =>
    refine ⟨?_, fun f hf => by cases hf⟩
    cases hlook' : u.frames.table.lookup hwnd with
    | none => rfl
    | some f =>
      rcases e.lookup_some h.inv.frames hlook' with ⟨⟨m, data, ha, hpc, hm, hw⟩, -⟩ | ⟨hf, -⟩
      · exact absurd hw (hfull m data ha hpc hm)
      · rw [hlook] at hf
        cases hf
  | some f =>
    obtain ⟨r₁, hr₁, -⟩ := id happlied
    obtain ⟨hfd, -, hopen⟩ := h.owned r₁ hr₁ hwnd f happlied hlook
    have hne := h.reading.distinct 0 1 r r₁ hr hr₁ (by decide) e.fd_eq.2 hopen
    have hkeeps := e.keeps h.inv.frames hlook (by rw [hfd]; exact hne.symm) hfull
    refine ⟨hkeeps.lookup_eq, fun f' hf' => ?_⟩
    cases hf'
    exact hkeeps.content_eq

/-- The older reader keeps what the newer one owns and serves. -/
theorem ReconnectInv.older_step (h : t.ReconnectInv) (hr : t.readers[0]? = some r)
    (e : ReaderEffect t r a u r') (hst : t.step (.reader 0 a)
      = some { u with readers := t.readers.set 0 r' })
    (hlate : ∀ m data, a = .apply → r.pc = .loaded m data → m.dirty = false →
      ¬ t.NewerApplied m.hwnd) :
    ReconnectInv { u with readers := t.readers.set 0 r' } := by
  have hsame : (t.readers.set 0 r')[1]? = t.readers[1]? := List.getElem?_set_ne (by decide)
  refine ⟨h.inv.step hst, h.reading.step h.inv hst, ?_, ?_, ?_⟩
  · show (t.readers.set 0 r').length ≤ 2
    rw [List.length_set]
    exact h.length_le
  · intro r₁ hr₁ hwnd f happlied hf
    replace hr₁ : t.readers[1]? = some r₁ := hsame.symm.trans hr₁
    rw [newerApplied_congr hsame] at happlied
    obtain ⟨hlook, hcontent⟩ := h.older hr e hlate hwnd happlied
    have hf' : t.frames.table.lookup hwnd = some f := hlook.symm.trans hf
    obtain ⟨hfd, hopen⟩ := h.owned r₁ hr₁ hwnd f happlied hf'
    exact ⟨(Framebuffer.congr_content (fun _ => rfl) (hcontent f hf')).trans hfd, hopen⟩
  · intro r₁ hr₁ hdet hclosed
    replace hr₁ : t.readers[1]? = some r₁ := hsame.symm.trans hr₁
    have hne := h.reading.distinct 0 1 r r₁ hr hr₁ (by decide) e.fd_eq.2 hclosed
    show Serves u.frames r₁
    refine (h.serves r₁ hr₁ hdet hclosed).other h.inv.frames e hne (fun m data ha hpc hm => ?_)
    by_contra hshown
    obtain ⟨c, hc, hfull⟩ := Mirror.exists_full_of_after hshown
    exact hlate m data ha hpc hm ⟨r₁, hr₁, c, hc, hfull⟩

/-- A full frame a reader has had applied, it had before, or it owns the
frame now. -/
theorem ReaderEffect.fullFor (e : ReaderEffect t r a u r') (hchecked : r.pc.Checked t.frames)
    {c : Content} (hc : c ∈ r'.handled) {hwnd : UInt64} (hfull : c.FullFor hwnd) :
    c ∈ r.handled
      ∨ r.pc ≠ .detaching
        ∧ ∃ f, u.frames.table.lookup hwnd = some f ∧ (u.frames.heap f).clientFD = r.fd := by
  have hnew : ∀ x : Content, c ∈ r.handled ++ [x] → ¬ x.FullFor hwnd → c ∈ r.handled := by
    intro x hx hnot
    rcases List.mem_append.mp hx with hx | hx
    · exact hx
    · exact absurd (List.mem_singleton.mp hx ▸ hfull) hnot
  cases e with
  | hello hpc hm =>
    refine .inl (hnew _ hc (fun hf => ?_))
    exact absurd (hf.1.symm.trans hm) (by decide)
  | destroy hpc hm =>
    refine .inl (hnew _ hc (fun hf => ?_))
    exact absurd (hf.1.symm.trans hm) (by decide)
  | window hpc hframe => exact .inl (hnew _ hc (fun hf => hframe hf.1))
  | missing hpc hm =>
    refine .inl (hnew _ hc (fun hf => ?_))
    exact absurd (hf.2.1.symm.trans hm) (by decide)
  | @full m data fs f hpc hm happly =>
    by_cases hw : Content.FullFor (m, data) hwnd
    · obtain ⟨-, -, rfl⟩ := hw
      exact .inr ⟨by rw [hpc]; simp, f, Frames.lookup_juiceApplyFull happly,
        (Frames.heap_juiceApplyFull happly).2.1⟩
    · exact .inl (hnew _ hc hw)
  | dropped hpc =>
    rw [hpc] at hchecked
    refine .inl (hnew _ hc (fun hf => ?_))
    exact absurd (hf.2.1.symm.trans hchecked.2.1) (by decide)
  | merged hpc =>
    rw [hpc] at hchecked
    refine .inl (hnew _ hc (fun hf => ?_))
    exact absurd (hf.2.1.symm.trans hchecked.2.1) (by decide)
  | _ => exact .inl hc

/-- How a reader leaves. -/
theorem ReaderEffect.leaves (e : ReaderEffect t r a u r') :
    (r'.pc = .detaching → a = .invalidate) ∧ (r'.pc = .closed ↔ r.pc = .detaching) := by
  cases e with
  | @release m leave hpc => cases leave <;> simp [hpc]
  | _ hpc => simp [hpc]

/-- **A step of the newer reader.** -/
theorem ReconnectInv.newer_step (h : t.ReconnectInv) (hr : t.readers[1]? = some r)
    (e : ReaderEffect t r a u r') (hst : t.step (.reader 1 a)
      = some { u with readers := t.readers.set 1 r' })
    (hhello : ∀ m, a = .dispatch → r.pc = .admitted m → m.type = HELLO → r.handled = []) :
    ReconnectInv { u with readers := t.readers.set 1 r' } := by
  have hself : (t.readers.set 1 r')[1]? = some r' := Slots.getElem?_set_self hr r'
  have hchecked := h.reading.checked r (List.mem_of_getElem? hr)
  refine ⟨h.inv.step hst, h.reading.step h.inv hst, ?_, ?_, ?_⟩
  · show (t.readers.set 1 r').length ≤ 2
    rw [List.length_set]
    exact h.length_le
  · intro r₁ hr₁ hwnd f happlied hf
    obtain rfl : r' = r₁ := Option.some.inj (hself.symm.trans hr₁)
    obtain ⟨r₂, hr₂, c, hc, hfull⟩ := happlied
    obtain rfl : r' = r₂ := Option.some.inj (hself.symm.trans hr₂)
    -- the owner is this connection, and the reader is not leaving
    suffices howner : (u.frames.heap f).clientFD = r.fd ∧ a ≠ .invalidate ∧ r.pc ≠ .detaching by
      refine ⟨howner.1.trans e.fd_eq.1.symm, fun hd => ?_, fun hc => ?_⟩
      · exact howner.2.1 (e.leaves.1 hd)
      · exact howner.2.2 (e.leaves.2.mp hc)
    rcases e.lookup_some h.inv.frames hf with ⟨⟨m, data, rfl, hpc, -⟩, hfd⟩ | ⟨hf', hfd, hinv⟩
    · exact ⟨hfd, by simp, by rw [hpc]; simp⟩
    · rcases e.fullFor hchecked hc hfull with hc | ⟨hdet, f', hlook, hown⟩
      · obtain ⟨hown, hdet, -⟩ := h.owned r hr hwnd f ⟨r, hr, c, hc, hfull⟩ hf'
        exact ⟨hfd.trans hown, fun ha => hinv ha hown, hdet⟩
      · obtain rfl : f = f' := Option.some.inj (hf.symm.trans hlook)
        exact ⟨hown, fun ha => hinv ha (hfd.symm.trans hown), hdet⟩
  · intro r₁ hr₁ hdet hclosed
    obtain rfl : r' = r₁ := Option.some.inj (hself.symm.trans hr₁)
    show Serves u.frames r'
    by_cases ha : a = .invalidate
    · subst ha
      cases e
      exact absurd rfl hdet
    · have hserves := h.serves r hr (fun hd => hclosed (e.leaves.2.mpr hd)) e.fd_eq.2
      exact hserves.own h.inv.frames hchecked e hhello ha

theorem ReconnectInv.step (h : t.ReconnectInv) {a : Action} (hst : t.step a = some t')
    (htwo : twoConnections t a = true) (hlate : noLateFull t a = true) : t'.ReconnectInv := by
  have heff := effect_of_step hst
  cases heff with
  | @accept fd hfd hfree =>
    have hlen : t.readers.length < 2 := of_decide_eq_true htwo
    -- a newer reader, if there is one now, is the one just accepted
    have hnew : ∀ r, (t.readers ++ [Reader.new fd])[1]? = some r → r = .new fd := by
      intro r hr
      rw [List.getElem?_append_right (Nat.le_of_lt_succ hlen)] at hr
      exact List.mem_singleton.mp (List.mem_of_getElem? hr)
    refine ⟨h.inv.step hst, h.reading.step h.inv hst, ?_, ?_, ?_⟩
    · show (t.readers ++ [Reader.new fd]).length ≤ 2
      rw [List.length_append]
      exact hlen
    · rintro r hr hwnd f ⟨r₁, hr₁, c, hc, -⟩
      rw [hnew r₁ hr₁] at hc
      cases hc
    · intro r hr _ _
      rw [hnew r hr]
      exact serves_new _ fd
  | @reader c r r' a u hr e =>
    have hc : c = 0 ∨ c = 1 := by
      have := (List.getElem?_eq_some_iff.mp hr).1
      have := h.length_le
      omega
    rcases hc with rfl | rfl
    · exact h.older_step hr e hst (fun m data => noLateFull_spec hlate hr m data)
    · exact h.newer_step hr e hst (fun m => helloFirst_spec htwo hr m)
  | @delivery i d a _ hd e =>
    obtain ⟨hsame, hreaders, -⟩ := e.frame
    refine ⟨h.inv.step hst, h.reading.step h.inv hst, hreaders ▸ h.length_le, ?_, ?_⟩
    · intro r hr hwnd f happlied hf
      rw [newerApplied_congr (congrArg (fun l => l[1]?) hreaders)] at happlied
      obtain ⟨hown, hopen⟩ := h.owned r (hreaders ▸ hr) hwnd f happlied (hsame.table_eq ▸ hf)
      exact ⟨(Framebuffer.congr_content (fun _ => rfl) (hsame.content_eq f)).trans hown, hopen⟩
    · intro r hr hdet hclosed
      exact (h.serves r (hreaders ▸ hr) hdet hclosed).sameContent hsame

theorem reconnectInv_start : start.ReconnectInv where
  inv := inv_start
  reading := reading_start
  length_le := Nat.zero_le _
  owned r h := by cases h
  serves r h := by cases h

/-- **The newer connection's frames are left alone, in every state of every
run whose steps meet the condition.** -/
theorem undisturbed_of_noLateFull (t : Transport)
    (h : ((machine.restrict twoConnections).restrict noLateFull).Reachable t) :
    Undisturbed ((machine.restrict twoConnections).restrict noLateFull) t := by
  have hinv : t.ReconnectInv := by
    refine h.invariant (I := ReconnectInv) reconnectInv_start ?_
    intro t a t' _ ht hst
    obtain ⟨hlate, hst⟩ := Machine.restrict_step.mp hst
    obtain ⟨htwo, hst⟩ := Machine.restrict_step.mp hst
    exact ht.step hst htwo hlate
  refine ⟨fun a t' hst hwnd happlied => ?_, fun r hr m data hpc hm hshown => ?_,
    fun r hr m data f p hpc hp hfits => ?_⟩
  · obtain ⟨hlate, hst⟩ := Machine.restrict_step.mp hst
    obtain ⟨-, hst⟩ := Machine.restrict_step.mp hst
    have heff : Effect t (.reader 0 a) t' := effect_of_step hst
    cases heff with
    | @reader c r r' a u hr e =>
      exact hinv.older hr e (fun m data => noLateFull_spec hlate hr m data) hwnd happlied
  · have hserves := hinv.serves r hr (by rw [hpc]; simp) (by rw [hpc]; simp)
    have hchecked := hinv.reading.checked r (List.mem_of_getElem? hr)
    rw [hpc] at hchecked
    rw [Option.isSome_iff_ne_none]
    exact fun hnone => hshown (hserves.missing hchecked hm hnone)
  · have hserves := hinv.serves r hr (by rw [hpc]; simp) (by rw [hpc]; simp)
    have hlook := hserves.merging m data f p hpc hp
    obtain ⟨f', hf', hplane, hfd, hpid⟩ := hserves.shown m.hwnd p hp
    obtain rfl : f = f' := Option.some.inj (hlook.symm.trans hf')
    subst hplane
    have hacc : (t.frames.heap f).Accepts m r.fd r.peerPID :=
      ⟨(hinv.inv.frames.entry hlook).2.1, hfd, hpid, hfits⟩
    refine ⟨hlook, ?_⟩
    rw [Frames.mergeDirty, if_pos hacc]

/-- The actions of a reader that gets a pixel and is about to apply it. -/
def loads (c : ℕ) (m : JuiceMsg) (data : List UInt8) : List Action :=
  [.reader c (.header m), .reader c .reserve, .reader c (.payload data)]

/-- A `HELLO`. -/
def greeting (pid : UInt32) : JuiceMsg := ⟨MAGIC, HELLO, 0, 0, 0, 0, 800, 600, 96, pid⟩

/-- A connection is greeted, and another one with which it is to be
replaced; the newer one has a frame applied. -/
def replaced : List Action :=
  [.accept 3, .reader 0 (.header (greeting 9)), .reader 0 .dispatch, .accept 4,
    .reader 1 (.header (greeting 9)), .reader 1 .dispatch]
    ++ loads 1 (pixel 7 0) [5, 6, 7, 8] ++ [.reader 1 .apply, .reader 1 .schedule, .reader 1 .release]

/-- The older connection ends, with a dirty frame and a `DESTROY` still to
work off, and the newer one sends a dirty frame. -/
def orderly : List Action :=
  replaced ++ loads 0 (pixel 7 DIRTY) [1, 2, 3, 4]
    ++ [.reader 0 .apply, .reader 0 .merge, .reader 0 .release,
      .reader 0 (.header { pixel 7 0 with type := DESTROY, size := 0 }), .reader 0 .dispatch,
      .reader 0 .readFail, .reader 0 .invalidate]
    ++ loads 1 (pixel 7 DIRTY) [9, 9, 9, 9] ++ [.reader 1 .apply]

/-- The newer connection's dirty frame is about to be merged. -/
theorem undisturbed_orderly :
    ∃ t, ((machine.restrict twoConnections).restrict noLateFull).run orderly = some t
      ∧ t.NewerApplied 7
      ∧ Undisturbed ((machine.restrict twoConnections).restrict noLateFull) t := by
  obtain ⟨t, ht, hp⟩ : ∃ t, ((machine.restrict twoConnections).restrict noLateFull).run orderly
      = some t ∧ t.NewerApplied 7 := by
    decide +kernel
  exact ⟨t, ht, hp, undisturbed_of_noLateFull t (.of_run ht)⟩

/-- **A full frame still in the older connection's buffer replaces the
picture of the newer one.** -/
theorem late_full_takes_over :
    ∃ t, (machine.restrict twoConnections).run
        (replaced ++ loads 0 (pixel 7 0) [1, 2, 3, 4]) = some t
      ∧ ¬ Undisturbed (machine.restrict twoConnections) t := by
  obtain ⟨t, ht, happlied, t', ht', f, hf, hne⟩ : ∃ t, (machine.restrict twoConnections).run
      (replaced ++ loads 0 (pixel 7 0) [1, 2, 3, 4]) = some t ∧ t.NewerApplied 7
      ∧ ∃ t', (machine.restrict twoConnections).step t (.reader 0 .apply) = some t'
      ∧ ∃ f, t.frames.table.lookup 7 = some f
        ∧ (t'.frames.heap f).content ≠ (t.frames.heap f).content := by
    decide +kernel
  exact ⟨t, ht, fun h => hne ((h.older .apply t' ht' 7 happlied).2 f hf)⟩

end Transport

end Juice
