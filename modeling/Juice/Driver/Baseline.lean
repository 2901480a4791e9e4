import Juice.Driver.History

/-!
# Two producers, one baseline

A window drawn by GDI may also be drawn by Metal: its readbacks go through
the same `ios_ipc_present`, and mark the same baseline. The entry of
`surface_generations` says that the host holds *a* frame of the window; it
does not say of what size. A GDI surface flushed before and after a
readback of another size is sent as a packed rectangle the second time,
to be merged into the frame of the readback.

The runs in which this does not happen are those where no surface that was
presented is flushed while the last full frame of its window is a readback
of another size. In them every packed rectangle goes out to a host that
holds a frame of the size of the surface.
-/

namespace Juice

open JuiceMsg

/-- **A dirty frame fits what went out before it**: the last full frame of
its window has the size of the picture it was cut from, and so has the
plane it is to be merged into. -/
def DirtyFits (before : List Record) (r : Record) : Prop :=
  r.msg.type = FRAME → r.msg.dirty = true → ∃ pic ∈ r.shown,
    (∃ f ∈ lastFull r.msg.hwnd before,
      f.msg.cols = pic.width.toNat ∧ f.msg.rows = pic.height.toNat)
    ∧ ∃ p ∈ shows before r.msg.hwnd,
      (p.width = pic.width.toNat ∧ p.height = pic.height.toNat) ∧ r.content.FitsIn p

instance : DecidableRel DirtyFits := fun before r => by
  unfold DirtyFits
  infer_instance

/-- Whether the last full frame of a window on the connection in use is a
readback of another size than a picture. -/
def Driver.foreignBaseline (s : Driver) (hwnd : UInt64) (pic : Picture) : Bool :=
  s.ipc.fd.isSome && (lastFull hwnd s.ipc.sent).any (fun f => f.shown.any (fun q =>
    q.producer = .readback
      ∧ (f.msg.cols ≠ pic.width.toNat ∨ f.msg.rows ≠ pic.height.toNat)))

/-- **The condition on a step**: a surface that was presented is not flushed
while the last full frame of its window is a readback of another size. -/
def Driver.matchingBaseline (s : Driver) : Driver.Action → Bool
  | .flush hwnd _ _ => (s.surfaces hwnd).all (fun sf =>
      !(sf.presented && s.foreignBaseline hwnd sf.picture))
  | _ => true

theorem plain_dirtyFits : History.Plain DirtyFits := fun _ _ hne ht => absurd ht hne

/-- A packed rectangle goes out only for a window with a baseline, and for
less than the picture. -/
theorem sendsDirty_of_dirty {hwnd : UInt64} {pic : Picture} {c : Rect} {baseline : Bool}
    (h : (frameRecord hwnd pic c baseline).msg.dirty = true) :
    sendsDirty pic c baseline = true := by
  unfold frameRecord at h
  split at h
  · assumption
  · rw [dirty_fullMsg] at h
    cases h

namespace Driver

/-- **Which action sends a packed rectangle**: a flush of a surface that was
presented, on the connection that was open before, to a host that was sent
a frame of the window. -/
theorem tracks_of_dirty {s : Driver} {a : Action} {hwnd : UInt64} {pic : Picture}
    {dirty : Option Rect} {io : Io} {c : Rect} {ipc₁ : Ipc} {rest : List IoResult} {conn : ℕ}
    (hinv : s.Inv) (hpres : s.Presents a hwnd pic dirty io) (hbusy : hwnd ∉ s.destroying)
    (hclip : clipFrame pic dirty = some c) (hconn : s.ipc.connectIpc io = some (ipc₁, rest))
    (hfd : ipc₁.fd = some conn) (hlt : ipc₁.connects < 2 ^ 32)
    (hd : sendsDirty pic c (ipc₁.surfaceHasBaseline hwnd) = true) :
    ∃ x, s.surfaces hwnd = some x ∧ x.presented = true ∧ pic = x.picture
      ∧ (∃ d io, a = .flush hwnd d io ∧ dirty = d)
      ∧ s.ipc.fd.isSome = true ∧ ipc₁ = s.ipc ∧ Tracks ipc₁.sent hwnd (some x) := by
  have hsound : Sound s.ipc s.surfaces s.destroying := hinv
  simp only [sendsDirty, Bool.and_eq_true] at hd
  obtain ⟨⟨hpart, hbase⟩, -⟩ := hd
  have hfull : ∀ q : Picture, q.Sized → clipFrame q (some (Rect.full q.width q.height)) = some c
      → c.isPartial q = false := by
    intro q hq hc
    obtain ⟨c', hc', hnp⟩ := clipFrame_full hq
    rw [hc] at hc'
    cases hc'
    exact hnp
  -- a baseline is not one of a connection just made
  have hopen : s.ipc.fd.isSome = true := by
    cases hnone : s.ipc.fd with
    | some _ => rfl
    | none =>
      rw [hsound.ok.no_baseline hconn hnone hlt hfd] at hbase
      cases hbase
  have hsame : ipc₁ = s.ipc := by
    rcases Ipc.connectIpc_cases hconn with h | ⟨hnone, -⟩ | ⟨hnone, -⟩
    · exact h
    all_goals
      rw [hnone] at hopen
      cases hopen
  have htr := (hsound.connectIpc hconn).describes hlt (by rw [hfd]; rfl) hwnd hbase hbusy
  cases hpres with
  | flush _ d _ x hx =>
    rw [hx] at htr
    rcases presented_or_full x d with hp | hf
    · refine ⟨x, hx, hp, rfl, ⟨d, io, rfl, ?_⟩, hopen, hsame, htr⟩
      rw [Surface.flushRect, hp]
      rfl
    · rw [hf] at hclip
      rw [hfull _ x.sized hclip] at hpart
      cases hpart
  | presentNow _ _ x hx =>
    rw [hfull _ x.sized hclip] at hpart
    cases hpart
  | readback _ _ _ _ _ _ _ hsz =>
    rw [hfull _ hsz hclip] at hpart
    cases hpart

/-- **The frame of an action that meets the condition fits.** -/
theorem dirtyFits_of_matchingBaseline {s : Driver} {a : Action} {hwnd : UInt64} {pic : Picture}
    {dirty : Option Rect} {io : Io} {c : Rect} {ipc₁ : Ipc} {rest : List IoResult} {conn : ℕ}
    (hinv : s.Inv) (hok : s.matchingBaseline a = true) (hpres : s.Presents a hwnd pic dirty io)
    (hbusy : hwnd ∉ s.destroying) (hclip : clipFrame pic dirty = some c)
    (hconn : s.ipc.connectIpc io = some (ipc₁, rest)) (hfd : ipc₁.fd = some conn)
    (hlt : ipc₁.connects < 2 ^ 32) :
    DirtyFits ipc₁.sent (frameRecord hwnd pic c (ipc₁.surfaceHasBaseline hwnd)) := by
  intro _ hdirty
  have hd := sendsDirty_of_dirty hdirty
  obtain ⟨x, hx, hp, rfl, ⟨d, io', rfl, -⟩, hopen, rfl, p, f, q, ⟨hshow, -⟩, ⟨hlast, hq⟩,
    ⟨hcols, hrows⟩, hag⟩ := tracks_of_dirty hinv hpres hbusy hclip hconn hfd hlt hd
  obtain ⟨-, hw, hsh⟩ := frameRecord_type hwnd x.picture c (s.ipc.surfaceHasBaseline hwnd)
  have hsize : p.width = x.picture.width.toNat ∧ p.height = x.picture.height.toNat := by
    cases hprod : q.producer with
    | gdi =>
      have h := hag hprod x rfl hp
      exact ⟨h.width_eq, h.height_eq⟩
    | readback =>
      simp only [matchingBaseline, foreignBaseline, hx, hlast, hq, hopen, hp, hprod,
        Option.all_some, Option.any_some, Bool.true_and] at hok
      simp only [true_and, Bool.not_eq_true', decide_eq_false_iff_not, not_or, not_not] at hok
      rw [← hcols, ← hrows]
      exact hok
  refine ⟨x.picture, hsh, ⟨f, ?_, hcols.trans hsize.1, hrows.trans hsize.2⟩, p, ?_, hsize, ?_⟩
  · rw [hw]
    exact hlast
  · rw [hw]
    exact hshow
  · obtain ⟨-, ⟨-, h₁⟩, -, h₂⟩ := (within_of_clipFrame x.sized hclip).1.fits x.sized
    unfold frameRecord Record.content
    rw [if_pos hd, Content.FitsIn]
    exact ⟨by rw [hsize.1]; exact h₁, by rw [hsize.2]; exact h₂⟩

/-- **In every run that meets the condition, every dirty frame ever sent
fits** the last full frame of its window on its connection, and the plane
the host is left with. -/
theorem dirty_fits_of_matching_baseline (pid : UInt32) (s : Driver)
    (h : ((machine pid).restrict matchingBaseline).Reachable s) (hlt : s.ipc.connects < 2 ^ 32) :
    ∀ w ∈ s.ipc.wires, Throughout DirtyFits w.records := by
  suffices hinv : s.Inv ∧ (s.ipc.connects < 2 ^ 32 → History DirtyFits s.ipc) from hinv.2 hlt
  refine h.invariant (I := fun s => s.Inv ∧ (s.ipc.connects < 2 ^ 32 → History DirtyFits s.ipc))
    ⟨inv_start pid, fun _ => by simp [History, machine, start]⟩ ?_
  rintro s a t - ⟨hinv, hhist⟩ hst
  obtain ⟨hok, hst⟩ := Machine.restrict_step.mp hst
  refine ⟨hinv.step hst, fun hlt => ?_⟩
  refine history_step plain_dirtyFits hinv
    (hhist (lt_of_le_of_lt (connects_step hinv hst) hlt)) hst ?_
  intro hwnd pic dirty io c ipc₁ rest conn hpres hbusy hclip hconn hfd hle
  exact dirtyFits_of_matchingBaseline hinv hok hpres hbusy hclip hconn hfd
    (lt_of_le_of_lt hle hlt)

/-- A surface of two pixels is presented, painted and flushed. -/
def oneProducer : List Action :=
  [.init (some [47]) 800 600 96 ⟨true, [.count 48], true⟩,
    .createSurface 7 ⟨0, 0, 2, 1⟩ true,
    .flush 7 none ⟨true, [.count 48, .count 8], true⟩,
    .paint 7 1 0 [1, 2, 3, 4],
    .flush 7 (some ⟨1, 0, 2, 1⟩) ⟨true, [.count 48, .eintr, .count 4], true⟩]

/-- The condition is met by a run that sends a packed rectangle. -/
theorem dirty_fits_oneProducer :
    ∃ s, ((machine 1).restrict matchingBaseline).run oneProducer = some s
      ∧ (s.ipc.sent[2]?).any (fun r => r.msg.dirty) = true
      ∧ ∀ w ∈ s.ipc.wires, Throughout DirtyFits w.records := by
  obtain ⟨s, hs, hlt, hd⟩ : ∃ s, ((machine 1).restrict matchingBaseline).run oneProducer = some s
      ∧ s.ipc.connects < 2 ^ 32 ∧ (s.ipc.sent[2]?).any (fun r => r.msg.dirty) = true := by
    decide +kernel
  exact ⟨s, hs, hd, dirty_fits_of_matching_baseline 1 s (.of_run hs) hlt⟩

/-- A surface of two pixels is presented, a drawable of one pixel is read
back, and the surface is flushed. -/
def twoProducers : List Action :=
  [.init (some [47]) 800 600 96 ⟨true, [.count 48], true⟩,
    .createSurface 7 ⟨0, 0, 2, 1⟩ true,
    .flush 7 none ⟨true, [.count 48, .count 8], true⟩,
    .readback 7 1 1 (List.replicate 256 0) ⟨true, [.count 48, .count 256], true⟩,
    .flush 7 (some ⟨0, 0, 1, 1⟩) ⟨true, [.count 48, .count 4], true⟩]

/-- **A rectangle of a surface two pixels wide goes out to be merged into a
frame one pixel wide.** -/
theorem dirty_frame_after_readback :
    ∃ s, (machine 1).run twoProducers = some s ∧ s.ipc.wires.length = 1
      ∧ s.ipc.connects < 2 ^ 32 ∧ ¬ ∀ w ∈ s.ipc.wires, Throughout DirtyFits w.records := by
  obtain ⟨s, hs, hlen, hlt, w, hw, r, hr, hnot⟩ : ∃ s, (machine 1).run twoProducers = some s
      ∧ s.ipc.wires.length = 1 ∧ s.ipc.connects < 2 ^ 32 ∧ ∃ w ∈ s.ipc.wires,
        ∃ r, w.records[3]? = some r ∧ ¬ DirtyFits (w.records.take 3) r := by
    decide +kernel
  exact ⟨s, hs, hlen, hlt, fun hall => hnot (hall w hw 3 r hr)⟩

end Driver

end Juice
