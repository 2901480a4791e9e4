import Juice.Driver.History

/-!
# The stream shows the surfaces

The driver's half of the display being a mirror. In runs without Metal
readbacks, where whoever flushes a surface names a rectangle with all that
was painted since the last flush, every frame record – whole or packed –
leaves the stream showing the surface exactly as it was when the record
was made.

The rectangle is the caller's promise, and a promise only about surfaces
that were presented: until then the driver sends the whole of it, whatever
it is told.
-/

namespace Juice

open JuiceMsg

/-- **A frame is faithful**: with it, the records of its connection show the
picture it was made from, which is a GDI surface. -/
def Faithful (before : List Record) (r : Record) : Prop :=
  r.msg.type = FRAME → ∃ pic ∈ r.shown, pic.producer = .gdi
    ∧ ∃ p ∈ shows (before ++ [r]) r.msg.hwnd, p.Agrees pic.plane (fun _ _ => False)

theorem plain_faithful : History.Plain Faithful := fun _ _ hne ht => absurd ht hne

/-- The frames of faithful records come from GDI. -/
theorem gdi_of_throughout {l : List Record} (h : Throughout Faithful l) {r : Record} (hr : r ∈ l)
    (ht : r.msg.type = FRAME) {pic : Picture} (hpic : r.shown = some pic) :
    pic.producer = .gdi := by
  obtain ⟨i, hi⟩ := List.getElem?_of_mem hr
  obtain ⟨pic', hpic', hgdi, -⟩ := h i r hi ht
  rw [hpic, Option.mem_some_iff] at hpic'
  rw [hpic', hgdi]

theorem mem_of_lastFull {hwnd : UInt64} {l : List Record} {f : Record}
    (h : lastFull hwnd l = some f) : f ∈ l ∧ f.msg.type = FRAME := by
  have hmem := List.mem_of_find?_eq_some h
  have hp := List.find?_some h
  exact ⟨List.mem_reverse.mp hmem, (of_decide_eq_true hp).1⟩

namespace Driver

/-- **The conditions of a GDI run**: no drawable is read back, and a surface
is flushed with a rectangle that covers what was painted since its last
flush. -/
def gdiOnly (s : Driver) : Action → Bool
  | .readback .. => false
  | .flush hwnd dirty _ => (s.surfaces hwnd).all (fun sf =>
      sf.damage.all (fun q => Covers (sf.flushRect dirty) q.1 q.2))
  | _ => true

variable {s : Driver} {a : Action} {hwnd : UInt64} {pic : Picture} {dirty : Option Rect} {io : Io}

/-- What a GDI run presents: a surface, with a rectangle that covers its
damage. -/
theorem presents_of_gdiOnly (hok : s.gdiOnly a = true) (hpres : s.Presents a hwnd pic dirty io) :
    ∃ x, s.surfaces hwnd = some x ∧ pic = x.picture
      ∧ (x.presented = true ∨ dirty = some (Rect.full x.picture.width x.picture.height))
      ∧ ∀ i j, i < x.picture.width.toNat → j < x.picture.height.toNat → (i, j) ∈ x.damage →
        Covers dirty i j := by
  cases hpres with
  | flush _ d _ x hx =>
    refine ⟨x, hx, rfl, presented_or_full x d, fun i j _ _ hd => ?_⟩
    simp only [gdiOnly, hx, Option.all_some, List.all_eq_true] at hok
    exact of_decide_eq_true (hok (i, j) hd)
  | presentNow _ _ x hx =>
    exact ⟨x, hx, rfl, .inr rfl, fun i j hi hj _ => covers_full x.sized hi hj⟩
  | readback => cases hok

/-- **The frame of an action of a GDI run is faithful.** -/
theorem faithful_frame {c : Rect} {ipc₁ : Ipc} {rest : List IoResult} {conn : ℕ}
    (hinv : s.Inv) (hhist : History Faithful s.ipc) (hok : s.gdiOnly a = true)
    (hpres : s.Presents a hwnd pic dirty io) (hbusy : hwnd ∉ s.destroying)
    (hclip : clipFrame pic dirty = some c) (hconn : s.ipc.connectIpc io = some (ipc₁, rest))
    (hfd : ipc₁.fd = some conn) (hlt : ipc₁.connects < 2 ^ 32) :
    Faithful ipc₁.sent (frameRecord hwnd pic c (ipc₁.surfaceHasBaseline hwnd)) := by
  have hsound : Sound s.ipc s.surfaces s.destroying := hinv
  have hsound₁ := hsound.connectIpc hconn
  obtain ⟨x, hx, rfl, hwhole, hcov⟩ := presents_of_gdiOnly hok hpres
  obtain ⟨-, hw, hshown⟩ := frameRecord_type hwnd x.picture c (ipc₁.surfaceHasBaseline hwnd)
  have htracks : Tracks (ipc₁.sent
      ++ [frameRecord hwnd x.picture c (ipc₁.surfaceHasBaseline hwnd)]) hwnd
      (some (x.markPresented dirty)) := by
    refine tracks_present hclip (fun hbase => ?_) (presented_of_isPartial hwhole hclip)
    exact hx ▸ hsound₁.describes hlt (by rw [hfd]; rfl) hwnd hbase hbusy
  obtain ⟨p, f, q, ⟨hp, -⟩, ⟨hlast, hq⟩, -, hag⟩ := htracks
  -- the last full frame is this one or an earlier one, and both come from GDI
  have hgdi : q.producer = .gdi := by
    obtain ⟨hmem, ht⟩ := mem_of_lastFull hlast
    rcases List.mem_append.mp hmem with hmem | hmem
    · obtain ⟨l, w, hl, -⟩ := hsound₁.ok.current conn hfd
      have hsent : ipc₁.sent = w.records := by simp [Ipc.sent, hl]
      have hthrough := hhist.connectIpc plain_faithful hconn w (by rw [hl]; simp)
      exact gdi_of_throughout hthrough (hsent ▸ hmem) ht hq
    · rw [List.mem_singleton.mp hmem, hshown] at hq
      rw [← Option.some.inj hq]
      exact x.gdi
  have hagrees := hag hgdi _ rfl rfl
  refine fun _ => ⟨x.picture, hshown, x.gdi, p, by rw [hw]; exact hp, ?_⟩
  refine ⟨hagrees.width_eq, hagrees.height_eq, fun j k hj hk _ => ?_⟩
  refine hagrees.getElem?_eq j k hj hk (fun hd => ?_)
  obtain ⟨hd, hnot⟩ := List.mem_filter.mp hd
  have hwidth : p.width = x.picture.width.toNat := hagrees.width_eq
  have hheight : p.height = x.picture.height.toNat := hagrees.height_eq
  exact of_decide_eq_true hnot (hcov (k / 4) j (by omega) (by omega) hd)

/-- **In a step of a GDI run, the records stay faithful.** -/
theorem faithful_step {t : Driver} (hinv : s.Inv) (hhist : History Faithful s.ipc)
    (hok : s.gdiOnly a = true) (hst : s.step a = some t) (hlt : t.ipc.connects < 2 ^ 32) :
    History Faithful t.ipc := by
  refine history_step plain_faithful hinv hhist hst ?_
  intro hwnd pic dirty io c ipc₁ rest conn hpres hbusy hclip hconn hfd hle
  exact faithful_frame hinv hhist hok hpres hbusy hclip hconn hfd (lt_of_le_of_lt hle hlt)

end Driver

end Juice
