import Juice.Driver.Stream

/-!
# The stream describes the surfaces

The driver keeps two notes about what the host holds. A surface knows
whether it was ever presented, and the connection knows for which windows
a frame went out. Neither knows of what size that frame was, or who made
it.

The invariant that ties them to the stream is `Tracks`: for a window with a
baseline, the records sent describe a plane, and *if the last full frame
of the window came from GDI* and its surface was presented, that plane has
the size of the surface and shows it, but for pixels painted since. The
condition is what the notes leave out: a Metal readback of the same window
marks the same baseline.
-/

namespace Juice

open Function JuiceMsg ByteSeq

variable {hwnd : UInt64} {x : Surface}

/-! ## The last full frame -/

/-- **The last full frame** of a window among some records. -/
def lastFull (hwnd : UInt64) (l : List Record) : Option Record :=
  l.reverse.find? (fun r => r.msg.type = FRAME ∧ r.msg.dirty = false ∧ r.msg.hwnd = hwnd)

theorem lastFull_concat (hwnd : UInt64) (l : List Record) (r : Record) :
    lastFull hwnd (l ++ [r])
      = if r.msg.type = FRAME ∧ r.msg.dirty = false ∧ r.msg.hwnd = hwnd then some r
        else lastFull hwnd l := by
  unfold lastFull
  rw [List.reverse_append, List.reverse_singleton, List.singleton_append, List.find?_cons]
  by_cases h : r.msg.type = FRAME ∧ r.msg.dirty = false ∧ r.msg.hwnd = hwnd
  · rw [if_pos h, decide_eq_true h]
  · rw [if_neg h, decide_eq_false h]

/-- What some records show. -/
def shows (l : List Record) : Mirror := Mirror.after (l.map Record.content)

theorem shows_concat (l : List Record) (r : Record) :
    shows (l ++ [r]) = (shows l).apply r.content := by
  simp [shows]

/-! ## Tracking a surface -/

/-- **The records track a surface**: they show a plane for the window, of
the size of the last full frame, and that plane lags behind the surface by
its damage, if the frame came from GDI and the surface was presented. -/
def Tracks (records : List Record) (hwnd : UInt64) (sf : Option Surface) : Prop :=
  ∃ p f pic, (shows records hwnd = some p ∧ p.Wf)
    ∧ (lastFull hwnd records = some f ∧ f.shown = some pic)
    ∧ (f.msg.cols = p.width ∧ f.msg.rows = p.height)
    ∧ (pic.producer = .gdi → ∀ x, sf = some x → x.presented = true
      → p.Agrees x.picture.plane (fun a b => (a, b) ∈ x.damage))

section Tracks

variable {records : List Record} {hwnd : UInt64} {sf : Option Surface}

/-- Records of other windows, and records that are not about planes, change
nothing. -/
theorem Tracks.other (h : Tracks records hwnd sf) {r : Record}
    (hr : hwnd ≠ r.msg.hwnd ∨ (r.msg.type ≠ FRAME ∧ r.msg.type ≠ DESTROY)) :
    Tracks (records ++ [r]) hwnd sf := by
  obtain ⟨p, f, pic, ⟨hp, hwf⟩, ⟨hf, hpic⟩, hdims, hag⟩ := h
  have hshow : shows (records ++ [r]) hwnd = shows records hwnd := by
    rw [shows_concat]
    rcases hr with hne | ⟨h₁, h₂⟩
    · exact Mirror.apply_of_ne hne
    · rw [Mirror.apply_other h₁ h₂]
  have hlast : lastFull hwnd (records ++ [r]) = lastFull hwnd records := by
    rw [lastFull_concat, if_neg]
    rintro ⟨h₁, -, h₃⟩
    rcases hr with hne | ⟨h₂, -⟩
    · exact hne h₃.symm
    · exact h₂ h₁
  exact ⟨p, f, pic, ⟨hshow.trans hp, hwf⟩, ⟨hlast.trans hf, hpic⟩, hdims, hag⟩

/-- A surface that was not presented, or that is no more, is tracked by
records that track any. -/
theorem Tracks.replace (h : Tracks records hwnd sf) {sf' : Option Surface}
    (hsf : ∀ x, sf' = some x → x.presented = false) : Tracks records hwnd sf' := by
  obtain ⟨p, f, pic, hp, hf, hdims, -⟩ := h
  refine ⟨p, f, pic, hp, hf, hdims, fun _ x hx hpres => ?_⟩
  rw [hsf x hx] at hpres
  cases hpres

/-- Painting a pixel adds it to the damage. -/
theorem Tracks.paint {x : Surface} (h : Tracks records hwnd (some x)) {a b : ℕ} {px : List UInt8}
    (hpx : a < x.picture.width.toNat ∧ b < x.picture.height.toNat ∧ px.length = 4) :
    Tracks records hwnd (some (x.paint a b px hpx)) := by
  obtain ⟨p, f, pic, hp, hf, hdims, hag⟩ := h
  refine ⟨p, f, pic, hp, hf, hdims, fun hgdi y hy hpres => ?_⟩
  cases hy
  refine ((hag hgdi x rfl hpres).paint x.sized.wf hpx.2.2 hpx.1 hpx.2.1).mono ?_
  rintro c d (⟨rfl, rfl⟩ | hcd)
  · exact List.mem_cons_self
  · exact List.mem_cons_of_mem _ hcd

/-- **A full frame tracks the surface it was made from**, and tracks any
surface if it was not made by GDI. -/
theorem tracks_full {pic : Picture} (hs : pic.Sized)
    (hsf : pic.producer = .gdi → ∀ x, sf = some x → x.presented = true → x.picture = pic) :
    Tracks (records ++ [⟨fullMsg hwnd pic, pic.bits.take pic.fullSize, some pic⟩]) hwnd sf := by
  have htake : pic.bits.take pic.fullSize = pic.bits := by
    rw [← hs.length_bits, List.take_length]
  obtain ⟨hcols, hrows, -⟩ := hs.fullMsg_fields hwnd
  refine ⟨pic.plane, ⟨fullMsg hwnd pic, pic.bits.take pic.fullSize, some pic⟩, pic, ⟨?_, hs.wf⟩,
    ⟨?_, rfl⟩, ⟨hcols, hrows⟩, ?_⟩
  · rw [shows_concat, Mirror.apply_full rfl (dirty_fullMsg hwnd pic)]
    show Function.update _ hwnd _ hwnd = _
    rw [update_self, htake]
    rfl
  · rw [lastFull_concat, if_pos ⟨rfl, dirty_fullMsg hwnd pic, rfl⟩]
  · intro hgdi x hx hpres
    rw [hsf hgdi x hx hpres]
    exact Plane.Agrees.refl _ _

/-- The packed rectangle of a frame, in numbers. -/
theorem mergeInto_dirty {pic : Picture} {c : Rect} (hs : pic.Sized) (hc : c.Within pic)
    (p : Plane) :
    Content.mergeInto (dirtyMsg hwnd c, (dirtyRows pic c).flatten) p
      = p.patch c.left.toUInt32.toNat c.top.toUInt32.toNat
          (pack pic.plane.bytes pic.plane.stride (c.left.toUInt32.toNat * 4) c.top.toUInt32.toNat
            (c.cols.toNat * 4) c.rows.toNat) (c.cols.toNat * 4) (c.cols.toNat * 4)
          c.rows.toNat := by
  obtain ⟨hcols, hrows, hstride, -⟩ := hc.dirtyMsg_fields hs hwnd
  unfold Content.mergeInto
  dsimp only
  rw [hcols, hrows, hstride, dirtyRows, flatten_rows]
  rfl

/-- **A packed rectangle of the surface keeps tracking it**, and takes what
it covers off the damage. -/
theorem Tracks.dirty {x : Surface} (h : Tracks records hwnd (some x)) {dirty : Option Rect}
    {c : Rect} (hclip : clipFrame x.picture dirty = some c) (hpres : x.presented = true) :
    Tracks (records ++ [⟨dirtyMsg hwnd c, (dirtyRows x.picture c).flatten, some x.picture⟩]) hwnd
      (some (x.markPresented dirty)) := by
  obtain ⟨p, f, pic, ⟨hp, hwf⟩, hf, hdims, hag⟩ := h
  obtain ⟨hc, hcl⟩ := within_of_clipFrame x.sized hclip
  obtain ⟨⟨hleft, htop⟩, ⟨hcpos, hcle⟩, hrpos, hrle⟩ := hc.fits x.sized
  have hcols := hc.toNat_cols x.sized
  have hrows := hc.toNat_rows x.sized
  have hxrow := x.sized.row_le
  set r : Content := (dirtyMsg hwnd c, (dirtyRows x.picture c).flatten) with hr
  have hshow : shows (records ++ [⟨dirtyMsg hwnd c, (dirtyRows x.picture c).flatten,
      some x.picture⟩]) hwnd = some (if r.FitsIn p then r.mergeInto p else p) := by
    rw [shows_concat, Mirror.apply_dirty rfl (dirty_dirtyMsg hwnd c)]
    show Function.update _ hwnd _ hwnd = _
    rw [update_self]
    show (shows records hwnd).map _ = _
    rw [hp]
    rfl
  have hlast : lastFull hwnd (records ++ [⟨dirtyMsg hwnd c, (dirtyRows x.picture c).flatten,
      some x.picture⟩]) = lastFull hwnd records := by
    rw [lastFull_concat, if_neg]
    rintro ⟨-, hd, -⟩
    rw [dirty_dirtyMsg] at hd
    cases hd
  have hpack : (pack x.picture.plane.bytes x.picture.plane.stride (c.left.toUInt32.toNat * 4)
      c.top.toUInt32.toNat (c.cols.toNat * 4) c.rows.toNat).length
      = c.rows.toNat * (c.cols.toNat * 4) := by
    refine length_pack ?_ ?_
    · show c.left.toUInt32.toNat * 4 + c.cols.toNat * 4 ≤ x.picture.stride.toNat
      omega
    · rw [x.sized.wf.length_bytes, mul_comm]
      exact Nat.mul_le_mul_left _ hrle
  have hfit : r.FitsIn p → c.left.toUInt32.toNat + c.cols.toNat ≤ p.width
      ∧ c.top.toUInt32.toNat + c.rows.toNat ≤ p.height := fun h => h
  refine ⟨if r.FitsIn p then r.mergeInto p else p, f, pic, ⟨hshow, ?_⟩, ⟨hlast.trans hf.1, hf.2⟩,
    ?_, ?_⟩
  · split
    · rename_i hin
      rw [hr, mergeInto_dirty x.sized hc]
      exact hwf.patch (hfit hin).1 (hfit hin).2 le_rfl hpack.ge
    · exact hwf
  · split <;> exact hdims
  · intro hgdi y hy _
    cases hy
    have hold := hag hgdi x rfl hpres
    have hin : r.FitsIn p := by
      refine ⟨?_, ?_⟩
      · show c.left.toUInt32.toNat + c.cols.toNat ≤ p.width
        rw [hold.width_eq]
        exact hcle
      · show c.top.toUInt32.toNat + c.rows.toNat ≤ p.height
        rw [hold.height_eq]
        exact hrle
    rw [if_pos hin, hr, mergeInto_dirty x.sized hc]
    have hnew := hold.patch hwf (hfit hin).1 (hfit hin).2 x.sized.wf
    refine ⟨hnew.width_eq, hnew.height_eq, fun b k hb hk hne => ?_⟩
    refine hnew.getElem?_eq b k hb hk (fun hout => hne ?_)
    -- a damaged pixel outside the rectangle was not covered, so it stays
    refine List.mem_filter.mpr ⟨hout.1, decide_eq_true ?_⟩
    intro hcov
    have hpw : p.width = x.picture.width.toNat := hold.width_eq
    have hph : p.height = x.picture.height.toNat := hold.height_eq
    replace hb : b < p.height := hb
    replace hk : k < p.width * 4 := hk
    have hmem := (mem_clipRect x.sized (by omega) (by omega)).mp hcov
    rw [← hcl] at hmem
    exact hout.2 (by omega)

end Tracks

/-- A flush of which nothing is sent covered no damage. -/
theorem Tracks.skip {records : List Record} {dirty : Option Rect} (h : Tracks records hwnd (some x))
    (hclip : clipFrame x.picture dirty = none) (hpres : x.presented = true) :
    Tracks records hwnd (some (x.markPresented dirty)) := by
  obtain ⟨p, f, pic, hp, hf, hdims, hag⟩ := h
  refine ⟨p, f, pic, hp, hf, hdims, fun hgdi y hy _ => ?_⟩
  cases hy
  have hold := hag hgdi x rfl hpres
  refine ⟨hold.width_eq, hold.height_eq, fun b k hb hk hne => ?_⟩
  refine hold.getElem?_eq b k hb hk (fun hd => hne ?_)
  have hw : p.width = x.picture.width.toNat := hold.width_eq
  have hh : p.height = x.picture.height.toNat := hold.height_eq
  exact List.mem_filter.mpr ⟨hd, decide_eq_true
    (not_covers_of_clipFrame x.sized hclip (by omega) (by omega))⟩

/-- **A surface handed to `ios_ipc_present` is tracked** by the records with
its frame, if the records tracked it where it had a baseline and it was
handed over as a whole where it had not been presented. -/
theorem tracks_present {records : List Record} {dirty : Option Rect} {c : Rect} {baseline : Bool}
    (hclip : clipFrame x.picture dirty = some c)
    (hbase : baseline = true → Tracks records hwnd (some x))
    (hpres : c.isPartial x.picture = true → x.presented = true) :
    Tracks (records ++ [frameRecord hwnd x.picture c baseline]) hwnd
      (some (x.markPresented dirty)) := by
  unfold frameRecord
  split
  · rename_i hd
    simp only [sendsDirty, Bool.and_eq_true] at hd
    exact (hbase hd.1.2).dirty hclip (hpres hd.1.1)
  · refine tracks_full x.sized (fun _ y hy _ => ?_)
    cases hy
    rfl

/-- Of a surface handed over as a whole until it was presented, a part goes
out only once it was. -/
theorem presented_of_isPartial {dirty : Option Rect} {c : Rect}
    (hpres : x.presented = true ∨ dirty = some (Rect.full x.picture.width x.picture.height))
    (hclip : clipFrame x.picture dirty = some c) (hpart : c.isPartial x.picture = true) :
    x.presented = true := by
  refine hpres.resolve_right ?_
  rintro rfl
  obtain ⟨c', hc', hnp⟩ := clipFrame_full x.sized
  rw [hclip] at hc'
  cases hc'
  rw [hpart] at hnp
  cases hnp

/-- A frame that is the whole picture is a full frame. -/
theorem frameRecord_full {pic : Picture} {c : Rect} {baseline : Bool} (h : c.isPartial pic = false) :
    frameRecord hwnd pic c baseline
      = ⟨fullMsg hwnd pic, pic.bits.take pic.fullSize, some pic⟩ := by
  simp [frameRecord, sendsDirty, h]

theorem frameRecord_type (hwnd : UInt64) (pic : Picture) (c : Rect) (baseline : Bool) :
    (frameRecord hwnd pic c baseline).msg.type = FRAME
      ∧ (frameRecord hwnd pic c baseline).msg.hwnd = hwnd
      ∧ (frameRecord hwnd pic c baseline).shown = some pic := by
  unfold frameRecord
  split <;> exact ⟨rfl, rfl, rfl⟩

/-! ## The invariant of the driver -/

/-- **The stream describes the surfaces**: the records of the connection in
use track the surface of every window with a baseline, but for a window
that is being destroyed. -/
def Describes (ipc : Ipc) (surfaces : UInt64 → Option Surface) (busy : List UInt64) : Prop :=
  ipc.fd.isSome → ∀ hwnd, ipc.surfaceHasBaseline hwnd = true → hwnd ∉ busy
    → Tracks ipc.sent hwnd (surfaces hwnd)

namespace Describes

variable {ipc ipc' : Ipc} {surfaces : UInt64 → Option Surface} {busy : List UInt64} {r : Record}
  {t : Transfer}

theorem of_not_connected (h : ipc.fd = none) : Describes ipc surfaces busy := by
  intro hfd
  rw [h] at hfd
  cases hfd

/-- A connection just made describes nothing, and no window has a
baseline. -/
theorem connectIpc (h : Describes ipc surfaces busy) (hok : ipc.Ok) {io : Io}
    {rest : List IoResult} (hc : ipc.connectIpc io = some (ipc', rest))
    (hlt : ipc'.connects < 2 ^ 32) : Describes ipc' surfaces busy := by
  cases hfd : ipc.fd with
  | none =>
    intro hsome hwnd hbase
    obtain ⟨c, hc'⟩ := Option.isSome_iff_exists.mp hsome
    rw [hok.no_baseline hc hfd hlt hc'] at hbase
    cases hbase
  | some c =>
    rcases Ipc.connectIpc_cases hc with rfl | ⟨hnone, -⟩ | ⟨hnone, -⟩
    · exact h
    all_goals
      rw [hfd] at hnone
      cases hnone

/-- A record that is not about planes. -/
theorem transmit (h : Describes ipc surfaces busy) (hok : ipc.Ok) {c : ℕ} (hfd : ipc.fd = some c)
    (ht : t.Of r.bytes) (htok : t.ok = true) (hr : r.msg.type ≠ FRAME ∧ r.msg.type ≠ DESTROY) :
    Describes (ipc.transmit c r t) surfaces busy := by
  intro _ hwnd hbase hbusy
  rw [hok.sent_transmit hfd ht htok]
  exact (h (by rw [hfd]; rfl) hwnd hbase hbusy).other (.inr hr)

/-- A `DESTROY` leaves its window out until its baseline is forgotten. -/
theorem destroy (h : Describes ipc surfaces busy) (hok : ipc.Ok) {c : ℕ} (hfd : ipc.fd = some c)
    (ht : t.Of r.bytes) (htok : t.ok = true) :
    Describes (ipc.transmit c r t) surfaces (r.msg.hwnd :: busy) := by
  intro _ hwnd hbase hbusy
  rw [List.mem_cons, not_or] at hbusy
  rw [hok.sent_transmit hfd ht htok]
  exact (h (by rw [hfd]; rfl) hwnd hbase hbusy.2).other (.inl hbusy.1)

theorem mono (h : Describes ipc surfaces busy) (hwnd : UInt64) :
    Describes ipc surfaces (hwnd :: busy) :=
  fun hfd hwnd' hbase hbusy => h hfd hwnd' hbase (fun hm => hbusy (List.mem_cons_of_mem _ hm))

/-- The end of `ios_ipc_destroy`. -/
theorem forget (h : Describes ipc surfaces busy) (hok : ipc.Ok) (hwnd : UInt64) :
    Describes (ipc.forgetSurface hwnd) surfaces (busy.erase hwnd) := by
  intro hfd hwnd' hbase hbusy
  obtain ⟨hne, hbase'⟩ := Ipc.baseline_of_forget hok.distinct hbase
  exact h hfd hwnd' hbase' (fun hm => hbusy ((List.mem_erase_of_ne hne).mpr hm))

/-- A change to the surface of one window. -/
theorem setSurface (h : Describes ipc surfaces busy) {hwnd : UInt64} {sf : Option Surface}
    (hsf : ∀ records, Tracks records hwnd (surfaces hwnd) → Tracks records hwnd sf) :
    Describes ipc (Function.update surfaces hwnd sf) busy := by
  intro hfd hwnd' hbase hbusy
  have htr := h hfd hwnd' hbase hbusy
  by_cases he : hwnd' = hwnd
  · subst he
    rw [update_self]
    exact hsf _ htr
  · rw [update_of_ne he]
    exact htr

/-- **A frame that went out**: its window is tracked, and the others are as
before. -/
theorem present (h : Describes ipc surfaces busy) (hok : ipc.Ok) {c : ℕ} (hfd : ipc.fd = some c)
    {hwnd : UInt64} (hr : r.msg.hwnd = hwnd) (ht : t.Of r.bytes) (htok : t.ok = true) {alloc : Bool}
    {sf : Option Surface} (hsf : Tracks (ipc.sent ++ [r]) hwnd sf) :
    Describes ((ipc.transmit c r t).markSurfaceBaseline hwnd alloc)
      (Function.update surfaces hwnd sf) busy := by
  intro _ hwnd' hbase hbusy
  have hsent : ((ipc.transmit c r t).markSurfaceBaseline hwnd alloc).sent = ipc.sent ++ [r] := by
    rw [Ipc.sent, (Ipc.mark_frame _ _ _).1]
    exact hok.sent_transmit hfd ht htok
  rw [hsent]
  by_cases he : hwnd' = hwnd
  · subst he
    rw [update_self]
    exact hsf
  · rw [update_of_ne he]
    have hbefore : (ipc.transmit c r t).surfaceHasBaseline hwnd' = true :=
      Ipc.baseline_of_mark he hbase
    exact (h (by rw [hfd]; rfl) hwnd' hbefore hbusy).other (.inl (by rw [hr]; exact he))

end Describes

/-- What the driver maintains of its connection: its own invariants, and that
the stream describes the surfaces. -/
structure Sound (ipc : Ipc) (surfaces : UInt64 → Option Surface) (busy : List UInt64) :
    Prop where
  ok : ipc.Ok
  describes : ipc.connects < 2 ^ 32 → Describes ipc surfaces busy

namespace Sound

variable {ipc ipc' : Ipc} {surfaces : UInt64 → Option Surface} {busy : List UInt64} {io : Io}
  {hwnd : UInt64}

theorem connectIpc (h : Sound ipc surfaces busy) {rest : List IoResult}
    (hc : ipc.connectIpc io = some (ipc', rest)) : Sound ipc' surfaces busy where
  ok := h.ok.connectIpc hc
  describes hlt := (h.describes (lt_of_le_of_lt (Ipc.connects_connectIpc hc) hlt)).connectIpc
    h.ok hc hlt

theorem disconnect (h : Sound ipc surfaces busy) : Sound ipc.disconnect surfaces busy :=
  ⟨h.ok.disconnect, fun _ => Describes.of_not_connected rfl⟩

theorem mono (h : Sound ipc surfaces busy) (hwnd : UInt64) : Sound ipc surfaces (hwnd :: busy) :=
  ⟨h.ok, fun hlt => (h.describes hlt).mono hwnd⟩

theorem setSurface (h : Sound ipc surfaces busy) {sf : Option Surface}
    (hsf : ∀ records, Tracks records hwnd (surfaces hwnd) → Tracks records hwnd sf) :
    Sound ipc (Function.update surfaces hwnd sf) busy :=
  ⟨h.ok, fun hlt => (h.describes hlt).setSurface hsf⟩

theorem configure (h : Sound ipc surfaces busy) (path : List UInt8) (width height dpi : UInt32) :
    Sound { ipc with path, width, height, dpi } surfaces busy :=
  ⟨h.ok.configure path width height dpi, h.describes⟩

/-- A transfer that failed costs the connection, and nothing is described
any more. -/
theorem transmit_disconnect (h : Sound ipc surfaces busy) {c : ℕ} (hfd : ipc.fd = some c)
    {r : Record} (hr : r.Whole) {t : Transfer} (ht : t.Of r.bytes) (htok : t.ok = false)
    (surfaces' : UInt64 → Option Surface) (busy' : List UInt64) :
    Sound (ipc.transmit c r t).disconnect surfaces' busy' :=
  ⟨h.ok.transmit_disconnect hfd hr ht htok, fun _ => Describes.of_not_connected rfl⟩

/-- **Sending a record without payload.** `busy'` is `busy`, or has the
window of a `DESTROY` besides. -/
theorem sendMsg (h : Sound ipc surfaces busy) {type : UInt32} {rect : Option Rect}
    {stride flags : UInt32} {busy' : List UInt64}
    (hs : ipc.sendMsg type hwnd rect [] stride flags io = some ipc') (hne : type ≠ HELLO)
    (hkeep : ∀ ipc₁, Sound ipc₁ surfaces busy → Sound ipc₁ surfaces busy')
    (hsend : ∀ ipc₁ c r t, Sound ipc₁ surfaces busy → ipc₁.fd = some c → r.msg.type = type
      → r.msg.hwnd = hwnd → Transfer.Of r.bytes t → t.ok = true
      → ipc₁.connects < 2 ^ 32 → Describes (ipc₁.transmit c r t) surfaces busy') :
    Sound ipc' surfaces busy' := by
  have hhdr : ∀ rect, (Ipc.msgHeader type hwnd rect (UInt32.ofNat ([] : List UInt8).length)
      stride flags).type = type ∧ (Ipc.msgHeader type hwnd rect
      (UInt32.ofNat ([] : List UInt8).length) stride flags).hwnd = hwnd
      ∧ (Ipc.msgHeader type hwnd rect (UInt32.ofNat ([] : List UInt8).length) stride flags).size
        = 0 := by
    intro rect
    cases rect <;> exact ⟨rfl, rfl, rfl⟩
  obtain ⟨ipc₁, rest, hconn, hcases⟩ := Ipc.sendMsg_cases hs
  obtain ⟨hty, hwnd', hsize⟩ := hhdr rect
  have h₁ := h.connectIpc hconn
  rcases hcases with ⟨-, rfl⟩ | ⟨c, t, hfd, ht, ⟨htok, rfl⟩ | ⟨htok, rfl⟩⟩
  · exact hkeep _ h₁
  · refine ⟨h₁.ok.transmit hfd ?_ (by rw [hty]; exact hne) ht htok, fun hlt => ?_⟩
    · rw [Record.Whole, hsize]
      rfl
    · rw [h₁.ok.connects_transmit hfd] at hlt
      exact hsend _ c _ t h₁ hfd hty hwnd' ht htok hlt
  · refine h₁.transmit_disconnect hfd ?_ ht htok surfaces busy'
    rw [Record.Whole, hsize]
    rfl

theorem window (h : Sound ipc surfaces busy) {rect : Option Rect} {visible : Bool}
    (hs : ipc.window hwnd rect visible io = some ipc') : Sound ipc' surfaces busy := by
  refine h.sendMsg hs (by decide) (fun _ h₁ => h₁) ?_
  intro ipc₁ c r t h₁ hfd hty _ ht htok hlt
  exact (h₁.describes hlt).transmit h₁.ok hfd ht htok (by rw [hty]; decide)

theorem destroy (h : Sound ipc surfaces busy) (hs : ipc.destroy hwnd io = some ipc') :
    Sound ipc' surfaces (hwnd :: busy) := by
  refine h.sendMsg hs (by decide) (fun _ h₁ => h₁.mono hwnd) ?_
  intro ipc₁ c r t h₁ hfd _ hw ht htok hlt
  have := (h₁.describes hlt).destroy h₁.ok hfd ht htok
  rwa [hw] at this

/-- **Presenting a picture.** The surface of the window becomes `sf`, which
has to be tracked in the two cases: nothing was sent, or the frame was. -/
theorem present (h : Sound ipc surfaces busy) {pic : Picture} (hsz : pic.Sized)
    {dirty : Option Rect} (hp : ipc.present hwnd pic dirty io = some ipc') (hbusy : hwnd ∉ busy)
    {sf : Option Surface} (hskip : clipFrame pic dirty = none →
      ∀ records, Tracks records hwnd (surfaces hwnd) → Tracks records hwnd sf)
    (hsend : ∀ c records baseline, clipFrame pic dirty = some c
      → (baseline = true → Tracks records hwnd (surfaces hwnd))
      → Tracks (records ++ [frameRecord hwnd pic c baseline]) hwnd sf) :
    Sound ipc' (Function.update surfaces hwnd sf) busy := by
  rcases Ipc.present_cases hsz hp with ⟨hclip, rfl⟩ | ⟨c, ipc₁, rest, hclip, hconn, hcases⟩
  · exact h.setSurface (hskip hclip)
  · have h₁ := h.connectIpc hconn
    have hc := (within_of_clipFrame hsz hclip).1
    rcases hcases with ⟨hfd, rfl⟩ | ⟨conn, t, hfd, ht, ⟨htok, rfl⟩ | ⟨htok, rfl⟩⟩
    · exact ⟨h₁.ok, fun _ => Describes.of_not_connected hfd⟩
    · obtain ⟨hty, hw, -⟩ := frameRecord_type hwnd pic c (ipc₁.surfaceHasBaseline hwnd)
      refine ⟨(h₁.ok.transmit hfd (hsz.length_payload hc _ _) (by rw [hty]; decide) ht htok).mark
        hwnd io.alloc, fun hlt => ?_⟩
      have hlt' : ipc₁.connects < 2 ^ 32 := by
        rwa [Ipc.connects_mark, h₁.ok.connects_transmit hfd] at hlt
      refine (h₁.describes hlt').present h₁.ok hfd hw ht htok (hsend c _ _ hclip (fun hb => ?_))
      exact h₁.describes hlt' (by rw [hfd]; rfl) hwnd hb hbusy
    · exact h₁.transmit_disconnect hfd (hsz.length_payload hc _ _) ht htok _ _

end Sound

namespace Driver

variable {s : Driver}

/-- **The invariant of the driver.** -/
def Inv (s : Driver) : Prop := Sound s.ipc s.surfaces s.destroying

theorem inv_start (pid : UInt32) : (start pid).Inv where
  ok := ⟨List.nodup_nil, by simp [start], by simp [start], by simp [start, Ipc.connects]⟩
  describes _ := Describes.of_not_connected rfl

/-- Handing a surface over, of which the whole is handed over unless it was
presented before. -/
theorem Inv.presentSurface (h : s.Inv) {hwnd : UInt64} {x : Surface} {ipc : Ipc}
    (hx : s.surfaces hwnd = some x) (hbusy : hwnd ∉ s.destroying) {dirty : Option Rect} {io : Io}
    (hpres : x.presented = true ∨ dirty = some (Rect.full x.picture.width x.picture.height))
    (hp : s.ipc.present hwnd x.picture dirty io = some ipc) :
    ({ s with ipc }.setSurface hwnd (some (x.markPresented dirty))).Inv := by
  have hsound : Sound s.ipc s.surfaces s.destroying := h
  refine hsound.present x.sized hp hbusy ?_ ?_
  · intro hclip records htr
    rw [hx] at htr
    refine htr.skip hclip (hpres.resolve_right ?_)
    rintro rfl
    obtain ⟨c, hc, -⟩ := clipFrame_full x.sized
    rw [hc] at hclip
    cases hclip
  · intro c records baseline hclip hbase
    rw [hx] at hbase
    exact tracks_present hclip hbase (presented_of_isPartial hpres hclip)

/-- A readback is tracked, in the weak sense that is left of it, whatever
the surface of the window is. -/
theorem Inv.readback (h : s.Inv) {hwnd : UInt64} {pic : Picture} {io : Io} {ipc : Ipc}
    (hbusy : hwnd ∉ s.destroying) (hpic : pic.producer = .readback) (hsz : pic.Sized)
    (hp : s.ipc.present hwnd pic (some (Rect.full pic.width pic.height)) io = some ipc) :
    Inv { s with ipc } := by
  have hsound : Sound ipc (Function.update s.surfaces hwnd (s.surfaces hwnd)) s.destroying := by
    refine Sound.present h hsz hp hbusy (fun _ _ htr => htr) ?_
    intro c records baseline hclip _
    obtain ⟨c', hc', hnp⟩ := clipFrame_full hsz
    obtain rfl : c' = c := Option.some.inj (hc'.symm.trans hclip)
    rw [frameRecord_full hnp]
    exact tracks_full hsz (fun hgdi => by rw [hpic] at hgdi; cases hgdi)
  rwa [update_eq_self] at hsound

/-- A surface is handed over as a whole until it was presented. -/
theorem presented_or_full (x : Surface) (dirty : Option Rect) : x.presented = true
    ∨ x.flushRect dirty = some (Rect.full x.picture.width x.picture.height) := by
  cases hp : x.presented with
  | true => exact .inl rfl
  | false => exact .inr (by rw [Surface.flushRect, hp]; rfl)

/-- **Every action keeps the invariant.** -/
theorem Inv.step {t : Driver} {a : Action} (h : s.Inv) (hst : s.step a = some t) : t.Inv := by
  have hsound : Sound s.ipc s.surfaces s.destroying := h
  cases effect_of_step hst with
  | nothing => exact h
  | connect _ path width height dpi io p hp =>
    exact (hsound.configure path width height dpi).connectIpc hp
  | drop => exact hsound.disconnect
  | renew _ hwnd sf hsf => exact hsound.setSurface (fun _ htr => htr.replace hsf)
  | paint _ hwnd x i j px hx hpx =>
    refine hsound.setSurface (fun _ htr => ?_)
    rw [hx] at htr
    exact htr.paint hpx
  | flush hwnd dirty io x ipc hbusy hx hp =>
    exact h.presentSurface hx hbusy (presented_or_full x dirty) hp
  | presentNow hwnd io x ipc hbusy hx hp => exact h.presentSurface hx hbusy (.inr rfl) hp
  | readback hwnd _ _ _ io pic ipc hbusy hpic hsz hp => exact h.readback hbusy hpic hsz hp
  | window hwnd rect visible io ipc hw => exact hsound.window hw
  | destroy hwnd io ipc hd => exact hsound.destroy hd
  | forget hwnd =>
    exact ⟨hsound.ok.forget hwnd, fun hlt => (hsound.describes hlt).forget hsound.ok hwnd⟩

end Driver

end Juice
