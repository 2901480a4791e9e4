import Juice.System.Streams

/-!
# The display is a mirror

The two halves put together: the records of a connection show the surfaces
they were made from (`Faithful`), the readers find the records in the bytes
(`Framed`), and the frames retained are what the records show (`Serves`).
So whenever a reader is through with the frame that a call of
`ios_ipc_present` has written, the host has a framebuffer for the window, of
the size of the surface, with its rows.

Connections take turns: a record is not applied before the connections made
earlier are closed. A connection that is not closed can still apply a full
frame over one of a later connection, and then this fails.
-/

namespace Juice

open JuiceMsg ByteSeq Transport

/-- Actions that apply a record. -/
def ReaderAction.applies : ReaderAction → Bool
  | .dispatch => true
  | .apply => true
  | .merge => true
  | _ => false

/-- A reader is between records: it is through with the last one, or about
to schedule or release it. -/
def ReaderPc.settled : ReaderPc → Bool
  | .loop => true
  | .applied _ _ => true
  | .releasing _ leave => !leave
  | _ => false

/-- **The host retains a picture for a window**: a framebuffer of its size,
with its rows. -/
def Transport.Retains (t : Transport) (hwnd : UInt64) (pic : Picture) : Prop :=
  ∃ f b, t.frames.table.lookup hwnd = some f ∧ (t.frames.heap f).bytes = some b
    ∧ (t.frames.heap f).width.toUInt32 = pic.width
    ∧ (t.frames.heap f).height.toUInt32 = pic.height
    ∧ ∀ y < pic.height.toNat,
      slice b (y * (t.frames.heap f).stride.toNat) (pic.width.toNat * 4)
        = slice pic.bits (y * pic.stride.toNat) (pic.width.toNat * 4)

namespace Transport

variable {t t' u : Transport} {a : ReaderAction} {r₀ r₀' : Reader}

/-! ## Connections that take turns -/

/-- Readers that have dealt with a record had their turn: earlier readers
have closed their connections. -/
def Turns (t : Transport) : Prop :=
  ∀ (c : ℕ) (r : Reader), t.readers[c]? = some r → r.handled ≠ [] →
    ∀ x ∈ t.readers.take c, x.pc = .closed

/-- What a reader has dealt with only changes when it applies a record. -/
theorem ReaderEffect.handled_eq {r r' : Reader} (e : ReaderEffect t r a u r')
    (ha : a.applies = false) : r'.handled = r.handled := by
  cases e with
  | hello => cases ha
  | destroy => cases ha
  | window => cases ha
  | missing => cases ha
  | full => cases ha
  | dropped => cases ha
  | merged => cases ha
  | _ => rfl

/-- The reader next in turn applies a record, or none is applied. -/
def InTurn (t : Transport) (c : ℕ) (a : ReaderAction) : Prop :=
  a.applies = true → ∀ x ∈ t.readers.take c, x.pc = .closed

/-- Readers before another one, one of them having moved. -/
theorem forall_take_set {c₀ c : ℕ} (hr₀ : t.readers[c₀]? = some r₀) (hopen : r₀.pc ≠ .closed)
    (h : ∀ x ∈ t.readers.take c, x.pc = .closed) :
    ∀ x ∈ (t.readers.set c₀ r₀').take c, x.pc = .closed := by
  rcases Nat.lt_or_ge c₀ c with hlt | hge
  · exact absurd (h r₀ (Slots.mem_take hr₀ hlt)) hopen
  · rw [List.take_set_of_le hge]
    exact h

theorem Turns.reader (h : t.Turns) {c₀ : ℕ} (hr₀ : t.readers[c₀]? = some r₀)
    (e : ReaderEffect t r₀ a u r₀') (hturn : t.InTurn c₀ a) :
    Turns { u with readers := t.readers.set c₀ r₀' } := by
  obtain ⟨-, hopen⟩ := e.fd_eq
  intro c r hr hhandled
  refine forall_take_set hr₀ hopen ?_
  by_cases hc : c₀ = c
  · subst hc
    rw [Slots.getElem?_set_self hr₀, Option.some.injEq] at hr
    subst hr
    cases ha : a.applies with
    | true => exact hturn ha
    | false => exact h c₀ r₀ hr₀ (e.handled_eq ha ▸ hhandled)
  · rw [List.getElem?_set_ne hc] at hr
    exact h c r hr hhandled

/-- **Readers that have not left the loop serve what they were sent.** -/
def AllServe (t : Transport) : Prop :=
  ∀ (c : ℕ) (r : Reader), t.readers[c]? = some r → r.pc ≠ .detaching → r.pc ≠ .closed →
    Serves t.frames r

/-- A reader that has not left the loop has not given up its frames. -/
theorem ReaderEffect.stays {r r' : Reader} (e : ReaderEffect t r a u r') (h₁ : r'.pc ≠ .detaching)
    (h₂ : r'.pc ≠ .closed) : a ≠ .invalidate ∧ r.pc ≠ .detaching ∧ r.pc ≠ .closed := by
  cases e with
  | invalidate => exact absurd rfl h₁
  | close => exact absurd rfl h₂
  | _ hpc => exact ⟨by simp, by rw [hpc]; simp, by rw [hpc]; simp⟩

/-- **A reader in its turn leaves what the others serve**, and serves what it
is sent. -/
theorem AllServe.reader (h : t.AllServe) (hinv : t.Inv) (hread : t.Reading) (hturns : t.Turns)
    {c₀ : ℕ} (hr₀ : t.readers[c₀]? = some r₀) (e : ReaderEffect t r₀ a u r₀')
    (hturn : t.InTurn c₀ a)
    (hhello : ∀ m, a = .dispatch → r₀.pc = .admitted m → m.type = HELLO → r₀.handled = []) :
    AllServe { u with readers := t.readers.set c₀ r₀' } := by
  obtain ⟨-, hopen⟩ := e.fd_eq
  intro c r hr hdetaching hclosed
  show Serves u.frames r
  by_cases hc : c₀ = c
  · subst hc
    rw [Slots.getElem?_set_self hr₀, Option.some.injEq] at hr
    subst hr
    obtain ⟨ha, h₁, h₂⟩ := e.stays hdetaching hclosed
    exact (h c₀ r₀ hr₀ h₁ h₂).own hinv.frames (hread.checked r₀ (List.mem_of_getElem? hr₀)) e
      hhello ha
  · rw [List.getElem?_set_ne hc] at hr
    refine (h c r hr hdetaching hclosed).other hinv.frames e
      (hread.distinct c₀ c r₀ r hr₀ hr hc hopen hclosed) ?_
    rintro m data rfl - -
    -- a full frame comes from the only connection that is open, or is the first of its turn
    rcases Nat.lt_or_gt_of_ne hc with hlt | hgt
    · have hnil : r.handled = [] := by
        by_contra hne
        exact hopen (hturns c r hr hne r₀ (Slots.mem_take hr₀ hlt))
      rw [hnil]
      rfl
    · exact absurd (hturn rfl r (Slots.mem_take hr hgt)) hclosed

end Transport

/-! ## The invariant of the system -/

namespace System

/-- **The conditions of a run**: the driver presents surfaces only, flushed
with what was painted, and the host finishes with the earlier connections
before it applies a record. -/
def inTurn (s : System) : Action → Bool
  | .driver a => s.driver.gdiOnly a
  | .host (.reader c a) => !a.applies || (s.host.readers.take c).all (fun r => r.pc = .closed)
  | _ => true

/-- **What holds in every state of such a run.** -/
structure Mirrors (s : System) : Prop where
  driver : s.driver.Inv
  faithful : s.driver.ipc.connects < 2 ^ 32 → History Faithful s.driver.ipc
  host : s.host.Inv
  reading : s.host.Reading
  accepted : s.host.readers.length ≤ s.driver.ipc.wires.length
  unread : ∀ c, s.host.readers.length ≤ c → s.consumed c = 0
  framed : ∀ (c : ℕ) (w : Wire) (r : Reader), s.driver.ipc.wires[c]? = some w →
    s.host.readers[c]? = some r → Framed w r (s.consumed c)
  turns : s.host.Turns
  serves : s.host.AllServe

variable {s s' : System} {host : Transport}

theorem mirrors_start (pid : UInt32) : (start pid).Mirrors where
  driver := Driver.inv_start pid
  faithful _ _ hw := by cases hw
  host := Transport.inv_start
  reading := reading_start
  accepted := Nat.le_refl _
  unread _ _ := rfl
  framed c w r hw := by cases hw
  turns c r hr := by cases hr
  serves c r hr := by cases hr

/-- The wire of a reader is in order. -/
theorem Mirrors.wire_ok (h : s.Mirrors) {c : ℕ} {w : Wire}
    (hw : s.driver.ipc.wires[c]? = some w) : w.Ok s.driver.ipc.pid := by
  have hsound : Sound s.driver.ipc s.driver.surfaces s.driver.destroying := h.driver
  exact hsound.ok.wire w (List.mem_of_getElem? hw)

theorem Mirrors.driver_step (h : s.Mirrors) {a : Driver.Action} {driver : Driver}
    (hok : s.driver.gdiOnly a = true) (hst : s.driver.step a = some driver) :
    Mirrors { s with driver } := by
  have hgrows := Driver.grows_step hst
  refine { h with
    driver := h.driver.step hst
    faithful := fun hlt => ?_
    accepted := h.accepted.trans hgrows.length_le
    framed := fun c w' r hw' hr => ?_ }
  · exact Driver.faithful_step h.driver
      (h.faithful (lt_of_le_of_lt (Driver.connects_step h.driver hst) hlt)) hok hst hlt
  · have hlt : c < s.driver.ipc.wires.length :=
      lt_of_lt_of_le (List.getElem?_eq_some_iff.mp hr).1 h.accepted
    obtain ⟨w, hw, he⟩ := hgrows c _ (List.getElem?_eq_getElem hlt)
    obtain rfl : w = w' := Option.some.inj (hw.symm.trans hw')
    exact (h.framed c _ r (List.getElem?_eq_getElem hlt) hr).extends he

theorem Mirrors.accept_step (h : s.Mirrors) {fd : Fd}
    (hlt : s.host.readers.length < s.driver.ipc.wires.length)
    (hst : s.host.step (.accept fd) = some host) : Mirrors { s with host } := by
  have hinv := h.host.step hst
  have hreading := h.reading.step h.host hst
  have heff : Transport.Effect s.host (.accept fd) host := Transport.effect_of_step hst
  cases heff with
  | accept hfd hfree =>
  have hold : ∀ (c : ℕ) (r : Reader), (s.host.readers ++ [Reader.new fd])[c]? = some r →
      s.host.readers[c]? = some r ∨ (c = s.host.readers.length ∧ r = .new fd) := by
    intro c r hr
    rcases Nat.lt_or_ge c s.host.readers.length with hlt | hge
    · exact .inl ((List.getElem?_append_left hlt).symm.trans hr)
    · rw [List.getElem?_append_right hge] at hr
      obtain ⟨hc, hr⟩ := List.getElem?_eq_some_iff.mp hr
      rw [List.length_singleton] at hc
      exact .inr ⟨by omega, by simpa using hr.symm⟩
  refine { h with
    host := hinv
    reading := hreading
    accepted := by simpa using Nat.succ_le_of_lt hlt
    unread := fun c hc => h.unread c (Nat.le_of_succ_le (by simpa using hc))
    framed := fun c w r hw hr => ?_
    turns := fun c r hr hne => ?_
    serves := fun c r hr h₁ h₂ => ?_ }
  · rcases hold c r hr with hr | ⟨rfl, rfl⟩
    · exact h.framed c w r hw hr
    · have hzero : s.consumed s.host.readers.length = 0 := h.unread _ (Nat.le_refl _)
      show Framed w _ (s.consumed s.host.readers.length)
      rw [hzero]
      exact framed_new w fd
  · rcases hold c r hr with hr | ⟨rfl, rfl⟩
    · rw [List.take_append_of_le_length (List.getElem?_eq_some_iff.mp hr).1.le]
      exact h.turns c r hr hne
    · exact absurd rfl hne
  · rcases hold c r hr with hr | ⟨rfl, rfl⟩
    · exact h.serves c r hr h₁ h₂
    · exact serves_new _ fd

theorem Mirrors.reader_step (h : s.Mirrors) {c n : ℕ} {a : ReaderAction} {w : Wire}
    (hok : s.inTurn (.host (.reader c a)) = true) (hw : s.driver.ipc.wires[c]? = some w)
    (hread : w.read (s.consumed c) a = some n) (hst : s.host.step (.reader c a) = some host) :
    Mirrors { s with host, consumed := Function.update s.consumed c n } := by
  have hinv := h.host.step hst
  have hreading := h.reading.step h.host hst
  have heff : Transport.Effect s.host (.reader c a) host := Transport.effect_of_step hst
  cases heff with
  | @reader _ r r' _ u hr e =>
  have hturn : s.host.InTurn c a := by
    intro ha x hx
    simp only [inTurn, ha, Bool.not_true, Bool.false_or, List.all_eq_true] at hok
    exact of_decide_eq_true (hok x hx)
  have hchecked := h.reading.checked r (List.mem_of_getElem? hr)
  have hframed := h.framed c w r hw hr
  refine { h with
    host := hinv
    reading := hreading
    accepted := by simpa using h.accepted
    unread := fun c' hc' => ?_
    framed := fun c' w' r₁ hw' hr₁ => ?_
    turns := h.turns.reader hr e hturn
    serves := h.serves.reader h.host h.reading h.turns hr e hturn ?_ }
  · rw [List.length_set] at hc'
    have hne : c' ≠ c := fun heq =>
      absurd (List.getElem?_eq_some_iff.mp hr).1 (Nat.not_lt.mpr (heq ▸ hc'))
    exact (Function.update_of_ne hne _ _).trans (h.unread c' hc')
  · by_cases hc : c = c'
    · subst hc
      obtain rfl : w = w' := Option.some.inj (hw.symm.trans hw')
      rw [Slots.getElem?_set_self hr, Option.some.injEq] at hr₁
      subst hr₁
      show Framed w r' (Function.update s.consumed c n c)
      rw [Function.update_self]
      exact hframed.step (h.wire_ok hw) hchecked e hread
    · rw [List.getElem?_set_ne hc] at hr₁
      show Framed w' r₁ (Function.update s.consumed c n c')
      rw [Function.update_of_ne (Ne.symm hc)]
      exact h.framed c' w' r₁ hw' hr₁
  · intro m _ hpc hm
    rw [hpc] at hchecked
    exact hframed.hello_first (h.wire_ok hw) hpc hchecked hm

theorem Mirrors.delivery_step (h : s.Mirrors) {i : ℕ} {a : DeliveryAction}
    (hst : s.host.step (.delivery i a) = some host) : Mirrors { s with host } := by
  have hinv := h.host.step hst
  have hreading := h.reading.step h.host hst
  have heff : Transport.Effect s.host (.delivery i a) host := Transport.effect_of_step hst
  cases heff with
  | delivery hd e =>
  obtain ⟨hsame, hreaders, -⟩ := e.frame
  refine { h with
    host := hinv
    reading := hreading
    accepted := hreaders ▸ h.accepted
    unread := hreaders ▸ h.unread
    framed := hreaders ▸ h.framed
    turns := ?_
    serves := fun c r hr h₁ h₂ => ?_ }
  · unfold Turns
    rw [hreaders]
    exact h.turns
  · rw [hreaders] at hr
    exact (h.serves c r hr h₁ h₂).sameContent hsame

/-- **The invariant of the system.** -/
theorem mirrors_of_reachable {pid : UInt32}
    (h : ((machine pid).restrict inTurn).Reachable s) : s.Mirrors := by
  refine h.invariant (mirrors_start pid) (fun s a s' _ hs hst => ?_)
  obtain ⟨hok, hst⟩ := Machine.restrict_step.mp hst
  have heff : Effect s a s' := effect_of_step hst
  cases heff with
  | driver hdriver => exact hs.driver_step hok hdriver
  | accept hlt hhost => exact hs.accept_step hlt hhost
  | reader hw hread hhost => exact hs.reader_step hok hw hread hhost
  | delivery hhost => exact hs.delivery_step hhost

/-- **A frame retained shows what was presented.** -/
theorem retains_of_agrees {t : Transport} (hinv : t.Inv) {hwnd : UInt64} {f : ℕ} {pic : Picture}
    (hf : t.frames.table.lookup hwnd = some f)
    (hag : (t.frames.heap f).plane.Agrees pic.plane (fun _ _ => False)) : t.Retains hwnd pic := by
  obtain ⟨hlt, hlive, -⟩ := hinv.frames.entry hf
  obtain ⟨b, hb⟩ := Option.isSome_iff_exists.mp (hinv.frames.shaped hlt hlive).stored
  have hwidth : (t.frames.heap f).width.toUInt32.toNat = pic.width.toNat := hag.width_eq
  have hheight : (t.frames.heap f).height.toUInt32.toNat = pic.height.toNat := hag.height_eq
  refine ⟨f, b, hf, hb, UInt32.toNat_inj.mp hwidth, UInt32.toNat_inj.mp hheight, fun y hy => ?_⟩
  have hrow := hag.slice_eq (lt_of_lt_of_eq hy hheight.symm)
  simp only [Framebuffer.plane, Picture.plane, hb, Option.getD_some, hwidth] at hrow
  exact hrow

/-- **The display is a mirror.** In every run that meets the conditions, with
fewer than 2³² connections: when a reader is through with the stream of its
connection up to the end of a frame that a call of `ios_ipc_present` has
written, the host retains a framebuffer for the window, of the size of the
surface that was presented, and with its rows. -/
theorem retained_of_consumed (pid : UInt32) (s : System)
    (h : ((machine pid).restrict inTurn).Reachable s) (hlt : s.driver.ipc.connects < 2 ^ 32)
    {c k : ℕ} {w : Wire} {r : Reader} {rec : Record} (hw : s.driver.ipc.wires[c]? = some w)
    (hr : s.host.readers[c]? = some r) (hpc : r.pc.settled = true)
    (hrec : w.records[k]? = some rec) (ht : rec.msg.type = FRAME)
    (hend : s.consumed c = bytesOf (w.records.take (k + 1))) :
    ∃ pic, rec.shown = some pic ∧ s.host.Retains rec.msg.hwnd pic := by
  have hm := mirrors_of_reachable h
  obtain ⟨j, hj, hhandled, hat⟩ := hm.framed c w r hw hr
  -- the reader is through with as many records as end where it is
  have hbytes : s.consumed c = bytesOf (w.records.take j) := by
    cases hcase : r.pc with
    | loop => rw [hcase] at hat; exact hat
    | applied => rw [hcase] at hat; exact hat
    | releasing m leave =>
      rw [hcase] at hat hpc
      cases leave with
      | true => cases hpc
      | false => exact hat
    | _ => rw [hcase] at hpc; cases hpc
  obtain rfl : j = k + 1 := bytesOf_take_inj hj (List.getElem?_eq_some_iff.mp hrec).1
    (hbytes.symm.trans hend)
  obtain ⟨pic, hpic, -, p, hp, hag⟩ :=
    hm.faithful hlt w (List.mem_of_getElem? hw) k rec hrec ht
  have hshown : Mirror.after r.handled rec.msg.hwnd = some p := by
    rw [hhandled, List.take_add_one, hrec]
    exact hp
  obtain ⟨f, hf, hplane, -, -⟩ := (hm.serves c r hr (by rintro hd; rw [hd] at hpc; cases hpc)
    (by rintro hd; rw [hd] at hpc; cases hpc)).shown _ p hshown
  exact ⟨pic, hpic, retains_of_agrees hm.host hf (hplane ▸ hag)⟩

/-- A header of a frame that is one row. -/
def row (x : Int32) (n : UInt32) (flags : UInt32) : JuiceMsg :=
  ⟨MAGIC, FRAME, 4 * n, 7, x, 0, n.toInt32, 1, 4 * n, flags⟩

/-- The actions of the host on a frame, as far as `JuiceApplyFull` or
`JuiceApplyDirty`. -/
def frameIn (c : ℕ) (m : JuiceMsg) (data : List UInt8) : List Action :=
  [.host (.reader c (.header m)), .host (.reader c .reserve), .host (.reader c (.payload data)),
    .host (.reader c .apply)]

/-- The actions of the host on a connection, as far as its `HELLO`. -/
def greeted (c : ℕ) (fd : Fd) : List Action :=
  [.host (.accept fd),
    .host (.reader c (.header ⟨MAGIC, HELLO, 0, 0, 0, 0, 800, 600, 96, 9⟩)),
    .host (.reader c .dispatch)]

/-- A surface is presented and painted, and the flush that follows fails in
the middle of a header; the next one makes a new connection and sends the
whole surface, and the one after it sends a pixel. -/
def broken : List Action :=
  [.driver (.init (some [47]) 800 600 96 ⟨true, [.count 48], true⟩),
    .driver (.createSurface 7 ⟨0, 0, 2, 1⟩ true),
    .driver (.flush 7 none ⟨true, [.count 48, .count 8], true⟩)]
  ++ greeted 0 3 ++ frameIn 0 (row 0 2 0) (List.replicate 8 0)
  ++ [.host (.reader 0 .schedule), .host (.reader 0 .release),
    .driver (.paint 7 1 0 [1, 2, 3, 4]),
    .driver (.flush 7 (some ⟨1, 0, 2, 1⟩) ⟨true, [.count 20, .error], true⟩),
    .driver (.flush 7 (some ⟨1, 0, 2, 1⟩) ⟨true, [.count 48, .count 48, .count 8], true⟩),
    .driver (.paint 7 0 0 [5, 6, 7, 8]),
    .driver (.flush 7 (some ⟨0, 0, 1, 1⟩) ⟨true, [.count 48, .count 4], true⟩),
    .host (.reader 0 .readFail), .host (.reader 0 .invalidate), .host (.reader 0 .close)]
  ++ greeted 1 3 ++ frameIn 1 (row 0 2 0) [0, 0, 0, 0, 1, 2, 3, 4]
  ++ [.host (.reader 1 .schedule), .host (.reader 1 .release)]
  ++ frameIn 1 (row 0 1 DIRTY) [5, 6, 7, 8] ++ [.host (.reader 1 .merge)]

/-- The mirror after a pixel was merged on the second connection. -/
theorem retained_broken : ∃ s, ((machine 9).restrict inTurn).run broken = some s
    ∧ ∃ pic : Picture, pic.bits = [5, 6, 7, 8, 1, 2, 3, 4] ∧ s.host.Retains 7 pic := by
  obtain ⟨s, hs, hlt, w, hw, hend, ⟨r, hr, hpc⟩, rec, hrec, ht, hhwnd, pic, hpic, hbits⟩ : ∃ s,
      ((machine 9).restrict inTurn).run broken = some s ∧ s.driver.ipc.connects < 2 ^ 32
      ∧ ∃ w, s.driver.ipc.wires[1]? = some w ∧ s.consumed 1 = bytesOf (w.records.take 3)
        ∧ (∃ r, s.host.readers[1]? = some r ∧ r.pc.settled)
        ∧ ∃ rec, w.records[2]? = some rec ∧ rec.msg.type = FRAME ∧ rec.msg.hwnd = 7
          ∧ ∃ pic, rec.shown = some pic ∧ pic.bits = [5, 6, 7, 8, 1, 2, 3, 4] := by
    decide +kernel
  obtain ⟨pic', hpic', hret⟩ :=
    retained_of_consumed 9 s (.of_run hs) hlt hw hr hpc hrec ht hend
  obtain rfl : pic = pic' := Option.some.inj (hpic.symm.trans hpic')
  exact ⟨s, hs, pic, hbits, hhwnd ▸ hret⟩

/-- **Nothing is lost, doubled or reordered**: what a reader has handled is
the beginning of what the driver has written on its connection. -/
theorem handled_of_reachable {pid : UInt32} (h : ((machine pid).restrict inTurn).Reachable s) :
    ∀ p ∈ s.driver.ipc.wires.zip s.host.readers, p.2.handled <+: p.1.stream := by
  intro p hp
  obtain ⟨c, hc⟩ := List.getElem?_of_mem hp
  obtain ⟨hw, hr⟩ := List.getElem?_zip_eq_some.mp hc
  obtain ⟨k, -, hk, -⟩ := (mirrors_of_reachable h).framed c _ _ hw hr
  rw [hk, List.map_take]
  exact List.take_prefix k _

theorem handled_broken : ∃ s, ((machine 9).restrict inTurn).run broken = some s
    ∧ ∀ p ∈ s.driver.ipc.wires.zip s.host.readers, p.2.handled <+: p.1.stream := by
  obtain ⟨s, hs⟩ := Option.isSome_iff_exists.mp
    (show (((machine 9).restrict inTurn).run broken).isSome by decide +kernel)
  exact ⟨s, hs, handled_of_reachable (.of_run hs)⟩

end System

end Juice
