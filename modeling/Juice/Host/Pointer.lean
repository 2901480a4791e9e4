import Juice.Host.Capture
import Juice.Host.Identity

/-!
# A press and its release

In multi-window mode a pointer message goes to the window at the pointer, or
to the one that captured it. A program that is sent a press waits for the
release: it has to come on the same connection, wherever the pointer is by
then.

`Pointer` follows the buttons of the canvas along a run of the host: which
are held, and where their presses were sent. `paired_of_steady` is that the
release of a press goes where the press went, as long as that connection is
open – in runs in which, while a button is held, no other one is pressed and
the window that has the press is not hidden, destroyed or claimed by another
connection. Without this the release may be lost
(`release_lost`): the host ends a capture without sending anything, and by
the time of the release there is no window to send it to.
-/

namespace Juice

open Option

open Function

open JuiceMsg

/-! ## Buttons -/

inductive Button where
  | left
  | right
  deriving DecidableEq, Repr

/-- What the canvas reports: `send:flags:` sets the flag of one button, or
none. -/
inductive Gesture where
  | move
  | down (b : Button)
  | up (b : Button)
  deriving DecidableEq, Repr

/-- What a message reports. -/
def JuiceMsg.gesture (m : JuiceMsg) : Option Gesture :=
  let flags := m.flags &&& (INPUT_DOWN ||| INPUT_UP)
  if flags = 0 then some .move
  else if flags = 1 then some (.down .left)
  else if flags = 2 then some (.up .left)
  else if flags = 4 then some (.down .right)
  else if flags = 8 then some (.up .right)
  else none

def Gesture.isDown : Gesture → Bool
  | .down _ => true
  | _ => false

def Gesture.isUp : Gesture → Bool
  | .up _ => true
  | _ => false

/-- What the host tests for, in terms of what a message reports. -/
theorem JuiceMsg.down_up_of_gesture {m : JuiceMsg} {g : Gesture} (h : m.gesture = some g) :
    m.down = g.isDown ∧ m.up = g.isUp := by
  have hdown : m.flags &&& INPUT_DOWN = m.flags &&& (INPUT_DOWN ||| INPUT_UP) &&& INPUT_DOWN := by
    rw [UInt32.and_assoc]
    rfl
  have hup : m.flags &&& INPUT_UP = m.flags &&& (INPUT_DOWN ||| INPUT_UP) &&& INPUT_UP := by
    rw [UInt32.and_assoc]
    rfl
  unfold JuiceMsg.down JuiceMsg.up
  rw [hdown, hup]
  unfold gesture at h
  generalize m.flags &&& (INPUT_DOWN ||| INPUT_UP) = flags at h ⊢
  dsimp only at h
  repeat' split at h
  all_goals cases h
  all_goals subst flags; exact ⟨rfl, rfl⟩

/-- The message that is sent reports the same. -/
theorem JuiceMsg.gesture_of_flags {m message : JuiceMsg}
    (h : message.flags = m.flags ||| INPUT_COORDS_DESKTOP) : message.gesture = m.gesture := by
  have hflags : message.flags &&& (INPUT_DOWN ||| INPUT_UP)
      = m.flags &&& (INPUT_DOWN ||| INPUT_UP) := by
    apply UInt32.toBitVec_inj.mp
    rw [h, UInt32.toBitVec_and, UInt32.toBitVec_or, UInt32.toBitVec_and, BitVec.and_comm,
      BitVec.and_or_distrib_left,
      show (INPUT_DOWN ||| INPUT_UP).toBitVec &&& INPUT_COORDS_DESKTOP.toBitVec = 0#32 from rfl,
      BitVec.or_zero, BitVec.and_comm]
  unfold gesture
  rw [hflags]

namespace Host

variable {h h' : Host} {conn : ℕ} {hwnd : UInt64} {a : Action}

/-! ## Sending -/

/-- What is sent, and on which connection. -/
def posted (h : Host) (o : Option Controller.Sent) : Option (ℕ × JuiceMsg) :=
  o.bind (fun s => if s.1.fd ∈ h.clients then (h.connection s.1.fd).map (fun conn => (conn, s.2))
    else none)

theorem sent_send (h : Host) (o : Option Controller.Sent) :
    (h.send o).sent = h.sent ++ (h.posted o).toList := by
  unfold send posted
  split
  · simp
  · rename_i client m
    by_cases hc : client.fd ∈ h.clients
    · rw [bind_some, if_pos hc, if_pos hc]
      cases h.connection client.fd <;> simp
    · rw [bind_some, if_neg hc, if_neg hc]
      simp

@[simp] theorem send_ending (h : Host) (o : Option Controller.Sent) :
    (h.send o).ending = h.ending := by
  unfold send
  split
  · rfl
  · split <;> rfl

@[simp] theorem send_clients (h : Host) (o : Option Controller.Sent) :
    (h.send o).clients = h.clients := by
  unfold send
  split
  · rfl
  · split <;> rfl

/-- A connection is open: its reader has not taken its descriptor out of
`clients`. -/
def isOpen (h : Host) (conn : ℕ) : Bool :=
  conn < h.transport.readers.length ∧ h.ending conn = .none

/-- The descriptors of open connections are in `clients`. -/
def Listed (h : Host) : Prop :=
  ∀ (c : ℕ) (r : Reader), h.transport.readers[c]? = some r → h.ending c = .none → r.fd ∈ h.clients

theorem listed_start (multi : Bool) : (start multi).Listed := fun c r hr _ => by cases hr

/-- Transport actions keep the descriptors, and an `accept` lists one. -/
theorem Listed.transport (hl : h.Listed) {a : Transport.Action} {transport : Transport}
    (hst : h.transport.step a = some transport) {clients : List Fd}
    (hsub : ∀ fd ∈ h.clients, fd ∈ clients) (hnew : ∀ fd, a = .accept fd → fd ∈ clients) :
    Listed { h with transport, clients } := by
  intro c r hr hending
  rcases Transport.reader_of_step hst hr with ⟨r₀, hr₀, hlater⟩ | ⟨-, -, haccept⟩
  · rw [hlater.fd_eq]
    exact hsub _ (hl c r₀ hr₀ hending)
  · exact hnew r.fd haccept

/-- **The descriptors of open connections stay in `clients`**: what a reader
takes out is the number of no other one. -/
theorem Listed.step (hl : h.Listed) (hi : h.Identity) (hread : h.transport.Reading)
    (hst : h.step a = some h') : h'.Listed := by
  have heff : Effect h a h' := effect_of_step hst
  have hkeep : ∀ {a : Transport.Action} {transport : Transport},
      h.transport.step a = some transport → (∀ fd, a ≠ .accept fd) →
      Listed { h with transport } :=
    fun ht ha => hl.transport ht (fun _ hfd => hfd) (fun fd heq => absurd heq (ha fd))
  cases heff with
  | @accept fd _ ht =>
    refine hl.transport ht (fun _ hfd => List.mem_append_left _ hfd) ?_
    rintro _ ⟨⟩
    exact List.mem_append_right _ (List.mem_singleton_self fd)
  | dispatch ht => exact hkeep ht (fun fd heq => by cases heq)
  | close ht => exact hkeep ht (fun fd heq => by cases heq)
  | decide ht => exact hkeep ht (fun fd heq => by cases heq)
  | inner ha ht => exact hkeep ht (fun fd heq => by subst heq; cases ha)
  | @detach c₀ r₀ hr₀ hpc hending₀ =>
    intro c r hr hending
    have hne : c ≠ c₀ := by
      rintro rfl
      simp at hending
    replace hending : h.ending c = .none := (update_of_ne hne _ _).symm.trans hending
    refine List.mem_filter.mpr ⟨hl c r hr hending, decide_eq_true ?_⟩
    exact hread.distinct c c₀ r r₀ hr hr₀ hne (hi.ne_closed hr (by simp [hending]))
      (by simp [hpc])
  | @main b rest =>
    intro c r hr hending
    refine hl c r hr ?_
    cases b with
    | teardown c₀ fd =>
      by_cases hc : c = c₀
      · subst hc
        simp [runBlock, Block.ends] at hending
      · exact (update_of_ne hc _ _).symm.trans hending
    | _ => exact hending
  | present => exact hl
  | ui =>
    intro c r hr hending
    rw [send_transport] at hr
    rw [send_ending] at hending
    rw [send_clients]
    exact hl c r hr hending

/-! ## A press that is held -/

/-- What may happen while a press is held by a window of a connection: the
window is not hidden or destroyed, and no other connection claims it. -/
def keeps (h : Host) (conn : ℕ) (hwnd : UInt64) : Action → Bool
  | .main => match h.main with
    | .window other _ m :: _ => m.hwnd ≠ hwnd ∨ (other = conn ∧ m.flags ≠ 0)
    | .destroy fd key :: _ => key ≠ hwnd ∨ h.connection fd ≠ some conn
    | _ => true
  | .present imaged => h.presenting.all (fun s =>
    imaged = false ∨ s.hwnd ≠ hwnd ∨ h.connection s.clientFD = some conn)
  | _ => true

/-- Neither a pointer message nor a switch of the mode. -/
def Ui.quiet : Ui → Bool
  | .prune _ _ => true
  | .composite => true
  | .render => true
  | _ => false

/-- A window of a connection has captured the pointer. -/
def Pressed (h : Host) (conn : ℕ) (hwnd : UInt64) : Prop :=
  hwnd ≠ 0 ∧ ∃ r, h.transport.readers[conn]? = some r
    ∧ h.controller.Captured hwnd ⟨r.fd, some conn⟩

/-- The descriptor a connection is open under. -/
theorem fd_of_connection {fd : Fd} (hc : h.connection fd = some conn) {r : Reader}
    (hr : h.transport.readers[conn]? = some r) : r.fd = fd := by
  obtain ⟨hlt, hfound, -⟩ := List.findIdx?_eq_some_iff_getElem.mp hc
  obtain ⟨hlt', rfl⟩ := List.getElem?_eq_some_iff.mp hr
  exact (of_decide_eq_true hfound).1

/-- A reader goes on. -/
theorem Pressed.transport (hp : h.Pressed conn hwnd) {a : Transport.Action}
    (hst : h.transport.step a = some h'.transport) (hc : h'.controller = h.controller) :
    h'.Pressed conn hwnd := by
  obtain ⟨hhwnd, r, hr, hcaptured⟩ := hp
  obtain ⟨r', hr', heq⟩ := Transport.reader_stays hst hr
  refine ⟨hhwnd, r', hr', ?_⟩
  rw [heq, hc]
  exact hcaptured

/-- **A block runs**, and a press is held. -/
theorem Pressed.runBlock (hp : h.Pressed conn hwnd) (hi : h.Identity) (hread : h.transport.Reading)
    (hopen : h.ending conn = .none) {b : Block} {rest : List Block} (hmain : h.main = b :: rest)
    (hkeeps : h.keeps conn hwnd .main = true) (hopen' : b.ends h.ending conn = .none) :
    Pressed ({ h with main := rest }.runBlock b) conn hwnd := by
  obtain ⟨hhwnd, r, hr, hcaptured⟩ := hp
  have hpc : r.pc ≠ .closed := hi.ne_closed hr (by simp [hopen])
  have hpending : h.Pending b := hi.blocks b (by rw [hmain]; exact List.mem_cons_self)
  refine ⟨hhwnd, r, hr, ?_⟩
  unfold keeps at hkeeps
  rw [hmain] at hkeeps
  cases b with
  | desktop m => exact hcaptured.congr rfl rfl rfl rfl
  | window other fd m =>
    refine hcaptured.updateWindowMessage (fun heq => ?_)
    obtain ⟨rfl, hflags⟩ := (of_decide_eq_true hkeeps).resolve_left (fun hne => hne heq)
    obtain ⟨r', hr', rfl, -⟩ := hpending
    obtain rfl := Option.some.inj (hr.symm.trans hr')
    exact ⟨rfl, hflags⟩
  | destroy fd key =>
    show Controller.Captured _ _ (if _ then _ else _)
    split
    · rename_i howner
      refine hcaptured.destroyWindowHwnd ?_
      rintro rfl
      -- it is the window's own connection that destroys it
      refine (of_decide_eq_true hkeeps).elim (fun hne => hne rfl) (fun hother => hother ?_)
      obtain ⟨state, hstate, hshows⟩ := hcaptured.window
      rw [show h.controller.wineWindows.lookup key = some state from hstate,
        any_some, hshows.owned] at howner
      rw [← of_decide_eq_true howner]
      exact connection_eq hread hr hpc
    · exact hcaptured
  | teardown other fd =>
    refine hcaptured.invalidateWindowTransport ?_
    obtain ⟨⟨r', hr', rfl, hrunning⟩, -⟩ := hpending
    have hne : conn ≠ other := by
      rintro rfl
      simp [Block.ends] at hopen'
    exact hread.distinct conn other r r' hr hr' hne hpc (hi.ne_closed hr' hrunning)

/-- **A frame is presented**, and a press is held. -/
theorem Pressed.present (hp : h.Pressed conn hwnd) {s : Snapshot} (hs : h.presenting = some s)
    {imaged : Bool} (hkeeps : h.keeps conn hwnd (.present imaged) = true) :
    (h.presentSnapshot s imaged).Pressed conn hwnd := by
  obtain ⟨hhwnd, r, hr, hcaptured⟩ := hp
  refine ⟨hhwnd, r, hr, hcaptured.presentFrameMessage (fun himaged hkey => ?_) s.peerPID⟩
  simp only [keeps, hs, all_some, decide_eq_true_eq] at hkeeps
  have hconn : h.connection s.clientFD = some conn :=
    (hkeeps.resolve_left (by simp [himaged])).resolve_left (fun hne => hne hkey)
  rw [hconn, fd_of_connection hconn hr]

/-- What happens on the main queue besides, other than pointer messages. -/
theorem Pressed.ui (hp : h.Pressed conn hwnd) (hfds : ∀ r ∈ h.transport.readers, 0 ≤ r.fd)
    {a : Ui} (ha : a.quiet = true) {controller : Controller}
    (hst : h.controller.step a.action = some controller) :
    Pressed ({ h with controller }.send (a.sends h.controller)) conn hwnd := by
  obtain ⟨hhwnd, r, hr, hcaptured⟩ := hp
  refine ⟨hhwnd, r, by rwa [send_transport], ?_⟩
  rw [send_controller]
  cases a with
  | prune i alive =>
    obtain ⟨p, -, rfl⟩ := map_eq_some_iff.mp hst
    exact hcaptured.prune (hfds r (List.mem_of_getElem? hr)) i p alive
  | composite =>
    cases hst
    exact hcaptured.compositeWineDesktop
  | render =>
    simp only [Ui.action, Controller.step, ite_none_right_eq_some, Option.some.injEq] at hst
    obtain ⟨-, rfl⟩ := hst
    exact hcaptured.juiceRenderCompositeWineDesktop
  | input => cases ha
  | multiWindow => cases ha
  | background => cases ha

/-- **A press is held through an action** that is no pointer message. -/
theorem Pressed.step (hp : h.Pressed conn hwnd) (hi : h.Identity) (hread : h.transport.Reading)
    (hfds : ∀ r ∈ h.transport.readers, 0 ≤ r.fd) (hst : h.step a = some h')
    (hquiet : ∀ u, a = .ui u → u.quiet = true) (hkeeps : h.keeps conn hwnd a = true)
    (hopen : h.ending conn = .none) (hopen' : h'.ending conn = .none) : h'.Pressed conn hwnd := by
  have heff : Effect h a h' := effect_of_step hst
  cases heff with
  | accept ht => exact hp.transport ht rfl
  | dispatch ht => exact hp.transport ht rfl
  | close ht => exact hp.transport ht rfl
  | decide ht => exact hp.transport ht rfl
  | inner _ ht => exact hp.transport ht rfl
  | detach => exact hp
  | main _ hmain => exact hp.runBlock hi hread hopen hmain hkeeps hopen'
  | present hs => exact hp.present hs hkeeps
  | ui _ hc => exact hp.ui hfds (hquiet _ rfl) hc

/-- The end of a connection does not go back. -/
theorem ending_of_step (hst : h.step a = some h') (hopen : h'.ending conn = .none) :
    h.ending conn = .none := by
  have heff : Effect h a h' := effect_of_step hst
  cases heff with
  | @detach c =>
    by_cases hc : conn = c
    · subst hc
      simp at hopen
    · exact (update_of_ne hc _ _).symm.trans hopen
  | @main b =>
    cases b with
    | teardown c fd =>
      by_cases hc : conn = c
      · subst hc
        simp [Host.runBlock, Block.ends] at hopen
      · exact (update_of_ne hc _ _).symm.trans hopen
    | _ => exact hopen
  | ui =>
    rw [send_ending] at hopen
    exact hopen
  | _ => exact hopen

/-- Only switching it changes the mode. -/
theorem multi_of_step (hst : h.step a = some h') (ha : ∀ enabled, a ≠ .ui (.multiWindow enabled)) :
    h'.controller.experimentalMultiWindow = h.controller.experimentalMultiWindow := by
  have heff : Effect h a h' := effect_of_step hst
  cases heff with
  | @main b =>
    cases b with
    | desktop => rfl
    | window conn fd m => exact Controller.multi_updateWindowMessage _ m ⟨fd, some conn⟩
    | destroy fd hwnd =>
      show (if _ then _ else _ : Controller).experimentalMultiWindow = _
      split
      · exact Controller.multi_destroyWindowHwnd _ hwnd
      · rfl
    | teardown conn fd => exact Controller.multi_invalidateWindowTransport _ fd
  | present => exact Controller.multi_presentFrameMessage ..
  | @ui u controller _ hc =>
    rw [send_controller]
    refine Controller.multi_step hc (fun enabled heq => ?_)
    cases u with
    | multiWindow e => exact ha e rfl
    | _ => cases heq
  | _ => rfl

end Host

/-! ## The buttons along a run -/

/-- The host, with the buttons that are held and what was sent of their
presses, on which connection. -/
structure Pointer where
  host : Host
  held : Button → Option (Option (ℕ × JuiceMsg))

namespace Pointer

/-- The buttons after an action, given the host after it. -/
def after (p : Pointer) (host : Host) : Host.Action → Button → Option (Option (ℕ × JuiceMsg))
  | .ui (.input m) => match m.gesture with
    | some (.down b) => Function.update p.held b (some (host.sent.drop p.host.sent.length).head?)
    | some (.up b) => Function.update p.held b none
    | _ => p.held
  | _ => p.held

/-- Before any connection, in multi-window mode. -/
def start : Pointer := ⟨.start true, fun _ => none⟩

/-- The host, followed. -/
def machine : Machine Pointer Host.Action where
  start := start
  step p a := (p.host.step a).map (fun host => ⟨host, p.after host a⟩)

/-- Pointer messages are what the canvas reports: a button that is not held
goes down, and one that is held goes up. The mode is not switched, and the
app stays in the foreground. -/
def reported (p : Pointer) : Host.Action → Bool
  | .ui (.input m) => match m.gesture with
    | some .move => true
    | some (.down b) => (p.held b).isNone
    | some (.up b) => (p.held b).isSome
    | none => false
  | .ui (.multiWindow _) => false
  | .ui .background => false
  | _ => true

/-- The presses that are held on connections that are open: connection and
window. -/
def presses (p : Pointer) : List (ℕ × UInt64) :=
  ([Button.left, .right].filterMap (fun b => (p.held b).join)).filterMap (fun e =>
    if p.host.isOpen e.1 then some (e.1, e.2.hwnd) else none)

/-- **The condition**: no button goes down while another is held, and a
window that has a press is kept. -/
def steady (p : Pointer) : Host.Action → Bool
  | .ui (.input m) => match m.gesture with
    | some (.down _) => (p.held .left).isNone && (p.held .right).isNone
    | _ => true
  | a => p.presses.all (fun e => p.host.keeps e.1 e.2 a)

/-- **A release follows its press**: it is sent on the connection the press
was sent on, if that is open. -/
def Paired (p : Pointer) : Prop :=
  ∀ (m : JuiceMsg) (host : Host) (b : Button) (conn : ℕ) (press : JuiceMsg),
    m.gesture = some (.up b) → p.held b = some (some (conn, press)) → p.host.isOpen conn = true →
    p.host.step (.ui (.input m)) = some host →
    ∃ release, host.sent = p.host.sent ++ [(conn, release)] ∧ release.gesture = some (.up b)

variable {p : Pointer} {press m : JuiceMsg} {host : Host}

/-- **What is known of the buttons**: one is held at most, and its press is
held by a window, if it was sent on a connection that is open. -/
structure Inv (p : Pointer) : Prop where
  multi : p.host.controller.experimentalMultiWindow = true
  listed : p.host.Listed
  single : ∀ b b', p.held b ≠ none → p.held b' ≠ none → b = b'
  pressed : ∀ b conn press, p.held b = some (some (conn, press)) → p.host.ending conn = .none →
    p.host.Pressed conn press.hwnd

theorem inv_start : start.Inv where
  multi := rfl
  listed := Host.listed_start true
  single b b' h := absurd rfl h
  pressed b conn press h := by cases h

/-- The press of a button that is held is among those that are kept. -/
theorem mem_presses {b : Button} {conn : ℕ} (hb : p.held b = some (some (conn, press)))
    (hopen : p.host.isOpen conn = true) : (conn, press.hwnd) ∈ p.presses := by
  refine List.mem_filterMap.mpr ⟨(conn, press), List.mem_filterMap.mpr ⟨b, ?_, ?_⟩, if_pos hopen⟩
  · cases b <;> decide
  · rw [hb]
    rfl

/-- **An action that is no pointer message.** -/
theorem Inv.quiet (hinv : p.Inv) (hi : p.host.Identity) (hread : p.host.transport.Reading)
    (hfds : ∀ r ∈ p.host.transport.readers, 0 ≤ r.fd) {a : Host.Action}
    (hst : p.host.step a = some host) (hquiet : ∀ u, a = .ui u → u.quiet = true)
    (hkeeps : ∀ e ∈ p.presses, p.host.keeps e.1 e.2 a = true) : Inv ⟨host, p.held⟩ where
  multi := by
    refine (Host.multi_of_step hst ?_).trans hinv.multi
    rintro enabled rfl
    cases hquiet _ rfl
  listed := hinv.listed.step hi hread hst
  single := hinv.single
  pressed b conn press hb hopen' := by
    have hopen := Host.ending_of_step hst hopen'
    have hp := hinv.pressed b conn press hb hopen
    have hlt : conn < p.host.transport.readers.length := by
      obtain ⟨-, r, hr, -⟩ := hp
      exact (List.getElem?_eq_some_iff.mp hr).1
    have hmem : (conn, press.hwnd) ∈ p.presses := mem_presses hb (decide_eq_true ⟨hlt, hopen⟩)
    exact hp.step hi hread hfds hst hquiet (hkeeps _ hmem) hopen hopen'

/-! ## Pointer messages -/

/-- What a pointer message does to the host. -/
theorem input_of_step {h : Host} (hst : h.step (.ui (.input m)) = some host) :
    ∃ controller o, Controller.InputEffect h.controller m controller o
      ∧ host = { h with controller }.send o := by
  have heff : Host.Effect h (.ui (.input m)) host := Host.effect_of_step hst
  cases heff with
  | ui _ hc =>
    cases hc
    exact ⟨_, _, Controller.inputEffect h.controller m, rfl⟩

/-- **A press that is sent is held.** -/
theorem pressed_of_down {h : Host} (hi : h.Identity) (hread : h.transport.Reading)
    (ht : h.controller.Table) (hmulti : h.controller.experimentalMultiWindow = true)
    (hdown : m.down = true) (hup : m.up = false) {controller : Controller}
    {o : Option Controller.Sent} (e : Controller.InputEffect h.controller m controller o) {conn : ℕ}
    (hposted : h.posted o = some (conn, press)) :
    Host.Pressed { h with controller } conn press.hwnd := by
  obtain ⟨⟨client, message⟩, rfl, hsent⟩ := bind_eq_some_iff.mp hposted
  rw [ite_none_right_eq_some, map_eq_some_iff] at hsent
  obtain ⟨-, _, hconn, heq⟩ := hsent
  cases heq
  obtain ⟨hcaptured, hhwnd, hfd⟩ := Controller.Captured.of_press ht hmulti hdown hup e
  have hattached : h.Attached controller.inputClient :=
    (hi.routes.handleCanvasInput (Host.attached_nobody h) e).input
  rw [hcaptured.route] at hattached
  rcases hattached with hnobody | ⟨k, hk, hrun⟩
  · exact absurd hfd (by rw [hnobody]; decide)
  · obtain rfl : k = conn := Option.some.inj ((hi.connection hread hrun).symm.trans hconn)
    obtain ⟨r, hr, hrfd, -⟩ := hrun
    refine ⟨hhwnd, r, hr, ?_⟩
    rw [hrfd, ← hk]
    exact hcaptured

/-- **What goes on while a press is held is sent on its connection.** -/
theorem posted_of_held (hinv : p.Inv) (hi : p.host.Identity) (hread : p.host.transport.Reading)
    (hfds : ∀ r ∈ p.host.transport.readers, 0 ≤ r.fd) {b : Button} {conn : ℕ}
    (hb : p.held b = some (some (conn, press))) (hopen : p.host.ending conn = .none)
    (hdown : m.down = false) {controller : Controller} {o : Option Controller.Sent}
    (e : Controller.InputEffect p.host.controller m controller o) :
    (∃ message, p.host.posted o = some (conn, message) ∧ message.gesture = m.gesture)
      ∧ (m.up = false → Host.Pressed { p.host with controller } conn press.hwnd) := by
  obtain ⟨hhwnd, r, hr, hcaptured⟩ := hinv.pressed b conn press hb hopen
  have hfd : 0 ≤ r.fd := hfds r (List.mem_of_getElem? hr)
  obtain ⟨⟨message, rfl, hflags⟩, hkept⟩ := hcaptured.sends hdown hfd hhwnd e
  have hconn : p.host.connection r.fd = some conn :=
    Host.connection_eq hread hr (hi.ne_closed hr (by simp [hopen]))
  refine ⟨⟨message, ?_, JuiceMsg.gesture_of_flags hflags⟩, fun hup => ⟨hhwnd, r, hr, hkept hup⟩⟩
  unfold Host.posted
  rw [bind_some, if_pos (hinv.listed conn r hr hopen), hconn]
  rfl

/-- **A pointer message**, as the canvas reports it and with no button going
down while another is held. -/
theorem Inv.input (hinv : p.Inv) (hi : p.host.Identity) (hread : p.host.transport.Reading)
    (hfds : ∀ r ∈ p.host.transport.readers, 0 ≤ r.fd) (ht : p.host.controller.Table)
    (hst : p.host.step (.ui (.input m)) = some host)
    (hreported : p.reported (.ui (.input m)) = true) (hsteady : p.steady (.ui (.input m)) = true) :
    Inv ⟨host, p.after host (.ui (.input m))⟩ := by
  obtain ⟨controller, o, e, rfl⟩ := input_of_step hst
  have hposted : ((({ p.host with controller }.send o).sent).drop p.host.sent.length).head?
      = p.host.posted o := by
    rw [Host.sent_send]
    show ((p.host.sent ++ (p.host.posted o).toList).drop p.host.sent.length).head? = _
    rw [List.drop_left, Option.head?_toList]
  have hsend : ∀ {conn hwnd}, Host.Pressed { p.host with controller } conn hwnd →
      Host.Pressed ({ p.host with controller }.send o) conn hwnd := by
    rintro conn hwnd ⟨hhwnd, r, hr, hcaptured⟩
    exact ⟨hhwnd, r, by rwa [Host.send_transport], by rwa [Host.send_controller]⟩
  have hending : ({ p.host with controller }.send o).ending = p.host.ending := Host.send_ending _ o
  have hmulti := (Host.multi_of_step hst (fun _ heq => by cases heq)).trans hinv.multi
  have hlisted := hinv.listed.step hi hread hst
  have hafter : ∀ held, p.after ({ p.host with controller }.send o) (.ui (.input m)) = held →
      (∀ b b', held b ≠ none → held b' ≠ none → b = b') →
      (∀ b conn press, held b = some (some (conn, press)) → p.host.ending conn = .none →
        Host.Pressed { p.host with controller } conn press.hwnd) →
      Inv ⟨{ p.host with controller }.send o,
        p.after ({ p.host with controller }.send o) (.ui (.input m))⟩ := by
    rintro held rfl hsingle hpressed
    exact ⟨hmulti, hlisted, hsingle, fun b conn press hb hopen =>
      hsend (hpressed b conn press hb (hending ▸ hopen))⟩
  simp only [reported] at hreported
  simp only [steady] at hsteady
  cases hg : m.gesture with
  | none => simp [hg] at hreported
  | some g =>
    obtain ⟨hdown, hup⟩ := JuiceMsg.down_up_of_gesture hg
    cases g with
    | move =>
      refine hafter p.held (by simp only [after, hg]) hinv.single ?_
      intro b conn press hb hopen
      exact (posted_of_held hinv hi hread hfds hb hopen hdown e).2 hup
    | down b =>
      have hnone : ∀ b', p.held b' = none := by
        simp only [hg, Bool.and_eq_true, isNone_iff_eq_none] at hsteady
        intro b'
        cases b' with
        | left => exact hsteady.1
        | right => exact hsteady.2
      have honly : ∀ b', Function.update p.held b (some (p.host.posted o)) b' ≠ none → b' = b := by
        intro b' hb'
        by_contra hne
        exact hb' ((update_of_ne hne _ _).trans (hnone b'))
      refine hafter (Function.update p.held b (some (p.host.posted o)))
        (by simp only [after, hg, hposted]) ?_ ?_
      · intro b₁ b₂ h₁ h₂
        exact (honly b₁ h₁).trans (honly b₂ h₂).symm
      · intro b' conn press hb' _
        obtain rfl := honly b' (by rw [hb']; simp)
        rw [update_self, Option.some.injEq] at hb'
        exact pressed_of_down hi hread ht hinv.multi hdown hup e hb'
    | up b =>
      have hheld : p.held b ≠ none := by
        simpa [hg, isSome_iff_ne_none] using hreported
      have hnone : ∀ b', Function.update p.held b none b' = none := by
        intro b'
        by_cases hb' : b' = b
        · rw [hb', update_self]
        · rw [update_of_ne hb']
          by_contra hother
          exact hb' (hinv.single b' b hother hheld)
      refine hafter (Function.update p.held b none) (by simp only [after, hg]) ?_ ?_
      · intro b₁ _ h₁
        exact absurd (hnone b₁) h₁
      · intro b' conn press hb'
        rw [hnone b'] at hb'
        cases hb'

/-- The host that is followed is the host. -/
theorem simulates_host :
    ((Host.machine true).restrict Host.legacyOpen).Simulates (machine.restrict reported)
      Pointer.host where
  start := rfl
  step p a p' _ hst := by
    obtain ⟨hreported, hst⟩ := Machine.restrict_step.mp hst
    obtain ⟨host, hhost, rfl⟩ := map_eq_some_iff.mp hst
    refine .single (Machine.restrict_step.mpr ⟨?_, hhost⟩)
    unfold Host.legacyOpen
    split
    · cases hreported
    · rfl

/-- **The invariant holds in every run that meets the condition.** -/
theorem inv_of_reachable (hr : ((machine.restrict reported).restrict steady).Reachable p) :
    p.Inv := by
  refine hr.invariant (I := Inv) inv_start ?_
  intro p a p' hreach hinv hst
  obtain ⟨hsteady, hst⟩ := Machine.restrict_step.mp hst
  obtain ⟨hreported, hst⟩ := Machine.restrict_step.mp hst
  obtain ⟨host, hhost, rfl⟩ := map_eq_some_iff.mp hst
  have hrh := simulates_host.reachable hreach.of_restrict
  have hi := Host.identity_of_reachable hrh
  have htr := (Host.simulates_transport true).reachable hrh.of_restrict
  have hread := Transport.reading_of_reachable htr
  have hfds := Transport.fd_nonneg_of_reachable htr
  have hquiet : ∀ {a : Host.Action}, p.host.step a = some host → p.after host a = p.held →
      (∀ u, a = .ui u → u.quiet = true) → (∀ e ∈ p.presses, p.host.keeps e.1 e.2 a = true) →
      Inv ⟨host, p.after host a⟩ := by
    intro a ha hheld hq hk
    rw [hheld]
    exact hinv.quiet hi hread hfds ha hq hk
  cases a with
  | ui u =>
    cases u with
    | input m =>
      have ht := Controller.table_of_reachable
        ((Host.simulates_controller true).reachable hrh.of_restrict)
      exact hinv.input hi hread hfds ht hhost hreported hsteady
    | multiWindow => cases hreported
    | background => cases hreported
    | _ => exact hquiet hhost rfl (fun _ heq => by cases heq; rfl) (List.all_eq_true.mp hsteady)
  | _ => exact hquiet hhost rfl (fun _ heq => by cases heq) (List.all_eq_true.mp hsteady)

/-- **A release follows its press**, in every state of every run in which no
button goes down while another is held, and in which a window that has a
press is not hidden, destroyed or claimed by another connection while the
connection is open. -/
theorem paired_of_steady (p : Pointer)
    (hr : ((machine.restrict reported).restrict steady).Reachable p) : p.Paired := by
  intro m host b conn press hg hb hopen hst
  have hinv := inv_of_reachable hr
  have hrh := simulates_host.reachable hr.of_restrict
  have htr := (Host.simulates_transport true).reachable hrh.of_restrict
  obtain ⟨hdown, -⟩ := JuiceMsg.down_up_of_gesture hg
  obtain ⟨controller, o, e, rfl⟩ := input_of_step hst
  obtain ⟨⟨release, hposted, hgesture⟩, -⟩ := posted_of_held hinv (Host.identity_of_reachable hrh)
    (Transport.reading_of_reachable htr) (Transport.fd_nonneg_of_reachable htr) hb
    (of_decide_eq_true hopen).2 hdown e
  refine ⟨release, ?_, hgesture.trans hg⟩
  rw [Host.sent_send]
  show p.host.sent ++ (p.host.posted o).toList = _
  rw [hposted]
  rfl

/-- A connection has a `WINDOW` handled. -/
def tells (conn : ℕ) (m : JuiceMsg) : List Host.Action :=
  [.transport (.reader conn (.header m)), .transport (.reader conn .dispatch), .main]

/-- A pointer message at the corner of the canvas. -/
def touch (flags : UInt32) : JuiceMsg := ⟨MAGIC, MSG_INPUT, 0, 0, 0, 0, 0, 0, 0, flags⟩

/-- A connection shows a window, and the left button goes down on it. -/
def clicked : List Host.Action :=
  [.transport (.accept 3)] ++ tells 0 (Controller.shown 7) ++ Host.paints 0 7
    ++ [.ui (.input (touch 1))]

/-- Another connection shows a window on top of the one that is held. -/
theorem paired_covered : ∃ p,
    ((machine.restrict reported).restrict steady).run (clicked ++ [.transport (.accept 4)]
      ++ tells 1 (Controller.shown 8) ++ Host.paints 1 8) = some p
      ∧ p.presses = [(0, 7)] ∧ p.host.controller.wineWindowOrder = [7, 8] ∧ p.Paired := by
  obtain ⟨p, hs, hpresses, horder⟩ : ∃ p, ((machine.restrict reported).restrict steady).run
      (clicked ++ [.transport (.accept 4)] ++ tells 1 (Controller.shown 8)
        ++ Host.paints 1 8) = some p
      ∧ p.presses = [(0, 7)] ∧ p.host.controller.wineWindowOrder = [7, 8] := by
    decide +kernel
  exact ⟨p, hs, hpresses, horder, paired_of_steady p (.of_run hs)⟩

/-- **A release is lost**: the window that has the press is hidden, and the
release is not sent, although the connection is open. -/
theorem release_lost : ∃ p host, (machine.restrict reported).Reachable p
    ∧ (p.held .left).join.map Prod.fst = some 0 ∧ p.host.isOpen 0 = true
    ∧ p.reported (.ui (.input (touch 2))) = true
    ∧ p.host.step (.ui (.input (touch 2))) = some host ∧ host.sent = p.host.sent ∧ ¬ p.Paired := by
  obtain ⟨p, hs, hheld, hopen, hreported, host, hhost, hsent⟩ : ∃ p,
      (machine.restrict reported).run
        (clicked ++ tells 0 { Controller.shown 7 with flags := 0 }) = some p
      ∧ (p.held .left).join.map Prod.fst = some 0 ∧ p.host.isOpen 0 = true
      ∧ p.reported (.ui (.input (touch 2))) = true
      ∧ ∃ host, p.host.step (.ui (.input (touch 2))) = some host ∧ host.sent = p.host.sent := by
    decide +kernel
  refine ⟨p, host, .of_run hs, hheld, hopen, hreported, hhost, hsent, fun hpaired => ?_⟩
  obtain ⟨⟨_, press⟩, hjoin, rfl⟩ := map_eq_some_iff.mp hheld
  obtain ⟨release, hrelease, -⟩ :=
    hpaired (touch 2) host .left _ press rfl (join_eq_some_iff.mp hjoin) hopen hhost
  rw [hsent] at hrelease
  simp at hrelease

end Pointer

end Juice
