import Juice.Host.Transport
import Juice.Host.WindowTable

/-!
# The main queue

The readers of `JuiceDisplayTransportHardening.m` and the controller, put
together. What a `HELLO`, a `WINDOW` or a `DESTROY` does to the windows is
a block on the main queue; the queue runs one block after the other, in the
order they came. A reader that ends takes down its frames, takes its
descriptor out of `clients`, and has a last block run, which takes the
descriptor out of the windows and routes; it waits for the block, and closes
the descriptor only then. From there on the number may be used again.

A frame is presented by a block of its own: between the moment it decides to
present and the call of `presentFrameMessage:` nothing else runs on the main
queue, while readers may go on. Of the order of these blocks, of touches, of
renderings and of callbacks among the other blocks nothing is assumed.

A connection is the number of its reader. `Host.sent` is for the proofs: the
pointer messages that were sent, and on which connection.
-/

namespace Juice

open Option JuiceMsg

/-- A block on the main queue. -/
inductive Block where
  /-- Of a `HELLO`. -/
  | desktop (m : JuiceMsg)
  /-- Of a `WINDOW` of a connection. -/
  | window (conn : ℕ) (fd : Fd) (m : JuiceMsg)
  /-- Of a `DESTROY`. -/
  | destroy (fd : Fd) (hwnd : UInt64)
  /-- The last one of a connection, `invalidateWindowTransport`. -/
  | teardown (conn : ℕ) (fd : Fd)
  deriving DecidableEq, Repr

/-- What a block does. -/
def Block.run (c : Controller) : Block → Controller
  | .desktop m => { c with wineDesktopSize := (m.width.toInt, m.height.toInt) }
  | .window conn fd m => c.updateWindowMessage m ⟨fd, some conn⟩
  | .destroy fd hwnd =>
    if (c.wineWindows.lookup hwnd).any (fun state => state.clientFD.fd = fd) then
      c.destroyWindowHwnd hwnd
    else c
  | .teardown _ fd => c.invalidateWindowTransport fd

/-- How far the end of a connection has come. -/
inductive Ending where
  /-- Its last block is not queued. -/
  | none
  | queued
  /-- Its last block has run. -/
  | done
  deriving DecidableEq, Repr

/-- The last block of a connection lets its reader go on. -/
def Block.ends (ending : ℕ → Ending) : Block → ℕ → Ending
  | .teardown conn _ => Function.update ending conn .done
  | _ => ending

/-- **The host.** -/
structure Host where
  transport : Transport
  controller : Controller
  clients : List Fd
  main : List Block
  /-- The snapshot that the block now on the main queue presents. -/
  presenting : Option Snapshot
  ending : ℕ → Ending
  sent : List (ℕ × JuiceMsg)

namespace Host

/-- What happens on the main queue that no connection has asked for. -/
inductive Ui where
  | prune (i : ℕ) (alive : UInt64 → Bool)
  | composite
  | render
  | input (m : JuiceMsg)
  | multiWindow (enabled : Bool)
  | background

/-- It is an action of the controller. -/
def Ui.action : Ui → Controller.Action
  | .prune i alive => .prune i alive
  | .composite => .composite
  | .render => .render
  | .input m => .input m
  | .multiWindow enabled => .multiWindow enabled
  | .background => .background

/-- What it sends. -/
def Ui.sends (c : Controller) : Ui → Option Controller.Sent
  | .input m => (c.handleCanvasInput m).2
  | _ => none

/-- What can happen. -/
inductive Action where
  | transport (a : Transport.Action)
  /-- A reader that has ended takes its descriptor out of `clients` and queues
  its last block. -/
  | detach (conn : ℕ)
  /-- The main queue runs its next block. -/
  | main
  /-- `presentFrameMessage:` is called, and the image could be made or not. -/
  | present (imaged : Bool)
  | ui (a : Ui)

/-- The connection that is open under a descriptor. -/
def connection (h : Host) (fd : Fd) : Option ℕ :=
  h.transport.readers.findIdx? (fun r => r.fd = fd ∧ r.pc ≠ .closed)

/-- The block of a record without payload. -/
def blockOf (conn : ℕ) (fd : Fd) (m : JuiceMsg) : List Block :=
  if m.type = HELLO then [.desktop m]
  else if m.type = WINDOW then [.window conn fd m]
  else if m.type = DESTROY then [.destroy fd m.hwnd]
  else []

/-- What a reader queues with the record it deals with. -/
def dispatched (h : Host) (conn : ℕ) : List Block :=
  match h.transport.readers[conn]? with
  | none => []
  | some r => match r.pc with
    | .admitted m => blockOf conn r.fd m
    | _ => []

/-- The snapshot that a delivery on the main queue is to present. -/
def decided (h : Host) (i : ℕ) : Option Snapshot :=
  match h.transport.deliveries[i]? with
  | some (.block f s) => if (h.transport.frames.heap f).Presents s then some s else none
  | _ => none

/-- An action of the transport, with what it queues. A descriptor is closed
after the last block, and the main queue presents one frame at a time. -/
def transportStep (h : Host) (a : Transport.Action) : Option Host :=
  (h.transport.step a).bind (fun transport =>
    match a with
    | .accept fd => some { h with transport, clients := h.clients ++ [fd] }
    | .reader conn .dispatch => some { h with transport, main := h.main ++ h.dispatched conn }
    | .reader conn .close => if h.ending conn = .done then some { h with transport } else none
    | .delivery i .decide =>
      if h.presenting.isSome then none else some { h with transport, presenting := h.decided i }
    | _ => some { h with transport })

/-- A block runs. -/
def runBlock (h : Host) (b : Block) : Host :=
  { h with controller := b.run h.controller, ending := b.ends h.ending }

/-- A snapshot is presented, for the connection that is open under its
descriptor. -/
def presentSnapshot (h : Host) (s : Snapshot) (imaged : Bool) : Host :=
  { h with
    controller := h.controller.presentFrameMessage s.hwnd s.width s.height imaged
      ⟨s.clientFD, h.connection s.clientFD⟩ s.peerPID
    presenting := none }

/-- `sendMessage:payload:toFD:`: the descriptor has to be in `clients`. -/
def send (h : Host) : Option Controller.Sent → Host
  | none => h
  | some (client, m) =>
    if client.fd ∈ h.clients then
      { h with sent := h.sent ++ (h.connection client.fd).toList.map (fun conn => (conn, m)) }
    else h

/-- What happens on the main queue besides. -/
def uiStep (h : Host) (a : Ui) : Option Host :=
  (h.controller.step a.action).map (fun controller =>
    { h with controller }.send (a.sends h.controller))

/-- **One action of the host.** -/
def step (h : Host) : Action → Option Host
  | .transport a => h.transportStep a
  | .detach conn =>
    match h.transport.readers[conn]? with
    | none => none
    | some r =>
      if r.pc = .detaching ∧ h.ending conn = .none then
        some { h with
          clients := h.clients.filter (· ≠ r.fd)
          main := h.main ++ [.teardown conn r.fd]
          ending := Function.update h.ending conn .queued }
      else none
  | .main =>
    if h.presenting.isSome then none
    else match h.main with
      | [] => none
      | b :: rest => some ({ h with main := rest }.runBlock b)
  | .present imaged => h.presenting.map (fun s => h.presentSnapshot s imaged)
  | .ui a => if h.presenting.isSome then none else h.uiStep a

/-- The host before any connection. -/
def start (multi : Bool) : Host :=
  ⟨Transport.start, Controller.start multi, [], [], none, fun _ => .none, []⟩

/-- **The host.** -/
def machine (multi : Bool) : Machine Host Action := ⟨start multi, step⟩

/-! ## What an action does -/

/-- Actions of the transport that only change the transport. -/
def inner : Transport.Action → Bool
  | .accept _ => false
  | .reader _ .dispatch => false
  | .reader _ .close => false
  | .delivery _ .decide => false
  | _ => true

/-- **What an action of the host does.** -/
inductive Effect (h : Host) : Action → Host → Prop
  | accept {fd : Fd} {transport : Transport}
      (hst : h.transport.step (.accept fd) = some transport) :
      Effect h (.transport (.accept fd)) { h with transport, clients := h.clients ++ [fd] }
  | dispatch {conn : ℕ} {transport : Transport}
      (hst : h.transport.step (.reader conn .dispatch) = some transport) :
      Effect h (.transport (.reader conn .dispatch))
        { h with transport, main := h.main ++ h.dispatched conn }
  | close {conn : ℕ} {transport : Transport}
      (hst : h.transport.step (.reader conn .close) = some transport)
      (hdone : h.ending conn = .done) :
      Effect h (.transport (.reader conn .close)) { h with transport }
  | decide {i : ℕ} {transport : Transport}
      (hst : h.transport.step (.delivery i .decide) = some transport)
      (hidle : h.presenting = none) :
      Effect h (.transport (.delivery i .decide)) { h with transport, presenting := h.decided i }
  | inner {a : Transport.Action} {transport : Transport} (ha : inner a = true)
      (hst : h.transport.step a = some transport) : Effect h (.transport a) { h with transport }
  | detach {conn : ℕ} {r : Reader} (hr : h.transport.readers[conn]? = some r)
      (hpc : r.pc = .detaching) (hending : h.ending conn = .none) :
      Effect h (.detach conn) { h with
        clients := h.clients.filter (· ≠ r.fd)
        main := h.main ++ [.teardown conn r.fd]
        ending := Function.update h.ending conn .queued }
  | main {b : Block} {rest : List Block} (hidle : h.presenting = none) (hmain : h.main = b :: rest) :
      Effect h .main ({ h with main := rest }.runBlock b)
  | present {s : Snapshot} {imaged : Bool} (hs : h.presenting = some s) :
      Effect h (.present imaged) (h.presentSnapshot s imaged)
  | ui {a : Ui} {controller : Controller} (hidle : h.presenting = none)
      (hst : h.controller.step a.action = some controller) :
      Effect h (.ui a) ({ h with controller }.send (a.sends h.controller))

theorem effect_of_transportStep {h h' : Host} {a : Transport.Action}
    (hst : h.transportStep a = some h') : Effect h (.transport a) h' := by
  obtain ⟨transport, ht, hst⟩ := bind_eq_some_iff.mp hst
  split at hst
  · cases hst
    exact .accept ht
  · cases hst
    exact .dispatch ht
  · rw [ite_none_right_eq_some, Option.some.injEq] at hst
    obtain ⟨hdone, rfl⟩ := hst
    exact .close ht hdone
  · rw [ite_none_left_eq_some, Option.some.injEq] at hst
    obtain ⟨hidle, rfl⟩ := hst
    exact .decide ht (by simpa using hidle)
  · rename_i h₁ h₂ h₃ h₄
    cases hst
    refine .inner ?_ ht
    unfold Host.inner
    split
    · exact absurd rfl (h₁ _)
    · exact absurd rfl (h₂ _)
    · exact absurd rfl (h₃ _)
    · exact absurd rfl (h₄ _)
    · rfl

/-- **Inversion of a step.** -/
theorem effect_of_step {h h' : Host} {a : Action} (hst : h.step a = some h') : Effect h a h' := by
  cases a with
  | transport a => exact effect_of_transportStep hst
  | detach conn =>
    simp only [step] at hst
    split at hst
    · cases hst
    rename_i r hr
    rw [ite_none_right_eq_some, Option.some.injEq] at hst
    obtain ⟨⟨hpc, hending⟩, rfl⟩ := hst
    exact .detach hr hpc hending
  | main =>
    simp only [step, ite_none_left_eq_some] at hst
    obtain ⟨hidle, hst⟩ := hst
    split at hst
    · cases hst
    rename_i b rest hmain
    cases hst
    exact .main (by simpa using hidle) hmain
  | present imaged =>
    obtain ⟨s, hs, rfl⟩ := map_eq_some_iff.mp hst
    exact .present hs
  | ui a =>
    simp only [step, ite_none_left_eq_some] at hst
    obtain ⟨hidle, hst⟩ := hst
    obtain ⟨controller, hc, rfl⟩ := map_eq_some_iff.mp hst
    exact .ui (by simpa using hidle) hc

/-! ## The transport and the controller in the host -/

@[simp] theorem send_transport (h : Host) (o : Option Controller.Sent) :
    (h.send o).transport = h.transport := by
  unfold send
  split
  · rfl
  · split <;> rfl

@[simp] theorem send_controller (h : Host) (o : Option Controller.Sent) :
    (h.send o).controller = h.controller := by
  unfold send
  split
  · rfl
  · split <;> rfl

/-- **The transport of the host is the display transport**, whatever happens
on the main queue. -/
theorem simulates_transport (multi : Bool) :
    Transport.machine.Simulates (machine multi) Host.transport where
  start := rfl
  step h a h' _ hst := by
    have heff : Effect h a h' := effect_of_step hst
    have hone : ∀ {a : Transport.Action} {t : Transport}, h.transport.step a = some t →
        Transport.machine.ReachableFrom h.transport t := fun ha => .single ha
    cases heff with
    | accept ht => exact hone ht
    | dispatch ht => exact hone ht
    | close ht => exact hone ht
    | decide ht => exact hone ht
    | inner _ ht => exact hone ht
    | ui =>
      rw [send_transport]
      exact .refl _
    | _ => exact .refl _

/-- What a block does is an action of the controller, if it does anything. -/
theorem reachableFrom_run (multi : Bool) (c : Controller) (b : Block) :
    (Controller.machine multi).ReachableFrom c (b.run c) := by
  have hone : ∀ (a : Controller.Action) {c' : Controller}, c.step a = some c' →
      (Controller.machine multi).ReachableFrom c c' := fun _ _ ha => .single ha
  cases b with
  | desktop m => exact hone (.desktop m) rfl
  | window conn fd m => exact hone (.updateWindow m ⟨fd, some conn⟩) rfl
  | destroy fd hwnd =>
    rw [Block.run]
    split
    · exact hone (.destroyWindow hwnd) rfl
    · exact .refl _
  | teardown conn fd => exact hone (.removeWindows fd) rfl

/-- **The controller of the host is the controller**, with messages from the
connections there are. -/
theorem simulates_controller (multi : Bool) :
    (Controller.machine multi).Simulates (machine multi) Host.controller where
  start := rfl
  step h a h' _ hst := by
    have heff : Effect h a h' := effect_of_step hst
    have hone : ∀ (a : Controller.Action) {c : Controller}, h.controller.step a = some c →
        (Controller.machine multi).ReachableFrom h.controller c := fun _ _ ha => .single ha
    cases heff with
    | main => exact reachableFrom_run multi h.controller _
    | @present s imaged =>
      exact hone (.presentFrame s.hwnd s.width s.height imaged
        ⟨s.clientFD, h.connection s.clientFD⟩ s.peerPID) rfl
    | ui _ hc =>
      rw [send_controller]
      exact hone _ hc
    | _ => exact .refl _

end Host

end Juice
