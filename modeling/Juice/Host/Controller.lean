import Juice.Lib.Machine
import Juice.Lib.Ordered
import Juice.Host.Desktop

/-!
# The controller's windows

What `JuiceController` does on the main queue with the windows of the Wine
processes: the table `wineWindows` and its order from bottom to top, the
window a pointer is captured by, and the connections that pointer, keyboard
and text go to. The methods are the ones in effect once every constructor
has run: `removeWindowsForClient:` and `presentFrameMessage:` are those of
`JuiceReconnectGrace.m`, which keep the windows of a connection that has
ended and prune them some time later; `compositeWineDesktop` and
`handleCanvasInput:` are those of `JuiceMultiWindowFix.m`.

An image and a window are objects, compared by identity: a number each,
counted by `Controller.next`. What is only drawn or logged is left out.
`Prune.since` is for the proofs: the objects there were when the connection
ended.
-/

namespace Juice

open JuiceMsg

/-- `MSG_INPUT`. -/
def MSG_INPUT : UInt32 := 100
/-- `INPUT_LEFT_DOWN | INPUT_RIGHT_DOWN`. -/
def INPUT_DOWN : UInt32 := 1 ||| 4
/-- `INPUT_LEFT_UP | INPUT_RIGHT_UP`. -/
def INPUT_UP : UInt32 := 2 ||| 8
/-- `INPUT_COORDS_DESKTOP`. -/
def INPUT_COORDS_DESKTOP : UInt32 := 0x40000000

/-- A pointer message presses a button. -/
def JuiceMsg.down (m : JuiceMsg) : Bool := m.flags &&& INPUT_DOWN ≠ 0

/-- A pointer message releases a button. -/
def JuiceMsg.up (m : JuiceMsg) : Bool := m.flags &&& INPUT_UP ≠ 0

/-- **What `JuiceReconnectSnapshot` takes of a window.** -/
structure Before where
  state : ℕ
  image : Option ℕ
  frame : CGRect
  visible : Bool
  peerPID : Int32
  deriving DecidableEq, Repr

/-- **A callback of `JuiceReconnectSchedulePrune`.** -/
structure Prune where
  snapshot : List (UInt64 × Before)
  since : ℕ
  deriving DecidableEq, Repr

/-- **The controller**, as far as windows, pointer and routes go. -/
structure Controller where
  experimentalMultiWindow : Bool
  wineWindows : Windows
  wineWindowOrder : List UInt64
  wineDesktopSize : ℚ × ℚ
  activeClient : Client
  inputClient : Client
  inputHwnd : UInt64
  lastLegacyClient : Client
  lastLegacyHwnd : UInt64
  /-- `canvas.hwnd`. -/
  canvasHwnd : UInt64
  compositeScheduled : Bool
  compositeViewport : Option CGRect
  capturedViewport : Option CGRect
  prunes : List Prune
  next : ℕ

namespace Controller

/-- The controller after `viewDidLoad`. -/
def start (multi : Bool) : Controller where
  experimentalMultiWindow := multi
  wineWindows := ∅
  wineWindowOrder := []
  wineDesktopSize := (1024, 768)
  activeClient := .nobody
  inputClient := .nobody
  inputHwnd := 0
  lastLegacyClient := .nobody
  lastLegacyHwnd := 0
  canvasHwnd := 0
  compositeScheduled := false
  compositeViewport := none
  capturedViewport := none
  prunes := []
  next := 0

/-- `compositeWineDesktop`: rendering is queued, unless it already is. Off
multi-window mode it only draws. -/
def compositeWineDesktop (c : Controller) : Controller :=
  if c.experimentalMultiWindow then { c with compositeScheduled := true } else c

/-- The pointer is no longer captured. -/
def release (c : Controller) : Controller := { c with inputHwnd := 0, inputClient := .nobody }

/-- The pointer is no longer captured on a descriptor. -/
def releaseFd (c : Controller) (fd : Fd) : Controller :=
  if c.inputClient.fd = fd then c.release else c

/-- A descriptor is no longer the active one. -/
def deactivateFd (c : Controller) (fd : Fd) : Controller :=
  if c.activeClient.fd = fd then { c with activeClient := .nobody } else c

/-- Set properties of a window. -/
def modifyWindow (c : Controller) (hwnd : UInt64) (f : WineWindowState → WineWindowState) :
    Controller :=
  { c with wineWindows := c.wineWindows.modify hwnd f }

/-- `[WineWindowState new]`, under its key and on top. -/
def addWindow (c : Controller) (hwnd : UInt64) (client : Client) : Controller :=
  { c with
    wineWindows := c.wineWindows.insert hwnd ⟨c.next, hwnd, .zero, none, true, client, 0⟩
    wineWindowOrder := c.wineWindowOrder ++ [hwnd]
    next := c.next + 1 }

/-- `windowStateForHwnd:create:client:`. The window is then found under its
key. -/
def windowStateForHwnd (c : Controller) (hwnd : UInt64) (create : Bool) (client : Client) :
    Controller :=
  let c := if (c.wineWindows.lookup hwnd).isNone && create then c.addWindow hwnd client else c
  if 0 ≤ client.fd then c.modifyWindow hwnd (fun state => { state with clientFD := client }) else c

/-- `updateWindowMessage:client:`. -/
def updateWindowMessage (c : Controller) (m : JuiceMsg) (client : Client) : Controller :=
  let old := c.wineWindows.lookup m.hwnd
  let newlyCreated := old.isNone
  let wasVisible := old.any (fun state => state.visible)
  let visible : Bool := m.flags ≠ 0
  let c := c.windowStateForHwnd m.hwnd true client
  let c := c.modifyWindow m.hwnd (fun state =>
    { state with
      frame := if 0 < m.width ∧ 0 < m.height then
        ⟨m.x.toInt, m.y.toInt, m.width.toInt, m.height.toInt⟩ else state.frame
      visible })
  let c := if (newlyCreated || (visible && !wasVisible)) && visible then
    { c with wineWindowOrder := c.wineWindowOrder.filter (· ≠ m.hwnd) ++ [m.hwnd] } else c
  let c := if !visible && c.inputHwnd = m.hwnd then c.release else c
  c.compositeWineDesktop

/-- Windows are removed from the table and from the order. -/
def removeAll (c : Controller) (keys : List UInt64) : Controller :=
  { c with
    wineWindows := c.wineWindows.eraseAll keys
    wineWindowOrder := c.wineWindowOrder.filter (· ∉ keys) }

/-- `destroyWindowHwnd:`. -/
def destroyWindowHwnd (c : Controller) (hwnd : UInt64) : Controller :=
  let c := c.removeAll [hwnd]
  let c := if c.inputHwnd = hwnd then c.release else c
  let c := if c.canvasHwnd = hwnd then { c with canvasHwnd := 0 } else c
  c.compositeWineDesktop

/-- The windows of a descriptor. -/
def keysFor (c : Controller) (fd : Fd) : List UInt64 :=
  c.wineWindows.keys.filter (fun key =>
    (c.wineWindows.lookup key).any (fun state => state.clientFD.fd = fd))

/-- `removeWindowsForClient:` of `main.m`,
`JuiceReconnectOriginalRemoveWindows`. -/
def removeWindowsForClient (c : Controller) (fd : Fd) : Controller :=
  let remove := c.keysFor fd
  let c := (c.removeAll remove).releaseFd fd
  if remove.isEmpty then c else c.compositeWineDesktop

/-- What a snapshot has of a window. -/
def before (state : WineWindowState) : Before :=
  ⟨state.object, state.image.map Image.object, state.frame, state.visible, state.peerPID⟩

/-- `JuiceReconnectSnapshot`. -/
def juiceReconnectSnapshot (c : Controller) (fd : Fd) : List (UInt64 × Before) :=
  (c.keysFor fd).filterMap (fun key =>
    (c.wineWindows.lookup key).map (fun state => (key, before state)))

/-- A window loses a descriptor. -/
def disown (fd : Fd) (state : WineWindowState) : WineWindowState :=
  if state.clientFD.fd = fd then { state with clientFD := .nobody } else state

/-- `JuiceReconnectRemoveWindows`: the windows stay, without a connection. -/
def juiceReconnectRemoveWindows (c : Controller) (fd : Fd) : Controller :=
  let snapshot := c.juiceReconnectSnapshot fd
  if snapshot.isEmpty then c.removeWindowsForClient fd
  else
    let c := { c with
      wineWindows := c.wineWindows.modifyAll (snapshot.map Prod.fst) (fun _ => disown fd) }
    let c := (c.releaseFd fd).deactivateFd fd
    { c with prunes := c.prunes ++ [Prune.mk snapshot c.next] }

/-- The block on the main queue that ends a connection,
`invalidateWindowTransport`. -/
def invalidateWindowTransport (c : Controller) (fd : Fd) : Controller :=
  (c.juiceReconnectRemoveWindows fd).deactivateFd fd

/-- `JuiceReconnectUnchanged`. -/
def juiceReconnectUnchanged (state : WineWindowState) (b : Before) : Bool :=
  state.object = b.state && state.clientFD.fd = -1
    && state.image.map Image.object = b.image && state.frame = b.frame && state.visible = b.visible

/-- The windows of a snapshot that are unchanged, and whose process is alive,
or not. -/
def unchanged (c : Controller) (snapshot : List (UInt64 × Before)) (alive : UInt64 → Bool)
    (live : Bool) : List UInt64 :=
  (snapshot.filter (fun entry => (c.wineWindows.lookup entry.1).any (fun state =>
    juiceReconnectUnchanged state entry.2)
      && (0 < entry.2.peerPID && alive entry.1) = live)).map Prod.fst

/-- **A callback of `JuiceReconnectSchedulePrune`** runs. `alive` is what
`kill` says of the process of each window. As long as one is alive the
callback is scheduled again. -/
def prune (c : Controller) (i : ℕ) (p : Prune) (alive : UInt64 → Bool) : Controller :=
  let remove := c.unchanged p.snapshot alive false
  let livePeers := c.unchanged p.snapshot alive true
  let c := c.removeAll remove
  let c := if remove.isEmpty then c else c.compositeWineDesktop
  if livePeers.isEmpty then { c with prunes := c.prunes.eraseIdx i } else c

/-- `presentFrameMessage:data:client:peerPID:first:` with the tag of
`JuiceReconnectPresentFrame`. The image could be made or not. -/
def presentFrameMessage (c : Controller) (hwnd : UInt64) (width height : Int32) (imaged : Bool)
    (client : Client) (peerPID : Int32) : Controller :=
  let c :=
    if !imaged then c
    else
      let image : Image := ⟨c.next, width.toInt, height.toInt⟩
      let c := { c with next := c.next + 1 }.windowStateForHwnd hwnd true client
      let c := c.modifyWindow hwnd (fun state =>
        { state with
          frame := if state.frame.width ≤ 0 ∨ state.frame.height ≤ 0 then
            ⟨0, 0, width.toInt, height.toInt⟩ else state.frame
          image := some image })
      let c := { c with lastLegacyHwnd := hwnd, lastLegacyClient := client }
      if c.experimentalMultiWindow then c.compositeWineDesktop
      else { c with canvasHwnd := hwnd, activeClient := client }
  if peerPID ≤ 0 ∨ hwnd = 0 then c else c.modifyWindow hwnd (fun state => { state with peerPID })

/-- The window that keyboard and text go to: the one selected, if it is
drawn, or the top one. `JuiceSelectedRoutingState`. -/
def juiceSelectedRoutingState (c : Controller) (fallback : Option WineWindowState) :
    Option WineWindowState :=
  ((if c.canvasHwnd = 0 then none else c.wineWindows.lookup c.canvasHwnd).filter
    juiceStateDrawable).or fallback

/-- `JuiceRenderCompositeWineDesktop`, on the main queue. -/
def juiceRenderCompositeWineDesktop (c : Controller) : Controller :=
  let c := { c with compositeScheduled := false }
  if !c.experimentalMultiWindow then c
  else
    let c := if c.inputClient.fd < 0 ∨ c.inputHwnd = 0 then { c with capturedViewport := none } else c
    let desktop := juiceDesktopRect c.wineDesktopSize
    let viewport := c.capturedViewport.getD
      (juiceViewportForWindows desktop c.wineWindowOrder c.wineWindows)
    let c := { c with compositeViewport := some viewport }
    let topState := ((drawables c.wineWindows c.wineWindowOrder).filter (fun state =>
      !(juiceStateDrawableRect state).isEmpty
        && (juiceStateDrawableRect state).intersects viewport)).getLast?
    match c.juiceSelectedRoutingState topState with
    | some state => { c with canvasHwnd := state.hwnd, activeClient := state.clientFD }
    | none => { c with canvasHwnd := 0, activeClient := .nobody }

/-- What a pointer message is sent to: the descriptor and the message. -/
abbrev Sent : Type := Client × JuiceMsg

/-- The window a pointer message goes to: the one it is captured by, if it is
drawn, or the top one at the point. -/
def inputTarget (c : Controller) (m : JuiceMsg) (point : ℚ × ℚ) : Option WineWindowState :=
  let captured :=
    if !m.down && 0 ≤ c.inputClient.fd && c.inputHwnd ≠ 0 then
      (c.wineWindows.lookup c.inputHwnd).filter juiceStateDrawable
    else none
  captured.or (juiceTopWindowAtDesktopPoint c.wineWindows c.wineWindowOrder point.1 point.2
    (juiceDesktopRect c.wineDesktopSize))

/-- The viewport a pointer message is relative to. -/
def inputViewport (c : Controller) : CGRect :=
  (c.capturedViewport.or c.compositeViewport).getD (juiceDesktopRect c.wineDesktopSize)

/-- The point of the desktop a pointer message is at. -/
def inputPoint (c : Controller) (m : JuiceMsg) : ℚ × ℚ :=
  (m.x.toInt + c.inputViewport.x, m.y.toInt + c.inputViewport.y)

/-- A press locks the viewport, if it is not locked. -/
def lockViewport (c : Controller) (m : JuiceMsg) : Controller :=
  if m.down && c.capturedViewport.isNone then { c with capturedViewport := some c.inputViewport }
  else c

/-- A window captures the pointer, and is selected: `JuiceSelectInputRoute`. -/
def capture (c : Controller) (target : WineWindowState) : Controller :=
  { c with
    inputHwnd := target.hwnd
    inputClient := target.clientFD
    canvasHwnd := target.hwnd
    activeClient := target.clientFD }

/-- The end of a capture, after a release was sent. -/
def endCapture (c : Controller) : Controller :=
  { c.release with capturedViewport := none }.compositeWineDesktop

/-- A pointer message as it is sent to a window. -/
def inputMessage (m : JuiceMsg) (target : WineWindowState) (point : ℚ × ℚ) : JuiceMsg :=
  { m with
    magic := MAGIC
    type := MSG_INPUT
    hwnd := target.hwnd
    x := Int32.ofInt ⌊point.1⌋
    y := Int32.ofInt ⌊point.2⌋
    flags := m.flags ||| INPUT_COORDS_DESKTOP }

/-- **`JuiceFixedHandleCanvasInput`**: the controller after it, and what it
sends. Off multi-window mode the message goes to the active connection. -/
def handleCanvasInput (c : Controller) (m : JuiceMsg) : Controller × Option Sent :=
  if !c.experimentalMultiWindow then
    (c, if c.activeClient.fd < 0 then none else some (c.activeClient, m))
  else
    let point := c.inputPoint m
    let c := c.lockViewport m
    match c.inputTarget m point with
    | none => (if m.up then { c with capturedViewport := none } else c, none)
    | some target =>
      if target.clientFD.fd < 0 ∨ target.hwnd = 0 ∨ (juiceStateDrawableRect target).isEmpty then
        (c, none)
      else
        let c := if m.down then c.capture target else c
        (if m.up then c.endCapture else c, some (target.clientFD, inputMessage m target point))

/-- `applyExperimentalMultiWindowEnabled:`. -/
def applyExperimentalMultiWindowEnabled (c : Controller) (enabled : Bool) : Controller :=
  let c := { c.release with experimentalMultiWindow := enabled }
  if enabled then c.compositeWineDesktop
  else
    let c := { c with canvasHwnd := c.lastLegacyHwnd }
    if 0 ≤ c.lastLegacyClient.fd then { c with activeClient := c.lastLegacyClient } else c

/-! ## The machine -/

/-- What happens on the main queue. -/
inductive Action where
  /-- The block of a `HELLO`: `wineDesktopSize` is set. -/
  | desktop (m : JuiceMsg)
  | updateWindow (m : JuiceMsg) (client : Client)
  | presentFrame (hwnd : UInt64) (width height : Int32) (imaged : Bool) (client : Client)
      (peerPID : Int32)
  | destroyWindow (hwnd : UInt64)
  | removeWindows (fd : Fd)
  /-- A callback runs, and `kill` answers for the process of each window. -/
  | prune (i : ℕ) (alive : UInt64 → Bool)
  /-- `compositeWineDesktop` is called for another reason. -/
  | composite
  /-- A rendering that was queued runs. -/
  | render
  | input (m : JuiceMsg)
  | multiWindow (enabled : Bool)
  /-- `JuiceEnteredBackground`. -/
  | background

/-- **One action on the main queue.** -/
def step (c : Controller) : Action → Option Controller
  | .desktop m => some { c with wineDesktopSize := (m.width.toInt, m.height.toInt) }
  | .updateWindow m client => some (c.updateWindowMessage m client)
  | .presentFrame hwnd width height imaged client peerPID =>
    some (c.presentFrameMessage hwnd width height imaged client peerPID)
  | .destroyWindow hwnd => some (c.destroyWindowHwnd hwnd)
  | .removeWindows fd => some (c.invalidateWindowTransport fd)
  | .prune i alive => c.prunes[i]?.map (fun p => c.prune i p alive)
  | .composite => some c.compositeWineDesktop
  | .render => if c.compositeScheduled then some c.juiceRenderCompositeWineDesktop else none
  | .input m => some (c.handleCanvasInput m).1
  | .multiWindow enabled => some (c.applyExperimentalMultiWindowEnabled enabled)
  | .background => some c.release

/-- **The controller**, with any messages from any descriptors. -/
def machine (multi : Bool) : Machine Controller Action := ⟨start multi, step⟩

/-! ## What a pointer message does -/

/-- **What `JuiceFixedHandleCanvasInput` does**: the controller after it, and
what is sent. -/
inductive InputEffect (c : Controller) (m : JuiceMsg) : Controller → Option Sent → Prop
  /-- Off multi-window mode nothing changes. -/
  | legacy (sent : Option Sent) (hmulti : c.experimentalMultiWindow = false) :
      InputEffect c m c sent
  | missed (htarget : (c.lockViewport m).inputTarget m (c.inputPoint m) = none) :
      InputEffect c m
        (if m.up then { c.lockViewport m with capturedViewport := none } else c.lockViewport m) none
  /-- The window has no connection, or no name. -/
  | refused (target : WineWindowState)
      (htarget : (c.lockViewport m).inputTarget m (c.inputPoint m) = some target)
      (hno : target.clientFD.fd < 0 ∨ target.hwnd = 0 ∨ (juiceStateDrawableRect target).isEmpty) :
      InputEffect c m (c.lockViewport m) none
  | delivered (target : WineWindowState) (hmulti : c.experimentalMultiWindow = true)
      (htarget : (c.lockViewport m).inputTarget m (c.inputPoint m) = some target)
      (hfd : 0 ≤ target.clientFD.fd) (hhwnd : target.hwnd ≠ 0) :
      InputEffect c m
        (if m.up then (if m.down then (c.lockViewport m).capture target
            else c.lockViewport m).endCapture
          else if m.down then (c.lockViewport m).capture target else c.lockViewport m)
        (some (target.clientFD, inputMessage m target (c.inputPoint m)))

theorem inputEffect (c : Controller) (m : JuiceMsg) :
    InputEffect c m (c.handleCanvasInput m).1 (c.handleCanvasInput m).2 := by
  unfold handleCanvasInput
  split
  · rename_i hmulti
    exact .legacy _ (by simpa using hmulti)
  rename_i hmulti
  dsimp only
  split
  · rename_i htarget
    exact .missed htarget
  rename_i target htarget
  split
  · rename_i hno
    exact .refused target htarget hno
  · rename_i hyes
    simp only [not_or, not_lt] at hyes
    exact .delivered target (by simpa using hmulti) htarget hyes.1 hyes.2.1

end Controller

end Juice
