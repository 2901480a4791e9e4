import Juice.Host.Routes

/-!
# A window that captured the pointer

A press is sent to the window it hits, and that window captures the pointer:
what follows goes there, wherever the pointer is. The controller keeps the
HWND and the descriptor of the capture apart from the window, and looks the
window up again with every message; so a capture lasts only as long as the
window is found, is drawn, and is still of the connection.

`Captured` says that all of this holds. Nothing takes it away but what the
protocol says of this very window – it is hidden or destroyed, or another
connection claims its HWND – and the end of its connection.
-/

namespace Juice

open JuiceMsg

/-- A window is drawn, under a HWND and for a connection. -/
structure WineWindowState.Shows (hwnd : UInt64) (client : Client) (state : WineWindowState) :
    Prop where
  named : state.hwnd = hwnd
  owned : state.clientFD = client
  drawn : juiceStateDrawable state = true

namespace Controller

/-! ## The mode -/

section Mode

variable (c : Controller)

@[simp] theorem multi_compositeWineDesktop :
    c.compositeWineDesktop.experimentalMultiWindow = c.experimentalMultiWindow := by
  unfold compositeWineDesktop
  split <;> rfl

@[simp] theorem multi_releaseFd (fd : Fd) :
    (c.releaseFd fd).experimentalMultiWindow = c.experimentalMultiWindow := by
  unfold releaseFd
  split <;> rfl

@[simp] theorem multi_deactivateFd (fd : Fd) :
    (c.deactivateFd fd).experimentalMultiWindow = c.experimentalMultiWindow := by
  unfold deactivateFd
  split <;> rfl

@[simp] theorem multi_windowStateForHwnd (hwnd : UInt64) (create : Bool) (client : Client) :
    (c.windowStateForHwnd hwnd create client).experimentalMultiWindow
      = c.experimentalMultiWindow := by
  unfold windowStateForHwnd
  dsimp only
  split <;> split <;> rfl

@[simp] theorem multi_lockViewport (m : JuiceMsg) :
    (c.lockViewport m).experimentalMultiWindow = c.experimentalMultiWindow := by
  unfold lockViewport
  split <;> rfl

@[simp] theorem multi_updateWindowMessage (m : JuiceMsg) (client : Client) :
    (c.updateWindowMessage m client).experimentalMultiWindow = c.experimentalMultiWindow := by
  unfold updateWindowMessage
  extract_lets old newlyCreated wasVisible visible c₁ c₂ c₃ c₄
  have h₂ : c₂.experimentalMultiWindow = c.experimentalMultiWindow :=
    multi_windowStateForHwnd c m.hwnd true client
  have h₃ : c₃.experimentalMultiWindow = c₂.experimentalMultiWindow := by
    show (if _ then _ else _ : Controller).experimentalMultiWindow = _
    split <;> rfl
  have h₄ : c₄.experimentalMultiWindow = c₃.experimentalMultiWindow := by
    show (if _ then _ else _ : Controller).experimentalMultiWindow = _
    split <;> rfl
  rw [multi_compositeWineDesktop, h₄, h₃, h₂]

@[simp] theorem multi_destroyWindowHwnd (hwnd : UInt64) :
    (c.destroyWindowHwnd hwnd).experimentalMultiWindow = c.experimentalMultiWindow := by
  unfold destroyWindowHwnd
  dsimp only
  rw [multi_compositeWineDesktop]
  split <;> split <;> rfl

@[simp] theorem multi_invalidateWindowTransport (fd : Fd) :
    (c.invalidateWindowTransport fd).experimentalMultiWindow = c.experimentalMultiWindow := by
  unfold invalidateWindowTransport juiceReconnectRemoveWindows removeWindowsForClient
  dsimp only
  rw [multi_deactivateFd]
  split
  · split <;> simp [removeAll]
  · simp

@[simp] theorem multi_presentFrameMessage (hwnd : UInt64) (width height : Int32) (imaged : Bool)
    (client : Client) (peerPID : Int32) :
    (c.presentFrameMessage hwnd width height imaged client peerPID).experimentalMultiWindow
      = c.experimentalMultiWindow := by
  unfold presentFrameMessage
  extract_lets image c₁ c₂ c₃ c₄
  have h₃ : c₃.experimentalMultiWindow = c.experimentalMultiWindow :=
    multi_windowStateForHwnd { c with next := c.next + 1 } hwnd true client
  have h₄ : c₄.experimentalMultiWindow = c.experimentalMultiWindow := by
    show (if _ then _ else if _ then _ else _ : Controller).experimentalMultiWindow = _
    split
    · rfl
    · split
      · rw [multi_compositeWineDesktop, h₃]
      · exact h₃
  split <;> exact h₄

@[simp] theorem multi_prune (i : ℕ) (p : Prune) (alive : UInt64 → Bool) :
    (c.prune i p alive).experimentalMultiWindow = c.experimentalMultiWindow := by
  unfold prune
  dsimp only
  split <;> split <;> simp [removeAll]

@[simp] theorem multi_juiceRenderCompositeWineDesktop :
    c.juiceRenderCompositeWineDesktop.experimentalMultiWindow = c.experimentalMultiWindow := by
  unfold juiceRenderCompositeWineDesktop
  extract_lets c₁ c₂ desktop viewport c₃ topState
  have h₃ : c₃.experimentalMultiWindow = c.experimentalMultiWindow := by
    show (if _ then _ else _ : Controller).experimentalMultiWindow = _
    split <;> rfl
  split
  · rfl
  · split <;> exact h₃

end Mode

theorem InputEffect.multi {c c' : Controller} {m : JuiceMsg} {sent : Option Sent}
    (e : InputEffect c m c' sent) : c'.experimentalMultiWindow = c.experimentalMultiWindow := by
  cases e with
  | legacy => rfl
  | missed => split <;> simp
  | refused => simp
  | delivered => split <;> split <;> simp [endCapture, release, capture]

/-- **Only switching it changes the mode.** -/
theorem multi_step {c c' : Controller} {a : Action} (hst : c.step a = some c')
    (ha : ∀ enabled, a ≠ .multiWindow enabled) :
    c'.experimentalMultiWindow = c.experimentalMultiWindow := by
  cases a with
  | prune i alive =>
    obtain ⟨p, -, rfl⟩ := Option.map_eq_some_iff.mp hst
    exact multi_prune c i p alive
  | render =>
    simp only [step, Option.ite_none_right_eq_some, Option.some.injEq] at hst
    obtain ⟨-, rfl⟩ := hst
    exact multi_juiceRenderCompositeWineDesktop c
  | multiWindow enabled => exact absurd rfl (ha enabled)
  | input m =>
    cases hst
    exact (inputEffect c m).multi
  | _ =>
    cases hst
    first
    | rfl
    | simp

/-! ## The capture -/

/-- **A window has captured the pointer**, and is drawn for the connection. -/
structure Captured (hwnd : UInt64) (client : Client) (c : Controller) : Prop where
  multi : c.experimentalMultiWindow = true
  target : c.inputHwnd = hwnd
  route : c.inputClient = client
  window : ∃ state, c.wineWindows.lookup hwnd = some state ∧ state.Shows hwnd client

namespace Captured

variable {hwnd key : UInt64} {client other : Client} {c c' : Controller} {m : JuiceMsg}

/-- The rest of the controller does not matter. -/
theorem congr (h : Captured hwnd client c)
    (hm : c'.experimentalMultiWindow = c.experimentalMultiWindow)
    (ht : c'.inputHwnd = c.inputHwnd) (hr : c'.inputClient = c.inputClient)
    (hw : c'.wineWindows = c.wineWindows) : Captured hwnd client c' :=
  ⟨hm ▸ h.multi, ht ▸ h.target, hr ▸ h.route, hw ▸ h.window⟩

theorem ite {p : Prop} [Decidable p] (h : Captured hwnd client c) (h' : Captured hwnd client c') :
    Captured hwnd client (if p then c else c') := by
  split
  · exact h
  · exact h'

theorem compositeWineDesktop (h : Captured hwnd client c) :
    Captured hwnd client c.compositeWineDesktop :=
  ite (h.congr rfl rfl rfl rfl) h

theorem modifyWindow (h : Captured hwnd client c) (key : UInt64)
    {f : WineWindowState → WineWindowState}
    (hf : key = hwnd → ∀ state : WineWindowState, state.Shows hwnd client →
      (f state).Shows hwnd client) : Captured hwnd client (c.modifyWindow key f) := by
  obtain ⟨state, hstate, hshows⟩ := h.window
  refine { h with window := ?_ }
  by_cases hkey : hwnd = key
  · subst hkey
    exact ⟨f state, by rw [lookup_modifyWindow_self, hstate]; rfl, hf rfl state hshows⟩
  · exact ⟨state, (lookup_modifyWindow_of_ne c hkey f).trans hstate, hshows⟩

/-- No other connection claims the window. -/
theorem windowStateForHwnd (h : Captured hwnd client c) (create : Bool)
    (hother : key = hwnd → other = client) :
    Captured hwnd client (c.windowStateForHwnd key create other) := by
  obtain ⟨state, hstate, hshows⟩ := h.window
  have hadd : Captured hwnd client (if (c.wineWindows.lookup key).isNone && create then
      c.addWindow key other else c) := by
    split
    · rename_i hnew
      -- the window is there, so the new one has another HWND
      have hne : hwnd ≠ key := by
        rintro rfl
        simp [hstate] at hnew
      exact { h with window := ⟨state, (AList.lookup_insert_ne hne).trans hstate, hshows⟩ }
    · exact h
  refine ite (hadd.modifyWindow key (fun hkey state hs => ?_)) hadd
  exact ⟨hs.named, hother hkey, hs.drawn⟩

theorem removeAll (h : Captured hwnd client c) {keys : List UInt64} (hkeys : hwnd ∉ keys) :
    Captured hwnd client (c.removeAll keys) := by
  obtain ⟨state, hstate, hshows⟩ := h.window
  exact { h with window := ⟨state, by rw [lookup_removeAll, if_neg hkeys, hstate], hshows⟩ }

/-- **A window is shown, hidden, moved or resized**, and it is another one, or
it is shown for the same connection. -/
theorem updateWindowMessage (h : Captured hwnd client c)
    (hm : m.hwnd = hwnd → other = client ∧ m.flags ≠ 0) :
    Captured hwnd client (c.updateWindowMessage m other) := by
  unfold Controller.updateWindowMessage
  extract_lets old newlyCreated wasVisible visible c₁ c₂ c₃ c₄
  have h₁ : Captured hwnd client c₁ := h.windowStateForHwnd true (fun heq => (hm heq).1)
  have h₂ : Captured hwnd client c₂ := by
    refine h₁.modifyWindow m.hwnd (fun heq state hs => ⟨hs.named, hs.owned, ?_⟩)
    have hvisible : visible = true := decide_eq_true (hm heq).2
    show (visible && state.image.isSome) = true
    rw [hvisible]
    exact (Bool.and_eq_true_iff.mp hs.drawn).2
  have h₃ : Captured hwnd client c₃ := ite (h₂.congr rfl rfl rfl rfl) h₂
  have h₄ : Captured hwnd client c₄ := by
    show Captured hwnd client (if _ then _ else _)
    split
    · rename_i hhidden
      obtain ⟨hhidden, heq⟩ := Bool.and_eq_true_iff.mp hhidden
      have hkey : m.hwnd = hwnd := (of_decide_eq_true heq).symm.trans h₃.target
      have hvisible : visible = true := decide_eq_true (hm hkey).2
      simp [hvisible] at hhidden
    · exact h₃
  exact h₄.compositeWineDesktop

/-- **Another window is destroyed.** -/
theorem destroyWindowHwnd (h : Captured hwnd client c) (hne : key ≠ hwnd) :
    Captured hwnd client (c.destroyWindowHwnd key) := by
  unfold Controller.destroyWindowHwnd
  extract_lets c₁ c₂ c₃
  have h₁ : Captured hwnd client c₁ := h.removeAll (by simpa using hne.symm)
  have h₂ : Captured hwnd client c₂ := by
    show Captured hwnd client (if _ then _ else _)
    rw [if_neg (fun heq => hne (heq.symm.trans h₁.target))]
    exact h₁
  have h₃ : Captured hwnd client c₃ := ite (h₂.congr rfl rfl rfl rfl) h₂
  exact h₃.compositeWineDesktop

/-! ## The end of another connection -/

theorem releaseFd (h : Captured hwnd client c) {fd : Fd} (hfd : client.fd ≠ fd) :
    Captured hwnd client (c.releaseFd fd) := by
  unfold Controller.releaseFd
  rw [if_neg (h.route.symm ▸ hfd)]
  exact h

theorem deactivateFd (h : Captured hwnd client c) (fd : Fd) :
    Captured hwnd client (c.deactivateFd fd) :=
  ite (h.congr rfl rfl rfl rfl) h

theorem not_mem_keysFor (h : Captured hwnd client c) {fd : Fd} (hfd : client.fd ≠ fd) :
    hwnd ∉ c.keysFor fd := by
  intro hmem
  obtain ⟨state, hstate, hshows⟩ := h.window
  obtain ⟨state', hstate', hfd'⟩ := mem_keysFor.mp hmem
  obtain rfl := Option.some.inj (hstate.symm.trans hstate')
  exact hfd (hshows.owned ▸ hfd')

theorem invalidateWindowTransport (h : Captured hwnd client c) {fd : Fd} (hfd : client.fd ≠ fd) :
    Captured hwnd client (c.invalidateWindowTransport fd) := by
  refine deactivateFd ?_ fd
  unfold juiceReconnectRemoveWindows
  extract_lets snapshot c₁ c₂
  have hkeys := h.not_mem_keysFor hfd
  have hremoved : Captured hwnd client (c.removeWindowsForClient fd) := by
    have h₁ := (h.removeAll hkeys).releaseFd hfd
    exact ite h₁ h₁.compositeWineDesktop
  have h₁ : Captured hwnd client c₁ := by
    obtain ⟨state, hstate, hshows⟩ := h.window
    refine { h with window := ⟨state, ?_, hshows⟩ }
    have hsnapshot : hwnd ∉ snapshot.map Prod.fst :=
      fun hmem => hkeys (mem_juiceReconnectSnapshot.mp hmem)
    show (c.wineWindows.modifyAll _ _).lookup hwnd = _
    rw [AList.lookup_modifyAll _ _ (fun _ => disown_disown fd), if_neg hsnapshot, hstate]
  have h₂ : Captured hwnd client c₂ := (h₁.releaseFd hfd).deactivateFd fd
  exact ite hremoved (h₂.congr rfl rfl rfl rfl)

/-- A callback removes windows without a connection. -/
theorem prune (h : Captured hwnd client c) (hfd : 0 ≤ client.fd) (i : ℕ) (p : Prune)
    (alive : UInt64 → Bool) : Captured hwnd client (c.prune i p alive) := by
  unfold Controller.prune
  extract_lets remove livePeers c₁ c₂
  have hkept : hwnd ∉ remove := by
    intro hmem
    obtain ⟨state, hstate, hshows⟩ := h.window
    obtain ⟨e, he, rfl⟩ := List.mem_map.mp hmem
    obtain ⟨-, hunchanged⟩ := List.mem_filter.mp he
    rw [Bool.and_eq_true_iff, hstate, Option.any_some] at hunchanged
    simp only [juiceReconnectUnchanged, Bool.and_eq_true, decide_eq_true_eq] at hunchanged
    obtain ⟨⟨⟨⟨⟨-, hnobody⟩, -⟩, -⟩, -⟩, -⟩ := hunchanged
    rw [← hshows.owned, hnobody] at hfd
    exact absurd hfd (by decide)
  have h₁ : Captured hwnd client c₁ := h.removeAll hkept
  have h₂ : Captured hwnd client c₂ := ite h₁ h₁.compositeWineDesktop
  exact ite (h₂.congr rfl rfl rfl rfl) h₂

/-! ## Frames and messages -/

/-- **A frame is presented**, of another window or for the same connection. -/
theorem presentFrameMessage (h : Captured hwnd client c) {width height : Int32} {imaged : Bool}
    (hother : imaged = true → key = hwnd → other = client) (peerPID : Int32) :
    Captured hwnd client (c.presentFrameMessage key width height imaged other peerPID) := by
  unfold Controller.presentFrameMessage
  extract_lets image c₁ c₂ c₃ c₄
  have h₄ : Captured hwnd client c₄ := by
    show Captured hwnd client (if _ then _ else _)
    split
    · exact h
    rename_i himaged
    have h₀ : Captured hwnd client { c with next := c.next + 1 } := h.congr rfl rfl rfl rfl
    have h₁ : Captured hwnd client c₁ :=
      h₀.windowStateForHwnd true (hother (by simpa using himaged))
    have h₂ : Captured hwnd client c₂ :=
      h₁.modifyWindow key (fun _ state hs => ⟨hs.named, hs.owned,
        Bool.and_eq_true_iff.mpr ⟨(Bool.and_eq_true_iff.mp hs.drawn).1, rfl⟩⟩)
    have h₃ : Captured hwnd client c₃ := h₂.congr rfl rfl rfl rfl
    exact ite h₃.compositeWineDesktop (h₃.congr rfl rfl rfl rfl)
  exact ite h₄ (h₄.modifyWindow key (fun _ _ hs => ⟨hs.named, hs.owned, hs.drawn⟩))

theorem juiceRenderCompositeWineDesktop (h : Captured hwnd client c) :
    Captured hwnd client c.juiceRenderCompositeWineDesktop := by
  unfold Controller.juiceRenderCompositeWineDesktop
  extract_lets c₁ c₂ desktop viewport c₃ topState
  have h₁ : Captured hwnd client c₁ := h.congr rfl rfl rfl rfl
  have h₂ : Captured hwnd client c₂ := ite (h₁.congr rfl rfl rfl rfl) h₁
  have h₃ : Captured hwnd client c₃ := h₂.congr rfl rfl rfl rfl
  split
  · exact h₁
  · split <;> exact h₃.congr rfl rfl rfl rfl

theorem lockViewport (h : Captured hwnd client c) (m : JuiceMsg) :
    Captured hwnd client (c.lockViewport m) :=
  ite (h.congr rfl rfl rfl rfl) h

/-- **A message other than a press goes to the window.** -/
theorem inputTarget (h : Captured hwnd client c) (hdown : m.down = false) (hfd : 0 ≤ client.fd)
    (hhwnd : hwnd ≠ 0) (point : ℚ × ℚ) :
    ∃ state, c.inputTarget m point = some state ∧ state.Shows hwnd client := by
  obtain ⟨state, hstate, hshows⟩ := h.window
  refine ⟨state, ?_, hshows⟩
  have hcaptured : (!m.down && decide (0 ≤ c.inputClient.fd) && decide (c.inputHwnd ≠ 0)) = true := by
    rw [hdown, h.route, h.target, decide_eq_true hfd, decide_eq_true hhwnd]
    rfl
  unfold Controller.inputTarget
  rw [if_pos hcaptured, h.target, hstate, Option.filter_some, if_pos hshows.drawn]
  rfl

/-- What a message other than a press does. -/
theorem sends (h : Captured hwnd client c) (hdown : m.down = false) (hfd : 0 ≤ client.fd)
    (hhwnd : hwnd ≠ 0) {sent : Option Sent} (e : InputEffect c m c' sent) :
    (∃ message, sent = some (client, message)
      ∧ message.flags = m.flags ||| INPUT_COORDS_DESKTOP)
      ∧ (m.up = false → Captured hwnd client c') := by
  have hlock := h.lockViewport m
  obtain ⟨state, hstate, hshows⟩ := hlock.inputTarget hdown hfd hhwnd (c.inputPoint m)
  cases e with
  | legacy _ hmulti => exact absurd (h.multi.symm.trans hmulti) (by decide)
  | missed htarget => exact absurd (hstate.symm.trans htarget) (by simp)
  | refused target htarget hno =>
    obtain rfl := Option.some.inj (hstate.symm.trans htarget)
    rcases hno with hneg | hzero | hempty
    · exact absurd hfd (not_le.mpr (hshows.owned ▸ hneg))
    · exact absurd (hshows.named.symm.trans hzero) hhwnd
    · exact absurd ((isEmpty_juiceStateDrawableRect hshows.drawn).symm.trans hempty) (by decide)
  | delivered target _ htarget =>
    obtain rfl := Option.some.inj (hstate.symm.trans htarget)
    refine ⟨⟨_, by rw [hshows.owned], rfl⟩, fun hup => ?_⟩
    rw [hup, hdown]
    exact hlock

/-- **A press that is sent captures the pointer.** -/
theorem of_press (ht : c.Table) {message : JuiceMsg} (hmulti : c.experimentalMultiWindow = true)
    (hdown : m.down = true) (hup : m.up = false) (e : InputEffect c m c' (some (client, message))) :
    Captured message.hwnd client c' ∧ message.hwnd ≠ 0 ∧ 0 ≤ client.fd := by
  generalize hsent : some (client, message) = sent at e
  cases e with
  | legacy _ hoff => exact absurd (hmulti.symm.trans hoff) (by decide)
  | missed => cases hsent
  | refused => cases hsent
  | delivered target _ htarget hfd hhwnd =>
    cases hsent
    rw [hup, hdown]
    refine ⟨?_, hhwnd, hfd⟩
    have hlock := ht.congr (sameTable_lockViewport c m)
    have htop := (Option.or_eq_some_iff.mp htarget).resolve_left (by simp [hdown])
    obtain ⟨hdrawable, key, -, hkey⟩ := drawable_of_juiceTopWindowAtDesktopPoint htop.2
    have hname : target.hwnd = key := (hlock.entry hkey).1
    refine ⟨?_, rfl, rfl, target, ?_, ⟨rfl, rfl, hdrawable⟩⟩
    · show (c.lockViewport m).experimentalMultiWindow = true
      unfold Controller.lockViewport
      split <;> exact hmulti
    · show (c.lockViewport m).wineWindows.lookup target.hwnd = some target
      rw [hname, hkey]

end Captured

end Controller

end Juice
