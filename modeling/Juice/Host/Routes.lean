import Juice.Host.WindowTable

/-!
# The descriptors a controller holds

The routes of the controller – the active connection, the one that captured
the pointer, and the one of each window – hold descriptors. A descriptor
gets there from a message or by being copied from another route; so whatever
holds of no connection at all and of the descriptors that messages bring
holds of all routes, function by function (`Holds`).

There is one exception, and it is why `Holds` leaves out
`lastLegacyClient`: the end of a connection takes its descriptor out of
every route (`Holds.invalidateWindowTransport`), but not out of there, and
switching multi-window mode off copies it to the active connection.
-/

namespace Juice

open Option

namespace Controller

/-- **All routes have a property.** -/
structure Holds (P : Client → Prop) (c : Controller) : Prop where
  active : P c.activeClient
  input : P c.inputClient
  window : ∀ {key state}, c.wineWindows.lookup key = some state → P state.clientFD

theorem holds_start {P : Client → Prop} (hn : P .nobody) (multi : Bool) : (start multi).Holds P where
  active := hn
  input := hn
  window h := by simp [start] at h

namespace Holds

variable {P Q : Client → Prop} {c c' : Controller} {client : Client}

theorem imp (h : c.Holds P) (hPQ : ∀ client, P client → Q client) : c.Holds Q :=
  ⟨hPQ _ h.active, hPQ _ h.input, fun hw => hPQ _ (h.window hw)⟩

/-- The rest of the controller does not matter. -/
theorem congr (h : c.Holds P) (ha : c'.activeClient = c.activeClient)
    (hi : c'.inputClient = c.inputClient) (hw : c'.wineWindows = c.wineWindows) : c'.Holds P :=
  ⟨ha ▸ h.active, hi ▸ h.input, hw ▸ h.window⟩

theorem ite {p : Prop} [Decidable p] (h : c.Holds P) (h' : c'.Holds P) :
    (if p then c else c').Holds P := by
  split
  · exact h
  · exact h'

theorem compositeWineDesktop (h : c.Holds P) : c.compositeWineDesktop.Holds P :=
  ite (h.congr rfl rfl rfl) h

theorem release (h : c.Holds P) (hn : P .nobody) : c.release.Holds P := ⟨h.active, hn, h.window⟩

theorem modifyWindow (h : c.Holds P) (hwnd : UInt64) {f : WineWindowState → WineWindowState}
    (hf : ∀ state, P state.clientFD → P (f state).clientFD) : (c.modifyWindow hwnd f).Holds P where
  active := h.active
  input := h.input
  window {key state} hk := by
    by_cases hkey : key = hwnd
    · subst hkey
      rw [lookup_modifyWindow_self, map_eq_some_iff] at hk
      obtain ⟨old, hold, rfl⟩ := hk
      exact hf old (h.window hold)
    · rw [lookup_modifyWindow_of_ne c hkey] at hk
      exact h.window hk

theorem windowStateForHwnd (h : c.Holds P) (hwnd : UInt64) (create : Bool) (hclient : P client) :
    (c.windowStateForHwnd hwnd create client).Holds P := by
  have hadd : (c.addWindow hwnd client).Holds P := { h with
    window := fun {key state} hk => by
      by_cases hkey : key = hwnd
      · subst hkey
        obtain rfl := Option.some.inj ((AList.lookup_insert _).symm.trans hk)
        exact hclient
      · exact h.window ((AList.lookup_insert_ne hkey).symm.trans hk) }
  exact ite ((ite hadd h).modifyWindow hwnd (fun _ _ => hclient)) (ite hadd h)

theorem removeAll (h : c.Holds P) (keys : List UInt64) : (c.removeAll keys).Holds P where
  active := h.active
  input := h.input
  window {key state} hk := by
    rw [lookup_removeAll, ite_none_left_eq_some] at hk
    exact h.window hk.2

theorem updateWindowMessage (h : c.Holds P) (hn : P .nobody) (m : JuiceMsg) (hclient : P client) :
    (c.updateWindowMessage m client).Holds P := by
  unfold Controller.updateWindowMessage
  extract_lets old newlyCreated wasVisible visible c₁ c₂ c₃ c₄
  have h₂ : c₂.Holds P :=
    (h.windowStateForHwnd m.hwnd true hclient).modifyWindow m.hwnd (fun _ hs => hs)
  have h₃ : c₃.Holds P := ite (h₂.congr rfl rfl rfl) h₂
  have h₄ : c₄.Holds P := ite (h₃.release hn) h₃
  exact h₄.compositeWineDesktop

theorem destroyWindowHwnd (h : c.Holds P) (hn : P .nobody) (hwnd : UInt64) :
    (c.destroyWindowHwnd hwnd).Holds P := by
  unfold Controller.destroyWindowHwnd
  extract_lets c₁ c₂ c₃
  have h₁ : c₁.Holds P := h.removeAll [hwnd]
  have h₂ : c₂.Holds P := ite (h₁.release hn) h₁
  have h₃ : c₃.Holds P := ite (h₂.congr rfl rfl rfl) h₂
  exact h₃.compositeWineDesktop

theorem prune (h : c.Holds P) (i : ℕ) (p : Prune) (alive : UInt64 → Bool) :
    (c.prune i p alive).Holds P := by
  unfold Controller.prune
  extract_lets remove livePeers c₁ c₂
  have h₁ : c₁.Holds P := h.removeAll remove
  have h₂ : c₂.Holds P := ite h₁ h₁.compositeWineDesktop
  exact ite (h₂.congr rfl rfl rfl) h₂

theorem presentFrameMessage (h : c.Holds P) (hwnd : UInt64) (width height : Int32) (imaged : Bool)
    (hclient : P client) (peerPID : Int32) :
    (c.presentFrameMessage hwnd width height imaged client peerPID).Holds P := by
  unfold Controller.presentFrameMessage
  extract_lets image c₁ c₂ c₃ c₄
  have h₀ : Holds P { c with next := c.next + 1 } := h.congr rfl rfl rfl
  have h₂ : c₂.Holds P :=
    (h₀.windowStateForHwnd hwnd true hclient).modifyWindow hwnd (fun _ hs => hs)
  have h₃ : c₃.Holds P := h₂.congr rfl rfl rfl
  have hlegacy : Holds P { c₃ with canvasHwnd := hwnd, activeClient := client } :=
    ⟨hclient, h₃.input, h₃.window⟩
  have h₄ : c₄.Holds P := ite h (ite h₃.compositeWineDesktop hlegacy)
  exact ite h₄ (h₄.modifyWindow hwnd (fun _ hs => hs))

/-- The descriptor of a window that is drawn. -/
theorem of_drawables (h : c.Holds P) {order : List UInt64} {state : WineWindowState}
    (hs : state ∈ drawables c.wineWindows order) : P state.clientFD := by
  obtain ⟨key, -, hkey⟩ := List.mem_filterMap.mp (List.mem_filter.mp hs).1
  exact h.window hkey

theorem juiceRenderCompositeWineDesktop (h : c.Holds P) (hn : P .nobody) :
    c.juiceRenderCompositeWineDesktop.Holds P := by
  unfold Controller.juiceRenderCompositeWineDesktop
  extract_lets c₁ c₂ desktop viewport c₃ topState
  have h₁ : c₁.Holds P := h.congr rfl rfl rfl
  have h₂ : c₂.Holds P := ite (h₁.congr rfl rfl rfl) h₁
  have h₃ : c₃.Holds P := h₂.congr rfl rfl rfl
  split
  · exact h₁
  split
  · rename_i state hrouting
    refine ⟨?_, h₃.input, h₃.window⟩
    rcases or_eq_some_iff.mp hrouting with hsel | ⟨-, htop⟩
    · obtain ⟨hlookup, -⟩ := filter_eq_some_iff.mp hsel
      rw [ite_none_left_eq_some] at hlookup
      exact h₃.window hlookup.2
    · exact h₃.of_drawables (List.mem_filter.mp (List.mem_of_getLast? htop)).1
  · exact ⟨hn, h₃.input, h₃.window⟩

/-- The window a pointer message goes to. -/
theorem of_inputTarget (h : c.Holds P) {m : JuiceMsg} {point : ℚ × ℚ} {target : WineWindowState}
    (ht : c.inputTarget m point = some target) : P target.clientFD := by
  rcases or_eq_some_iff.mp ht with hcaptured | ⟨-, htop⟩
  · rw [ite_none_right_eq_some, filter_eq_some_iff] at hcaptured
    exact h.window hcaptured.2.1
  · obtain ⟨-, key, -, hkey⟩ := drawable_of_juiceTopWindowAtDesktopPoint htop
    exact h.window hkey

theorem endCapture (h : c.Holds P) (hn : P .nobody) : c.endCapture.Holds P := by
  have hrelease : Holds P { c.release with capturedViewport := none } :=
    (h.release hn).congr rfl rfl rfl
  exact hrelease.compositeWineDesktop

theorem handleCanvasInput (h : c.Holds P) (hn : P .nobody) {m : JuiceMsg} {sent : Option Sent}
    (e : InputEffect c m c' sent) : c'.Holds P := by
  have hlock : (c.lockViewport m).Holds P := ite (h.congr rfl rfl rfl) h
  cases e with
  | legacy => exact h
  | missed => exact ite (hlock.congr rfl rfl rfl) hlock
  | refused => exact hlock
  | delivered target _ htarget =>
    have htarget := hlock.of_inputTarget htarget
    have hcapture : ((c.lockViewport m).capture target).Holds P := ⟨htarget, htarget, hlock.window⟩
    have hafter := ite (p := m.down = true) hcapture hlock
    exact ite (hafter.endCapture hn) hafter

end Holds

/-! ## The end of a connection -/

theorem mem_keysFor {c : Controller} {fd : Fd} {key : UInt64} :
    key ∈ c.keysFor fd ↔ ∃ state, c.wineWindows.lookup key = some state ∧ state.clientFD.fd = fd := by
  unfold keysFor
  rw [List.mem_filter, any_eq_true]
  constructor
  · rintro ⟨-, state, hstate, hfd⟩
    exact ⟨state, hstate, of_decide_eq_true hfd⟩
  · rintro ⟨state, hstate, hfd⟩
    refine ⟨?_, state, hstate, decide_eq_true hfd⟩
    exact AList.mem_iff_lookup.mpr (by rw [hstate]; rfl)

theorem mem_juiceReconnectSnapshot {c : Controller} {fd : Fd} {key : UInt64} :
    key ∈ (c.juiceReconnectSnapshot fd).map Prod.fst ↔ key ∈ c.keysFor fd := by
  unfold juiceReconnectSnapshot
  simp only [List.mem_map, List.mem_filterMap, map_eq_some_iff]
  constructor
  · rintro ⟨_, ⟨k, hk, state, -, rfl⟩, rfl⟩
    exact hk
  · intro hk
    obtain ⟨state, hstate, -⟩ := mem_keysFor.mp hk
    exact ⟨(key, before state), ⟨key, hk, state, hstate, rfl⟩, rfl⟩

namespace Holds

variable {P : Client → Prop} {c c' : Controller} {fd : Fd}

/-- A descriptor of a property, and not a given one. -/
def Other (P : Client → Prop) (fd : Fd) (client : Client) : Prop := P client ∧ client.fd ≠ fd

theorem other_nobody (hn : P .nobody) (hfd : 0 ≤ fd) : Other P fd .nobody :=
  ⟨hn, fun heq => absurd hfd (by rw [← heq]; decide)⟩

/-- The windows and the pointer are without a descriptor. -/
structure Leaves (P : Client → Prop) (fd : Fd) (c : Controller) : Prop where
  active : P c.activeClient
  input : Other P fd c.inputClient
  window : ∀ {key state}, c.wineWindows.lookup key = some state → Other P fd state.clientFD

theorem Leaves.congr (h : Leaves P fd c) (ha : c'.activeClient = c.activeClient)
    (hi : c'.inputClient = c.inputClient) (hw : c'.wineWindows = c.wineWindows) : Leaves P fd c' :=
  ⟨ha ▸ h.active, hi ▸ h.input, hw ▸ h.window⟩

/-- It is left to release the pointer. -/
theorem leaves_releaseFd (hactive : P c.activeClient) (hinput : P c.inputClient) (hn : P .nobody)
    (hfd : 0 ≤ fd) (hwindow : ∀ {key state}, c.wineWindows.lookup key = some state →
      Other P fd state.clientFD) : Leaves P fd (c.releaseFd fd) := by
  unfold releaseFd
  split
  · exact ⟨hactive, other_nobody hn hfd, hwindow⟩
  · rename_i hne
    exact ⟨hactive, ⟨hinput, hne⟩, hwindow⟩

/-- It is left to change the active connection. -/
theorem Leaves.deactivateFd (h : Leaves P fd c) (hn : P .nobody) (hfd : 0 ≤ fd) :
    (c.deactivateFd fd).Holds (Other P fd) := by
  unfold Controller.deactivateFd
  split
  · exact ⟨other_nobody hn hfd, h.input, h.window⟩
  · rename_i hne
    exact ⟨⟨h.active, hne⟩, h.input, h.window⟩

/-- The windows of a descriptor are all in its snapshot, and lose it. -/
theorem disowned (h : c.Holds P) (hn : P .nobody) (hfd : 0 ≤ fd) {key : UInt64}
    {state : WineWindowState}
    (hk : (c.wineWindows.modifyAll ((c.juiceReconnectSnapshot fd).map Prod.fst)
      (fun _ => disown fd)).lookup key = some state) : Other P fd state.clientFD := by
  rw [AList.lookup_modifyAll _ _ (fun _ => disown_disown fd)] at hk
  split at hk
  · obtain ⟨old, hold, rfl⟩ := map_eq_some_iff.mp hk
    unfold disown
    split
    · exact other_nobody hn hfd
    · rename_i hne
      exact ⟨h.window hold, hne⟩
  · rename_i hnot
    refine ⟨h.window hk, fun heq => hnot ?_⟩
    exact mem_juiceReconnectSnapshot.mpr (mem_keysFor.mpr ⟨state, hk, heq⟩)

theorem removeWindowsForClient (h : c.Holds P) (hn : P .nobody) (hfd : 0 ≤ fd) :
    Leaves P fd (c.removeWindowsForClient fd) := by
  have hleaves : Leaves P fd ((c.removeAll (c.keysFor fd)).releaseFd fd) := by
    refine leaves_releaseFd h.active h.input hn hfd (fun {key state} hk => ?_)
    rw [lookup_removeAll, ite_none_left_eq_some] at hk
    exact ⟨h.window hk.2, fun heq => hk.1 (mem_keysFor.mpr ⟨state, hk.2, heq⟩)⟩
  have hcomposite : ∀ {d : Controller}, Leaves P fd d → Leaves P fd d.compositeWineDesktop := by
    intro d hd
    unfold Controller.compositeWineDesktop
    split
    · exact hd.congr rfl rfl rfl
    · exact hd
  unfold Controller.removeWindowsForClient
  dsimp only
  split
  · exact hleaves
  · exact hcomposite hleaves

theorem juiceReconnectRemoveWindows (h : c.Holds P) (hn : P .nobody) (hfd : 0 ≤ fd) :
    Leaves P fd (c.juiceReconnectRemoveWindows fd) := by
  unfold Controller.juiceReconnectRemoveWindows
  extract_lets snapshot c₁ c₂
  split
  · exact h.removeWindowsForClient hn hfd
  · have h₁ : Leaves P fd (c₁.releaseFd fd) :=
      leaves_releaseFd h.active h.input hn hfd (h.disowned hn hfd)
    have h₂ : c₂.Holds (Other P fd) := h₁.deactivateFd hn hfd
    exact ⟨h₂.active.1, h₂.input, h₂.window⟩

/-- **The end of a connection takes its descriptor out of every route.** -/
theorem invalidateWindowTransport (h : c.Holds P) (hn : P .nobody) (hfd : 0 ≤ fd) :
    (c.invalidateWindowTransport fd).Holds (Other P fd) :=
  (h.juiceReconnectRemoveWindows hn hfd).deactivateFd hn hfd

/-- Switching multi-window mode copies a descriptor that is not a route. -/
theorem applyExperimentalMultiWindowEnabled (h : c.Holds P) (hn : P .nobody) {enabled : Bool}
    (hlegacy : enabled = false → 0 ≤ c.lastLegacyClient.fd → P c.lastLegacyClient) :
    (c.applyExperimentalMultiWindowEnabled enabled).Holds P := by
  unfold Controller.applyExperimentalMultiWindowEnabled
  extract_lets released c₁ c₂
  have h₁ : c₁.Holds P := (h.release hn).congr rfl rfl rfl
  have h₂ : c₂.Holds P := h₁.congr rfl rfl rfl
  split
  · exact h₁.compositeWineDesktop
  · rename_i henabled
    split
    · rename_i hfd
      exact ⟨hlegacy (by simpa using henabled) hfd, h₂.input, h₂.window⟩
    · exact h₂

end Holds

end Controller

end Juice
