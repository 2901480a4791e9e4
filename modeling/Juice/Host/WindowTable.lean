import Juice.Host.Controller

/-!
# The window table and the grace of a reconnect

Two invariants of the controller, whatever the connections send and whenever
the callbacks run. `wineWindowOrder` is an order of the keys of
`wineWindows`; and a callback that prunes the windows of a connection that
has ended removes only windows without a connection, and of those only
objects that were there when it ended.

The second is about objects and not about keys: a callback holds on to a
snapshot for as long as a process is alive, and a key may in the meantime
have been destroyed and made again.
-/

namespace Juice

open Option JuiceMsg

namespace Controller

variable {c c' : Controller} {key : UInt64} {client : Client}

theorem lookup_modifyWindow_self (c : Controller) (hwnd : UInt64)
    (f : WineWindowState → WineWindowState) :
    (c.modifyWindow hwnd f).wineWindows.lookup hwnd = (c.wineWindows.lookup hwnd).map f :=
  AList.lookup_modify_self ..

theorem lookup_modifyWindow_of_ne (c : Controller) {hwnd : UInt64} (h : key ≠ hwnd)
    (f : WineWindowState → WineWindowState) :
    (c.modifyWindow hwnd f).wineWindows.lookup key = c.wineWindows.lookup key :=
  AList.lookup_modify_of_ne (t := c.wineWindows) h f

theorem disown_disown (fd : Fd) (state : WineWindowState) :
    disown fd (disown fd state) = disown fd state := by
  by_cases h : state.clientFD.fd = fd
  · by_cases hfd : Client.nobody.fd = fd <;> simp [disown, h, hfd]
  · simp [disown, h]

theorem lookup_removeAll (c : Controller) (keys : List UInt64) (key : UInt64) :
    (c.removeAll keys).wineWindows.lookup key
      = if key ∈ keys then none else c.wineWindows.lookup key :=
  AList.lookup_eraseAll ..

/-- `windowStateForHwnd:` with `create` makes the window if need be. -/
theorem mem_windowStateForHwnd (c : Controller) (hwnd : UInt64) (client : Client) :
    hwnd ∈ (c.windowStateForHwnd hwnd true client).wineWindows := by
  have hadd : hwnd ∈ (if (c.wineWindows.lookup hwnd).isNone && true then c.addWindow hwnd client
      else c).wineWindows := by
    rw [AList.mem_iff_lookup]
    split
    · exact isSome_iff_exists.mpr ⟨_, AList.lookup_insert _⟩
    · rename_i hold
      simpa [isSome_iff_ne_none] using hold
  unfold windowStateForHwnd
  dsimp only
  split
  · exact AList.mem_modify.mpr hadd
  · exact hadd

/-- A window that may have lost a descriptor is the window it was. -/
theorem lookup_disowned {windows : Windows} {keys : List UInt64} {fd : Fd} {state : WineWindowState}
    (h : (windows.modifyAll keys (fun _ => disown fd)).lookup key = some state) :
    ∃ old, windows.lookup key = some old ∧ state.hwnd = old.hwnd ∧ state.object = old.object := by
  have hdisown : ∀ s, (disown fd s).hwnd = s.hwnd ∧ (disown fd s).object = s.object := by
    intro s
    unfold disown
    split <;> exact ⟨rfl, rfl⟩
  rw [AList.lookup_modifyAll _ _ (fun _ => disown_disown fd)] at h
  split at h
  · obtain ⟨old, hold, rfl⟩ := map_eq_some_iff.mp h
    exact ⟨old, hold, hdisown old⟩
  · exact ⟨state, h, rfl, rfl⟩

/-- **The window table is in order.** -/
structure Table (c : Controller) : Prop where
  ordered : Ordered c.wineWindows c.wineWindowOrder
  /-- A window is under its own key, and is one of the objects counted. -/
  entry : ∀ {key state}, c.wineWindows.lookup key = some state →
    state.hwnd = key ∧ state.object < c.next
  /-- A callback knows objects that were there when it was scheduled. -/
  since_le : ∀ p ∈ c.prunes, p.since ≤ c.next
  snapshot_lt : ∀ p ∈ c.prunes, ∀ e ∈ p.snapshot, e.2.state < p.since

/-- The table is the same, whatever else has changed. -/
structure SameTable (c c' : Controller) : Prop where
  windows : c'.wineWindows = c.wineWindows
  order : c'.wineWindowOrder = c.wineWindowOrder
  next : c'.next = c.next
  prunes : c'.prunes = c.prunes

theorem SameTable.ite {p : Prop} [Decidable p] {c'' : Controller} (h : c.SameTable c')
    (h' : c.SameTable c'') : c.SameTable (if p then c' else c'') := by
  split
  · exact h
  · exact h'

theorem sameTable_compositeWineDesktop (c : Controller) : c.SameTable c.compositeWineDesktop :=
  .ite ⟨rfl, rfl, rfl, rfl⟩ ⟨rfl, rfl, rfl, rfl⟩

theorem table_start (multi : Bool) : (start multi).Table where
  ordered := .empty
  entry h := by simp [start] at h
  since_le _ h := by cases h
  snapshot_lt _ h := by cases h

namespace Table

theorem congr (h : c.Table) (hs : c.SameTable c') : c'.Table where
  ordered := by rw [hs.windows, hs.order]; exact h.ordered
  entry := by rw [hs.windows, hs.next]; exact h.entry
  since_le := by rw [hs.prunes, hs.next]; exact h.since_le
  snapshot_lt := by rw [hs.prunes]; exact h.snapshot_lt

theorem ite {p : Prop} [Decidable p] (h : c.Table) (h' : c'.Table) :
    (if p then c else c').Table := by
  split
  · exact h
  · exact h'

theorem compositeWineDesktop (h : c.Table) : c.compositeWineDesktop.Table :=
  ite (h.congr ⟨rfl, rfl, rfl, rfl⟩) h

theorem release (h : c.Table) : c.release.Table := h.congr ⟨rfl, rfl, rfl, rfl⟩

theorem releaseFd (h : c.Table) (fd : Fd) : (c.releaseFd fd).Table := ite h.release h

theorem deactivateFd (h : c.Table) (fd : Fd) : (c.deactivateFd fd).Table :=
  ite (h.congr ⟨rfl, rfl, rfl, rfl⟩) h

/-- A change that keeps the key and the object of a window. -/
theorem modifyWindow (h : c.Table) (hwnd : UInt64) {f : WineWindowState → WineWindowState}
    (hf : ∀ state, (f state).hwnd = state.hwnd ∧ (f state).object = state.object) :
    (c.modifyWindow hwnd f).Table where
  ordered := h.ordered.modify hwnd f
  entry {key state} hk := by
    by_cases hkey : key = hwnd
    · subst hkey
      rw [lookup_modifyWindow_self, map_eq_some_iff] at hk
      obtain ⟨old, hold, rfl⟩ := hk
      rw [(hf old).1, (hf old).2]
      exact h.entry hold
    · rw [lookup_modifyWindow_of_ne c hkey] at hk
      exact h.entry hk
  since_le := h.since_le
  snapshot_lt := h.snapshot_lt

theorem addWindow (h : c.Table) {hwnd : UInt64} (hnew : c.wineWindows.lookup hwnd = none)
    (client : Client) : (c.addWindow hwnd client).Table where
  ordered := h.ordered.insert (by rw [AList.mem_iff_lookup, hnew]; simp) _
  entry {key state} hk := by
    by_cases hkey : key = hwnd
    · subst hkey
      obtain rfl := Option.some.inj ((AList.lookup_insert _).symm.trans hk)
      exact ⟨rfl, Nat.lt_succ_self _⟩
    · obtain ⟨hhwnd, hobject⟩ := h.entry ((AList.lookup_insert_ne hkey).symm.trans hk)
      exact ⟨hhwnd, Nat.lt_succ_of_lt hobject⟩
  since_le p hp := Nat.le_succ_of_le (h.since_le p hp)
  snapshot_lt := h.snapshot_lt

theorem windowStateForHwnd (h : c.Table) (hwnd : UInt64) (create : Bool) (client : Client) :
    (c.windowStateForHwnd hwnd create client).Table := by
  have hadd : (if (c.wineWindows.lookup hwnd).isNone && create then c.addWindow hwnd client
      else c).Table := by
    split
    · rename_i hnew
      exact h.addWindow (isNone_iff_eq_none.mp (Bool.and_eq_true_iff.mp hnew).1) client
    · exact h
  unfold Controller.windowStateForHwnd
  dsimp only
  split
  · exact hadd.modifyWindow hwnd (fun _ => ⟨rfl, rfl⟩)
  · exact hadd

theorem removeAll (h : c.Table) (keys : List UInt64) : (c.removeAll keys).Table where
  ordered := h.ordered.eraseAll keys
  entry {key state} hk := by
    rw [lookup_removeAll, ite_none_left_eq_some] at hk
    exact h.entry hk.2
  since_le := h.since_le
  snapshot_lt := h.snapshot_lt

theorem updateWindowMessage (h : c.Table) (m : JuiceMsg) (client : Client) :
    (c.updateWindowMessage m client).Table := by
  unfold Controller.updateWindowMessage
  extract_lets old newlyCreated wasVisible visible c₁ c₂ c₃ c₄
  have h₁ : c₁.Table := h.windowStateForHwnd m.hwnd true client
  have h₂ : c₂.Table := h₁.modifyWindow m.hwnd (fun _ => ⟨rfl, rfl⟩)
  have h₃ : c₃.Table := by
    dsimp only [c₃]
    split
    · refine { h₂ with ordered := h₂.ordered.moveToEnd ?_ }
      exact AList.mem_modify.mpr (mem_windowStateForHwnd c m.hwnd client)
    · exact h₂
  have h₄ : c₄.Table := ite h₃.release h₃
  exact h₄.compositeWineDesktop

theorem destroyWindowHwnd (h : c.Table) (hwnd : UInt64) : (c.destroyWindowHwnd hwnd).Table := by
  unfold Controller.destroyWindowHwnd
  extract_lets c₁ c₂ c₃
  have h₁ : c₁.Table := h.removeAll [hwnd]
  have h₂ : c₂.Table := ite h₁.release h₁
  have h₃ : c₃.Table := ite (h₂.congr ⟨rfl, rfl, rfl, rfl⟩) h₂
  exact h₃.compositeWineDesktop

theorem removeWindowsForClient (h : c.Table) (fd : Fd) : (c.removeWindowsForClient fd).Table := by
  have h₁ := (h.removeAll (c.keysFor fd)).releaseFd fd
  exact ite h₁ h₁.compositeWineDesktop

theorem juiceReconnectRemoveWindows (h : c.Table) (fd : Fd) :
    (c.juiceReconnectRemoveWindows fd).Table := by
  unfold Controller.juiceReconnectRemoveWindows
  extract_lets snapshot c₁ c₂
  refine ite (h.removeWindowsForClient fd) ?_
  have hsnapshot : ∀ e ∈ snapshot, e.2.state < c.next := by
    intro e he
    obtain ⟨key, -, hkey⟩ := List.mem_filterMap.mp he
    obtain ⟨state, hstate, rfl⟩ := map_eq_some_iff.mp hkey
    exact (h.entry hstate).2
  have h₁ : c₁.Table := { h with
    ordered := h.ordered.modifyAll _ _
    entry := fun {key state} hk => by
      obtain ⟨old, hold, hhwnd, hobject⟩ := lookup_disowned hk
      rw [hhwnd, hobject]
      exact h.entry hold }
  have h₂ : c₂.Table := (h₁.releaseFd fd).deactivateFd fd
  have hnext : c₂.next = c.next := by
    dsimp only [c₂, c₁, Controller.deactivateFd, Controller.releaseFd]
    split <;> split <;> rfl
  exact { h₂ with
    since_le := List.forall_mem_append.mpr
      ⟨h₂.since_le, List.forall_mem_singleton.mpr (le_refl _)⟩
    snapshot_lt := List.forall_mem_append.mpr
      ⟨h₂.snapshot_lt, List.forall_mem_singleton.mpr (hnext ▸ hsnapshot)⟩ }

theorem invalidateWindowTransport (h : c.Table) (fd : Fd) :
    (c.invalidateWindowTransport fd).Table :=
  (h.juiceReconnectRemoveWindows fd).deactivateFd fd

theorem prune (h : c.Table) (i : ℕ) (p : Prune) (alive : UInt64 → Bool) :
    (c.prune i p alive).Table := by
  unfold Controller.prune
  extract_lets remove livePeers c₁ c₂
  have h₁ : c₁.Table := h.removeAll remove
  have h₂ : c₂.Table := by
    dsimp only [c₂]
    split
    · exact h₁
    · exact h₁.compositeWineDesktop
  split
  · exact { h₂ with
      since_le := fun q hq => h₂.since_le q (List.mem_of_mem_eraseIdx hq)
      snapshot_lt := fun q hq => h₂.snapshot_lt q (List.mem_of_mem_eraseIdx hq) }
  · exact h₂

theorem presentFrameMessage (h : c.Table) (hwnd : UInt64) (width height : Int32) (imaged : Bool)
    (client : Client) (peerPID : Int32) :
    (c.presentFrameMessage hwnd width height imaged client peerPID).Table := by
  unfold Controller.presentFrameMessage
  extract_lets image c₁ c₂ c₃ c₄
  have h₀ : Table { c with next := c.next + 1 } := { h with
    entry := fun hk => ⟨(h.entry hk).1, Nat.lt_succ_of_lt (h.entry hk).2⟩
    since_le := fun p hp => Nat.le_succ_of_le (h.since_le p hp) }
  have h₁ : c₁.Table := h₀.windowStateForHwnd hwnd true client
  have h₂ : c₂.Table := h₁.modifyWindow hwnd (fun _ => ⟨rfl, rfl⟩)
  have h₃ : c₃.Table := h₂.congr ⟨rfl, rfl, rfl, rfl⟩
  have h₄ : c₄.Table := by
    dsimp only [c₄]
    split
    · exact h
    split
    · exact h₃.compositeWineDesktop
    · exact h₃.congr ⟨rfl, rfl, rfl, rfl⟩
  split
  · exact h₄
  · exact h₄.modifyWindow hwnd (fun _ => ⟨rfl, rfl⟩)

end Table

theorem SameTable.trans {c'' : Controller} (h : c.SameTable c') (h' : c'.SameTable c'') :
    c.SameTable c'' :=
  ⟨h'.windows.trans h.windows, h'.order.trans h.order, h'.next.trans h.next,
    h'.prunes.trans h.prunes⟩

theorem sameTable_lockViewport (c : Controller) (m : JuiceMsg) : c.SameTable (c.lockViewport m) :=
  .ite ⟨rfl, rfl, rfl, rfl⟩ ⟨rfl, rfl, rfl, rfl⟩

theorem sameTable_endCapture (c : Controller) : c.SameTable c.endCapture := by
  have hrelease : c.SameTable { c.release with capturedViewport := none } := ⟨rfl, rfl, rfl, rfl⟩
  exact hrelease.trans (sameTable_compositeWineDesktop _)

/-- **Pointer messages leave the table.** -/
theorem InputEffect.sameTable {m : JuiceMsg} {sent : Option Sent} (e : InputEffect c m c' sent) :
    c.SameTable c' := by
  have hlock := sameTable_lockViewport c m
  cases e with
  | legacy => exact ⟨rfl, rfl, rfl, rfl⟩
  | missed => exact .ite (hlock.trans ⟨rfl, rfl, rfl, rfl⟩) hlock
  | refused => exact hlock
  | delivered target =>
    have hcapture : c.SameTable (if m.down then (c.lockViewport m).capture target
        else c.lockViewport m) := .ite (hlock.trans ⟨rfl, rfl, rfl, rfl⟩) hlock
    exact .ite (hcapture.trans (sameTable_endCapture _)) hcapture

/-- Rendering leaves the table. -/
theorem sameTable_juiceRenderCompositeWineDesktop (c : Controller) :
    c.SameTable c.juiceRenderCompositeWineDesktop := by
  unfold juiceRenderCompositeWineDesktop
  extract_lets c₁ c₂ desktop viewport c₃ topState
  have h₂ : c.SameTable c₂ := .ite ⟨rfl, rfl, rfl, rfl⟩ ⟨rfl, rfl, rfl, rfl⟩
  split
  · exact ⟨rfl, rfl, rfl, rfl⟩
  split <;> exact ⟨h₂.windows, h₂.order, h₂.next, h₂.prunes⟩

theorem sameTable_applyExperimentalMultiWindowEnabled (c : Controller) (enabled : Bool) :
    c.SameTable (c.applyExperimentalMultiWindowEnabled enabled) := by
  refine .ite ?_ (.ite ⟨rfl, rfl, rfl, rfl⟩ ⟨rfl, rfl, rfl, rfl⟩)
  have h := sameTable_compositeWineDesktop { c.release with experimentalMultiWindow := enabled }
  exact ⟨h.windows, h.order, h.next, h.prunes⟩

/-- **Every action keeps the table in order.** -/
theorem Table.step (h : c.Table) {a : Action} (hst : c.step a = some c') : c'.Table := by
  cases a with
  | desktop m =>
    cases hst
    exact h.congr ⟨rfl, rfl, rfl, rfl⟩
  | updateWindow m client =>
    cases hst
    exact h.updateWindowMessage m client
  | presentFrame hwnd width height imaged client peerPID =>
    cases hst
    exact h.presentFrameMessage hwnd width height imaged client peerPID
  | destroyWindow hwnd =>
    cases hst
    exact h.destroyWindowHwnd hwnd
  | removeWindows fd =>
    cases hst
    exact h.invalidateWindowTransport fd
  | prune i alive =>
    obtain ⟨p, -, rfl⟩ := map_eq_some_iff.mp hst
    exact h.prune i p alive
  | composite =>
    cases hst
    exact h.compositeWineDesktop
  | render =>
    simp only [Controller.step, ite_none_right_eq_some, Option.some.injEq] at hst
    obtain ⟨-, rfl⟩ := hst
    exact h.congr (sameTable_juiceRenderCompositeWineDesktop c)
  | input m =>
    cases hst
    exact h.congr (inputEffect c m).sameTable
  | multiWindow enabled =>
    cases hst
    exact h.congr (sameTable_applyExperimentalMultiWindowEnabled c enabled)
  | background =>
    cases hst
    exact h.release

theorem table_of_reachable {multi : Bool} (h : (machine multi).Reachable c) : c.Table :=
  h.invariant (I := Table) (table_start multi) (fun _ _ _ _ hc hst => hc.step hst)

/-! ## What a callback removes -/

/-- The windows a callback leaves out of the table are unchanged since its
snapshot. -/
theorem lookup_prune {i : ℕ} {p : Prune} {alive : UInt64 → Bool} {state : WineWindowState}
    (h : c.wineWindows.lookup key = some state)
    (hgone : (c.prune i p alive).wineWindows.lookup key = none) :
    ∃ b, (key, b) ∈ p.snapshot ∧ juiceReconnectUnchanged state b = true := by
  have hremoved : key ∈ c.unchanged p.snapshot alive false := by
    have hwindows : (c.prune i p alive).wineWindows
        = (c.removeAll (c.unchanged p.snapshot alive false)).wineWindows := by
      unfold Controller.prune
      extract_lets remove livePeers c₁ c₂
      have h₂ : c₂.wineWindows = c₁.wineWindows := by
        have hs : c₁.SameTable c₂ :=
          .ite ⟨rfl, rfl, rfl, rfl⟩ (sameTable_compositeWineDesktop c₁)
        exact hs.windows
      split <;> exact h₂
    rw [hwindows, lookup_removeAll] at hgone
    by_contra hnot
    rw [if_neg hnot, h] at hgone
    cases hgone
  obtain ⟨⟨k, b⟩, hmem, rfl⟩ := List.mem_map.mp hremoved
  obtain ⟨hsnapshot, hp⟩ := List.mem_filter.mp hmem
  refine ⟨b, hsnapshot, ?_⟩
  rw [h] at hp
  exact (Bool.and_eq_true_iff.mp hp).1

/-! ## A window that a message is about -/

/-- After `windowStateForHwnd:` with `create` the window is there, and has
the descriptor of a connection. -/
theorem lookup_windowStateForHwnd (c : Controller) (hwnd : UInt64) (hfd : 0 ≤ client.fd) :
    ∃ state, (c.windowStateForHwnd hwnd true client).wineWindows.lookup hwnd = some state
      ∧ state.clientFD = client := by
  obtain ⟨state, hstate⟩ : ∃ state, (if (c.wineWindows.lookup hwnd).isNone && true then
      c.addWindow hwnd client else c).wineWindows.lookup hwnd = some state := by
    split
    · exact ⟨_, AList.lookup_insert _⟩
    · rename_i hold
      rw [Bool.and_true, isNone_iff_eq_none] at hold
      exact ne_none_iff_exists'.mp hold
  refine ⟨{ state with clientFD := client }, ?_, rfl⟩
  unfold Controller.windowStateForHwnd
  dsimp only
  rw [if_pos hfd]
  exact (AList.lookup_modify_self _ _ _).trans (by rw [hstate]; rfl)

/-- A change to a window that keeps its descriptor. -/
theorem clientFD_modifyWindow {hwnd : UInt64} {f : WineWindowState → WineWindowState}
    (hf : ∀ state, (f state).clientFD = state.clientFD)
    (h : ∃ state, c.wineWindows.lookup hwnd = some state ∧ state.clientFD = client) :
    ∃ state, (c.modifyWindow hwnd f).wineWindows.lookup hwnd = some state
      ∧ state.clientFD = client := by
  obtain ⟨state, hstate, hclient⟩ := h
  exact ⟨f state, by rw [lookup_modifyWindow_self, hstate, map_some],
    (hf state).trans hclient⟩

/-- **A `WINDOW` claims its window** for the connection it came on. -/
theorem clientFD_updateWindowMessage (c : Controller) (m : JuiceMsg) (hfd : 0 ≤ client.fd) :
    ∃ state, (c.updateWindowMessage m client).wineWindows.lookup m.hwnd = some state
      ∧ state.clientFD = client := by
  unfold updateWindowMessage
  extract_lets old newlyCreated wasVisible visible c₁ c₂ c₃ c₄
  have h₂ : ∃ state, c₂.wineWindows.lookup m.hwnd = some state ∧ state.clientFD = client :=
    clientFD_modifyWindow (fun _ => rfl) (lookup_windowStateForHwnd c m.hwnd hfd)
  have h₃ : c₃.wineWindows = c₂.wineWindows := by
    dsimp only [c₃]
    split <;> rfl
  have h₄ : c₃.SameTable c₄ := .ite ⟨rfl, rfl, rfl, rfl⟩ ⟨rfl, rfl, rfl, rfl⟩
  rw [(sameTable_compositeWineDesktop c₄).windows, h₄.windows, h₃]
  exact h₂

/-- **So does a frame that is presented.** -/
theorem clientFD_presentFrameMessage (c : Controller) (hwnd : UInt64) (width height : Int32)
    (peerPID : Int32) (hfd : 0 ≤ client.fd) :
    ∃ state, (c.presentFrameMessage hwnd width height true client peerPID).wineWindows.lookup hwnd
      = some state ∧ state.clientFD = client := by
  unfold presentFrameMessage
  extract_lets image c₁ c₂ c₃ c₄
  have h₂ : ∃ state, c₂.wineWindows.lookup hwnd = some state ∧ state.clientFD = client :=
    clientFD_modifyWindow (fun _ => rfl) (lookup_windowStateForHwnd _ hwnd hfd)
  have h₃ : c₂.SameTable c₃ → c₂.SameTable c₄ := fun h => by
    dsimp only [c₄]
    rw [if_neg (by simp)]
    exact .ite (h.trans (sameTable_compositeWineDesktop c₃)) (h.trans ⟨rfl, rfl, rfl, rfl⟩)
  have h₄ : c₄.wineWindows = c₂.wineWindows := (h₃ ⟨rfl, rfl, rfl, rfl⟩).windows
  split
  · rw [h₄]
    exact h₂
  · exact clientFD_modifyWindow (fun _ => rfl) (by rw [h₄]; exact h₂)

/-- **What the window table and its callbacks promise.** -/
structure Grace (c : Controller) : Prop where
  /-- The order has every key once. -/
  order : c.wineWindowOrder.Nodup ∧ c.wineWindowOrder.Perm c.wineWindows.keys
  /-- A window that a callback removes has no connection, and is the object of
  its snapshot, from before the connection ended. -/
  pruned : ∀ (i : ℕ) (p : Prune) (alive : UInt64 → Bool) (key : UInt64) (state : WineWindowState),
    c.prunes[i]? = some p → c.wineWindows.lookup key = some state →
    (c.prune i p alive).wineWindows.lookup key = none →
    state.clientFD.fd = -1 ∧ state.object < p.since
      ∧ ∃ b, (key, b) ∈ p.snapshot ∧ b.state = state.object
  /-- A `WINDOW` of a connection claims its window. -/
  window : ∀ (m : JuiceMsg) (client : Client), 0 ≤ client.fd →
    ∃ state, (c.updateWindowMessage m client).wineWindows.lookup m.hwnd = some state
      ∧ state.clientFD = client
  /-- So does a frame. -/
  frame : ∀ (hwnd : UInt64) (width height peerPID : Int32) (client : Client), 0 ≤ client.fd →
    ∃ state, (c.presentFrameMessage hwnd width height true client peerPID).wineWindows.lookup hwnd
      = some state ∧ state.clientFD = client
  /-- A window made from now on is none of the objects a callback knows. -/
  fresh : ∀ p ∈ c.prunes, p.since ≤ c.next

/-- **The window table is in order in every run, and a callback takes no
window that was claimed again or made anew.** -/
theorem grace_of_reachable (multi : Bool) (c : Controller) (h : (machine multi).Reachable c) :
    c.Grace := by
  have ht := table_of_reachable h
  refine ⟨⟨ht.ordered.nodup, ht.ordered.perm⟩, ?_, fun m client hfd => ?_, ?_, ht.since_le⟩
  · intro i p alive key state hp hstate hgone
    obtain ⟨b, hb, hunchanged⟩ := lookup_prune hstate hgone
    simp only [juiceReconnectUnchanged, Bool.and_eq_true, decide_eq_true_eq] at hunchanged
    have hobject : state.object = b.state := hunchanged.1.1.1.1
    refine ⟨hunchanged.1.1.1.2, ?_, b, hb, hobject.symm⟩
    rw [hobject]
    exact ht.snapshot_lt p (List.mem_of_getElem? hp) (key, b) hb
  · exact clientFD_updateWindowMessage c m hfd
  · exact fun hwnd width height peerPID client hfd =>
      clientFD_presentFrameMessage c hwnd width height peerPID hfd

/-- A `WINDOW` that shows a window of a hundred by a hundred points. -/
def shown (hwnd : UInt64) : JuiceMsg := ⟨MAGIC, WINDOW, 0, hwnd, 0, 0, 100, 100, 0, 1⟩

/-- A connection with three windows ends. One is claimed by another
connection, one is destroyed and made again by a connection that ends too,
and then the first callback runs. -/
def ended : List Action :=
  [.updateWindow (shown 7) ⟨3, some 0⟩, .updateWindow (shown 8) ⟨3, some 0⟩,
    .updateWindow (shown 9) ⟨3, some 0⟩, .removeWindows 3,
    .updateWindow (shown 7) ⟨4, some 1⟩, .destroyWindow 8, .updateWindow (shown 8) ⟨5, some 2⟩,
    .removeWindows 5, .prune 0 (fun _ => false)]

/-- Only the third window is gone. -/
theorem grace_ended : ∃ c, (machine true).run ended = some c ∧ c.wineWindowOrder = [7, 8]
    ∧ c.prunes.length = 1 ∧ c.Grace := by
  obtain ⟨c, hc, horder, hlen⟩ : ∃ c, (machine true).run ended = some c
      ∧ c.wineWindowOrder = [7, 8] ∧ c.prunes.length = 1 := by
    decide +kernel
  exact ⟨c, hc, horder, hlen, grace_of_reachable true c (.of_run hc)⟩

end Controller

end Juice
