import Juice.Lib.Machine

/-!
# The Metal presenter

`JuiceMetalCompositor.m` shows the newest scene that was asked for. A
display link wakes the presenter up; it hands the pending scene to the
renderer, on another queue, and is busy until the renderer reports back.
Hiding starts a new epoch, and a report of an older epoch only makes the
presenter free again. The display link is paused whenever there is nothing
to do, so a scene would be lost to the screen if it were paused while one
waits.

Every method ends by recomputing the policy, which decides about the
display link from the state at hand (`Core.updatePolicy`). What is left to
show is that the state is in order before that.
-/

namespace Juice.Metal

/-- What `updatePolicy` reads of the system. -/
structure Policy where
  requested : ℕ := 0
  maximum : ℕ := 60
  thermal : ℕ := 0
  lowPower : Bool := false
  /-- The application state is active. -/
  active : Bool := true

/-- `JuicePresentationFPS`. -/
def juicePresentationFPS (requested maximum thermal : ℕ) (lowPower active : Bool) : ℕ :=
  if !active then 0
  else
    let maximum := if maximum = 0 ∨ maximum > 240 then 60 else maximum
    let fps := if requested = 0 then (if maximum < 120 then maximum else 120)
      else if requested ∉ [15, 30, 60, 120] then 60 else requested
    let fps := min fps maximum
    let fps := if (lowPower ∨ thermal ≥ 2) ∧ fps > 30 then 30 else fps
    if thermal ≥ 3 ∧ fps > 15 then 15 else fps

/-- **`JuiceMetalPresenter`**, on the main queue. Scenes are numbered in the
order in which they were requested. -/
structure Presenter where
  pending : Option ℕ := none
  lastScene : Option ℕ := none
  ready : Bool := false
  failed : Bool := false
  busy : Bool := false
  suspended : Bool := false
  /-- `view.hidden` -/
  hidden : Bool := true
  /-- `link.paused` -/
  paused : Bool := true
  /-- The rate that the last policy update computed. -/
  fps : ℕ := 0
  epoch : ℕ := 0
  requested : ℕ := 0
  /-- Scenes whose completion is outstanding, with their epochs. -/
  inFlight : List (ℕ × ℕ) := []
  /-- Scenes in the order in which the renderer got them, with their
  epochs. -/
  handed : List (ℕ × ℕ) := []

namespace Presenter

variable (v : Policy) (p : Presenter)

def updatePolicy : Presenter :=
  let fps := juicePresentationFPS v.requested v.maximum v.thermal v.lowPower
    (!p.suspended && v.active)
  { p with fps, paused := fps = 0 || p.busy || p.pending.isNone || p.hidden || !p.ready || p.failed }

/-- `policyChanged:`, for a notification that may suspend or resume. -/
def policyChanged (suspended : Option Bool) : Presenter :=
  updatePolicy v { p with suspended := suspended.getD p.suspended }

def memoryWarning : Presenter :=
  updatePolicy v (if p.hidden then p else { p with pending := p.lastScene })

/-- `layout`: whether the geometry changed, or `none` if one of the sizes is
empty. -/
def layout (changed : Option Bool) : Presenter :=
  if p.hidden || p.lastScene.isNone then p
  else match changed with
    | none => p
    | some changed => updatePolicy v (if changed then { p with pending := p.lastScene } else p)

def hide : Presenter :=
  { p with epoch := p.epoch + 1, pending := none, lastScene := none, hidden := true, paused := true }

/-- How the renderer reports on a scene. -/
inductive Completion where
  | success
  | retry
  | error
  deriving DecidableEq, Repr

/-- `finishScene:` -/
def finishScene (scene epoch : ℕ) (c : Completion) : Presenter :=
  let p := { p with busy := false }
  if epoch ≠ p.epoch then updatePolicy v p
  else match c with
    | .error => updatePolicy v (hide { p with failed := true })
    | .retry =>
      updatePolicy v (if p.pending.isNone && !p.hidden then { p with pending := some scene } else p)
    | .success => updatePolicy v p

/-- `tick`, with a canvas that may be in no window. -/
def tick (window : Bool) : Presenter :=
  match p.pending with
  | none => updatePolicy v p
  | some scene =>
    if p.busy || !p.ready || p.failed || p.hidden || !window || !v.active then updatePolicy v p
    else updatePolicy v { p with pending := none, busy := true,
                                 inFlight := p.inFlight ++ [(scene, p.epoch)],
                                 handed := p.handed ++ [(scene, p.epoch)] }

/-- What `JuicePresentMetalComposite` is called with. -/
structure Composite where
  /-- Switched off, or too many windows. -/
  refused : Bool := false
  /-- Every window has its pixels. -/
  backed : Bool := true
  changed : Option Bool := some true

/-- `JuiceHideMetalComposite` -/
def juiceHideMetalComposite : Presenter := if p.hidden then p else p.hide

/-- `JuicePresentMetalComposite` -/
def juicePresentMetalComposite (c : Composite) : Presenter :=
  if c.refused then p.juiceHideMetalComposite
  else if !p.ready || p.failed then p
  else if !c.backed then p.hide
  else
    let scene := p.requested + 1
    let p := { p with requested := scene, pending := some scene, lastScene := some scene,
                      hidden := false }
    updatePolicy v (layout v p c.changed)

end Presenter

/-- What happens on the main queue. -/
inductive Event where
  /-- The core is there, or could not be made. -/
  | initialized (ok : Bool)
  | present (v : Policy) (c : Presenter.Composite)
  | hide
  | layout (v : Policy) (changed : Option Bool)
  | tick (v : Policy) (window : Bool)
  | memoryWarning (v : Policy)
  | policyChanged (v : Policy) (suspended : Option Bool)
  | finished (v : Policy) (i : ℕ) (c : Presenter.Completion)

def step (p : Presenter) : Event → Option Presenter
  | .initialized ok => if p.ready || p.failed then none else some { p with ready := ok, failed := !ok }
  | .present v c => some (p.juicePresentMetalComposite v c)
  | .hide => some p.juiceHideMetalComposite
  | .layout v changed => some (p.layout v changed)
  | .tick v window => some (p.tick v window)
  | .memoryWarning v => some (p.memoryWarning v)
  | .policyChanged v suspended => some (p.policyChanged v suspended)
  | .finished v i c => do
    let (scene, epoch) ← p.inFlight[i]?
    return { p with inFlight := p.inFlight.eraseIdx i }.finishScene v scene epoch c

/-- **The presenter machine.** -/
def presenter : Machine Presenter Event := ⟨{}, step⟩

/-! ## Invariants -/

/-- **The state is in order**, apart from the display link. -/
structure Core (p : Presenter) : Prop where
  flight : p.inFlight.length = if p.busy then 1 else 0
  pending : p.pending = none ∨ p.pending = p.lastScene
  /-- What is in flight is the newest scene, unless a newer one waits. -/
  current : ∀ f ∈ p.inFlight, f.2 = p.epoch → p.pending = none → p.lastScene = some f.1
  flight_le : ∀ f ∈ p.inFlight, f.2 ≤ p.epoch
  dark : p.hidden = true → p.pending = none ∧ p.lastScene = none
  unready : p.ready = false → p.hidden = true
  last_le : ∀ m, p.lastScene = some m → m ≤ p.requested
  handed_le : ∀ f ∈ p.handed, f.2 ≤ p.epoch ∧ f.1 ≤ p.requested
    ∧ (f.2 = p.epoch → ∃ m, p.lastScene = some m ∧ f.1 ≤ m)
  order : p.handed.Pairwise (fun f g => f.2 = g.2 → f.1 ≤ g.1)

/-- **A scene that can be drawn will be**: the display link is running. -/
def Linked (p : Presenter) : Prop :=
  p.pending ≠ none → p.ready = true → p.failed = false → p.hidden = false → p.busy = false →
    p.fps ≠ 0 → p.paused = false

variable {p : Presenter} (v : Policy)

/-- What the state in order does not depend on. -/
theorem Core.set (h : Core p) (failed suspended paused : Bool) (fps : ℕ) :
    Core { p with failed, suspended, paused, fps } :=
  ⟨h.flight, h.pending, h.current, h.flight_le, h.dark, h.unready, h.last_le, h.handed_le, h.order⟩

theorem Core.updatePolicy (h : Core p) : Core (p.updatePolicy v) ∧ Linked (p.updatePolicy v) :=
  ⟨h.set .., by simp_all [Linked, Presenter.updatePolicy, Option.isSome_iff_ne_none]⟩

theorem Core.hide (h : Core p) : Core p.hide ∧ Linked p.hide := by
  obtain ⟨hflight, hpending, hcurrent, hflightLe, hdark, hunready, hlast, hhanded, horder⟩ := h
  refine ⟨?_, by simp [Linked, Presenter.hide]⟩
  constructor <;> simp only [Presenter.hide] <;> grind

/-- The newest scene is shown once more. -/
theorem Core.refresh (h : Core p) {scene : Option ℕ} (hscene : p.lastScene = scene) :
    Core { p with pending := scene } := by
  obtain ⟨hflight, hpending, hcurrent, hflightLe, hdark, hunready, hlast, hhanded, horder⟩ := h
  constructor <;> grind

theorem Core.layout (h : Core p) (changed : Option Bool) :
    Core (p.layout v changed) ∧ (Linked p → Linked (p.layout v changed)) := by
  unfold Presenter.layout
  split
  · exact ⟨h, id⟩
  · split
    · exact ⟨h, id⟩
    · split
      · exact ((h.refresh rfl).updatePolicy v).imp_right (fun hl _ => hl)
      · exact (h.updatePolicy v).imp_right (fun hl _ => hl)

/-- A new scene is requested. -/
theorem Core.request (h : Core p) (hready : p.ready = true) :
    Core { p with requested := p.requested + 1, pending := some (p.requested + 1),
                  lastScene := some (p.requested + 1), hidden := false } := by
  obtain ⟨hflight, hpending, hcurrent, hflightLe, hdark, hunready, hlast, hhanded, horder⟩ := h
  constructor <;> grind

/-- The pending scene is handed to the renderer. -/
theorem Core.draw (h : Core p) {scene : ℕ} (hscene : p.pending = some scene)
    (hbusy : p.busy = false) :
    Core { p with pending := none, busy := true, inFlight := p.inFlight ++ [(scene, p.epoch)],
                  handed := p.handed ++ [(scene, p.epoch)] } := by
  obtain ⟨hflight, hpending, hcurrent, hflightLe, hdark, hunready, hlast, hhanded, horder⟩ := h
  have hnewest : p.lastScene = some scene := by grind
  constructor <;> grind

/-- The presenter is free again. -/
theorem Core.free (h : Core p) {i : ℕ} {f : ℕ × ℕ} (hi : p.inFlight[i]? = some f) :
    Core { p with inFlight := p.inFlight.eraseIdx i, busy := false }
      ∧ (f.2 = p.epoch → p.pending = none → p.lastScene = some f.1) := by
  obtain ⟨hflight, hpending, hcurrent, hflightLe, hdark, hunready, hlast, hhanded, horder⟩ := h
  refine ⟨?_, hcurrent f (List.mem_of_getElem? hi)⟩
  have hnone : p.inFlight.eraseIdx i = [] :=
    List.length_eq_zero_iff.mp (by grind [List.length_eraseIdx])
  rw [hnone]
  constructor <;> grind

/-- **One event** keeps the state in order and the display link right. -/
theorem step_core {q : Presenter} {e : Event} (h : Core p) (hlinked : Linked p)
    (hstep : step p e = some q) : Core q ∧ Linked q := by
  have hhide : Core p.juiceHideMetalComposite ∧ Linked p.juiceHideMetalComposite := by
    unfold Presenter.juiceHideMetalComposite
    split
    · exact ⟨h, hlinked⟩
    · exact h.hide
  cases e with
  | initialized ok =>
    simp only [step] at hstep
    split at hstep
    · cases hstep
    · cases hstep
      -- Nothing can be pending before.
      rename_i hnew
      have hhidden := h.unready (by simp_all)
      refine ⟨⟨h.flight, h.pending, h.current, h.flight_le, h.dark, fun _ => hhidden, h.last_le,
        h.handed_le, h.order⟩, fun _ _ _ hshown => ?_⟩
      exact absurd hshown (by simp [hhidden])
  | present v c =>
    cases hstep
    unfold Presenter.juicePresentMetalComposite
    split
    · exact hhide
    · split
      · exact ⟨h, hlinked⟩
      · rename_i hup
        have hready : p.ready = true := by simp_all
        split
        · exact h.hide
        · exact ((h.request hready).layout v c.changed).1.updatePolicy v
  | hide =>
    cases hstep
    exact hhide
  | layout v changed =>
    cases hstep
    exact (h.layout v changed).imp_right (· hlinked)
  | tick v window =>
    cases hstep
    unfold Presenter.tick
    split
    · exact h.updatePolicy v
    · rename_i scene hscene
      split
      · exact h.updatePolicy v
      · exact (h.draw hscene (by simp_all)).updatePolicy v
  | memoryWarning v =>
    cases hstep
    unfold Presenter.memoryWarning
    split
    · exact h.updatePolicy v
    · exact (h.refresh rfl).updatePolicy v
  | policyChanged v suspended =>
    cases hstep
    exact (h.set ..).updatePolicy v
  | finished v i c =>
    simp only [step, Option.bind_eq_bind, Option.bind_eq_some_iff, Option.pure_def,
      Option.some.injEq] at hstep
    obtain ⟨f, hf, rfl⟩ := hstep
    obtain ⟨hfree, hnewest⟩ := h.free hf
    unfold Presenter.finishScene
    dsimp only
    split
    · exact hfree.updatePolicy v
    · rename_i hepoch
      cases c with
      | success => exact hfree.updatePolicy v
      | error => exact (hfree.set ..).hide.1.updatePolicy v
      | retry =>
        dsimp only
        split
        · -- No newer scene waits, so the one that comes back is the newest.
          rename_i hidle
          exact (hfree.refresh (hnewest (not_not.mp hepoch) (by simp_all))).updatePolicy v
        · exact hfree.updatePolicy v

/-- **Scheduling of the Metal presenter**, in every interleaving: at most one
scene is in flight, and the presenter is busy exactly as long; what is
pending is the newest scene; a scene that can be drawn finds the display
link running; within an epoch the renderer gets scenes in the order of the
requests; and a completion of another epoch leaves the scenes alone. -/
theorem presenter_scheduling {p : Presenter} (h : presenter.Reachable p) :
    p.inFlight.length ≤ 1 ∧ (p.busy = true ↔ p.inFlight.length = 1)
      ∧ (p.pending = none ∨ p.pending = p.lastScene)
      ∧ Linked p
      ∧ p.handed.Pairwise (fun f g => f.2 = g.2 → f.1 ≤ g.1)
      ∧ ∀ v i c q, step p (.finished v i c) = some q →
        (∀ f, p.inFlight[i]? = some f → f.2 ≠ p.epoch) →
        q.pending = p.pending ∧ q.lastScene = p.lastScene := by
  have hinv : Core p ∧ Linked p := h.invariant (I := fun p => Core p ∧ Linked p)
    ⟨by constructor <;> simp [presenter], by simp [Linked, presenter]⟩
    (fun _ _ _ _ hs hst => step_core hs.1 hs.2 hst)
  obtain ⟨hcore, hlinked⟩ := hinv
  have hflight := hcore.flight
  refine ⟨by grind, by grind, hcore.pending, hlinked, hcore.order, ?_⟩
  intro v i c q hstep hold
  simp only [step, Option.bind_eq_bind, Option.bind_eq_some_iff, Option.pure_def,
    Option.some.injEq] at hstep
  obtain ⟨f, hf, rfl⟩ := hstep
  unfold Presenter.finishScene
  rw [if_pos (hold f hf)]
  exact ⟨rfl, rfl⟩

/-- A scene comes back for a retry while a newer one waits. -/
def retried : List Event :=
  [.initialized true, .present {} {}, .tick {} true, .present {} {}, .finished {} 0 .retry]

theorem presenter_scheduling_retried :
    ∃ p, presenter.run retried = some p ∧ p.pending = some 2 ∧ Linked p :=
  ⟨_, rfl, rfl, (presenter_scheduling ⟨retried, rfl⟩).2.2.2.1⟩

end Juice.Metal
