import Mathlib.Data.List.Induction

/-!
# The handoff to a debugger

A launch that needs a debugger starts suspended, and is resumed and
declared ready by a small state machine – `JuiceJITTransition` – to which
the host reports what it observes: that the request to the debugger was
accepted, that the child is being debugged, that the runtime in the child
printed its acknowledgement. The three arrive in any order and any number of
times; a cancellation, a refusal, the deadline or the loss of the child may
come at any point.

The machine remembers what it has seen in its phase, so the phase is a
function of the *set* of the events delivered together with one fact that is
not: whether an event was delivered while the application was in the
foreground and all three had been seen. `JITState.History` says this of every
list of deliveries, and the rest is read off it.
-/

namespace Juice

/-- `JuiceJITPhase`. -/
inductive JITPhase where
  | opening
  | attaching
  | starting
  | ready
  | cancelled
  | failed
  | openingAuthorized
  | authorized
  deriving DecidableEq, Repr

/-- `JuiceJITEvent`, with the numbers beyond the enumeration. -/
inductive JITEvent where
  | tick
  | openAccepted
  | openRejected
  | debugged
  | runtimeAck
  | cancel
  | outOfRange
  deriving DecidableEq, Repr

/-- `JuiceJITAction`. -/
inductive JITAction where
  | noAction
  | resume
  | stop
  deriving DecidableEq, Repr

/-- `JuiceJITState`. -/
structure JITState where
  phase : JITPhase
  deadlineMS : UInt64
  runtimeAcknowledged : Bool
  deriving DecidableEq, Repr

namespace JITState

/-- `JuiceJITPending`. -/
def pending (state : JITState) : Bool :=
  match state.phase with
  | .opening | .attaching | .starting | .openingAuthorized | .authorized => true
  | .ready | .cancelled | .failed => false

/-- The part of `JuiceJITTransition` that takes note of an event. -/
def observe (state : JITState) (event : JITEvent) : JITState :=
  match event, state.phase with
  | .runtimeAck, _ => { state with runtimeAcknowledged := true }
  | .openAccepted, .opening => { state with phase := .attaching }
  | .openAccepted, .openingAuthorized => { state with phase := .authorized }
  | .debugged, .opening => { state with phase := .openingAuthorized }
  | .debugged, .attaching => { state with phase := .authorized }
  | _, _ => state

/-- **`JuiceJITTransition`.** -/
def transition (state : JITState) (event : JITEvent) (nowMS : UInt64)
    (ownsChild foreground : Bool) : JITState × JITAction :=
  if state.phase = .ready ∨ state.phase = .cancelled ∨ state.phase = .failed then
    (state, .noAction)
  -- revocation is checked before errors
  else if !ownsChild || event = .cancel then
    ({ state with phase := .cancelled }, .noAction)
  else if !state.pending || event = .outOfRange || state.deadlineMS ≤ nowMS
      || event = .openRejected then
    ({ state with phase := .failed }, .stop)
  else
    let state := state.observe event
    if !foreground then
      (state, .noAction)
    else if state.phase = .authorized ∨ state.phase = .starting then
      if state.runtimeAcknowledged then
        ({ state with phase := .ready }, .noAction)
      else if state.phase = .authorized then
        ({ state with phase := .starting }, .resume)
      else
        (state, .noAction)
    else
      (state, .noAction)

/-- The state of a session whose child was just spawned. -/
def fresh (deadlineMS : UInt64) : JITState := ⟨.opening, deadlineMS, false⟩

end JITState

/-! ## Deliveries -/

/-- An event with what the caller of `JuiceJITTransition` passes along. -/
structure JITDelivery where
  event : JITEvent
  nowMS : UInt64
  ownsChild : Bool
  foreground : Bool
  deriving DecidableEq, Repr

/-- The child is gone or the handoff is called off. -/
def JITDelivery.Revoked (d : JITDelivery) : Prop :=
  d.ownsChild = false ∨ d.event = .cancel

/-- The handoff cannot succeed any more. -/
def JITDelivery.Hopeless (deadlineMS : UInt64) (d : JITDelivery) : Prop :=
  d.event = .outOfRange ∨ deadlineMS ≤ d.nowMS ∨ d.event = .openRejected

/-- **A delivery that ends nothing**: the child is owned, the event is one
of the enumeration, neither a cancellation nor a refusal, and it is before
the deadline. -/
def JITDelivery.Proper (deadlineMS : UInt64) (d : JITDelivery) : Prop :=
  ¬ d.Revoked ∧ ¬ d.Hopeless deadlineMS

/-- An event is among those delivered. -/
def Delivered (event : JITEvent) (ds : List JITDelivery) : Prop := ∃ d ∈ ds, d.event = event

/-- The three observations that a handoff needs were all made. -/
def Observed (ds : List JITDelivery) : Prop :=
  Delivered .openAccepted ds ∧ Delivered .debugged ds ∧ Delivered .runtimeAck ds

/-- **The handoff is complete**: some event was delivered in the foreground
when, with it, the three observations were made. -/
def Completed (ds : List JITDelivery) : Prop :=
  ∃ pre d post, ds = pre ++ d :: post ∧ d.foreground = true ∧ Observed (pre ++ [d])

theorem delivered_concat {event : JITEvent} {ds : List JITDelivery} {d : JITDelivery} :
    Delivered event (ds ++ [d]) ↔ Delivered event ds ∨ d.event = event := by
  simp [Delivered, or_and_right, exists_or]

theorem completed_concat {ds : List JITDelivery} {d : JITDelivery} :
    Completed (ds ++ [d]) ↔ Completed ds ∨ (d.foreground = true ∧ Observed (ds ++ [d])) := by
  constructor
  · rintro ⟨pre, e, post, heq, hf, hobs⟩
    rcases List.eq_nil_or_concat post with rfl | ⟨post', e', rfl⟩
    · obtain ⟨rfl, rfl⟩ := List.append_singleton_inj.mp heq
      exact .inr ⟨hf, hobs⟩
    · have heq' : ds ++ [d] = (pre ++ e :: post') ++ [e'] := by simpa using heq
      obtain ⟨rfl, rfl⟩ := List.append_singleton_inj.mp heq'
      exact .inl ⟨pre, e, post', rfl, hf, hobs⟩
  · rintro (⟨pre, e, post, rfl, hf, hobs⟩ | ⟨hf, hobs⟩)
    · exact ⟨pre, e, post ++ [d], by simp, hf, hobs⟩
    · exact ⟨ds, d, [], rfl, hf, hobs⟩

namespace JITState

variable {s : JITState} {ds : List JITDelivery}

/-- What a delivery does and returns. -/
def receive (state : JITState) (d : JITDelivery) : JITState × JITAction :=
  state.transition d.event d.nowMS d.ownsChild d.foreground

/-- The state after a list of deliveries. -/
def after (state : JITState) (ds : List JITDelivery) : JITState :=
  ds.foldl (fun state d => (state.receive d).1) state

/-- The actions that a list of deliveries returns. -/
def actions (state : JITState) : List JITDelivery → List JITAction
  | [] => []
  | d :: ds => (state.receive d).2 :: (state.receive d).1.actions ds

theorem after_append (state : JITState) (ds es : List JITDelivery) :
    state.after (ds ++ es) = (state.after ds).after es := List.foldl_append

theorem after_concat (state : JITState) (ds : List JITDelivery) (d : JITDelivery) :
    state.after (ds ++ [d]) = ((state.after ds).receive d).1 := by
  rw [after_append]
  rfl

theorem actions_concat (state : JITState) (ds : List JITDelivery) (d : JITDelivery) :
    state.actions (ds ++ [d]) = state.actions ds ++ [((state.after ds).receive d).2] := by
  induction ds generalizing state with
  | nil => rfl
  | cons e ds ih =>
    rw [List.cons_append, actions, ih]
    rfl

/-! ## What a delivery can do -/

/-- **What a delivery does**, by cases. -/
inductive Effect (s : JITState) (d : JITDelivery) : JITState → JITAction → Prop
  | settled (h : s.pending = false) : Effect s d s .noAction
  | revoked (h : s.pending = true) (hd : d.Revoked) :
    Effect s d { s with phase := .cancelled } .noAction
  | failed (h : s.pending = true) (hn : ¬ d.Revoked) (hd : d.Hopeless s.deadlineMS) :
    Effect s d { s with phase := .failed } .stop
  /-- The event is taken note of and nothing follows from it yet. -/
  | noted (h : s.pending = true) (hd : d.Proper s.deadlineMS)
    (hf : d.foreground = true → (s.observe d.event).phase ≠ .authorized
      ∧ ((s.observe d.event).phase = .starting →
          (s.observe d.event).runtimeAcknowledged = false)) :
    Effect s d (s.observe d.event) .noAction
  | completed (h : s.pending = true) (hd : d.Proper s.deadlineMS) (hf : d.foreground = true)
    (hp : (s.observe d.event).phase = .authorized ∨ (s.observe d.event).phase = .starting)
    (ha : (s.observe d.event).runtimeAcknowledged = true) :
    Effect s d { s.observe d.event with phase := .ready } .noAction
  | resumed (h : s.pending = true) (hd : d.Proper s.deadlineMS) (hf : d.foreground = true)
    (hp : (s.observe d.event).phase = .authorized)
    (ha : (s.observe d.event).runtimeAcknowledged = false) :
    Effect s d { s.observe d.event with phase := .starting } .resume

theorem pending_eq_false :
    s.pending = false ↔ s.phase = .ready ∨ s.phase = .cancelled ∨ s.phase = .failed := by
  rcases s with ⟨phase, _, _⟩
  cases phase <;> simp [pending]

theorem effect_receive (s : JITState) (d : JITDelivery) :
    Effect s d (s.receive d).1 (s.receive d).2 := by
  unfold receive transition
  split
  case isTrue h => exact .settled (pending_eq_false.mpr h)
  case isFalse h =>
  have hpend : s.pending = true := by
    rw [← Bool.not_eq_false, pending_eq_false]
    exact h
  split
  case isTrue hd => exact .revoked hpend (by simpa [JITDelivery.Revoked] using hd)
  case isFalse hn =>
  have hn' : ¬ d.Revoked := by simpa [JITDelivery.Revoked] using hn
  split
  case isTrue hd =>
    exact .failed hpend hn' (by simpa [hpend, JITDelivery.Hopeless, or_assoc] using hd)
  case isFalse hd =>
  have hprop : d.Proper s.deadlineMS :=
    ⟨hn', by simpa [hpend, JITDelivery.Hopeless, and_assoc] using hd⟩
  extract_lets t
  by_cases hf : d.foreground = true
  case neg =>
    rw [if_pos (by simpa using hf)]
    exact .noted hpend hprop (fun hf' => absurd hf' hf)
  rw [if_neg (by simpa using hf)]
  by_cases hp : t.phase = .authorized ∨ t.phase = .starting
  case neg =>
    rw [if_neg hp]
    rw [not_or] at hp
    exact .noted hpend hprop (fun _ => ⟨hp.1, fun hs => absurd hs hp.2⟩)
  rw [if_pos hp]
  by_cases ha : t.runtimeAcknowledged = true
  · rw [if_pos ha]
    exact .completed hpend hprop hf hp ha
  · rw [if_neg ha]
    by_cases hauth : t.phase = .authorized
    · rw [if_pos hauth]
      exact .resumed hpend hprop hf hauth (by simpa using ha)
    · rw [if_neg hauth]
      exact .noted hpend hprop (fun _ => ⟨hauth, fun _ => by simpa using ha⟩)

/-! ## What a pending phase remembers -/

/-- The phase tells that the request to the debugger was accepted. -/
def accepted (s : JITState) : Bool :=
  s.phase = .attaching || s.phase = .authorized || s.phase = .starting

/-- The phase tells that the child was seen being debugged. -/
def debugged (s : JITState) : Bool :=
  s.phase = .openingAuthorized || s.phase = .authorized || s.phase = .starting

section observe
variable {s : JITState} (h : s.pending = true) (event : JITEvent)
include h

theorem pending_observe : (s.observe event).pending = true := by
  rcases s with ⟨phase, _, _⟩
  cases event <;> cases phase <;> first | rfl | exact h

theorem accepted_observe :
    (s.observe event).accepted = true ↔ s.accepted = true ∨ event = .openAccepted := by
  rcases s with ⟨phase, _, _⟩
  cases event <;> cases phase <;> simp [observe, accepted, pending] at h ⊢

theorem debugged_observe :
    (s.observe event).debugged = true ↔ s.debugged = true ∨ event = .debugged := by
  rcases s with ⟨phase, _, _⟩
  cases event <;> cases phase <;> simp [observe, debugged, pending] at h ⊢

/-- No event undoes the start of the child. -/
theorem starting_observe : (s.observe event).phase = .starting ↔ s.phase = .starting := by
  rcases s with ⟨phase, _, _⟩
  cases event <;> cases phase <;> simp [observe, pending] at h ⊢

end observe

theorem acknowledged_observe (s : JITState) (event : JITEvent) :
    (s.observe event).runtimeAcknowledged = true
      ↔ s.runtimeAcknowledged = true ∨ event = .runtimeAck := by
  rcases s with ⟨phase, _, _⟩
  cases event <;> cases phase <;> simp [observe]

@[simp] theorem deadlineMS_observe (s : JITState) (event : JITEvent) :
    (s.observe event).deadlineMS = s.deadlineMS := by
  rcases s with ⟨phase, _, _⟩
  cases event <;> cases phase <;> rfl

/-- Both are known in the two phases out of which the handoff completes. -/
theorem accepted_and_debugged :
    s.accepted = true ∧ s.debugged = true ↔ s.phase = .authorized ∨ s.phase = .starting := by
  rcases s with ⟨phase, _, _⟩
  cases phase <;> simp [accepted, debugged]

/-- **What a pending state knows of its history.** -/
structure Remembers (s : JITState) (ds : List JITDelivery) : Prop where
  accepted : s.accepted = true ↔ Delivered .openAccepted ds
  debugged : s.debugged = true ↔ Delivered .debugged ds
  acknowledged : s.runtimeAcknowledged = true ↔ Delivered .runtimeAck ds

theorem Remembers.observe (h : s.Remembers ds) (hpend : s.pending = true) (d : JITDelivery) :
    (s.observe d.event).Remembers (ds ++ [d]) where
  accepted := by rw [accepted_observe hpend, delivered_concat, h.accepted]
  debugged := by rw [debugged_observe hpend, delivered_concat, h.debugged]
  acknowledged := by rw [acknowledged_observe, delivered_concat, h.acknowledged]

theorem Remembers.observed (h : s.Remembers ds) :
    Observed ds ↔ (s.phase = .authorized ∨ s.phase = .starting)
      ∧ s.runtimeAcknowledged = true := by
  rw [← accepted_and_debugged, h.accepted, h.debugged, h.acknowledged, and_assoc]
  rfl

/-! ## The history of a handoff -/

/-- **What a state tells of the deliveries that led to it.** -/
structure History (deadlineMS : UInt64) (ds : List JITDelivery) (s : JITState) : Prop where
  deadline : s.deadlineMS = deadlineMS
  remembers : s.pending = true → s.Remembers ds
  incomplete : s.pending = true → ¬ Completed ds
  complete : s.phase = .ready → Completed ds
  broken : s.phase = .cancelled ∨ s.phase = .failed → ∃ d ∈ ds, ¬ d.Proper deadlineMS

theorem history_fresh (deadlineMS : UInt64) : History deadlineMS [] (fresh deadlineMS) where
  deadline := rfl
  remembers _ := by constructor <;> simp [fresh, accepted, debugged, Delivered]
  incomplete _ := by simp [Completed]
  complete h := by simp [fresh] at h
  broken h := by simp [fresh] at h

/-- A delivery extends the history. -/
theorem History.receive {deadlineMS : UInt64} (h : History deadlineMS ds s) (d : JITDelivery) :
    History deadlineMS (ds ++ [d]) (s.receive d).1 := by
  have heff := effect_receive s d
  revert heff
  generalize (s.receive d).1 = t
  generalize (s.receive d).2 = action
  intro heff
  have hbroken : ¬ d.Proper deadlineMS → ∃ e ∈ ds ++ [d], ¬ e.Proper deadlineMS :=
    fun hd => ⟨d, by simp, hd⟩
  cases heff with
  | settled hpend =>
    exact {
      deadline := h.deadline
      remembers := fun hp => absurd hp (by simp [hpend])
      incomplete := fun hp => absurd hp (by simp [hpend])
      complete := fun hp => completed_concat.mpr (.inl (h.complete hp))
      broken := fun hp => by
        obtain ⟨e, he, hbad⟩ := h.broken hp
        exact ⟨e, List.mem_append_left _ he, hbad⟩ }
  | revoked hpend hd =>
    exact ⟨h.deadline, nofun, nofun, nofun, fun _ => hbroken (fun hprop => hprop.1 hd)⟩
  | failed hpend hn hd =>
    rw [h.deadline] at hd
    exact ⟨h.deadline, nofun, nofun, nofun, fun _ => hbroken (fun hprop => hprop.2 hd)⟩
  | noted hpend hd hf =>
    have hrem := (h.remembers hpend).observe hpend d
    have hpend' := pending_observe hpend d.event
    refine ⟨by rw [deadlineMS_observe, h.deadline], fun _ => hrem, fun _ hcompl => ?_, ?_, ?_⟩
    · rcases completed_concat.mp hcompl with hold | ⟨hfore, hobs⟩
      · exact h.incomplete hpend hold
      · obtain ⟨hp, ha⟩ := hrem.observed.mp hobs
        obtain ⟨hauth, hstart⟩ := hf hfore
        rw [hstart (hp.resolve_left hauth)] at ha
        cases ha
    · intro hp
      rw [pending_eq_false.mpr (.inl hp)] at hpend'
      cases hpend'
    · intro hp
      rw [pending_eq_false.mpr (.inr hp)] at hpend'
      cases hpend'
  | completed hpend hd hf hp ha =>
    have hrem := (h.remembers hpend).observe hpend d
    refine ⟨by rw [deadlineMS_observe, h.deadline], nofun, nofun, fun _ => ?_, nofun⟩
    exact completed_concat.mpr (.inr ⟨hf, hrem.observed.mpr ⟨hp, ha⟩⟩)
  | resumed hpend hd hf hp ha =>
    have hrem := (h.remembers hpend).observe hpend d
    obtain ⟨hacc, hdbg⟩ := accepted_and_debugged.mpr (.inl hp)
    refine ⟨by rw [deadlineMS_observe, h.deadline], fun _ => ⟨?_, ?_, hrem.acknowledged⟩,
      fun _ hcompl => ?_, nofun, nofun⟩
    · exact iff_of_true rfl (hrem.accepted.mp hacc)
    · exact iff_of_true rfl (hrem.debugged.mp hdbg)
    · rcases completed_concat.mp hcompl with hold | ⟨-, hobs⟩
      · exact h.incomplete hpend hold
      · rw [(hrem.observed.mp hobs).2] at ha
        cases ha

theorem history_after (deadlineMS : UInt64) (ds : List JITDelivery) :
    History deadlineMS ds ((fresh deadlineMS).after ds) := by
  induction ds using List.reverseRecOn with
  | nil => exact history_fresh deadlineMS
  | append_singleton ds d ih =>
    rw [after_concat]
    exact ih.receive d

/-! ## The actions -/

/-- How often the child was resumed and how often the launch was stopped. -/
structure Counts (s : JITState) (actions : List JITAction) : Prop where
  resume_le : actions.count .resume ≤ 1
  resume_eq : s.pending = true → s.phase ≠ .starting → actions.count .resume = 0
  stop_le : actions.count .stop ≤ 1
  stop_eq : s.phase ≠ .failed → actions.count .stop = 0

theorem Counts.receive {actions : List JITAction} (h : s.Counts actions) (d : JITDelivery) :
    (s.receive d).1.Counts (actions ++ [(s.receive d).2]) := by
  have heff := effect_receive s d
  revert heff
  generalize (s.receive d).1 = t
  generalize (s.receive d).2 = action
  intro heff
  have hpending_ne : s.pending = true → s.phase ≠ .failed := by
    intro hp hfail
    rw [pending_eq_false.mpr (.inr (.inr hfail))] at hp
    cases hp
  cases heff with
  | settled hpend => exact ⟨by simpa using h.resume_le, by simpa using h.resume_eq,
      by simpa using h.stop_le, by simpa using h.stop_eq⟩
  | revoked hpend hd => exact ⟨by simpa using h.resume_le, nofun, by simpa using h.stop_le,
      fun _ => by simpa using h.stop_eq (hpending_ne hpend)⟩
  | failed hpend hn hd =>
    have hzero := h.stop_eq (hpending_ne hpend)
    exact ⟨by simpa using h.resume_le, nofun, by simp [hzero], fun hne => absurd rfl hne⟩
  | noted hpend hd hf =>
    refine ⟨by simpa using h.resume_le, fun _ hne => ?_, by simpa using h.stop_le,
      fun _ => by simpa using h.stop_eq (hpending_ne hpend)⟩
    rw [Ne, starting_observe hpend] at hne
    simpa using h.resume_eq hpend hne
  | completed hpend hd hf hp ha => exact ⟨by simpa using h.resume_le, nofun,
      by simpa using h.stop_le, fun _ => by simpa using h.stop_eq (hpending_ne hpend)⟩
  | resumed hpend hd hf hp ha =>
    have hne : s.phase ≠ .starting := by
      rw [Ne, ← starting_observe hpend d.event, hp]
      exact nofun
    have hzero := h.resume_eq hpend hne
    exact ⟨by simp [hzero], fun _ hne => absurd rfl hne, by simpa using h.stop_le,
      fun _ => by simpa using h.stop_eq (hpending_ne hpend)⟩

theorem counts_after (deadlineMS : UInt64) (ds : List JITDelivery) :
    ((fresh deadlineMS).after ds).Counts ((fresh deadlineMS).actions ds) := by
  induction ds using List.reverseRecOn with
  | nil => exact ⟨Nat.zero_le _, fun _ _ => rfl, Nat.zero_le _, fun _ => rfl⟩
  | append_singleton ds d ih =>
    rw [after_concat, actions_concat]
    exact ih.receive d

theorem receive_of_settled (h : s.pending = false) (d : JITDelivery) :
    s.receive d = (s, .noAction) :=
  if_pos (pending_eq_false.mp h)

/-- A terminal phase never changes. -/
theorem after_of_settled (h : s.pending = false) (ds : List JITDelivery) : s.after ds = s := by
  induction ds with
  | nil => rfl
  | cons d ds ih =>
    show (s.receive d).1.after ds = s
    rw [receive_of_settled h, ih]

theorem receive_of_revoked {d : JITDelivery} (h : s.pending = true) (hd : d.Revoked) :
    s.receive d = ({ s with phase := .cancelled }, .noAction) := by
  have hne : ¬ (s.phase = .ready ∨ s.phase = .cancelled ∨ s.phase = .failed) := by
    rw [← pending_eq_false, h]
    exact nofun
  exact (if_neg hne).trans (if_pos (by simpa [JITDelivery.Revoked] using hd))

/-! ## The handoff -/

/-- **A handoff, as the deliveries made of it determine it.** -/
structure Handoff (deadlineMS : UInt64) (ds : List JITDelivery) : Prop where
  /-- While nothing ends it, the handoff is ready exactly when it is complete … -/
  ready_iff : (∀ d ∈ ds, d.Proper deadlineMS) →
    (((fresh deadlineMS).after ds).phase = .ready ↔ Completed ds)
  /-- … and pending otherwise. -/
  pending : (∀ d ∈ ds, d.Proper deadlineMS) → ¬ Completed ds →
    ((fresh deadlineMS).after ds).pending = true
  resume_once : ((fresh deadlineMS).actions ds).count .resume ≤ 1
  resume : ∀ pre d post, ds = pre ++ d :: post →
    (((fresh deadlineMS).after pre).receive d).2 = .resume →
    d.foreground = true ∧ Delivered .openAccepted (pre ++ [d])
      ∧ Delivered .debugged (pre ++ [d]) ∧ ¬ Delivered .runtimeAck (pre ++ [d])
  stop_once : ((fresh deadlineMS).actions ds).count .stop ≤ 1
  stop : ∀ pre d post, ds = pre ++ d :: post →
    (((fresh deadlineMS).after pre).receive d).2 = .stop → d.ownsChild = true
  /-- Nothing is stopped after the handoff became ready or was cancelled. -/
  stop_early : ∀ pre mid d post, ds = pre ++ mid ++ d :: post →
    (((fresh deadlineMS).after (pre ++ mid)).receive d).2 = .stop →
    ((fresh deadlineMS).after pre).phase ≠ .ready
      ∧ ((fresh deadlineMS).after pre).phase ≠ .cancelled
  revoked : ∀ pre d post, ds = pre ++ d :: post →
    ((fresh deadlineMS).after pre).phase ∉ [JITPhase.ready, .cancelled, .failed] →
    (d.ownsChild = false ∨ d.event = .cancel) →
    ((fresh deadlineMS).after (pre ++ [d])).phase = .cancelled
      ∧ (((fresh deadlineMS).after pre).receive d).2 = .noAction
  terminal : ∀ pre post, ds = pre ++ post →
    ((fresh deadlineMS).after pre).phase ∈ [JITPhase.ready, .cancelled, .failed] →
    ((fresh deadlineMS).after ds).phase = ((fresh deadlineMS).after pre).phase

/-- **Every list of deliveries makes a handoff.** -/
theorem handoff_of_deliveries (deadlineMS : UInt64) (ds : List JITDelivery) :
    Handoff deadlineMS ds := by
  have hist := history_after deadlineMS
  have hcounts := counts_after deadlineMS ds
  have hready (hprop : ∀ d ∈ ds, d.Proper deadlineMS) :
      ((fresh deadlineMS).after ds).pending = true
        ∨ ((fresh deadlineMS).after ds).phase = .ready := by
    rcases Bool.eq_false_or_eq_true ((fresh deadlineMS).after ds).pending with hpend | hpend
    · exact .inl hpend
    · refine .inr ((pending_eq_false.mp hpend).resolve_right (fun hbad => ?_))
      obtain ⟨d, hd, himproper⟩ := (hist ds).broken hbad
      exact himproper (hprop d hd)
  refine {
    ready_iff := fun hprop => ⟨(hist ds).complete, fun hcompl => ?_⟩
    pending := fun hprop hn => (hready hprop).resolve_right (fun hr => hn ((hist ds).complete hr))
    resume_once := hcounts.resume_le
    resume := ?_
    stop_once := hcounts.stop_le
    stop := ?_
    stop_early := ?_
    revoked := ?_
    terminal := ?_ }
  · exact (hready hprop).resolve_left (fun hpend => (hist ds).incomplete hpend hcompl)
  · intro pre d post _ hact
    have heff := effect_receive ((fresh deadlineMS).after pre) d
    rw [hact] at heff
    generalize (((fresh deadlineMS).after pre).receive d).1 = t at heff
    cases heff with
    | resumed hpend hd hf hp ha =>
      have hrem := ((hist pre).remembers hpend).observe hpend d
      obtain ⟨hacc, hdbg⟩ := accepted_and_debugged.mpr (.inl hp)
      refine ⟨hf, hrem.accepted.mp hacc, hrem.debugged.mp hdbg, ?_⟩
      rw [← hrem.acknowledged, ha]
      exact nofun
  · intro pre d post _ hact
    have heff := effect_receive ((fresh deadlineMS).after pre) d
    rw [hact] at heff
    generalize (((fresh deadlineMS).after pre).receive d).1 = t at heff
    cases heff with
    | failed hpend hn hd => simpa using (not_or.mp hn).1
  · intro pre mid d post _ hact
    -- a phase reached earlier would still be there, and nothing comes of it
    rw [after_append] at hact
    constructor <;> intro hp
    · have hset := pending_eq_false.mpr (.inl hp)
      rw [after_of_settled hset, receive_of_settled hset] at hact
      cases hact
    · have hset := pending_eq_false.mpr (.inr (.inl hp))
      rw [after_of_settled hset, receive_of_settled hset] at hact
      cases hact
  · intro pre d post _ hp hd
    have hpend : ((fresh deadlineMS).after pre).pending = true := by
      rw [← Bool.not_eq_false, pending_eq_false]
      simpa using hp
    rw [after_concat, receive_of_revoked hpend hd]
    exact ⟨rfl, rfl⟩
  · rintro pre post rfl hp
    rw [after_append, after_of_settled (pending_eq_false.mpr (by simpa using hp))]

end JITState
end Juice
