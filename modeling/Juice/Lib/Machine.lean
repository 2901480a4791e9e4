import Mathlib.Data.List.Induction

/-!
# Machines with a partial step function

A machine has a start state and a partial step function: an action is
either possible in a state, and then it has one outcome, or it is not
possible there. Whatever is nondeterministic in the system modelled –
what a peer sends, what a system call returns, which thread moves next –
is part of the action, so that a run is a list of actions and can be
evaluated.

Two ways of cutting a machine down are used by the developments built on
it. `Machine.restrict` keeps the steps that meet a condition on the state
before the step and on the action; a run of the restricted machine is a
run *all of whose steps* meet the condition. `Machine.Simulates` relates
two machines through a map of states, and carries invariants from one to
the other.
-/

/-- **A machine**: a start state and a partial step function. -/
structure Machine (S A : Type) where
  /-- The state every run starts from. -/
  start : S
  /-- What an action does in a state, `none` where it is not possible. -/
  step : S → A → Option S

namespace Machine

variable {S A : Type} (M : Machine S A) {s t : S} {as : List A} {a : A}

/-- Execute a list of actions from a given state. -/
def runFrom (s : S) (as : List A) : Option S := as.foldlM M.step s

/-- Execute a list of actions from the start state. -/
def run (as : List A) : Option S := M.runFrom M.start as

/-- What the end of a run is like can be evaluated. -/
instance {P : S → Prop} [DecidablePred P] {o : Option S} : Decidable (∃ s, o = some s ∧ P s) :=
  inferInstanceAs (Decidable (∃ s ∈ o, P s))

@[simp] theorem runFrom_nil (s : S) : M.runFrom s [] = some s := rfl

theorem runFrom_cons (s : S) (a : A) (as : List A) :
    M.runFrom s (a :: as) = (M.step s a).bind (fun s' => M.runFrom s' as) := rfl

theorem runFrom_append (s : S) (as bs : List A) :
    M.runFrom s (as ++ bs) = (M.runFrom s as).bind (fun s' => M.runFrom s' bs) := by
  unfold runFrom
  rw [List.foldlM_append]
  rfl

/-- A run extends a shorter one by its last action. -/
theorem runFrom_concat :
    M.runFrom s (as ++ [a]) = some t
      ↔ ∃ u, M.runFrom s as = some u ∧ M.step u a = some t := by
  rw [runFrom_append, Option.bind_eq_some_iff]
  refine exists_congr (fun u => and_congr_right (fun _ => ?_))
  rw [runFrom_cons, Option.bind_eq_some_iff]
  simp

/-- A run around one of its actions. -/
theorem runFrom_middle {u v : S} (hu : M.runFrom s as = some u) (hstep : M.step u a = some v)
    (bs : List A) : M.runFrom s (as ++ a :: bs) = M.runFrom v bs := by
  rw [runFrom_append, hu]
  show M.runFrom u (a :: bs) = M.runFrom v bs
  rw [runFrom_cons, hstep]
  rfl

/-- **A reachable state**: the end of some run. -/
def Reachable (s : S) : Prop := ∃ as, M.run as = some s

variable {M}

theorem reachable_start : M.Reachable M.start := ⟨[], rfl⟩

theorem Reachable.of_run (h : M.run as = some s) :
    M.Reachable s := ⟨as, h⟩

theorem Reachable.step (h : M.Reachable s) (hs : M.step s a = some t) : M.Reachable t := by
  obtain ⟨as, has⟩ := h
  exact ⟨as ++ [a], (M.runFrom_concat).mpr ⟨s, has, hs⟩⟩

/-- **The invariant rule.** What holds at the start and is preserved by
every step out of a reachable state holds in every reachable state. -/
theorem Reachable.invariant {I : S → Prop} (h₀ : I M.start)
    (hstep : ∀ s a t, M.Reachable s → I s → M.step s a = some t → I t) (h : M.Reachable s) :
    I s := by
  obtain ⟨as, has⟩ := h
  induction as using List.reverseRecOn generalizing s with
  | nil =>
    cases has
    exact h₀
  | append_singleton as a ih =>
    obtain ⟨u, hu, hs⟩ := (M.runFrom_concat).mp has
    exact hstep u a s ⟨as, hu⟩ (ih hu) hs

/-- Reachability from an arbitrary state. -/
def ReachableFrom (M : Machine S A) (s t : S) : Prop := ∃ as, M.runFrom s as = some t

theorem ReachableFrom.refl (s : S) : M.ReachableFrom s s := ⟨[], rfl⟩

theorem ReachableFrom.single (h : M.step s a = some t) : M.ReachableFrom s t :=
  ⟨[a], by rw [runFrom_cons, h]; rfl⟩

/-- The invariant rule for the runs out of a given state. -/
theorem ReachableFrom.invariant {I : S → Prop} (h : M.ReachableFrom s t) (h₀ : I s)
    (hstep : ∀ u a v, M.ReachableFrom s u → I u → M.step u a = some v → I v) : I t := by
  obtain ⟨as, has⟩ := h
  induction as using List.reverseRecOn generalizing t with
  | nil =>
    cases has
    exact h₀
  | append_singleton as a ih =>
    obtain ⟨u, hu, hs⟩ := (M.runFrom_concat).mp has
    exact hstep u a t ⟨as, hu⟩ (ih hu) hs

/-- A run out of a reachable state ends in a reachable state. -/
theorem Reachable.trans (h : M.Reachable s) (ht : M.ReachableFrom s t) : M.Reachable t :=
  ht.invariant h (fun _ _ _ _ hu hs => hu.step hs)

/-- **The step at which something begins to hold** for good: what does not
hold at the start of a run and holds at its end has begun to hold at a step,
and holds from there on. -/
theorem exists_crossing {P : S → Prop} (h : M.runFrom s as = some t) (hs : ¬ P s) (ht : P t) :
    ∃ as₁ a as₂ u v, as = as₁ ++ a :: as₂ ∧ M.runFrom s as₁ = some u ∧ ¬ P u
      ∧ M.step u a = some v ∧ ∀ bs cs w, as₂ = bs ++ cs → M.runFrom v bs = some w → P w := by
  induction as using List.reverseRecOn generalizing t with
  | nil =>
    cases h
    exact absurd ht hs
  | append_singleton as a ih =>
    obtain ⟨u, hu, hstep⟩ := (M.runFrom_concat).mp h
    by_cases hPu : P u
    · obtain ⟨as₁, a₁, as₂, u₁, v₁, rfl, hu₁, hnot, hstep₁, hall⟩ := ih hu hPu
      refine ⟨as₁, a₁, as₂ ++ [a], u₁, v₁, by simp, hu₁, hnot, hstep₁, ?_⟩
      intro bs cs w hsplit hw
      rcases List.eq_nil_or_concat cs with rfl | ⟨cs, b, rfl⟩
      · -- The whole rest of the run, which ends in `t`.
        rw [List.append_nil] at hsplit
        have hend : M.runFrom s (as₁ ++ a₁ :: bs) = some w :=
          (M.runFrom_middle hu₁ hstep₁ bs).trans hw
        rw [← hsplit, ← List.cons_append, ← List.append_assoc, h] at hend
        rw [← Option.some.inj hend]
        exact ht
      · rw [List.concat_eq_append, ← List.append_assoc] at hsplit
        exact hall bs cs w (List.append_inj_left' hsplit rfl) hw
    · refine ⟨as, a, [], u, t, rfl, hu, hPu, hstep, ?_⟩
      intro bs cs w hsplit hw
      rw [(List.append_eq_nil_iff.mp hsplit.symm).1] at hw
      rw [← Option.some.inj hw]
      exact ht

/-! ## Runs whose steps meet a condition -/

/-- **The machine cut down to the steps that meet a condition** on the
state before the step and on the action. -/
def restrict (M : Machine S A) (ok : S → A → Bool) : Machine S A where
  start := M.start
  step s a := if ok s a then M.step s a else none

@[simp] theorem restrict_start (ok : S → A → Bool) : (M.restrict ok).start = M.start := rfl

/-- A step of the restricted machine is a step that meets the condition. -/
theorem restrict_step {ok : S → A → Bool} :
    (M.restrict ok).step s a = some t ↔ ok s a = true ∧ M.step s a = some t := by
  show (if ok s a then M.step s a else none) = some t ↔ _
  split <;> simp_all

/-- What the restricted machine reaches, the machine reaches. -/
theorem Reachable.of_restrict {ok : S → A → Bool} (h : (M.restrict ok).Reachable s) :
    M.Reachable s := by
  refine Reachable.invariant (M := M.restrict ok) (I := M.Reachable) reachable_start ?_ h
  intro s a t _ hs hst
  exact hs.step (restrict_step.mp hst).2

/-! ## Simulation -/

/-- **A simulation**: the start is mapped to the start, and a step of the
simulated machine is mapped to a run of the simulating one. -/
structure Simulates {T B : Type} (N : Machine T B) (M : Machine S A) (view : S → T) :
    Prop where
  /-- The start states correspond. -/
  start : view M.start = N.start
  /-- A step of `M` is a run of `N`. -/
  step : ∀ s a t, M.Reachable s → M.step s a = some t → N.ReachableFrom (view s) (view t)

/-- **Invariants travel along a simulation.** -/
theorem Simulates.reachable {T B : Type} {N : Machine T B} {view : S → T} (h : N.Simulates M view)
    (hs : M.Reachable s) : N.Reachable (view s) := by
  refine hs.invariant (I := fun s => N.Reachable (view s)) ?_ ?_
  · rw [h.start]
    exact reachable_start
  · intro s a t hr ht hst
    exact ht.trans (h.step s a t hr hst)

end Machine
