/-!
# Programs that change a state and may fail

A function of a program that has effects and returns an error early is a
`Prog`: it takes a state to a state, and to a value or an error. The state
is there in both cases, since what a program did before it failed is done.

A postcondition comes in two parts, one for the value and one for the
error, and `wp m Q E s` says that the run of `m` from `s` meets them. There
is one rule for each way to build a program, so that a proof follows the
text of the program: `wp_bind` for a sequence, `wp_ensure` for a check,
`wp_attempt` for a call whose error is looked at. `wp_imp` weakens a
postcondition. `Keeps` is for what is never undone, whatever a program does.
`Agrees` compares two programs over different states, which return the same
from related ones.

Checks that change nothing are in `Except`, where what a success says is
read off by `bind_eq_ok`.
-/

/-- A program over the state `σ` that returns a value of `α` or fails. -/
def Prog (σ ε α : Type) : Type := σ → Except ε α × σ

namespace Prog

variable {σ ε α β : Type} {e : ε}

/-! ## Checks -/

/-- Fails with `e` unless `p`. -/
def ensure (p : Prop) [Decidable p] (e : ε) : Except ε Unit :=
  if p then .ok () else .error e

theorem ensure_eq_ok {p : Prop} [Decidable p] {u : Unit} : ensure p e = .ok u ↔ p := by
  unfold ensure
  split
  · exact iff_of_true rfl ‹p›
  · exact iff_of_false nofun ‹¬ p›

theorem bind_eq_ok {x : Except ε α} {f : α → Except ε β} {b : β} :
    (x >>= f) = .ok b ↔ ∃ a, x = .ok a ∧ f a = .ok b := by
  cases x with
  | error e => exact iff_of_false nofun nofun
  | ok a => exact ⟨fun h => ⟨a, rfl, h⟩, fun ⟨_, ha, h⟩ => Except.ok.inj ha ▸ h⟩

theorem ok_bind (a : α) (f : α → Except ε β) : (Except.ok a >>= f) = f a := rfl

/-- **A computation never ends with the error `e`.** -/
def Avoids (e : ε) (x : Except ε α) : Prop := x ≠ .error e

theorem avoids_pure (a : α) : Avoids e (pure a : Except ε α) := nofun

theorem avoids_ensure {e' : ε} {p : Prop} [Decidable p] (h : e' ≠ e) : Avoids e (ensure p e') := by
  unfold Avoids ensure
  split
  · exact nofun
  · exact fun heq => h (Except.error.inj heq)

theorem avoids_bind {x : Except ε α} {f : α → Except ε β} (hx : Avoids e x)
    (hf : ∀ a, x = .ok a → Avoids e (f a)) : Avoids e (x >>= f) := by
  cases x with
  | error e' => exact fun heq => hx (congrArg _ (Except.error.inj heq))
  | ok a => exact hf a rfl

/-- A check fails with an error of its own. -/
theorem avoids_check {e' : ε} {p : Prop} [Decidable p] {f : Unit → Except ε β} (he : e' ≠ e)
    (h : p → Avoids e (f ())) : Avoids e (ensure p e' >>= f) :=
  avoids_bind (avoids_ensure he) fun _ hp => h (ensure_eq_ok.mp hp)

/-! ## Programs -/

instance : Monad (Prog σ ε) where
  pure a := fun s => (.ok a, s)
  bind m f := fun s => match m s with
    | (.ok a, t) => f a t
    | (.error e, t) => (.error e, t)

theorem bind_of_ok {m : Prog σ ε α} {f : α → Prog σ ε β} {s t : σ} {a : α}
    (h : m s = (.ok a, t)) : (m >>= f) s = f a t := by
  show (match m s with
    | (.ok a, t) => f a t
    | (.error e, t) => (.error e, t) : Except ε β × σ) = _
  rw [h]

theorem bind_of_error {m : Prog σ ε α} {f : α → Prog σ ε β} {s t : σ} (h : m s = (.error e, t)) :
    (m >>= f) s = (.error e, t) := by
  show (match m s with
    | (.ok a, t) => f a t
    | (.error e, t) => (.error e, t) : Except ε β × σ) = _
  rw [h]

/-- Fails. -/
def fail (e : ε) : Prog σ ε α := fun s => (.error e, s)

/-- What depends on the state. -/
def gets (f : σ → α) : Prog σ ε α := fun s => (.ok (f s), s)

theorem gets_bind (f : σ → α) (g : α → Prog σ ε β) (s : σ) : (gets f >>= g) s = g (f s) s := rfl

/-- Changes the state. -/
def modify (f : σ → σ) : Prog σ ε Unit := fun s => (.ok (), f s)

/-- A computation that has no state. -/
def lift (x : Except ε α) : Prog σ ε α := fun s => (x, s)

/-- A call whose error is a result. -/
def attempt (m : Prog σ ε α) : Prog σ ε (Except ε α) := fun s => (.ok (m s).1, (m s).2)

/-- **The run of `m` from `s` meets the postcondition**: `Q` where it
returns a value, and `E` where it fails. -/
def wp (m : Prog σ ε α) (Q : α → σ → Prop) (E : ε → σ → Prop) (s : σ) : Prop :=
  match m s with
  | (.ok a, t) => Q a t
  | (.error e, t) => E e t

/-! ## Rules -/

section Rules

variable {Q : α → σ → Prop} {E : ε → σ → Prop} {s : σ} {m : Prog σ ε α}

theorem wp_pure {a : α} : (pure a : Prog σ ε α).wp Q E s ↔ Q a s := Iff.rfl

theorem wp_fail {e : ε} : (fail e : Prog σ ε α).wp Q E s ↔ E e s := Iff.rfl

theorem wp_gets {f : σ → α} : (gets f : Prog σ ε α).wp Q E s ↔ Q (f s) s := Iff.rfl

theorem wp_modify {f : σ → σ} {Q : Unit → σ → Prop} :
    (modify f : Prog σ ε Unit).wp Q E s ↔ Q () (f s) := Iff.rfl

/-- **A sequence**: the second part starts where the first one ends. -/
theorem wp_bind {f : α → Prog σ ε β} {Q : β → σ → Prop} :
    (m >>= f).wp Q E s ↔ m.wp (fun a => (f a).wp Q E) E s := by
  show (match (match m s with
    | (.ok a, t) => f a t
    | (.error e, t) => (.error e, t) : Except ε β × σ) with
    | (.ok a, t) => Q a t
    | (.error e, t) => E e t) ↔ _
  unfold wp
  cases m s with
  | mk r t => cases r <;> exact Iff.rfl

theorem wp_lift {x : Except ε α} :
    (lift x : Prog σ ε α).wp Q E s ↔ (∀ a, x = .ok a → Q a s) ∧ (∀ e, x = .error e → E e s) := by
  cases x with
  | error e => exact ⟨fun h => ⟨nofun, fun _ he => Except.error.inj he ▸ h⟩, fun h => h.2 e rfl⟩
  | ok a => exact ⟨fun h => ⟨fun _ ha => Except.ok.inj ha ▸ h, nofun⟩, fun h => h.1 a rfl⟩

theorem wp_ok {a : α} : (lift (.ok a) : Prog σ ε α).wp Q E s ↔ Q a s := Iff.rfl

/-- **A check.** -/
theorem wp_ensure {p : Prop} [Decidable p] {e : ε} {Q : Unit → σ → Prop} :
    (lift (ensure p e) : Prog σ ε Unit).wp Q E s ↔ (p → Q () s) ∧ (¬ p → E e s) := by
  unfold ensure
  split
  · exact ⟨fun h => ⟨fun _ => h, fun hn => absurd ‹p› hn⟩, fun h => h.1 ‹p›⟩
  · exact ⟨fun h => ⟨fun hp => absurd hp ‹¬ p›, fun _ => h⟩, fun h => h.2 ‹¬ p›⟩

/-- **A call whose error is a result** does not fail. -/
theorem wp_attempt {Q : Except ε α → σ → Prop} :
    (attempt m).wp Q E s ↔ m.wp (fun a => Q (.ok a)) (fun e => Q (.error e)) s := by
  show Q (m s).1 (m s).2 ↔ _
  unfold wp
  cases m s with
  | mk r t => cases r <;> exact Iff.rfl

/-- Only the run from `s` matters. -/
theorem wp_congr {m' : Prog σ ε α} (h : m s = m' s) : m.wp Q E s ↔ m'.wp Q E s := by
  unfold wp
  rw [h]

/-- **Consequence.** -/
theorem wp_imp {Q' : α → σ → Prop} {E' : ε → σ → Prop} (h : m.wp Q E s) (hQ : ∀ a t, Q a t → Q' a t)
    (hE : ∀ e t, E e t → E' e t) : m.wp Q' E' s := by
  unfold wp at h ⊢
  cases hm : m s with
  | mk r t =>
    rw [hm] at h
    cases r with
    | error e => exact hE e t h
    | ok a => exact hQ a t h

/-- What a run returns meets the postcondition. -/
theorem of_wp (h : m.wp Q E s) {r : Except ε α} {t : σ} (hm : m s = (r, t)) :
    (∀ a, r = .ok a → Q a t) ∧ (∀ e, r = .error e → E e t) := by
  unfold wp at h
  rw [hm] at h
  cases r with
  | error e => exact ⟨nofun, fun _ he => Except.error.inj he ▸ h⟩
  | ok a => exact ⟨fun _ ha => Except.ok.inj ha ▸ h, nofun⟩

/-- **A run that cannot fail returns.** -/
theorem exists_of_wp (h : m.wp Q (fun _ _ => False) s) : ∃ a t, m s = (.ok a, t) ∧ Q a t := by
  unfold wp at h
  cases hm : m s with
  | mk r t =>
    rw [hm] at h
    cases r with
    | error e => exact h.elim
    | ok a => exact ⟨a, t, rfl, h⟩

end Rules

/-! ## What no run undoes -/

/-- **`I` is not undone by `m`**, whether it returns or fails. -/
def Keeps (I : σ → Prop) (m : Prog σ ε α) : Prop := ∀ s, I s → I (m s).2

/-- **A run from `I` ends in `K`**, whether it returns or fails. -/
def Takes (I K : σ → Prop) (m : Prog σ ε α) : Prop := ∀ s, I s → K (m s).2

section Keeps

variable {I K : σ → Prop} {m : Prog σ ε α} {f : α → Prog σ ε β}

theorem takes_bind {J : σ → Prop} (hm : Takes I J m) (hJK : ∀ s, J s → K s)
    (hf : ∀ a, Takes J K (f a)) : Takes I K (m >>= f) := by
  intro s hs
  have ht := hm s hs
  rcases hrun : m s with ⟨e | a, t⟩
  · rw [bind_of_error hrun]
    rw [hrun] at ht
    exact hJK t ht
  · rw [bind_of_ok hrun]
    rw [hrun] at ht
    exact hf a t ht

/-- What a check finds out may be used after it. -/
theorem takes_lift {x : Except ε α} (hIK : ∀ s, I s → K s) (hf : ∀ a, x = .ok a → Takes I K (f a)) :
    Takes I K (lift x >>= f) := by
  intro s hs
  cases x with
  | error e => exact hIK s hs
  | ok a => exact hf a rfl s hs

theorem keeps_pure (a : α) : Keeps I (pure a : Prog σ ε α) := fun _ h => h

theorem keeps_fail (e : ε) : Keeps I (fail e : Prog σ ε α) := fun _ h => h

theorem keeps_gets (f : σ → α) : Keeps I (gets f : Prog σ ε α) := fun _ h => h

theorem keeps_lift (x : Except ε α) : Keeps I (lift x : Prog σ ε α) := fun _ h => h

theorem keeps_modify {f : σ → σ} (h : ∀ s, I s → I (f s)) :
    Keeps I (modify f : Prog σ ε Unit) := h

theorem keeps_attempt (h : Keeps I m) : Keeps I (attempt m) := h

theorem keeps_bind (hm : Keeps I m) (hf : ∀ a, Keeps I (f a)) : Keeps I (m >>= f) :=
  takes_bind hm (fun _ h => h) hf

/-- What holds after every end of a run is what holds in the state it
leaves. -/
theorem wp_state {s : σ} : m.wp (fun _ => I) (fun _ => I) s ↔ I (m s).2 := by
  unfold Prog.wp
  rcases m s with ⟨_ | _, t⟩
  · exact Iff.rfl
  · exact Iff.rfl

theorem Keeps.wp (h : Keeps I m) {s : σ} (hs : I s) :
    m.wp (fun _ => I) (fun _ => I) s := wp_state.mpr (h s hs)

end Keeps

/-! ## Two programs -/

/-- **Two programs agree**: from related states they return the same, and
leave related states. -/
def Agrees {τ : Type} (R : σ → τ → Prop) (m : Prog σ ε α) (n : Prog τ ε α) : Prop :=
  ∀ s t, R s t → (m s).1 = (n t).1 ∧ R (m s).2 (n t).2

section Agrees

variable {τ : Type} {R : σ → τ → Prop}

theorem agrees_pure (a : α) : Agrees R (pure a : Prog σ ε α) (pure a) := fun _ _ h => ⟨rfl, h⟩

theorem agrees_fail (e : ε) : Agrees R (fail e : Prog σ ε α) (fail e) := fun _ _ h => ⟨rfl, h⟩

theorem agrees_lift (x : Except ε α) : Agrees R (lift x : Prog σ ε α) (lift x) :=
  fun _ _ h => ⟨rfl, h⟩

theorem agrees_modify {f : σ → σ} {g : τ → τ} (h : ∀ s t, R s t → R (f s) (g t)) :
    Agrees R (modify f : Prog σ ε Unit) (modify g) := fun s t hst => ⟨rfl, h s t hst⟩

/-- **A sequence.** The second parts need only agree on what the first part
can return. -/
theorem agrees_bind {m : Prog σ ε α} {n : Prog τ ε α} {f : α → Prog σ ε β} {g : α → Prog τ ε β}
    (hm : Agrees R m n) (hf : ∀ a s, (m s).1 = .ok a → Agrees R (f a) (g a)) :
    Agrees R (m >>= f) (n >>= g) := by
  intro s t hst
  obtain ⟨hfst, hsnd⟩ := hm s t hst
  cases hs : m s with
  | mk r s' =>
    cases ht : n t with
    | mk r' t' =>
      rw [hs, ht] at hfst hsnd
      obtain rfl : r = r' := hfst
      cases r with
      | error e =>
        rw [bind_of_error hs, bind_of_error ht]
        exact ⟨rfl, hsnd⟩
      | ok a =>
        rw [bind_of_ok hs, bind_of_ok ht]
        exact hf a s (by rw [hs]) s' t' hsnd

end Agrees

-- from here on the rules are the only way in: to unfold it runs the program
attribute [irreducible] wp

end Prog
