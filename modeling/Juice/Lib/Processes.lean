import Mathlib.Data.List.Nodup

/-!
# Children of a process

A program refers to its children by number, and the system gives a number
out again once the child that had it was reaped. So a number says which
child it stands for only as long as that child has not been waited for.

The table lists the children in the order of their spawning, and a child is
its index there. A `Handle` is a number together with the child it was got
for; the second component is for the proofs, and the system resolves a
number by `lookup` alone. `Owned` is the discipline that makes numbers safe:
a list of handles to distinct children none of which is reaped. Spawning
adds a handle to the list, reaping takes one out of it, and passing handles
around permutes it.
-/

namespace Processes

/-- A child. -/
structure Proc where
  pid : ℕ
  exited : Bool
  reaped : Bool
  deriving DecidableEq, Repr

/-- A number, and the child for which it was got. -/
structure Handle where
  pid : ℕ
  proc : ℕ
  deriving DecidableEq, Repr

/-- The child that has a number. -/
def lookup (t : List Proc) (pid : ℕ) : Option ℕ :=
  t.findIdx? (fun p => !p.reaped && p.pid == pid)

/-- A new child. Its number is any that no child has. -/
def spawn (t : List Proc) (pid : ℕ) : Option (List Proc × Handle) :=
  if 0 < pid ∧ lookup t pid = none then some (t ++ [⟨pid, false, false⟩], ⟨pid, t.length⟩)
  else none

/-- A child exits. -/
def exit (t : List Proc) (proc : ℕ) : List Proc :=
  t.modify proc (fun p => { p with exited := true })

/-- What waiting for a number results in. -/
inductive WaitResult where
  | running
  | reaped (proc : ℕ)
  | noChild
  deriving DecidableEq, Repr

/-- Wait for a number without blocking. -/
def wait (t : List Proc) (pid : ℕ) : List Proc × WaitResult :=
  match lookup t pid with
  | none => (t, .noChild)
  | some proc =>
    if (t[proc]?).any (·.exited) then
      (t.modify proc (fun p => { p with reaped := true }), .reaped proc)
    else (t, .running)

/-- The child of a handle has the number of the handle. -/
def Held (t : List Proc) (h : Handle) : Prop :=
  ∃ p, t[h.proc]? = some p ∧ p.pid = h.pid ∧ p.reaped = false

/-- **Handles that are safe to use**: no two children have one number, and the
handles are to distinct children that are not reaped. -/
structure Owned (t : List Proc) (hs : List Handle) : Prop where
  unique : ∀ (i j : ℕ) (p q : Proc), t[i]? = some p → t[j]? = some q → p.reaped = false →
    q.reaped = false → p.pid = q.pid → i = j
  held : ∀ h ∈ hs, Held t h
  nodup : (hs.map Handle.proc).Nodup

variable {t : List Proc} {hs : List Handle} {h : Handle}

theorem lookup_eq_some {pid proc : ℕ} (heq : lookup t pid = some proc) :
    ∃ p, t[proc]? = some p ∧ p.pid = pid ∧ p.reaped = false := by
  obtain ⟨hlt, hp, -⟩ := List.findIdx?_eq_some_iff_getElem.mp heq
  rw [Bool.and_eq_true, Bool.not_eq_true', beq_iff_eq] at hp
  exact ⟨t[proc], List.getElem?_eq_getElem hlt, hp.2, hp.1⟩

theorem lookup_eq_none {pid : ℕ} (heq : lookup t pid = none) {p : Proc} (hp : p ∈ t)
    (hr : p.reaped = false) : p.pid ≠ pid := by
  have hn := List.findIdx?_eq_none_iff.mp heq p hp
  simpa [hr] using hn

namespace Owned

/-- No handle at all is safe in an empty table. -/
theorem empty : Owned [] [] := ⟨by simp, by simp, by simp⟩

/-- **The number of an owned handle resolves to its child.** -/
theorem lookup_eq (ho : Owned t hs) (hh : h ∈ hs) : lookup t h.pid = some h.proc := by
  obtain ⟨p, hp, hpid, hr⟩ := ho.held h hh
  cases heq : lookup t h.pid with
  | none => exact absurd hpid (lookup_eq_none heq (List.mem_of_getElem? hp) hr)
  | some proc =>
    obtain ⟨q, hq, hqpid, hqr⟩ := lookup_eq_some heq
    rw [ho.unique proc h.proc q p hq hp hqr hr (hqpid.trans hpid.symm)]

theorem perm {hs' : List Handle} (ho : Owned t hs) (hp : hs'.Perm hs) : Owned t hs' where
  unique := ho.unique
  held h hh := ho.held h (hp.subset hh)
  nodup := (hp.map _).nodup_iff.mpr ho.nodup

/-- Handles may be given up. -/
theorem sublist {hs' : List Handle} (ho : Owned t hs) (hsub : hs'.Sublist hs) : Owned t hs' where
  unique := ho.unique
  held h hh := ho.held h (hsub.subset hh)
  nodup := ho.nodup.sublist (hsub.map _)

/-- **A new child is owned along with the others.** -/
theorem spawn {pid : ℕ} {t' : List Proc} (ho : Owned t hs)
    (hsp : Processes.spawn t pid = some (t', h)) : Owned t' (h :: hs) := by
  unfold Processes.spawn at hsp
  split at hsp
  case isFalse => cases hsp
  case isTrue hc =>
  obtain ⟨rfl, rfl⟩ : t ++ [⟨pid, false, false⟩] = t' ∧ (⟨pid, t.length⟩ : Handle) = h := by
    simpa using hsp
  have hget (i : ℕ) (p : Proc) (hp : (t ++ [(⟨pid, false, false⟩ : Proc)])[i]? = some p) :
      t[i]? = some p ∨ (i = t.length ∧ p = ⟨pid, false, false⟩) := by
    rcases Nat.lt_or_ge i t.length with hlt | hge
    · exact .inl (by rwa [List.getElem?_append_left hlt] at hp)
    · rw [List.getElem?_append_right hge] at hp
      obtain ⟨hi, -⟩ := List.getElem?_eq_some_iff.mp hp
      have hi' : i = t.length := by
        rw [List.length_singleton] at hi
        omega
      subst hi'
      exact .inr ⟨rfl, by simpa using hp.symm⟩
  constructor
  · intro i j p q hi hj hpr hqr hpq
    rcases hget i p hi with hi' | ⟨hi', rfl⟩ <;> rcases hget j q hj with hj' | ⟨hj', rfl⟩
    · exact ho.unique i j p q hi' hj' hpr hqr hpq
    · exact absurd hpq (lookup_eq_none hc.2 (List.mem_of_getElem? hi') hpr)
    · exact absurd hpq.symm (lookup_eq_none hc.2 (List.mem_of_getElem? hj') hqr)
    · rw [hi', hj']
  · intro h hh
    rcases List.mem_cons.mp hh with rfl | hh
    · exact ⟨⟨pid, false, false⟩, by simp, rfl, rfl⟩
    · obtain ⟨p, hp, hrest⟩ := ho.held h hh
      exact ⟨p, by rwa [List.getElem?_append_left (List.getElem?_eq_some_iff.mp hp).1], hrest⟩
  · refine List.nodup_cons.mpr ⟨?_, ho.nodup⟩
    intro hmem
    obtain ⟨h, hh, heq⟩ := List.mem_map.mp hmem
    obtain ⟨p, hp, -⟩ := ho.held h hh
    have hlt := (List.getElem?_eq_some_iff.mp hp).1
    rw [heq] at hlt
    exact absurd hlt (Nat.lt_irrefl _)

/-- What changes neither a number nor who is reaped leaves the handles safe. -/
theorem exit (ho : Owned t hs) (proc : ℕ) : Owned (Processes.exit t proc) hs := by
  have hget (i : ℕ) (p : Proc) (hp : (Processes.exit t proc)[i]? = some p) :
      ∃ q, t[i]? = some q ∧ p.pid = q.pid ∧ p.reaped = q.reaped := by
    rw [Processes.exit, List.getElem?_modify] at hp
    obtain ⟨q, hq, heq⟩ := Option.map_eq_some_iff.mp hp
    subst heq
    exact ⟨q, hq, by split <;> exact ⟨rfl, rfl⟩⟩
  constructor
  · intro i j p q hi hj hpr hqr hpq
    obtain ⟨p', hi', hpid, hpr'⟩ := hget i p hi
    obtain ⟨q', hj', hqid, hqr'⟩ := hget j q hj
    exact ho.unique i j p' q' hi' hj' (hpr' ▸ hpr) (hqr' ▸ hqr) (by rw [← hpid, ← hqid, hpq])
  · intro h hh
    obtain ⟨p, hp, hpid, hpr⟩ := ho.held h hh
    refine ⟨if proc = h.proc then { p with exited := true } else p, ?_, ?_, ?_⟩
    · rw [Processes.exit, List.getElem?_modify, hp]
      rfl
    all_goals split <;> assumption
  · exact ho.nodup

/-- **Reaping the child of a handle leaves the other handles safe.** -/
theorem reap (ho : Owned t (h :: hs)) :
    Owned (t.modify h.proc (fun p => { p with reaped := true })) hs := by
  have hget (i : ℕ) (p : Proc)
      (hp : (t.modify h.proc (fun p => { p with reaped := true }))[i]? = some p)
      (hpr : p.reaped = false) : t[i]? = some p := by
    rw [List.getElem?_modify] at hp
    obtain ⟨q, hq, heq⟩ := Option.map_eq_some_iff.mp hp
    subst heq
    split at hpr
    · cases hpr
    · rw [hq, if_neg ‹_›]
  constructor
  · intro i j p q hi hj hpr hqr hpq
    exact ho.unique i j p q (hget i p hi hpr) (hget j q hj hqr) hpr hqr hpq
  · intro k hk
    obtain ⟨p, hp, hrest⟩ := ho.held k (List.mem_cons_of_mem _ hk)
    have hne : h.proc ≠ k.proc := by
      intro heq
      have hn := (List.nodup_cons.mp ho.nodup).1
      exact hn (heq ▸ List.mem_map_of_mem hk)
    refine ⟨p, ?_, hrest⟩
    rw [List.getElem?_modify_ne _ _ hne, hp]
  · exact (List.nodup_cons.mp ho.nodup).2

/-- **Waiting for the number of an owned handle** either finds its child
running or reaps it. -/
theorem wait_cases (ho : Owned t (h :: hs)) :
    (wait t h.pid = (t, .running)) ∨
    (wait t h.pid = (t.modify h.proc (fun p => { p with reaped := true }), .reaped h.proc)
      ∧ Owned (t.modify h.proc (fun p => { p with reaped := true })) hs) := by
  have hlook : lookup t h.pid = some h.proc := ho.lookup_eq List.mem_cons_self
  unfold wait
  rw [hlook]
  dsimp only
  split
  · exact .inr ⟨rfl, ho.reap⟩
  · exact .inl rfl

end Owned

/-- A child was waited for. -/
def Reaped (t : List Proc) (proc : ℕ) : Prop := ∃ p, t[proc]? = some p ∧ p.reaped = true

namespace Reaped

variable {proc : ℕ}

theorem spawn {pid : ℕ} {t' : List Proc} (hr : Reaped t proc)
    (hsp : Processes.spawn t pid = some (t', h)) : Reaped t' proc := by
  obtain ⟨p, hp, hpr⟩ := hr
  unfold Processes.spawn at hsp
  split at hsp
  case isFalse => cases hsp
  case isTrue =>
    have ht : t ++ [⟨pid, false, false⟩] = t' := by simpa using congrArg (Option.map Prod.fst) hsp
    subst ht
    exact ⟨p, by rwa [List.getElem?_append_left (List.getElem?_eq_some_iff.mp hp).1], hpr⟩

theorem modify {f : Proc → Proc} (hr : Reaped t proc)
    (hf : ∀ p : Proc, p.reaped = true → (f p).reaped = true) (i : ℕ) :
    Reaped (t.modify i f) proc := by
  obtain ⟨p, hp, hpr⟩ := hr
  refine ⟨if i = proc then f p else p, ?_, ?_⟩
  · rw [List.getElem?_modify, hp]
    rfl
  · split
    · exact hf p hpr
    · exact hpr

theorem reap {p : Proc} (hp : t[proc]? = some p) :
    Reaped (t.modify proc (fun p => { p with reaped := true })) proc :=
  ⟨{ p with reaped := true }, by rw [List.getElem?_modify_eq, hp]; rfl, rfl⟩

end Reaped

theorem Held.not_reaped (hh : Held t h) : ¬ Reaped t h.proc := by
  rintro ⟨p, hp, hpr⟩
  obtain ⟨q, hq, -, hqr⟩ := hh
  rw [hp, Option.some_inj] at hq
  rw [← hq, hpr] at hqr
  cases hqr

end Processes
