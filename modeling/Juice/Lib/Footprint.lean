import Mathlib.Data.Set.Basic

/-!
# What a straight run reads and writes

An instruction reads some locations of the state and writes some, and both
sets may depend on the state it runs in – the address of a load is a value.
A `Footprint` of an execution function gives the two sets and says what
they mean: outside what it writes an instruction changes nothing, and what
it does is decided by the locations it reads.

Of a run of several instructions two sets matter. What the run *writes* is
what some instruction of it writes. What the run *needs* is read by one of
its instructions before any earlier one has written it. A second run of the
same instructions, from a state that agrees with the first on what the
first needs, then does the same: it completes, it writes the same locations
and leaves the same values there (`Footprint.run_congr`). Whatever the two
starts disagree on outside those locations is still there at the end.
-/

variable {I Loc V : Type}

/-- Execute a list of instructions, `none` where one of them does not
complete. -/
def runAll (exec : I → (Loc → V) → Option (Loc → V)) (code : List I) (s : Loc → V) :
    Option (Loc → V) :=
  code.foldlM (fun s i => exec i s) s

theorem runAll_cons (exec : I → (Loc → V) → Option (Loc → V)) (i : I) (code : List I)
    (s : Loc → V) : runAll exec (i :: code) s = (exec i s).bind (runAll exec code) := rfl

/-- **A footprint** of an execution function. -/
structure Footprint (exec : I → (Loc → V) → Option (Loc → V)) where
  /-- The locations an instruction reads. -/
  reads : I → (Loc → V) → Set Loc
  /-- The locations an instruction writes. -/
  writes : I → (Loc → V) → Set Loc
  /-- Nothing else changes. -/
  frame : ∀ {i s t l}, exec i s = some t → l ∉ writes i s → t l = s l
  /-- Nothing else matters. -/
  congr : ∀ {i s s' t}, exec i s = some t → (∀ l ∈ reads i s, s' l = s l) →
    writes i s' = writes i s ∧ ∃ t', exec i s' = some t' ∧ ∀ l ∈ writes i s, t' l = t l

namespace Footprint

variable {exec : I → (Loc → V) → Option (Loc → V)} (F : Footprint exec)

/-- **What a run writes.** -/
def written : List I → (Loc → V) → Set Loc
  | [], _ => ∅
  | i :: code, s => F.writes i s ∪ {l | ∃ t, exec i s = some t ∧ l ∈ written code t}

/-- **What a run needs**: what one of its instructions reads before an
earlier one has written it. -/
def needed : List I → (Loc → V) → Set Loc
  | [], _ => ∅
  | i :: code, s =>
    F.reads i s ∪ {l | l ∉ F.writes i s ∧ ∃ t, exec i s = some t ∧ l ∈ needed code t}

variable {F} {code : List I} {s t : Loc → V}

theorem mem_written_cons {i : I} (h : exec i s = some t) {l : Loc} :
    l ∈ F.written (i :: code) s ↔ l ∈ F.writes i s ∨ l ∈ F.written code t := by
  show l ∈ F.writes i s ∨ (∃ t, exec i s = some t ∧ l ∈ F.written code t) ↔ _
  rw [h]
  simp

theorem mem_needed_cons {i : I} (h : exec i s = some t) {l : Loc} :
    l ∈ F.needed (i :: code) s
      ↔ l ∈ F.reads i s ∨ l ∉ F.writes i s ∧ l ∈ F.needed code t := by
  show l ∈ F.reads i s ∨ (l ∉ F.writes i s ∧ ∃ t, exec i s = some t ∧ l ∈ F.needed code t) ↔ _
  rw [h]
  simp

/-- Outside what it writes a run changes nothing. -/
theorem run_frame (h : runAll exec code s = some t) {l : Loc} (hl : l ∉ F.written code s) :
    t l = s l := by
  induction code generalizing s with
  | nil =>
    cases h
    rfl
  | cons i code ih =>
    rw [runAll_cons, Option.bind_eq_some_iff] at h
    obtain ⟨u, hu, ht⟩ := h
    rw [mem_written_cons hu, not_or] at hl
    exact (ih ht hl.2).trans (F.frame hu hl.1)

/-- **A run is decided by what it needs.** -/
theorem run_congr {s' : Loc → V} (h : runAll exec code s = some t)
    (hneed : ∀ l ∈ F.needed code s, s' l = s l) :
    F.written code s' = F.written code s
      ∧ ∃ t', runAll exec code s' = some t' ∧ ∀ l ∈ F.written code s, t' l = t l := by
  induction code generalizing s s' with
  | nil => exact ⟨rfl, s', rfl, fun l hl => hl.elim⟩
  | cons i code ih =>
    rw [runAll_cons, Option.bind_eq_some_iff] at h
    obtain ⟨u, hu, ht⟩ := h
    obtain ⟨hwrites, u', hu', hagree⟩ :=
      F.congr hu (fun l hl => hneed l ((mem_needed_cons hu).mpr (.inl hl)))
    -- What the rest needs is written by `i`, or was needed before it.
    have hrest : ∀ l ∈ F.needed code u, u' l = u l := by
      intro l hl
      by_cases hw : l ∈ F.writes i s
      · exact hagree l hw
      · rw [F.frame hu hw, F.frame hu' (hwrites ▸ hw)]
        exact hneed l ((mem_needed_cons hu).mpr (.inr ⟨hw, hl⟩))
    obtain ⟨hwritten, t', ht', hend⟩ := ih ht hrest
    refine ⟨?_, t', ?_, ?_⟩
    · ext l
      rw [mem_written_cons hu, mem_written_cons hu', hwrites, hwritten]
    · rw [runAll_cons, hu']
      exact ht'
    · intro l hl
      by_cases hlast : l ∈ F.written code u
      · exact hend l hlast
      · -- Written by `i` and by nothing after it.
        have hw : l ∈ F.writes i s := ((mem_written_cons hu).mp hl).resolve_right hlast
        rw [run_frame ht hlast, run_frame ht' (hwritten ▸ hlast)]
        exact hagree l hw

/-- **When a second run ends as the first.** From a state that agrees with
the first run's on what that run needs, the second run ends with the same
value in a location exactly if the run writes it or the two starts agree
on it. -/
theorem exists_run_agree_iff {s' : Loc → V} (h : runAll exec code s = some t)
    (hneed : ∀ l ∈ F.needed code s, s' l = s l) (ignored : Set Loc) :
    (∃ t', runAll exec code s' = some t' ∧ ∀ l, l ∉ ignored → t' l = t l)
      ↔ ∀ l, l ∉ ignored → l ∉ F.written code s → s' l = s l := by
  obtain ⟨hwritten, t', ht', hagree⟩ := run_congr h hneed
  constructor
  · rintro ⟨u, hu, hsame⟩ l hl hw
    rw [← run_frame h hw, ← hsame l hl]
    exact (run_frame hu (hwritten ▸ hw)).symm
  · intro hsame
    refine ⟨t', ht', fun l hl => ?_⟩
    by_cases hw : l ∈ F.written code s
    · exact hagree l hw
    · rw [run_frame h hw, run_frame ht' (hwritten ▸ hw)]
      exact hsame l hl hw

end Footprint
