import Juice.Jit.RetiredRange

/-!
# What a reader sees is one record

The sequence number counts: it is twice the number of calls that have
published, and one more while a call is at work. A reader that finds the
same even number twice has read the words while none was at work, and they
are those of the last call that had published.

The invariant says of each call what it knows. A call at work knows the
sequence number and what it has stored; a reader knows what it has read, for
as long as the sequence number is the one it began with.
-/

namespace Juice.Jit

/-! ## The invariant -/

/-- A call is between the exchange and its last store. -/
def RangeCall.writing : RangeCall → Bool
  | .publish _ _ (.storeBegin _) => true
  | .publish _ _ (.storeEnd _) => true
  | .publish _ _ (.storeSequence _) => true
  | _ => false

/-- What a call at work knows. -/
structure Writing (range : RetiredCodeRange) (published : List ℕ) (first bytes sequence : UInt64) :
    Prop where
  valid : ValidRange first bytes
  opened : OpenSequence sequence
  count : sequence.toNat = 2 * published.length
  odd : range.sequence.toNat = 2 * published.length + 1

/-- What a reader knows of the sequence number. -/
structure Seen (range : RetiredCodeRange) (before : UInt64) : Prop where
  even : before.toNat % 2 = 0
  ne : before ≠ 0
  le : before.toNat ≤ range.sequence.toNat

/-- **What each call knows.** -/
def Knows (range : RetiredCodeRange) (published : List ℕ) (i : ℕ) : RangeCall → Prop
  | .publish first bytes (.exchange sequence) => ValidRange first bytes ∧ OpenSequence sequence
  | .publish first bytes (.storeBegin sequence) => Writing range published first bytes sequence
  | .publish first bytes (.storeEnd sequence) =>
    Writing range published first bytes sequence ∧ range.first = first
  | .publish first bytes (.storeSequence sequence) =>
    Writing range published first bytes sequence ∧ range.first = first
      ∧ range.stop = first + bytes
  | .publish first bytes (.returned true) => ValidRange first bytes ∧ i ∈ published
  | .contains _ (.loadBegin before) => Seen range before
  | .contains _ (.loadEnd before first) =>
    Seen range before ∧ (before = range.sequence → first = range.first)
  | .contains _ (.reload before first stop) =>
    Seen range before ∧ (before = range.sequence → first = range.first ∧ stop = range.stop)
  | _ => True

/-- The words are those of a call. -/
def Shows (range : RetiredCodeRange) (calls : List RangeCall) (j : ℕ) : Prop :=
  ∃ first bytes, calls[j]? = some (.publish first bytes (.returned true))
    ∧ range.first = first ∧ range.stop = first + bytes

/-- **The invariant.** -/
structure RangeInv (s : RangeSystem) : Prop where
  knows : ∀ i call, s.calls[i]? = some call → Knows s.range s.published i call
  alone : ∀ (i j : ℕ) (call call' : RangeCall), s.calls[i]? = some call → s.calls[j]? = some call' →
    call.writing = true → call'.writing = true → i = j
  phase : (s.range.sequence.toNat = 2 * s.published.length
      ∧ ∀ j, s.published.getLast? = some j → Shows s.range s.calls j)
    ∨ ∃ (i : ℕ) (call : RangeCall), s.calls[i]? = some call ∧ call.writing = true
  done : ∀ j ∈ s.published, ∃ first bytes,
    s.calls[j]? = some (.publish first bytes (.returned true))

section Knows

variable {range range' : RetiredCodeRange} {published published' : List ℕ} {i : ℕ}
  {call : RangeCall}

theorem Knows.odd (h : Knows range published i call) (hw : call.writing = true) :
    range.sequence.toNat = 2 * published.length + 1 := by
  cases call with
  | publish first bytes stage =>
    cases stage with
    | load => exact Bool.noConfusion hw
    | exchange sequence => exact Bool.noConfusion hw
    | storeBegin sequence => exact Writing.odd h
    | storeEnd sequence => exact h.1.odd
    | storeSequence sequence => exact h.1.odd
    | returned result => exact Bool.noConfusion hw
  | contains address stage => exact Bool.noConfusion hw

/-- **What a call knows that is not at work**, when the words change: what a
reader began with is not the sequence number any more, or not yet again. -/
theorem Knows.frame (h : Knows range published i call) (hw : call.writing = false)
    (hseen : ∀ {before : UInt64}, Seen range before →
      Seen range' before ∧ before ≠ range'.sequence)
    (hsub : ∀ j ∈ published, j ∈ published') : Knows range' published' i call := by
  cases call with
  | publish first bytes stage =>
    cases stage with
    | load => trivial
    | exchange sequence => exact h
    | storeBegin sequence => exact Bool.noConfusion hw
    | storeEnd sequence => exact Bool.noConfusion hw
    | storeSequence sequence => exact Bool.noConfusion hw
    | returned result =>
      cases result with
      | false => trivial
      | true => exact ⟨h.1, hsub i h.2⟩
  | contains address stage =>
    cases stage with
    | load => trivial
    | loadBegin before => exact (hseen h).1
    | loadEnd before first => exact ⟨(hseen h.1).1, fun heq => absurd heq (hseen h.1).2⟩
    | reload before first stop => exact ⟨(hseen h.1).1, fun heq => absurd heq (hseen h.1).2⟩
    | returned result => trivial

theorem Seen.later {before : UInt64} (h : Seen range before)
    (hlt : range.sequence.toNat < range'.sequence.toNat) :
    Seen range' before ∧ before ≠ range'.sequence := by
  refine ⟨⟨h.even, h.ne, Nat.le_trans h.le (Nat.le_of_lt hlt)⟩, ?_⟩
  rintro rfl
  exact Nat.lt_irrefl _ (Nat.lt_of_le_of_lt h.le hlt)

theorem Seen.meanwhile {before : UInt64} (h : Seen range before)
    (hsame : range'.sequence = range.sequence) (hodd : range.sequence.toNat % 2 = 1) :
    Seen range' before ∧ before ≠ range'.sequence := by
  rw [hsame]
  refine ⟨⟨h.even, h.ne, hsame ▸ h.le⟩, ?_⟩
  rintro rfl
  rw [h.even] at hodd
  exact Nat.noConfusion hodd

end Knows

/-! ## Every step keeps it -/

section Steps

variable {s : RangeSystem} {i : ℕ} {call call' : RangeCall} {first bytes sequence : UInt64}

theorem and_one_eq_zero_iff : sequence &&& 1 = 0 ↔ sequence.toNat % 2 = 0 := by
  rw [← UInt64.toNat_inj, UInt64.toNat_and, ← Nat.and_one_is_mod]
  rfl

theorem OpenSequence.lt (h : OpenSequence sequence) : sequence.toNat < 2 ^ 64 - 2 :=
  UInt64.lt_iff_toNat_lt.mp h.2

theorem OpenSequence.toNat_add (h : OpenSequence sequence) {n : UInt64} (hn : n.toNat ≤ 2) :
    (sequence + n).toNat = sequence.toNat + n.toNat := by
  have hlt := h.lt
  rw [UInt64.toNat_add, Nat.mod_eq_of_lt (by omega)]

namespace RangeInv

/-- A call begins. -/
theorem begins (h : RangeInv s) (hcall : ∀ range published i, Knows range published i call)
    (hw : call.writing = false) : RangeInv { s with calls := s.calls ++ [call] } where
  knows j c hc := by
    rcases Slots.getElem?_concat_cases hc with ⟨-, rfl⟩ | hold
    · exact hcall _ _ _
    · exact h.knows j c hold
  alone j k c c' hc hc' hj hk := by
    rcases Slots.getElem?_concat_cases hc with ⟨-, rfl⟩ | hold
    · rw [hw] at hj
      exact Bool.noConfusion hj
    · rcases Slots.getElem?_concat_cases hc' with ⟨-, rfl⟩ | hold'
      · rw [hw] at hk
        exact Bool.noConfusion hk
      · exact h.alone j k c c' hold hold' hj hk
  phase := by
    refine h.phase.imp ?_ ?_
    · rintro ⟨heq, hshows⟩
      refine ⟨heq, fun j hj => ?_⟩
      obtain ⟨first, bytes, hc, hrange⟩ := hshows j hj
      exact ⟨first, bytes, Slots.getElem?_concat_of_some hc _, hrange⟩
    · rintro ⟨j, c, hc, hj⟩
      exact ⟨j, c, Slots.getElem?_concat_of_some hc _, hj⟩
  done j hj := by
    obtain ⟨first, bytes, hc⟩ := h.done j hj
    exact ⟨first, bytes, Slots.getElem?_concat_of_some hc _⟩

/-- A call that is not at work does not publish. -/
theorem not_mem_published (h : RangeInv s) (hi : s.calls[i]? = some call)
    (hopen : ∀ first bytes, call ≠ .publish first bytes (.returned true)) : i ∉ s.published := by
  intro hmem
  obtain ⟨first, bytes, hc⟩ := h.done i hmem
  exact hopen first bytes (Option.some.inj (hi.symm.trans hc))

/-- What has published stays as it is when another call moves on. -/
theorem done_set (h : RangeInv s) (hi : i ∉ s.published) (call' : RangeCall) :
    ∀ j ∈ s.published, ∃ first bytes,
      (s.calls.set i call')[j]? = some (.publish first bytes (.returned true)) := by
  intro j hj
  obtain ⟨first, bytes, hc⟩ := h.done j hj
  have hne : i ≠ j := fun heq => hi (heq ▸ hj)
  exact ⟨first, bytes, (List.getElem?_set_ne hne).trans hc⟩

/-- **A step that changes none of the words.** -/
theorem quiet (h : RangeInv s) (hi : s.calls[i]? = some call)
    (hopen : ∀ first bytes, call ≠ .publish first bytes (.returned true))
    (hw : call.writing = false) (hw' : call'.writing = false)
    (hknows : Knows s.range s.published i call') :
    RangeInv { s with calls := s.calls.set i call' } where
  knows j c hc := by
    rcases Slots.getElem?_set_cases hc with ⟨rfl, rfl⟩ | ⟨-, hold⟩
    · exact hknows
    · exact h.knows j c hold
  alone j k c c' hc hc' hj hk := by
    rcases Slots.getElem?_set_cases hc with ⟨-, rfl⟩ | ⟨-, hold⟩
    · rw [hw'] at hj
      exact Bool.noConfusion hj
    · rcases Slots.getElem?_set_cases hc' with ⟨-, rfl⟩ | ⟨-, hold'⟩
      · rw [hw'] at hk
        exact Bool.noConfusion hk
      · exact h.alone j k c c' hold hold' hj hk
  phase := by
    refine h.phase.imp ?_ ?_
    · rintro ⟨heq, hshows⟩
      refine ⟨heq, fun j hj => ?_⟩
      have hne : i ≠ j := fun heq =>
        h.not_mem_published hi hopen (heq ▸ List.mem_of_getLast? hj)
      obtain ⟨first, bytes, hc, hrange⟩ := hshows j hj
      exact ⟨first, bytes, (List.getElem?_set_ne hne).trans hc, hrange⟩
    · rintro ⟨j, c, hc, hj⟩
      have hne : i ≠ j := by
        rintro rfl
        rw [Option.some.inj (hi.symm.trans hc)] at hw
        rw [hw] at hj
        exact Bool.noConfusion hj
      exact ⟨j, c, (List.getElem?_set_ne hne).trans hc, hj⟩
  done := h.done_set (h.not_mem_published hi hopen) call'

/-- The others are not at work. -/
theorem others (h : RangeInv s) (hi : s.calls[i]? = some call) (hw : call.writing = true) {j : ℕ}
    {c : RangeCall} (hc : s.calls[j]? = some c) (hne : j ≠ i) : c.writing = false := by
  cases hcw : c.writing with
  | false => rfl
  | true => exact absurd (h.alone j i c call hc hi hcw hw) hne

/-- **A step of the call at work**, or of the one that begins it. -/
theorem writes (h : RangeInv s) (hi : s.calls[i]? = some call)
    (hopen : ∀ first bytes, call ≠ .publish first bytes (.returned true))
    {range : RetiredCodeRange} (hothers : ∀ j c, j ≠ i → s.calls[j]? = some c → c.writing = false)
    (hseen : ∀ {before : UInt64}, Seen s.range before →
      Seen range before ∧ before ≠ range.sequence)
    (hw' : call'.writing = true) (hknows : Knows range s.published i call') :
    RangeInv ⟨range, s.calls.set i call', s.published⟩ where
  knows j c hc := by
    rcases Slots.getElem?_set_cases hc with ⟨rfl, rfl⟩ | ⟨hne, hold⟩
    · exact hknows
    · exact (h.knows j c hold).frame (hothers j c hne hold) hseen (fun _ hmem => hmem)
  alone j k c c' hc hc' hj hk := by
    rcases Slots.getElem?_set_cases hc with ⟨rfl, -⟩ | ⟨hne, hold⟩
    · rcases Slots.getElem?_set_cases hc' with ⟨rfl, -⟩ | ⟨hne, hold⟩
      · rfl
      · rw [hothers k c' hne hold] at hk
        exact Bool.noConfusion hk
    · rw [hothers j c hne hold] at hj
      exact Bool.noConfusion hj
  phase := .inr ⟨i, call', Slots.getElem?_set_self hi call', hw'⟩
  done := h.done_set (h.not_mem_published hi hopen) call'

/-- The exchange succeeds: the call is at work, and none was. -/
theorem exchange (h : RangeInv s)
    (hi : s.calls[i]? = some (.publish first bytes (.exchange s.range.sequence))) :
    RangeInv ⟨{ s.range with sequence := s.range.sequence + 1 },
      s.calls.set i (.publish first bytes (.storeBegin s.range.sequence)), s.published⟩ := by
  obtain ⟨hvalid, hopened⟩ := h.knows i _ hi
  have heven := and_one_eq_zero_iff.mp hopened.1
  have hnext : (s.range.sequence + 1).toNat = s.range.sequence.toNat + 1 :=
    hopened.toNat_add (by decide)
  have hothers : ∀ (j : ℕ) (c : RangeCall), s.calls[j]? = some c → c.writing = false := by
    intro j c hc
    cases hcw : c.writing with
    | false => rfl
    | true =>
      have hodd := (h.knows j c hc).odd hcw
      omega
  have hcount : s.range.sequence.toNat = 2 * s.published.length := by
    rcases h.phase with ⟨hcount, -⟩ | ⟨j, c, hc, hcw⟩
    · exact hcount
    · rw [hothers j c hc] at hcw
      exact Bool.noConfusion hcw
  refine h.writes hi (fun _ _ => by simp) (fun j c _ => hothers j c)
    (fun hb => hb.later ?_) rfl ⟨hvalid, hopened, hcount, ?_⟩
  · show _ < (s.range.sequence + 1).toNat
    omega
  · show (s.range.sequence + 1).toNat = _
    omega

/-- The call at work stores its range. -/
theorem stores (h : RangeInv s) (hi : s.calls[i]? = some call) (hw : call.writing = true)
    {range : RetiredCodeRange} (hsame : range.sequence = s.range.sequence)
    (hw' : call'.writing = true) (hknows : Knows range s.published i call') :
    RangeInv ⟨range, s.calls.set i call', s.published⟩ := by
  have hodd := (h.knows i call hi).odd hw
  refine h.writes hi ?_ (fun j c hne hc => h.others hi hw hc hne)
    (fun hb => hb.meanwhile hsame (by omega)) hw' hknows
  rintro first bytes rfl
  exact Bool.noConfusion hw

/-- **The call at work has published.** -/
theorem publishes (h : RangeInv s)
    (hi : s.calls[i]? = some (.publish first bytes (.storeSequence sequence))) :
    RangeInv ⟨{ s.range with sequence := sequence + 2 },
      s.calls.set i (.publish first bytes (.returned true)), s.published ++ [i]⟩ := by
  obtain ⟨hwriting, hfirst, hstop⟩ := h.knows i _ hi
  have hothers : ∀ j c, j ≠ i → s.calls[j]? = some c → c.writing = false :=
    fun j c hne hc => h.others hi rfl hc hne
  have hcount := hwriting.count
  have hodd := hwriting.odd
  have hnext : (sequence + 2).toNat = sequence.toNat + 2 := hwriting.opened.toNat_add (by decide)
  have hnotmem : i ∉ s.published := h.not_mem_published hi (fun _ _ => by simp)
  have hself := Slots.getElem?_set_self hi (.publish first bytes (.returned true))
  refine ⟨fun j c hc => ?_, fun j k c c' hc hc' hj hk => ?_, .inl ⟨?_, fun j hj => ?_⟩,
    Slots.forall_mem_concat (h.done_set hnotmem _) ⟨first, bytes, hself⟩⟩
  · rcases Slots.getElem?_set_cases hc with ⟨rfl, rfl⟩ | ⟨hne, hold⟩
    · exact ⟨hwriting.valid, List.mem_append_right _ (List.mem_singleton_self j)⟩
    · refine (h.knows j c hold).frame (hothers j c hne hold) (fun hb => hb.later ?_)
        (fun k hk => List.mem_append_left _ hk)
      show _ < (sequence + 2).toNat
      omega
  · rcases Slots.getElem?_set_cases hc with ⟨-, rfl⟩ | ⟨hne, hold⟩
    · exact Bool.noConfusion hj
    · rw [hothers j c hne hold] at hj
      exact Bool.noConfusion hj
  · show (sequence + 2).toNat = 2 * (s.published ++ [i]).length
    rw [List.length_append, List.length_singleton]
    omega
  · rw [show j = i from (Option.some.inj ((List.getLast?_concat).symm.trans hj)).symm]
    exact ⟨first, bytes, hself, hfirst, hstop⟩

/-- A step of `Contains`. -/
theorem containsStep (h : RangeInv s) {address : UInt64} {stage next : ContainsStage}
    (hi : s.calls[i]? = some (.contains address stage))
    (hstep : containsStep s.range address stage = some next) :
    RangeInv { s with calls := s.calls.set i (.contains address next) } := by
  have hknows := h.knows i _ hi
  refine h.quiet hi (fun _ _ => by simp) rfl rfl ?_
  revert hstep
  fun_cases Juice.Jit.containsStep s.range address stage <;> intro hstep <;> cases hstep
  case case1 => trivial
  case case2 hbefore =>
    obtain ⟨hne, heven⟩ := not_or.mp hbefore
    exact ⟨and_one_eq_zero_iff.mp (not_not.mp heven), hne, Nat.le_refl _⟩
  case case3 before => exact ⟨hknows, fun _ => rfl⟩
  case case4 before first => exact ⟨hknows.1, fun heq => ⟨hknows.2 heq, rfl⟩⟩
  case case5 => trivial

/-- A step of `Publish`. -/
theorem publishStep (h : RangeInv s) {stage : PublishStage} {next : RetiredCodeRange × PublishStage}
    (hi : s.calls[i]? = some (.publish first bytes stage))
    (hstep : publishStep s.range first bytes stage = some next) :
    RangeInv ⟨next.1, s.calls.set i (.publish first bytes next.2),
      if next.2 = .returned true then s.published ++ [i] else s.published⟩ := by
  have hknows := h.knows i _ hi
  revert hstep
  fun_cases Juice.Jit.publishStep s.range first bytes stage <;> intro hstep <;> cases hstep
  case case1 => exact h.quiet hi (fun _ _ => by simp) rfl rfl trivial
  case case2 => exact h.quiet hi (fun _ _ => by simp) rfl rfl trivial
  case case3 hvalid hopened =>
    exact h.quiet hi (fun _ _ => by simp) rfl rfl ⟨not_not.mp hvalid, not_not.mp hopened⟩
  case case4 => exact h.exchange hi
  case case5 => exact h.quiet hi (fun _ _ => by simp) rfl rfl trivial
  case case6 sequence =>
    have hwriting : Writing s.range s.published first bytes sequence := hknows
    exact h.stores hi rfl rfl rfl ⟨{ hwriting with }, rfl⟩
  case case7 sequence =>
    obtain ⟨hwriting, hfirst⟩ := hknows
    exact h.stores hi rfl rfl rfl ⟨{ hwriting with }, hfirst, rfl⟩
  case case8 sequence => exact h.publishes hi

end RangeInv

/-! ## What one step can do -/

/-- **A step of a call**, with the stage it was in. -/
inductive StepOf (s : RangeSystem) (i : ℕ) : RangeSystem → Prop where
  | publish {first bytes : UInt64} {stage : PublishStage} {next : RetiredCodeRange × PublishStage}
      (hi : s.calls[i]? = some (.publish first bytes stage))
      (hstep : publishStep s.range first bytes stage = some next) :
      StepOf s i ⟨next.1, s.calls.set i (.publish first bytes next.2),
        if next.2 = .returned true then s.published ++ [i] else s.published⟩
  | contains {address : UInt64} {stage next : ContainsStage}
      (hi : s.calls[i]? = some (.contains address stage))
      (hstep : containsStep s.range address stage = some next) :
      StepOf s i { s with calls := s.calls.set i (.contains address next) }

theorem stepOf_of_rangeStep {t : RangeSystem} (h : rangeStep s (.step i) = some t) :
    StepOf s i t := by
  unfold rangeStep at h
  dsimp only at h
  split at h
  · exact absurd h (by simp)
  · next c hi =>
    cases c with
    | publish first bytes stage =>
      obtain ⟨next, hnext, rfl⟩ := Option.map_eq_some_iff.mp h
      exact .publish hi hnext
    | contains address stage =>
      obtain ⟨next, hnext, rfl⟩ := Option.map_eq_some_iff.mp h
      exact .contains hi hnext

theorem RangeInv.step (h : RangeInv s) {action : RangeAction} {t : RangeSystem}
    (hstep : rangeStep s action = some t) : RangeInv t := by
  cases action with
  | publish first bytes =>
    cases hstep
    exact h.begins (fun _ _ _ => trivial) rfl
  | contains address =>
    cases hstep
    exact h.begins (fun _ _ _ => trivial) rfl
  | step i =>
    cases stepOf_of_rangeStep hstep with
    | publish hi hnext => exact h.publishStep hi hnext
    | contains hi hnext => exact h.containsStep hi hnext

theorem rangeInv_of_reachable (h : rangeMachine.Reachable s) : RangeInv s := by
  refine h.invariant (I := RangeInv) ?_ (fun _ _ _ _ hinv hstep => hinv.step hstep)
  refine ⟨fun i call hc => ?_, fun i j call call' hc => ?_, .inl ⟨rfl, fun j hj => ?_⟩,
    List.forall_mem_nil _⟩
  · exact absurd hc (by simp [rangeMachine])
  · exact absurd hc (by simp [rangeMachine])
  · exact absurd hj (by simp [rangeMachine])

end Steps

end Juice.Jit
