import Juice.Jit.RetiredRangeSafety

/-!
# A snapshot without a lock

Here the invariant of the retired range is read along whole runs. A call of
`Contains` that returns `true` has loaded the sequence number twice, and the
states between are all of one record: the number only grows, so it was the
same in all of them. A call with no step of `Publish` beside it returns what
the last record says. And a call of `Publish` that returns `false` has never
stored anything, since from the exchange on it can only return `true`.
-/

namespace Juice.Jit

/-! ## How a call moves -/

/-- A call takes a step. -/
inductive NextStage (range : RetiredCodeRange) : RangeCall → RangeCall → Prop where
  | publish {first bytes : UInt64} {stage : PublishStage} {next : RetiredCodeRange × PublishStage}
      (h : publishStep range first bytes stage = some next) :
      NextStage range (.publish first bytes stage) (.publish first bytes next.2)
  | contains {address : UInt64} {stage next : ContainsStage}
      (h : containsStep range address stage = some next) :
      NextStage range (.contains address stage) (.contains address next)

/-- A call that has just begun. -/
def RangeCall.Begun : RangeCall → Prop
  | .publish _ _ stage => stage = .load
  | .contains _ stage => stage = .load

section Steps

variable {s t : RangeSystem} {action : RangeAction} {i : ℕ} {call : RangeCall}

/-- **What one action does to the calls**: one begins, or one takes a step. -/
theorem calls_of_step (h : rangeStep s action = some t) :
    (∃ call : RangeCall, call.Begun ∧ t = { s with calls := s.calls ++ [call] })
      ∨ ∃ k before after, action = .step k ∧ s.calls[k]? = some before
        ∧ NextStage s.range before after ∧ t.calls = s.calls.set k after := by
  cases action with
  | publish first bytes => exact .inl ⟨.publish first bytes .load, rfl, (Option.some.inj h).symm⟩
  | contains address => exact .inl ⟨.contains address .load, rfl, (Option.some.inj h).symm⟩
  | step k =>
    cases stepOf_of_rangeStep h with
    | publish hk hnext => exact .inr ⟨k, _, _, rfl, hk, .publish hnext, rfl⟩
    | contains hk hnext => exact .inr ⟨k, _, _, rfl, hk, .contains hnext, rfl⟩

/-- **Where a call comes from**: it was there, it has just begun, or it took
the step. -/
theorem origin_of_step (h : rangeStep s action = some t) (hi : t.calls[i]? = some call) :
    s.calls[i]? = some call ∨ call.Begun
      ∨ (action = .step i ∧ ∃ before, s.calls[i]? = some before
        ∧ NextStage s.range before call) := by
  rcases calls_of_step h with ⟨c, hbegun, rfl⟩ | ⟨k, before, after, rfl, hk, hnext, hcalls⟩
  · rcases Slots.getElem?_concat_cases hi with ⟨-, rfl⟩ | hold
    · exact .inr (.inl hbegun)
    · exact .inl hold
  · rw [hcalls] at hi
    rcases Slots.getElem?_set_cases hi with ⟨rfl, rfl⟩ | ⟨-, hold⟩
    · exact .inr (.inr ⟨rfl, before, hk, hnext⟩)
    · exact .inl hold

/-- **Where a call goes**: it stays as it is, or it takes a step. -/
theorem fate_of_step (h : rangeStep s action = some t) (hi : s.calls[i]? = some call) :
    t.calls[i]? = some call
      ∨ ∃ after, t.calls[i]? = some after ∧ NextStage s.range call after := by
  rcases calls_of_step h with ⟨c, -, rfl⟩ | ⟨k, before, after, -, hk, hnext, hcalls⟩
  · exact .inl (Slots.getElem?_concat_of_some hi _)
  · rw [hcalls]
    by_cases hik : k = i
    · subst hik
      cases hi.symm.trans hk
      exact .inr ⟨after, Slots.getElem?_set_self hk _, hnext⟩
    · exact .inl ((List.getElem?_set_ne hik).trans hi)

/-- A call that has returned stays as it is. -/
theorem not_nextStage_returned {range : RetiredCodeRange} {first bytes : UInt64} {result : Bool} :
    ¬ NextStage range (.publish first bytes (.returned result)) call := by
  rintro ⟨h⟩
  exact absurd h (by simp [publishStep])

theorem sequence_le_of_publishStep {first bytes : UInt64} {stage : PublishStage}
    {next : RetiredCodeRange × PublishStage}
    (hknows : Knows s.range s.published i (.publish first bytes stage))
    (h : publishStep s.range first bytes stage = some next) :
    s.range.sequence.toNat ≤ next.1.sequence.toNat := by
  revert h
  fun_cases publishStep s.range first bytes stage <;> intro h <;> cases h
  case case4 =>
    show _ ≤ (s.range.sequence + 1).toNat
    rw [hknows.2.toNat_add (by decide)]
    exact Nat.le_add_right _ _
  case case8 sequence =>
    obtain ⟨hwriting, -⟩ := hknows
    show _ ≤ (sequence + 2).toNat
    rw [hwriting.opened.toNat_add (by decide), hwriting.odd, hwriting.count]
    exact Nat.le_succ _
  all_goals exact Nat.le_refl _

/-- **The sequence number only grows**, and so does what was published. -/
theorem grows_of_step (hinv : RangeInv s) (h : rangeStep s action = some t) :
    s.range.sequence.toNat ≤ t.range.sequence.toNat ∧ s.published <+: t.published := by
  cases action with
  | publish first bytes =>
    cases h
    exact ⟨Nat.le_refl _, List.prefix_refl _⟩
  | contains address =>
    cases h
    exact ⟨Nat.le_refl _, List.prefix_refl _⟩
  | step k =>
    cases stepOf_of_rangeStep h with
    | contains hk hnext => exact ⟨Nat.le_refl _, List.prefix_refl _⟩
    | publish hk hnext =>
      refine ⟨sequence_le_of_publishStep (hinv.knows k _ hk) hnext, ?_⟩
      dsimp only
      split
      · exact List.prefix_append _ _
      · exact List.prefix_refl _

end Steps

/-! ## Runs -/

section Runs

variable {s t : RangeSystem} {i j : ℕ} {first bytes : UInt64} {as : List RangeAction}

theorem grows_of_run (hs : rangeMachine.Reachable s) (h : rangeMachine.ReachableFrom s t) :
    s.range.sequence.toNat ≤ t.range.sequence.toNat ∧ s.published <+: t.published := by
  refine h.invariant (I := fun u => s.range.sequence.toNat ≤ u.range.sequence.toNat
    ∧ s.published <+: u.published) ⟨Nat.le_refl _, List.prefix_refl _⟩ ?_
  intro u action v hu hgrown hstep
  obtain ⟨hle, hpre⟩ := grows_of_step (rangeInv_of_reachable (hs.trans hu)) hstep
  exact ⟨Nat.le_trans hgrown.1 hle, hgrown.2.trans hpre⟩

theorem returned_of_run {result : Bool} (h : rangeMachine.ReachableFrom s t)
    (hj : s.calls[j]? = some (.publish first bytes (.returned result))) :
    t.calls[j]? = some (.publish first bytes (.returned result)) := by
  refine h.invariant (I := fun u => u.calls[j]? = some (.publish first bytes (.returned result)))
    hj ?_
  intro u action v _ hu hstep
  rcases fate_of_step hstep hu with hsame | ⟨after, -, hnext⟩
  · exact hsame
  · exact absurd hnext not_nextStage_returned

/-- **While none is at work** the number counts what was published, and the
words are those of the last call. -/
theorem RangeInv.count (h : RangeInv s) (heven : s.range.sequence.toNat % 2 = 0) :
    s.range.sequence.toNat = 2 * s.published.length
      ∧ ∀ j, s.published.getLast? = some j → Shows s.range s.calls j := by
  rcases h.phase with hcount | ⟨k, call, hk, hw⟩
  · exact hcount
  · have hodd := (h.knows k call hk).odd hw
    omega

/-- Something was published if the number is not zero. -/
theorem RangeInv.exists_last (h : RangeInv s) (heven : s.range.sequence.toNat % 2 = 0)
    (hne : s.range.sequence ≠ 0) : ∃ j, s.published.getLast? = some j := by
  have hnil : s.published ≠ [] := by
    intro hnil
    have hcount := (h.count heven).1
    rw [hnil] at hcount
    exact hne (UInt64.toNat_inj.mp hcount)
  exact ⟨_, List.getLast?_eq_some_getLast hnil⟩

theorem ValidRange.toNat_add (h : ValidRange first bytes) :
    (first + bytes).toNat = first.toNat + bytes.toNat := by
  have hle := UInt64.le_iff_toNat_le.mp h.2.2
  have hfirst := first.toNat_lt
  rw [UInt64.toNat_sub_of_le _ _ (UInt64.le_iff_toNat_le.mpr
    (show first.toNat ≤ 2 ^ 64 - 1 by omega))] at hle
  change bytes.toNat ≤ 2 ^ 64 - 1 - first.toNat at hle
  rw [UInt64.toNat_add, Nat.mod_eq_of_lt (by omega)]

/-- The address is in the range that the words show. -/
theorem RangeInv.publishedBy (h : RangeInv s) (hshows : Shows s.range s.calls j) (address : UInt64) :
    PublishedBy s j address
      ↔ s.range.first ≠ 0 ∧ s.range.first ≤ address ∧ address < s.range.stop := by
  obtain ⟨first, bytes, hj, hfirst, hstop⟩ := hshows
  obtain ⟨hvalid, -⟩ := h.knows j _ hj
  rw [hfirst, hstop, UInt64.le_iff_toNat_le, UInt64.lt_iff_toNat_lt, hvalid.toNat_add]
  refine ⟨?_, fun hin => ⟨first, bytes, hj, hin.2.1, hin.2.2⟩⟩
  rintro ⟨first', bytes', hj', hle, hlt⟩
  cases hj.symm.trans hj'
  exact ⟨hvalid.1, hle, hlt⟩

/-! ## A reader that returns `true` -/

/-- The sequence number that a reader began with. -/
def ContainsStage.before? : ContainsStage → Option UInt64
  | .loadBegin before => some before
  | .loadEnd before _ => some before
  | .reload before _ _ => some before
  | _ => none

variable {range : RetiredCodeRange} {address before : UInt64} {stage next : ContainsStage}

theorem containsStep_true (h : containsStep range address stage = some (.returned true)) :
    ∃ before first stop, stage = .reload before first stop ∧ before = range.sequence
      ∧ first ≠ 0 ∧ first ≤ address ∧ address < stop := by
  revert h
  fun_cases containsStep range address stage <;> intro h
  case case5 before first stop =>
    have hcheck := ContainsStage.returned.inj (Option.some.inj h)
    exact ⟨before, first, stop, rfl, of_decide_eq_true hcheck⟩
  all_goals cases h

/-- The number is loaded first, and kept. -/
theorem containsStep_before (h : containsStep range address stage = some next)
    (hbefore : next.before? = some before) :
    stage.before? = some before ∨ (stage = .load ∧ before = range.sequence) := by
  revert h
  fun_cases containsStep range address stage <;> intro h <;> cases h
  case case1 => cases hbefore
  case case2 => exact .inr ⟨rfl, (Option.some.inj hbefore).symm⟩
  case case3 => exact .inl hbefore
  case case4 => exact .inl hbefore
  case case5 => cases hbefore

/-- The last step of a reader that returns `true`. -/
theorem exists_reload (h : rangeMachine.run as = some s)
    (hi : s.calls[i]? = some (.contains address (.returned true))) :
    ∃ as₁ as₂ u before first stop, as = as₁ ++ .step i :: as₂ ∧ rangeMachine.run as₁ = some u
      ∧ u.calls[i]? = some (.contains address (.reload before first stop))
      ∧ before = u.range.sequence ∧ first ≠ 0 ∧ first ≤ address ∧ address < stop := by
  obtain ⟨as₁, action, as₂, u, v, rfl, hu, hnot, hstep, hall⟩ := Machine.exists_crossing
    (P := fun w => w.calls[i]? = some (.contains address (.returned true))) h
    (by simp [rangeMachine]) hi
  have hv := hall [] as₂ v rfl rfl
  rcases origin_of_step hstep hv with hold | hbegun | ⟨rfl, c, hc, hnext⟩
  · exact absurd hold hnot
  · exact absurd hbegun (by simp [RangeCall.Begun])
  · cases hnext with
    | contains hcheck =>
      obtain ⟨before, first, stop, rfl, hrest⟩ := containsStep_true hcheck
      exact ⟨as₁, as₂, u, before, first, stop, rfl, hu, hc, hrest⟩

/-- The first step of a reader. -/
theorem exists_load (h : rangeMachine.run as = some s)
    (hi : s.calls[i]? = some (.contains address stage)) (hbefore : stage.before? = some before) :
    ∃ as₁ as₂ u v, as = as₁ ++ .step i :: as₂ ∧ rangeMachine.run as₁ = some u
      ∧ u.calls[i]? = some (.contains address .load) ∧ before = u.range.sequence
      ∧ rangeMachine.step u (.step i) = some v ∧ v.range = u.range := by
  obtain ⟨as₁, action, as₂, u, v, rfl, hu, hnot, hstep, hall⟩ := Machine.exists_crossing
    (P := fun w => ∃ stage, w.calls[i]? = some (.contains address stage)
      ∧ ContainsStage.before? stage = some before) h
    (by simp [rangeMachine]) ⟨stage, hi, hbefore⟩
  obtain ⟨stage', hv, hbefore'⟩ := hall [] as₂ v rfl rfl
  rcases origin_of_step hstep hv with hold | hbegun | ⟨rfl, c, hc, hnext⟩
  · exact absurd ⟨stage', hold, hbefore'⟩ hnot
  · rw [show stage' = .load from hbegun] at hbefore'
    exact absurd hbefore' (by simp [ContainsStage.before?])
  · cases hnext with
    | contains hload =>
      rcases containsStep_before hload hbefore' with hearlier | ⟨rfl, hsequence⟩
      · exact absurd ⟨_, hc, hearlier⟩ hnot
      · refine ⟨as₁, as₂, u, v, rfl, hu, hc, hsequence, hstep, ?_⟩
        cases stepOf_of_rangeStep hstep with
        | contains hi' _ => rfl
        | publish hi' _ => exact absurd (hi'.symm.trans hc) (by simp)

/-- **The states of one record.** What was published when the number was
loaded first is what was published when it was loaded again. -/
theorem current_between {u v w : RangeSystem} (hu : rangeMachine.Reachable u)
    (huv : rangeMachine.ReachableFrom u v) (hvw : rangeMachine.ReachableFrom v w)
    (hsame : w.range.sequence = u.range.sequence) (heven : u.range.sequence.toNat % 2 = 0)
    (hj : u.published.getLast? = some j) : Current v j := by
  have hv := hu.trans huv
  obtain ⟨hle, hpre⟩ := grows_of_run hu huv
  obtain ⟨hle', -⟩ := grows_of_run hv hvw
  rw [hsame] at hle'
  have hsequence : v.range.sequence.toNat = u.range.sequence.toNat := Nat.le_antisymm hle' hle
  have hcount := ((rangeInv_of_reachable hu).count heven).1
  have hcount' := ((rangeInv_of_reachable hv).count (hsequence ▸ heven)).1
  refine ⟨hsequence ▸ heven, ?_⟩
  rw [← hpre.eq_of_length (by omega)]
  exact hj

/-- **A reader that returns `true`** has found the record of one call, which
was the current one from the first to the second load of the number. -/
theorem contains_of_true (h : rangeMachine.run as = some s)
    (hi : s.calls[i]? = some (.contains address (.returned true))) :
    ∃ as₁ as₂ as₃ s₁ j, as = as₁ ++ .step i :: as₂ ++ .step i :: as₃
      ∧ rangeMachine.run as₁ = some s₁ ∧ s₁.calls[i]? = some (.contains address .load)
      ∧ (∃ s₂ before first stop, rangeMachine.run (as₁ ++ .step i :: as₂) = some s₂
        ∧ s₂.calls[i]? = some (.contains address (.reload before first stop)))
      ∧ PublishedBy s₁ j address ∧ Current s₁ j
      ∧ ∀ bs cs w, as₂ = bs ++ cs → rangeMachine.run (as₁ ++ .step i :: bs) = some w →
        Current w j := by
  obtain ⟨as', as₃, s₂, before, first, stop, rfl, hs₂, hreload, hbefore, hfirst, hle, hlt⟩ :=
    exists_reload h hi
  obtain ⟨as₁, as₂, s₁, v, rfl, hs₁, hload, hbefore', hstep, hrange⟩ :=
    exists_load hs₂ hreload rfl
  have hreach₁ : rangeMachine.Reachable s₁ := .of_run hs₁
  have hrun : rangeMachine.runFrom v as₂ = some s₂ :=
    (rangeMachine.runFrom_middle hs₁ hstep as₂).symm.trans hs₂
  have hinv₁ := rangeInv_of_reachable hreach₁
  have hinv₂ := rangeInv_of_reachable (.of_run hs₂)
  -- What the reader knows before it loads the number again.
  obtain ⟨hseen, hwords⟩ := hinv₂.knows i _ hreload
  obtain ⟨hfirst', hstop'⟩ := hwords hbefore
  have heven : s₁.range.sequence.toNat % 2 = 0 := hbefore' ▸ hseen.even
  have hsame : s₂.range.sequence = s₁.range.sequence := hbefore.symm.trans hbefore'
  obtain ⟨hcount, hshows⟩ := hinv₁.count heven
  obtain ⟨j, hj⟩ := hinv₁.exists_last heven (hbefore' ▸ hseen.ne)
  have hfrom : rangeMachine.ReachableFrom s₁ s₂ := ⟨.step i :: as₂, by
    rw [Machine.runFrom_cons, hstep]
    exact hrun⟩
  have hcurrent₂ : Current s₂ j :=
    current_between hreach₁ hfrom (.refl s₂) hsame heven hj
  refine ⟨as₁, as₂, as₃, s₁, j, rfl, hs₁, hload, ⟨s₂, before, first, stop, hs₂, hreload⟩, ?_,
    ⟨heven, hj⟩, ?_⟩
  · -- The range of the call is the one that the words show at the end.
    have hlast := ((hinv₂.count hcurrent₂.1).2 j hcurrent₂.2)
    obtain ⟨first', bytes', hj₂, hin⟩ := (hinv₂.publishedBy hlast address).mpr
      ⟨hfirst' ▸ hfirst, hfirst' ▸ hle, hstop' ▸ hlt⟩
    obtain ⟨first'', bytes'', hj₁⟩ := hinv₁.done j (List.mem_of_getLast? hj)
    cases hj₂.symm.trans (returned_of_run hfrom hj₁)
    exact ⟨first', bytes', hj₁, hin⟩
  · rintro bs cs w rfl hw
    have hw' : rangeMachine.runFrom v bs = some w :=
      (rangeMachine.runFrom_middle hs₁ hstep bs).symm.trans hw
    rw [Machine.runFrom_append, hw'] at hrun
    refine current_between hreach₁ ⟨.step i :: bs, ?_⟩ ⟨cs, hrun⟩ hsame heven hj
    rw [Machine.runFrom_cons, hstep]
    exact hw'

/-! ## A reader by itself -/

/-- **No call of `Publish` takes a step** in a run. -/
def NoPublishStep (s : RangeSystem) (as : List RangeAction) : Prop :=
  ∀ bs k cs u, as = bs ++ .step k :: cs → rangeMachine.runFrom s bs = some u →
    ∀ first bytes stage, u.calls[k]? ≠ some (.publish first bytes stage)

/-- What a reader has read of words that do not change. -/
def HasRead (range : RetiredCodeRange) (address : UInt64) : ContainsStage → Prop
  | .load => True
  | .loadBegin before => before = range.sequence ∧ range.sequence ≠ 0
  | .loadEnd before first =>
    before = range.sequence ∧ range.sequence ≠ 0 ∧ first = range.first
  | .reload before first stop =>
    before = range.sequence ∧ range.sequence ≠ 0 ∧ first = range.first ∧ stop = range.stop
  | .returned result => result = true ↔ range.sequence ≠ 0 ∧ range.first ≠ 0
      ∧ range.first ≤ address ∧ address < range.stop

theorem hasRead_of_step (heven : range.sequence &&& 1 = 0) (h : HasRead range address stage)
    (hstep : containsStep range address stage = some next) : HasRead range address next := by
  revert hstep
  fun_cases containsStep range address stage <;> intro hstep <;> cases hstep
  case case1 hzero =>
    have hsequence := hzero.resolve_right (not_not_intro heven)
    exact iff_of_false Bool.noConfusion (fun hin => hin.1 hsequence)
  case case2 hzero => exact ⟨rfl, (not_or.mp hzero).1⟩
  case case3 before => exact ⟨h.1, h.2, rfl⟩
  case case4 before first => exact ⟨h.1, h.2.1, h.2.2, rfl⟩
  case case5 before first stop =>
    obtain ⟨rfl, hne, rfl, rfl⟩ := h
    show decide _ = true ↔ _
    rw [decide_eq_true_eq]
    exact ⟨fun hin => ⟨hne, hin.2⟩, fun hin => ⟨rfl, hin.2⟩⟩

/-- The words stay as they are where no call of `Publish` takes a step. -/
theorem range_of_quiet (h : rangeMachine.runFrom s as = some t) (hquiet : NoPublishStep s as)
    (heven : s.range.sequence &&& 1 = 0) (hi : s.calls[i]? = some (.contains address .load)) :
    t.range = s.range ∧ ∃ stage, t.calls[i]? = some (.contains address stage)
      ∧ HasRead s.range address stage := by
  induction as using List.reverseRecOn generalizing t with
  | nil =>
    cases h
    exact ⟨rfl, .load, hi, trivial⟩
  | append_singleton as action ih =>
    obtain ⟨u, hu, hstep⟩ := (rangeMachine.runFrom_concat).mp h
    obtain ⟨hrange, stage, hstage, hread⟩ := ih hu (fun bs k cs w hsplit => hquiet bs k
      (cs ++ [action]) w (by rw [hsplit, List.append_assoc, List.cons_append]))
    have hsame : t.range = s.range := by
      cases action with
      | publish first bytes =>
        cases hstep
        exact hrange
      | contains address =>
        cases hstep
        exact hrange
      | step k =>
        cases stepOf_of_rangeStep hstep with
        | publish hk _ => exact absurd hk (hquiet as k [] u rfl hu _ _ _)
        | contains hk _ => exact hrange
    refine ⟨hsame, ?_⟩
    rcases fate_of_step hstep hstage with hold | ⟨after, hafter, hnext⟩
    · exact ⟨stage, hold, hread⟩
    · cases hnext with
      | contains hnext =>
        rw [hrange] at hnext
        exact ⟨_, hafter, hasRead_of_step heven hread hnext⟩

/-- **A reader by itself** returns what the last record says. -/
theorem contains_of_quiet {result : Bool} (hs : rangeMachine.Reachable s)
    (heven : s.range.sequence.toNat % 2 = 0) (hi : s.calls[i]? = some (.contains address .load))
    (h : rangeMachine.runFrom s as = some t) (hquiet : NoPublishStep s as)
    (ht : t.calls[i]? = some (.contains address (.returned result))) :
    result = true ↔ ∃ j, s.published.getLast? = some j ∧ PublishedBy s j address := by
  have hinv := rangeInv_of_reachable hs
  obtain ⟨hcount, hshows⟩ := hinv.count heven
  obtain ⟨-, stage, hstage, hread⟩ := range_of_quiet h hquiet (and_one_eq_zero_iff.mpr heven) hi
  cases ht.symm.trans hstage
  change result = true ↔ _ at hread
  rw [hread]
  constructor
  · rintro ⟨hne, hin⟩
    obtain ⟨j, hj⟩ := hinv.exists_last heven hne
    exact ⟨j, hj, (hinv.publishedBy (hshows j hj) address).mpr hin⟩
  · rintro ⟨j, hj, hpublished⟩
    refine ⟨fun hzero => ?_, (hinv.publishedBy (hshows j hj) address).mp hpublished⟩
    have hpos := List.length_pos_of_mem (List.mem_of_getLast? hj)
    rw [hzero] at hcount
    change 0 = _ at hcount
    omega

/-! ## A call that returns `false` -/

/-- From the exchange on a call can only return `true`. -/
def RangeCall.committed : RangeCall → Bool
  | .publish _ _ (.storeBegin _) => true
  | .publish _ _ (.storeEnd _) => true
  | .publish _ _ (.storeSequence _) => true
  | .publish _ _ (.returned true) => true
  | _ => false

/-- A step of `Publish` changes nothing, or there is no way back. -/
theorem publishStep_cases {stage : PublishStage} {next : RetiredCodeRange × PublishStage}
    (h : publishStep range first bytes stage = some next) :
    (next.1 = range ∧ next.2 ≠ .returned true
        ∧ (RangeCall.publish first bytes stage).committed = false)
      ∨ (RangeCall.publish first bytes next.2).committed = true := by
  revert h
  fun_cases publishStep range first bytes stage <;> intro h <;> cases h
  case case4 | case6 | case7 | case8 => exact .inr rfl
  all_goals exact .inl ⟨rfl, fun hreturned => (by cases hreturned), rfl⟩

theorem committed_of_nextStage {call after : RangeCall} (h : NextStage range call after)
    (hcall : call.committed = true) : after.committed = true := by
  cases h with
  | contains => exact Bool.noConfusion hcall
  | publish hnext =>
    rcases publishStep_cases hnext with ⟨-, -, hnot⟩ | hcommitted
    · exact absurd (hnot.symm.trans hcall) Bool.false_ne_true
    · exact hcommitted

theorem committed_of_run (h : rangeMachine.ReachableFrom s t) {call : RangeCall}
    (hi : s.calls[i]? = some call) (hcall : call.committed = true) :
    ∃ after : RangeCall, t.calls[i]? = some after ∧ after.committed = true := by
  refine h.invariant (I := fun u => ∃ after : RangeCall, u.calls[i]? = some after
    ∧ after.committed = true) ⟨call, hi, hcall⟩ ?_
  rintro u action v - ⟨c, hc, hcommitted⟩ hstep
  rcases fate_of_step hstep hc with hold | ⟨after, hafter, hnext⟩
  · exact ⟨c, hold, hcommitted⟩
  · exact ⟨after, hafter, committed_of_nextStage hnext hcommitted⟩

/-- **A call of `Publish` that returns `false`** has changed nothing in any of
its steps. -/
theorem unchanged_of_false {bs cs : List RangeAction} {u v : RangeSystem}
    (h : rangeMachine.run as = some s)
    (hi : s.calls[i]? = some (.publish first bytes (.returned false)))
    (has : as = bs ++ .step i :: cs) (hu : rangeMachine.run bs = some u)
    (hstep : rangeMachine.step u (.step i) = some v) :
    v.range = u.range ∧ v.published = u.published := by
  have hrest : rangeMachine.runFrom v cs = some s := by
    rw [has] at h
    exact (rangeMachine.runFrom_middle hu hstep cs).symm.trans h
  cases stepOf_of_rangeStep hstep with
  | contains hc _ => exact ⟨rfl, rfl⟩
  | publish hc hnext =>
    rcases publishStep_cases hnext with ⟨hsame, hne, -⟩ | hcommitted
    · exact ⟨hsame, if_neg hne⟩
    · obtain ⟨after, hafter, htrue⟩ :=
        committed_of_run ⟨cs, hrest⟩ (Slots.getElem?_set_self hc _) hcommitted
      cases hi.symm.trans hafter
      exact Bool.noConfusion htrue

end Runs

/-- **The retired range in every interleaving.** What is published is what
the calls that have returned `true` have published. A reader that returns
`true` has found the range of one call, which was the current record from its
first to its second load of the number. A reader with no step of `Publish`
beside it returns what the last record says. A call of `Publish` that returns
`false` has changed nothing. -/
theorem retiredRange_snapshot :
    (∀ s j, rangeMachine.Reachable s → (j ∈ s.published ↔ ∃ first bytes,
        s.calls[j]? = some (.publish first bytes (.returned true))))
      ∧ (∀ as s (i : ℕ) (address : UInt64), rangeMachine.run as = some s →
          s.calls[i]? = some (.contains address (.returned true)) →
          ∃ as₁ as₂ as₃ s₁ j, as = as₁ ++ .step i :: as₂ ++ .step i :: as₃
            ∧ rangeMachine.run as₁ = some s₁ ∧ s₁.calls[i]? = some (.contains address .load)
            ∧ (∃ s₂ before first stop, rangeMachine.run (as₁ ++ .step i :: as₂) = some s₂
              ∧ s₂.calls[i]? = some (.contains address (.reload before first stop)))
            ∧ PublishedBy s₁ j address ∧ Current s₁ j
            ∧ ∀ bs cs w, as₂ = bs ++ cs → rangeMachine.run (as₁ ++ .step i :: bs) = some w →
              Current w j)
      ∧ (∀ s t (i : ℕ) (address : UInt64) as result, rangeMachine.Reachable s →
          s.range.sequence.toNat % 2 = 0 →
          s.calls[i]? = some (.contains address .load) → rangeMachine.runFrom s as = some t →
          NoPublishStep s as → t.calls[i]? = some (.contains address (.returned result)) →
          (result = true ↔ ∃ j, s.published.getLast? = some j ∧ PublishedBy s j address))
      ∧ (∀ as s (i : ℕ) (first bytes : UInt64), rangeMachine.run as = some s →
          s.calls[i]? = some (.publish first bytes (.returned false)) →
          ∀ bs cs u v, as = bs ++ .step i :: cs → rangeMachine.run bs = some u →
            rangeMachine.step u (.step i) = some v → v.range = u.range ∧ v.published = u.published) := by
  refine ⟨fun s j hs => ?_, fun as s i address h hi => contains_of_true h hi,
    fun s t i address as result hs heven hi h hquiet ht => contains_of_quiet hs heven hi h hquiet ht,
    fun as s i first bytes h hi bs cs u v has hu hstep => unchanged_of_false h hi has hu hstep⟩
  have hinv := rangeInv_of_reachable hs
  exact ⟨hinv.done j, fun ⟨first, bytes, hj⟩ => (hinv.knows j _ hj).2⟩

/-- A range is published while another call is suspended in its exchange, and
a reader finds it. -/
example : (rangeMachine.run [.publish 64 8, .publish 256 16, .step 0, .step 1, .step 1, .step 1,
    .step 1, .step 1, .step 0, .contains 260, .step 2, .step 2, .step 2, .step 2]).any
      (fun s => s.calls = [.publish 64 8 (.returned false), .publish 256 16 (.returned true),
        .contains 260 (.returned true)]) = true := by
  decide +kernel

end Juice.Jit
