import Juice.Jit.Allocation

/-!
# Records, views and mappings agree

After every call the records, the JIT views and what the calls have mapped
say the same: for each record there are two views and two mappings, they are
all apart, and there are no others. An allocation adds a pair to each list
and a free takes one away, and a call that fails leaves them as they were.

A failed call can have deleted views of the system that had outlived their
memory. Where there are none, it leaves the whole state as it was.
-/

namespace Juice.Jit

open List Tiling

/-! ## The invariant -/

/-- **Records, views and mappings say the same.** -/
structure Corresponds (s : Registry) : Prop where
  views : ((s.views.filter (·.jit)).map (·.span)).Perm (s.records.flatMap JitRecord.spans)
  mappings : s.mappings.Perm (s.records.flatMap JitRecord.spans)
  apart : (s.records.flatMap JitRecord.spans).Pairwise Span.Apart

/-- A record of what the kernel can have mapped. -/
structure JitRecord.Proper (host : HostPages) (r : JitRecord) : Prop where
  write_pos : 0 < r.write
  exec_pos : 0 < r.exec
  size_pos : 0 < r.size
  size_lt : r.size < 2 ^ 64
  dvd : 2 ^ host.shift ∣ r.size

/-- **The invariant of the registry.** -/
structure Registered (cfg : Config) (s : Registry) : Prop where
  views : ((s.views.filter (·.jit)).map (·.span)).Perm (s.records.flatMap JitRecord.spans)
  mappings : s.mappings.Perm (s.records.flatMap JitRecord.spans)
  viewed : Viewed s.views s.map
  owned : Owned s.views s.others
  proper : ∀ r ∈ s.records, r.Proper cfg.host
  enabled : s.records ≠ [] → cfg.enabled = true

/-- **What a failed call leaves**, whatever views it has deleted. -/
structure Unchanged (s t : Registry) : Prop where
  sealed : t.sealed = s.sealed
  records : t.records = s.records
  mappings : t.mappings = s.mappings
  others : t.others = s.others
  jit : t.views.filter (·.jit) = s.views.filter (·.jit)

section Invariant

variable {cfg : Config} {s t : Registry} {span : Span} {r : JitRecord} {write exec : Span}

namespace Registered

theorem corresponds (h : Registered cfg s) : Corresponds s where
  views := h.views
  mappings := h.mappings
  apart := by
    refine (h.views.pairwise_iff (fun hapart => hapart.symm)).mp ?_
    exact pairwise_map.mpr (h.viewed.apart.filter _)

/-- The view of a record. -/
theorem exists_view (h : Registered cfg s) (hr : r ∈ s.records) (hspan : span ∈ r.spans) :
    ∃ v ∈ s.views, v.jit = true ∧ v.span = span := by
  obtain ⟨v, hv, heq⟩ := mem_map.mp (h.views.mem_iff.mpr (mem_flatMap.mpr ⟨r, hr, hspan⟩))
  obtain ⟨hmem, hjit⟩ := mem_filter.mp hv
  exact ⟨v, hmem, hjit, heq⟩

/-- The memory of a JIT view is mapped. -/
theorem mem_mappings (h : Registered cfg s) {v : FileView} (hv : v ∈ s.views)
    (hjit : v.jit = true) : v.span ∈ s.mappings :=
  h.mappings.mem_iff.mpr (h.views.mem_iff.mp
    (mem_map.mpr ⟨v, mem_filter.mpr ⟨hv, hjit⟩, rfl⟩))

/-- No JIT view is where the kernel maps anew. -/
theorem jit_deleteOverlapping (h : Registered cfg s) (hfresh : Fresh cfg.host s span) :
    (deleteOverlapping span s).views.filter (·.jit) = s.views.filter (·.jit) := by
  rw [deleteOverlapping_eq]
  unfold besides
  rw [filter_filter]
  refine filter_congr (fun v hv => ?_)
  cases hjit : v.jit with
  | false => rfl
  | true => exact decide_eq_true (hfresh.2.2.2.1 _ (h.mem_mappings hv hjit))

theorem unchanged_deleteOverlapping (h : Registered cfg s) (hfresh : Fresh cfg.host s span) :
    Unchanged s (deleteOverlapping span s) := by
  have hjit := h.jit_deleteOverlapping hfresh
  rw [deleteOverlapping_eq] at hjit ⊢
  exact ⟨rfl, rfl, rfl, rfl, hjit⟩

/-- **The invariant survives** what happens to other views. -/
theorem congr (h : Registered cfg s) (hrecords : t.records = s.records)
    (hmappings : t.mappings = s.mappings) (hjit : t.views.filter (·.jit) = s.views.filter (·.jit))
    (hviewed : Viewed t.views t.map) (howned : Owned t.views t.others) : Registered cfg t where
  views := by
    rw [hjit, hrecords]
    exact h.views
  mappings := by
    rw [hmappings, hrecords]
    exact h.mappings
  viewed := hviewed
  owned := howned
  proper := hrecords ▸ h.proper
  enabled := hrecords ▸ h.enabled

protected theorem deleteOverlapping (h : Registered cfg s) (hfresh : Fresh cfg.host s span) :
    Registered cfg (deleteOverlapping span s) := by
  have hsame := h.unchanged_deleteOverlapping hfresh
  refine h.congr hsame.records hsame.mappings hsame.jit (h.viewed.deleteOverlapping span) ?_
  rw [deleteOverlapping_eq]
  exact fun v hv => h.owned v (mem_besides.mp hv).1

end Registered

theorem Unchanged.refl (s : Registry) : Unchanged s s := ⟨rfl, rfl, rfl, rfl, rfl⟩

theorem Unchanged.trans {u : Registry} (h : Unchanged s t) (h' : Unchanged t u) : Unchanged s u :=
  ⟨h'.sealed.trans h.sealed, h'.records.trans h.records, h'.mappings.trans h.mappings,
    h'.others.trans h.others, h'.jit.trans h.jit⟩

theorem Fresh.congr (h : Fresh cfg.host s span) (hsame : Unchanged s t) : Fresh cfg.host t span := by
  unfold Fresh
  rw [hsame.mappings, hsame.others]
  exact h

/-- Views are deleted where the kernel has mapped anew. -/
theorem Registered.dropped (h : Registered cfg s) {spans : List Span}
    (hfresh : ∀ span ∈ spans, Fresh cfg.host s span) :
    Registered cfg (dropped spans s) ∧ Unchanged s (dropped spans s) := by
  induction spans generalizing s with
  | nil => exact ⟨h, Unchanged.refl s⟩
  | cons span spans ih =>
    obtain ⟨hhead, htail⟩ := forall_mem_cons.mp hfresh
    have hsame := h.unchanged_deleteOverlapping hhead
    obtain ⟨hreg, hrest⟩ := ih (h.deleteOverlapping hhead) (fun x hx => (htail x hx).congr hsame)
    exact ⟨hreg, hsame.trans hrest⟩

theorem mem_deleteOverlapping {v : FileView} (h : v ∈ (deleteOverlapping span s).views) :
    v ∈ s.views ∧ v.span.Apart span := by
  rw [deleteOverlapping_eq] at h
  exact mem_besides.mp h

/-- Views are made where there are none. -/
theorem Viewed.withViews (h : Viewed s.views s.map)
    (hwrite : (2 ^ 12 ∣ write.offset ∧ 2 ^ 12 ∣ write.size) ∧ 0 < write.size)
    (hexec : (2 ^ 12 ∣ exec.offset ∧ 2 ^ 12 ∣ exec.size) ∧ 0 < exec.size)
    (hapart : exec.Apart write) (hbesides : ∀ v ∈ s.views, v.span.Apart exec ∧ v.span.Apart write) :
    Viewed (withViews write exec s).views (withViews write exec s).map where
  pages := List.forall_mem_cons.mpr ⟨⟨hwrite.1.1, hwrite.1.2, hwrite.2⟩,
    List.forall_mem_cons.mpr ⟨⟨hexec.1.1, hexec.1.2, hexec.2⟩, h.pages⟩⟩
  apart := List.pairwise_cons.mpr ⟨List.forall_mem_cons.mpr
      ⟨hapart.symm, fun v hv => (hbesides v hv).2.symm⟩,
    List.pairwise_cons.mpr ⟨fun v hv => (hbesides v hv).1.symm, h.apart⟩⟩
  marked := by
    intro m' hm' page hbit
    obtain ⟨m, hm, rfl⟩ := Option.mem_map.mp hm'
    rw [bit_setArm64ecRange, Bool.or_eq_true] at hbit
    rcases hbit with hbit | hbit
    · obtain ⟨v, hv, harm, hpage⟩ := h.marked m hm page hbit
      exact ⟨v, mem_cons_of_mem _ (mem_cons_of_mem _ hv), harm, hpage⟩
    · refine ⟨jitView exec s.map.isSome, mem_cons_of_mem _ mem_cons_self, ?_,
        of_decide_eq_true hbit⟩
      show s.map.isSome = true
      rw [hm]
      rfl

/-- **An allocation adds a pair.** -/
theorem Registered.allocated (h : Registered cfg s) (halloc : Allocated cfg s t write exec) :
    Registered cfg t := by
  obtain ⟨henabled, -, hpos, hdvd, hsize, hwrite, hexec, hapart, rfl⟩ := halloc
  obtain ⟨hreg, hsame⟩ := h.dropped (forall_mem_cons.mpr
    ⟨hexec, forall_mem_singleton.mpr hwrite⟩)
  have hbesides : ∀ v ∈ (Juice.Jit.dropped [exec, write] s).views,
      v.span.Apart exec ∧ v.span.Apart write := by
    intro v hv
    obtain ⟨hmem, haway⟩ := mem_deleteOverlapping (s := deleteOverlapping exec s) hv
    exact ⟨(mem_deleteOverlapping hmem).2, haway⟩
  generalize Juice.Jit.dropped [exec, write] s = d at hreg hbesides ⊢
  have hspans : JitRecord.spans ⟨write.offset, exec.offset, exec.size⟩ = [write, exec] := by
    unfold JitRecord.spans
    rw [← hsize]
    show [write, Span.mk exec.offset write.size] = _
    rw [hsize]
  refine ⟨?_, ?_, hreg.viewed.withViews ⟨⟨page_dvd _ hwrite.2.1, page_dvd _ (hsize ▸ hdvd)⟩,
    hsize ▸ hpos⟩ ⟨⟨page_dvd _ hexec.2.1, page_dvd _ hdvd⟩, hpos⟩ hapart hbesides, ?_, ?_,
    fun _ => henabled⟩
  · show (write :: exec :: (d.views.filter (·.jit)).map (·.span)).Perm
      (JitRecord.spans _ ++ d.records.flatMap JitRecord.spans)
    rw [hspans]
    exact (hreg.views.cons _).cons _
  · show (write :: exec :: d.mappings).Perm
      (JitRecord.spans _ ++ d.records.flatMap JitRecord.spans)
    rw [hspans]
    exact (hreg.mappings.cons _).cons _
  · -- Both views are of the system.
    exact forall_mem_cons.mpr ⟨Bool.noConfusion, forall_mem_cons.mpr
      ⟨Bool.noConfusion, hreg.owned⟩⟩
  · refine forall_mem_cons.mpr ⟨⟨hwrite.1, hexec.1, hpos, ?_, hdvd⟩, hreg.proper⟩
    exact Nat.lt_of_le_of_lt (Nat.le_add_left _ _) hexec.2.2.1

/-- `find_view` finds the view of an address. -/
theorem findView_eq {views : List FileView} {map : Option EcMap} (h : Viewed views map)
    {v : FileView} (hv : v ∈ views) : findView v.span views = some v := by
  have hself : v.span.Within v.span := ⟨Nat.le_refl _, Nat.le_refl _⟩
  unfold findView
  cases hfind : views.find? (fun view => v.span.Within view.span) with
  | none => exact absurd (decide_eq_true hself) (List.find?_eq_none.mp hfind v hv)
  | some w =>
    have hholds := List.find?_some hfind
    have hwithin : v.span.Within w.span := of_decide_eq_true hholds
    by_contra hne
    have hsymm : Std.Symm (fun v w : FileView => v.span.Apart w.span) := ⟨fun _ _ h => h.symm⟩
    have hapart : v.span.Apart w.span := h.apart.forall hv (mem_of_find?_eq_some hfind)
      (fun heq => hne (congrArg some heq.symm))
    exact hwithin.not_apart (h.pages v hv).2.2 hapart

/-- The view is gone, and its bits are cleared. -/
theorem Viewed.deleteView (h : Viewed s.views s.map) (v : FileView) :
    Viewed (deleteView s v).views (deleteView s v).map where
  pages w hw := h.pages w (List.mem_of_mem_erase hw)
  apart := h.apart.sublist List.erase_sublist
  marked := by
    intro m' hm' page hbit
    obtain ⟨m, hm, rfl⟩ := Option.mem_map.mp hm'
    rw [bit_unmark, Bool.and_eq_true] at hbit
    obtain ⟨w, hw, harm, hpage⟩ := h.marked m hm page hbit.1
    refine ⟨w, (mem_erase_of_ne ?_).mpr hw, harm, hpage⟩
    rintro rfl
    rw [harm, decide_eq_true hpage] at hbit
    exact Bool.noConfusion hbit.2

/-- A record is taken away with its two views and mappings. -/
def withoutPair (r : JitRecord) (write exec : FileView) (s : Registry) : Registry :=
  vmDeallocate ⟨r.exec, r.size⟩ (vmDeallocate ⟨r.write, r.size⟩
    { deleteView (deleteView s write) exec with records := s.records.erase r })

/-- The views of a record. -/
structure PairViews (s : Registry) (r : JitRecord) (write exec : FileView) : Prop where
  write_mem : write ∈ s.views
  exec_mem : exec ∈ s.views
  write_jit : write.jit = true
  exec_jit : exec.jit = true
  write_span : write.span = ⟨r.write, r.size⟩
  exec_span : exec.span = ⟨r.exec, r.size⟩
  ne : exec ≠ write

/-- The spans of a record are apart. -/
theorem Registered.spans_apart (h : Registered cfg s) (hr : r ∈ s.records) :
    Span.Apart ⟨r.write, r.size⟩ ⟨r.exec, r.size⟩ := by
  have hpair := (pairwise_flatMap.mp h.corresponds.apart).1 r hr
  exact (pairwise_cons.mp hpair).1 _ (mem_singleton_self _)

theorem Registered.exists_pairViews (h : Registered cfg s) (hr : r ∈ s.records) :
    ∃ write exec, PairViews s r write exec := by
  obtain ⟨write, hwrite, hwjit, hwspan⟩ := h.exists_view hr mem_cons_self
  obtain ⟨exec, hexec, hejit, hespan⟩ :=
    h.exists_view hr (mem_cons_of_mem _ mem_cons_self)
  refine ⟨write, exec, hwrite, hexec, hwjit, hejit, hwspan, hespan, ?_⟩
  rintro rfl
  have hapart := h.spans_apart hr
  rw [← hwspan, hespan] at hapart
  exact Span.Within.not_apart ⟨Nat.le_refl _, Nat.le_refl _⟩ (h.proper r hr).size_pos hapart

/-- The check of the two views passes. -/
theorem juiceUnregisterJitPairLocked_eq (hviewed : Viewed s.views s.map) {write exec : FileView}
    (hpair : PairViews s r write exec) :
    juiceUnregisterJitPairLocked r s = some (deleteView (deleteView s write) exec) := by
  unfold juiceUnregisterJitPairLocked
  rw [← hpair.write_span, ← hpair.exec_span, findView_eq hviewed hpair.write_mem,
    findView_eq hviewed hpair.exec_mem]
  dsimp only
  rw [if_neg]
  rw [hpair.write_jit, hpair.exec_jit]
  simp [hpair.ne.symm]

/-- **A free takes a pair away.** -/
theorem Registered.withoutPair {write exec : FileView} (h : Registered cfg s) (hr : r ∈ s.records)
    (hpair : PairViews s r write exec) : Registered cfg (withoutPair r write exec s) := by
  have hrecords : (s.records.flatMap JitRecord.spans).Perm
      (⟨r.write, r.size⟩ :: ⟨r.exec, r.size⟩ :: (s.records.erase r).flatMap JitRecord.spans) :=
    (perm_cons_erase hr).flatMap_right _
  have hviews : s.views.Perm (write :: exec :: (s.views.erase write).erase exec) :=
    (perm_cons_erase hpair.write_mem).trans
      ((perm_cons_erase ((mem_erase_of_ne hpair.ne).mpr hpair.exec_mem)).cons _)
  refine ⟨?_, ?_, (h.viewed.deleteView write).deleteView exec, ?_, ?_, ?_⟩
  · show ((((s.views.erase write).erase exec).filter (·.jit)).map (·.span)).Perm
      ((s.records.erase r).flatMap JitRecord.spans)
    have hspans := (hviews.filter (·.jit)).map (·.span)
    rw [filter_cons_of_pos hpair.write_jit, filter_cons_of_pos hpair.exec_jit,
      map_cons, map_cons, hpair.write_span, hpair.exec_span] at hspans
    exact ((hspans.symm.trans (h.views.trans hrecords)).cons_inv).cons_inv
  · show ((s.mappings.erase ⟨r.write, r.size⟩).erase ⟨r.exec, r.size⟩).Perm
      ((s.records.erase r).flatMap JitRecord.spans)
    have hmappings := ((h.mappings.trans hrecords).erase ⟨r.write, r.size⟩).erase ⟨r.exec, r.size⟩
    rw [erase_cons_head, erase_cons_head] at hmappings
    exact hmappings
  · exact fun v hv => h.owned v (mem_of_mem_erase (mem_of_mem_erase hv))
  · exact fun q hq => h.proper q (mem_of_mem_erase hq)
  · exact fun _ => h.enabled (ne_nil_of_mem hr)

/-! ## What the calls return -/

/-- The record that a free names. -/
def named (host : HostPages) (write exec size : UInt64) : JitRecord :=
  ⟨write.toNat, exec.toNat, roundUp host size.toNat⟩

/-- A size that is rounded to a word passes the check. -/
theorem size_le_of_roundUp_lt (host : HostPages) {size : ℕ} (h : roundUp host size < 2 ^ 64) :
    size + host.mask < 2 ^ 64 := by
  have hmask := host.mask_add_one
  have hle := le_roundUp host size
  have hgap : roundUp host size + 2 ^ host.shift ≤ 2 ^ 64 := by
    have hpow : 2 ^ host.shift ∣ 2 ^ 64 := Nat.pow_dvd_pow 2 (Nat.le_of_lt host.lt)
    obtain ⟨k, hk⟩ := dvd_roundUp host size
    obtain ⟨n, hn⟩ := hpow
    rw [hk, hn] at h ⊢
    rw [← Nat.mul_succ]
    exact Nat.mul_le_mul_left _ (Nat.lt_of_mul_lt_mul_left h)
  omega

/-- **What `NtWineFreeJitMemory` does**: it takes a pair away if there is a
record of just this pair, and nothing else. -/
theorem free_spec (h : Registered cfg s) (write exec size : UInt64) :
    (named cfg.host write exec size ∈ s.records
        ∧ ∃ vw ve, PairViews s (named cfg.host write exec size) vw ve
          ∧ ntWineFreeJitMemory cfg write exec size s
            = (.success, withoutPair (named cfg.host write exec size) vw ve s))
      ∨ (named cfg.host write exec size ∉ s.records
        ∧ ∃ status, status ≠ .success ∧ ntWineFreeJitMemory cfg write exec size s = (status, s)) := by
  have hmask := cfg.host.mask_lt
  have hfold : JitRecord.mk write.toNat exec.toNat (roundUp cfg.host size.toNat)
      = named cfg.host write exec size := rfl
  unfold ntWineFreeJitMemory
  by_cases hr : named cfg.host write exec size ∈ s.records
  · refine .inl ⟨hr, ?_⟩
    obtain ⟨vw, ve, hpair⟩ := h.exists_pairViews hr
    refine ⟨vw, ve, hpair, ?_⟩
    have hproper := h.proper _ hr
    have hbound := size_le_of_roundUp_lt cfg.host hproper.size_lt
    have hround : cfg.host.roundSize size.toNat = roundUp cfg.host size.toNat :=
      cfg.host.roundSize_eq hbound
    have hwrite : write ≠ 0 := by
      rintro rfl
      exact Nat.lt_irrefl 0 hproper.write_pos
    have hexec : exec ≠ 0 := by
      rintro rfl
      exact Nat.lt_irrefl 0 hproper.exec_pos
    have hsize : size ≠ 0 := by
      rintro rfl
      have hpos : 0 < roundUp cfg.host 0 := hproper.size_pos
      unfold roundUp at hpos
      rw [Nat.zero_add, Nat.div_eq_of_lt (Nat.lt_of_lt_of_eq (Nat.lt_succ_self _)
        cfg.host.mask_add_one), Nat.zero_mul] at hpos
      exact Nat.lt_irrefl 0 hpos
    rw [if_neg (by simp only [not_or]; exact ⟨hwrite, hexec, hsize, by omega⟩), hround]
    dsimp only
    rw [hfold, if_neg (not_not_intro hr), juiceUnregisterJitPairLocked_eq h.viewed hpair]
    rfl
  · refine .inr ⟨hr, ?_⟩
    split
    · exact ⟨_, NtStatus.noConfusion, rfl⟩
    · next hargs =>
      simp only [not_or] at hargs
      have hround : cfg.host.roundSize size.toNat = roundUp cfg.host size.toNat :=
        cfg.host.roundSize_eq (by omega)
      dsimp only
      rw [hround, hfold, if_pos hr]
      exact ⟨_, NtStatus.noConfusion, rfl⟩

theorem detach_spec (cfg : Config) (s : Registry) :
    ((ntWineDetachJitDebugger cfg s).1 ≠ .success ∧ (ntWineDetachJitDebugger cfg s).2 = s)
      ∨ ntWineDetachJitDebugger cfg s = (.success, { s with sealed := true }) := by
  unfold ntWineDetachJitDebugger
  split
  · exact .inl ⟨NtStatus.noConfusion, rfl⟩
  · split
    · next hsealed =>
      rw [← hsealed]
      exact .inr rfl
    · split
      · exact .inl ⟨NtStatus.noConfusion, rfl⟩
      · exact .inr rfl

/-- **What a call that succeeds does.** -/
inductive Succeeded (cfg : Config) (s : Registry) : Registry → Prop where
  | allocated {t : Registry} {write exec : Span} (h : Allocated cfg s t write exec) :
      Succeeded cfg s t
  | freed {r : JitRecord} {write exec : FileView} (hr : r ∈ s.records)
      (hpair : PairViews s r write exec) : Succeeded cfg s (withoutPair r write exec s)
  | detached : Succeeded cfg s { s with sealed := true }

/-- **What a call can do.** -/
theorem jitCall_cases (h : Registered cfg s) {call : JitCall} {status : NtStatus}
    (hcall : jitCall cfg s call = some (status, t)) :
    (status ≠ .success ∧ Failed cfg.host s t) ∨ (status = .success ∧ Succeeded cfg s t) := by
  have hunchanged : Failed cfg.host s s := ⟨[], forall_mem_nil _, rfl⟩
  cases call with
  | allocate writePtr execPtr size results =>
    refine (allocate_spec h.viewed hcall).imp_right ?_
    rintro ⟨hsuccess, write, exec, halloc⟩
    exact ⟨hsuccess, .allocated halloc⟩
  | free write exec size =>
    have hfree : ntWineFreeJitMemory cfg write exec size s = (status, t) := Option.some.inj hcall
    rcases free_spec h write exec size with ⟨hr, vw, ve, hpair, heq⟩ | ⟨-, status', hne, heq⟩
    · cases hfree.symm.trans heq
      exact .inr ⟨rfl, .freed hr hpair⟩
    · cases hfree.symm.trans heq
      exact .inl ⟨hne, hunchanged⟩
  | detach =>
    have hdetach : ntWineDetachJitDebugger cfg s = (status, t) := Option.some.inj hcall
    rcases detach_spec cfg s with ⟨hne, heq⟩ | heq
    · rw [hdetach] at hne heq
      cases heq
      exact .inl ⟨hne, hunchanged⟩
    · cases hdetach.symm.trans heq
      exact .inr ⟨rfl, .detached⟩

/-! ## Every sequence of calls -/

/-- **The invariant survives a step.** -/
theorem Registered.step (h : Registered cfg s) (hstep : RegistryStep cfg s t) :
    Registered cfg t := by
  cases hstep with
  | other views others map helse =>
    exact h.congr rfl rfl helse.jit helse.viewed helse.owned
  | call call hcall =>
    rcases jitCall_cases h hcall with ⟨-, spans, hfresh, rfl⟩ | ⟨-, hsucceeded⟩
    · exact (h.dropped hfresh).1
    · cases hsucceeded with
      | allocated halloc => exact h.allocated halloc
      | freed hr hpair => exact h.withoutPair hr hpair
      | detached => exact h.congr rfl rfl rfl h.viewed h.owned

theorem Registered.of_run (hrun : Relation.ReflTransGen (RegistryStep cfg) s t)
    (h : Registered cfg s) : Registered cfg t := by
  induction hrun with
  | refl => exact h
  | tail _ hstep ih => exact ih.step hstep

/-- **Results that the system can return**: what is mapped anew is fresh. -/
structure Possible (cfg : Config) (size : UInt64) (results : Results) (s : Registry) : Prop where
  exec : ∀ address, execMapping cfg results = some address →
    Fresh cfg.host s ⟨address, cfg.host.roundSize size.toNat⟩
  write : ∀ address address', execMapping cfg results = some address →
    results.vmRemap = some address' →
    Fresh cfg.host (mapped ⟨address, cfg.host.roundSize size.toNat⟩ s)
      ⟨address', cfg.host.roundSize size.toNat⟩

end Invariant

/-- A process with the debugger attached, on pages of 16 KiB. -/
def debugged : Config := ⟨sixteenKiB, true, true⟩

end Juice.Jit
