import Juice.Jit.Registry

/-!
# What an allocation can do

A call of `NtWineAllocateJitMemory` fails and has at most deleted views
without memory, or it adds one record with two views and two mappings. This
is `allocate_spec`, and all that is proved of allocations is proved from it.

It rests on views being apart. The bits of a view that was just made are
those of pages that no other view has, so that clearing them leaves the map
as it was.
-/

namespace Juice.Jit

open List Tiling

variable {span exec : Span} {s t : Registry} {host : HostPages}

/-! ## Pages -/

section Pages

variable {s t : Span} {page : ℕ}

/-- The pages of a span that is made of pages. -/
theorem inPages_iff (ho : 2 ^ 12 ∣ s.offset) (hs : 2 ^ 12 ∣ s.size) :
    InPages s page ↔ s.Has (2 ^ 12 * page) := by
  obtain ⟨a, ha⟩ := ho
  obtain ⟨b, hb⟩ := hs
  unfold InPages Span.Has Span.stop firstPage endPage
  rw [ha, hb]
  omega

/-- Spans that are apart have no page in common. -/
theorem not_inPages_of_apart (hs : 2 ^ 12 ∣ s.offset ∧ 2 ^ 12 ∣ s.size)
    (ht : 2 ^ 12 ∣ t.offset ∧ 2 ^ 12 ∣ t.size) (hapart : s.Apart t) (hpage : InPages s page) :
    ¬ InPages t page := by
  rw [inPages_iff ht.1 ht.2]
  exact hapart.not_has ((inPages_iff hs.1 hs.2).mp hpage)

end Pages

/-! ## Deleting views -/

theorem bit_unmark (map : EcMap) (view : FileView) (page : ℕ) :
    (unmark map view).bit page
      = (map.bit page && !(view.arm64ec && decide (InPages view.span page))) := by
  unfold unmark
  cases harm : view.arm64ec with
  | false => simp
  | true =>
    rw [if_pos rfl, bit_clearArm64ecRange, Bool.true_and]
    rfl

/-- A page of a view that was deleted has no bit. -/
theorem bit_foldl_unmark (views : List FileView) (map : EcMap) (page : ℕ) :
    (views.foldl unmark map).bit page
      = (map.bit page
        && !views.any (fun view => view.arm64ec && decide (InPages view.span page))) := by
  induction views generalizing map with
  | nil => simp
  | cons view views ih =>
    rw [foldl_cons, ih, bit_unmark, any_cons, Bool.not_or, Bool.and_assoc]

theorem foldl_deleteView (views : List FileView) (s : Registry) :
    views.foldl deleteView s
      = { s with views := s.views.diff views, map := s.map.map (fun m => views.foldl unmark m) } := by
  induction views generalizing s with
  | nil =>
    show s = { s with views := s.views, map := s.map.map id }
    rw [Option.map_id_fun, id_eq]
  | cons view views ih =>
    rw [foldl_cons, ih]
    show ({ s with
        views := (s.views.erase view).diff views
        map := (s.map.map (unmark · view)).map (fun m => views.foldl unmark m) } : Registry) = _
    rw [Option.map_map, diff_cons]
    rfl

/-- Deleting the elements that have a property leaves the others. -/
theorem diff_filter {α : Type} [DecidableEq α] (p : α → Bool) (l : List α) :
    l.diff (l.filter p) = l.filter (fun a => !p a) := by
  induction l with
  | nil => rfl
  | cons a l ih =>
    cases ha : p a with
    | true =>
      rw [filter_cons_of_pos ha, diff_cons, erase_cons_head, ih,
        filter_cons_of_neg (by simp [ha])]
    | false =>
      have hnot : a ∉ l.filter p := by
        intro hmem
        rw [(mem_filter.mp hmem).2] at ha
        exact Bool.noConfusion ha
      rw [filter_cons_of_neg (by simp [ha]), cons_diff_of_not_mem hnot, ih,
        filter_cons_of_pos (by simp [ha])]

/-- The views that stay when one is made at `span`. -/
def besides (span : Span) (views : List FileView) : List FileView :=
  views.filter (fun view => view.span.Apart span)

/-- **What `create_view` deletes.** -/
theorem deleteOverlapping_eq (span : Span) (s : Registry) :
    deleteOverlapping span s = { s with
      views := besides span s.views
      map := s.map.map (fun m => (overlapping span s.views).foldl unmark m) } := by
  unfold deleteOverlapping
  rw [foldl_deleteView]
  unfold overlapping besides
  rw [diff_filter]
  congr 2
  funext view
  simp

theorem mem_besides {views : List FileView} {v : FileView} :
    v ∈ besides span views ↔ v ∈ views ∧ v.span.Apart span := by
  unfold besides
  rw [mem_filter, decide_eq_true_eq]

/-- A view that stays is not touched. -/
theorem Viewed.deleteOverlapping (h : Viewed s.views s.map) (span : Span) :
    Viewed (deleteOverlapping span s).views (deleteOverlapping span s).map := by
  rw [deleteOverlapping_eq]
  refine ⟨fun v hv => h.pages v (mem_besides.mp hv).1, h.apart.filter _, ?_⟩
  intro m' hm' page hbit
  obtain ⟨m, hm, rfl⟩ := Option.mem_map.mp hm'
  rw [bit_foldl_unmark, Bool.and_eq_true] at hbit
  obtain ⟨v, hv, harm, hpage⟩ := h.marked m hm page hbit.1
  refine ⟨v, mem_besides.mpr ⟨hv, ?_⟩, harm, hpage⟩
  -- The bits of the others were cleared.
  by_contra hnot
  have hany : (overlapping span s.views).any
      (fun view => view.arm64ec && decide (InPages view.span page)) = true :=
    any_eq_true.mpr ⟨v, mem_filter.mpr ⟨hv, by simp [hnot]⟩, by simp [harm, hpage]⟩
  rw [hany] at hbit
  exact Bool.noConfusion hbit.2

/-! ## The two views of an allocation -/

/-- The view of a mapping. -/
def jitView (span : Span) (arm64ec : Bool) : FileView := ⟨span, true, true, arm64ec⟩

/-- The view to execute is there when the one to write is made. -/
def withExecView (exec : Span) (s : Registry) : Registry :=
  { s with
    views := jitView exec s.map.isSome :: s.views
    map := s.map.map (fun m => setArm64ecRange m exec.offset exec.size) }

/-- **`create_view`** in its two parts. -/
theorem createView_eq {ok ok' : Bool} (h : createView host span ok s = some (ok', t)) :
    ok' = ok ∧ t = if ok then
        { deleteOverlapping span s with
          views := jitView span false :: (deleteOverlapping span s).views }
      else deleteOverlapping span s := by
  unfold createView at h
  split at h
  · exact absurd h (by simp)
  · cases ok <;> cases h <;> exact ⟨rfl, rfl⟩

/-- The view to execute is marked as ARM64EC code if there is a map. -/
theorem commitArm64ecMap_eq (span : Span) (s : Registry) :
    commitArm64ecMap (jitView span false) { s with views := jitView span false :: s.views }
      = (jitView span s.map.isSome, withExecView span s) := by
  unfold commitArm64ecMap
  obtain ⟨sealed, records, views, mappings, others, map⟩ := s
  cases map with
  | none => rfl
  | some m =>
    dsimp only
    rw [erase_cons_head]
    rfl

/-- The pages of a view that was made are not those of views that are deleted
to make another. -/
theorem foldl_unmark_setArm64ecRange {deleted : List FileView} (map : EcMap)
    (hpages : 2 ^ 12 ∣ span.offset ∧ 2 ^ 12 ∣ span.size)
    (h : ∀ v ∈ deleted, (2 ^ 12 ∣ v.span.offset ∧ 2 ^ 12 ∣ v.span.size) ∧ v.span.Apart span) :
    deleted.foldl unmark (setArm64ecRange map span.offset span.size)
      = setArm64ecRange (deleted.foldl unmark map) span.offset span.size := by
  refine EcMap.ext_bit (fun page => ?_)
  rw [bit_foldl_unmark, bit_setArm64ecRange, bit_setArm64ecRange, bit_foldl_unmark]
  show ((map.bit page || decide (InPages span page)) && !_)
    = (map.bit page && !_ || decide (InPages span page))
  by_cases hin : InPages span page
  · have hany : deleted.any (fun v => v.arm64ec && decide (InPages v.span page)) = false := by
      refine any_eq_false.mpr (fun v hv htrue => ?_)
      have hpage := of_decide_eq_true (Bool.and_eq_true_iff.mp htrue).2
      exact not_inPages_of_apart (h v hv).1 hpages (h v hv).2 hpage hin
    rw [hany, decide_eq_true hin, Bool.or_true, Bool.or_true]
    rfl
  · rw [decide_eq_false hin, Bool.or_false, Bool.or_false]

/-- **The map is as it was** when a view that was made is deleted again. -/
theorem unmark_setArm64ecRange {views : List FileView} {map : EcMap} (h : Viewed views (some map))
    (hpages : 2 ^ 12 ∣ span.offset ∧ 2 ^ 12 ∣ span.size) (hapart : ∀ v ∈ views, v.span.Apart span) :
    unmark (setArm64ecRange map span.offset span.size) (jitView span true) = map := by
  refine EcMap.ext_bit (fun page => ?_)
  rw [bit_unmark, bit_setArm64ecRange]
  show ((map.bit page || decide (InPages span page)) && !(true && decide (InPages span page)))
    = map.bit page
  by_cases hin : InPages span page
  · -- No view has the page, so that it had no bit.
    have hbit : map.bit page = false := by
      refine Bool.eq_false_iff.mpr (fun hbit => ?_)
      obtain ⟨v, hv, -, hpage⟩ := h.marked map rfl page hbit
      have hview := h.pages v hv
      exact not_inPages_of_apart ⟨hview.1, hview.2.1⟩ hpages (hapart v hv) hpage hin
    rw [decide_eq_true hin, hbit]
    rfl
  · rw [decide_eq_false hin, Bool.or_false, Bool.and_false, Bool.not_false, Bool.and_true]

/-- The views of a pair are added. -/
def withViews (write exec : Span) (s : Registry) : Registry :=
  { withExecView exec s with views := jitView write false :: (withExecView exec s).views }

/-- What is deleted to make the second view does not touch the first. -/
theorem deleteOverlapping_withExecView {write : Span} {d : Registry}
    (hviewed : Viewed d.views d.map) (hbesides : ∀ v ∈ d.views, v.span.Apart exec)
    (hpages : 2 ^ 12 ∣ exec.offset ∧ 2 ^ 12 ∣ exec.size) (hapart : exec.Apart write) :
    deleteOverlapping write (withExecView exec d) = withExecView exec (deleteOverlapping write d) := by
  have hkeep : besides write (withExecView exec d).views
      = jitView exec d.map.isSome :: besides write d.views :=
    filter_cons_of_pos (decide_eq_true hapart)
  have hover : overlapping write (withExecView exec d).views = overlapping write d.views :=
    filter_cons_of_neg (fun hover => of_decide_eq_true hover hapart)
  have hdeleted : ∀ v ∈ overlapping write d.views,
      (2 ^ 12 ∣ v.span.offset ∧ 2 ^ 12 ∣ v.span.size) ∧ v.span.Apart exec := by
    intro v hv
    have hmem := (mem_filter.mp hv).1
    have hview := hviewed.pages v hmem
    exact ⟨⟨hview.1, hview.2.1⟩, hbesides v hmem⟩
  rw [deleteOverlapping_eq, deleteOverlapping_eq, hkeep, hover]
  unfold withExecView
  dsimp only
  rw [Option.isSome_map, Option.map_map, Option.map_map]
  congr 2
  funext m
  exact foldl_unmark_setArm64ecRange m hpages hdeleted

/-- The first view is deleted again. -/
theorem deleteView_withExecView {d : Registry} (hviewed : Viewed d.views d.map)
    (hbesides : ∀ v ∈ d.views, v.span.Apart exec)
    (hpages : 2 ^ 12 ∣ exec.offset ∧ 2 ^ 12 ∣ exec.size) :
    deleteView (withExecView exec d) (jitView exec d.map.isSome) = d := by
  obtain ⟨sealed, records, views, mappings, others, map⟩ := d
  unfold deleteView withExecView
  dsimp only
  rw [erase_cons_head]
  cases map with
  | none => rfl
  | some m =>
    show Registry.mk sealed records views mappings others
      (some (unmark (setArm64ecRange m exec.offset exec.size) (jitView exec true))) = _
    rw [unmark_setArm64ecRange hviewed hpages hbesides]

/-- **What `juice_register_jit_views` does**: it fails, and has only deleted
what was in the way, or it adds the two views. -/
theorem juiceRegisterJitViews_spec {write : Span} {execOk writeOk ok : Bool}
    (hviewed : Viewed s.views s.map) (hpages : 2 ^ 12 ∣ exec.offset ∧ 2 ^ 12 ∣ exec.size)
    (hapart : exec.Apart write)
    (h : juiceRegisterJitViews host write exec execOk writeOk s = some (ok, t)) :
    (ok = false ∧ (t = deleteOverlapping exec s
        ∨ t = deleteOverlapping write (deleteOverlapping exec s)))
      ∨ (ok = true ∧ t = withViews write exec (deleteOverlapping write (deleteOverlapping exec s))) := by
  have hdropped := hviewed.deleteOverlapping exec
  have hbesides : ∀ v ∈ (deleteOverlapping exec s).views, v.span.Apart exec := by
    rw [deleteOverlapping_eq]
    exact fun v hv => (mem_besides.mp hv).2
  unfold juiceRegisterJitViews at h
  split at h
  · exact absurd h (by simp)
  · next hcreate =>
    obtain ⟨hok, ht⟩ := createView_eq hcreate
    rw [← hok] at ht
    cases h
    exact .inl ⟨rfl, .inl ht⟩
  · next hcreate =>
    obtain ⟨hok, rfl⟩ := createView_eq hcreate
    rw [← hok, if_pos rfl] at h
    rw [show (⟨exec, true, true, false⟩ : FileView) = jitView exec false from rfl] at h
    rw [commitArm64ecMap_eq] at h
    -- From here on only the state without the views in the way matters.
    generalize deleteOverlapping exec s = d at h hdropped hbesides ⊢
    dsimp only at h
    have hwrite := deleteOverlapping_withExecView hdropped hbesides hpages hapart
    split at h
    · exact absurd h (by simp)
    · next hcreate =>
      obtain ⟨hok, rfl⟩ := createView_eq hcreate
      rw [← hok, hwrite] at h
      cases h
      exact .inr ⟨rfl, rfl⟩
    · next hcreate =>
      obtain ⟨hok, rfl⟩ := createView_eq hcreate
      rw [← hok, hwrite] at h
      cases h
      refine .inl ⟨rfl, .inr ?_⟩
      have hsome : d.map.isSome = (deleteOverlapping write d).map.isSome := by
        rw [deleteOverlapping_eq]
        exact Option.isSome_map.symm
      rw [hsome]
      refine deleteView_withExecView (hdropped.deleteOverlapping write) ?_ hpages
      rw [deleteOverlapping_eq]
      exact fun v hv => hbesides v (mem_besides.mp hv).1

/-! ## What an allocation can do -/

/-- A size rounded up to the pages of the host, in unbounded numbers. -/
def roundUp (host : HostPages) (size : ℕ) : ℕ :=
  (size + host.mask) / 2 ^ host.shift * 2 ^ host.shift

theorem HostPages.mask_add_one (host : HostPages) : host.mask + 1 = 2 ^ host.shift :=
  Nat.sub_add_cancel (Nat.two_pow_pos _)

theorem le_roundUp (host : HostPages) (size : ℕ) : size ≤ roundUp host size := by
  have hdiv := Nat.div_add_mod (size + host.mask) (2 ^ host.shift)
  have hmod := Nat.mod_lt (size + host.mask) (Nat.two_pow_pos host.shift)
  have hmask := host.mask_add_one
  unfold roundUp
  rw [Nat.mul_comm] at hdiv
  omega

theorem dvd_roundUp (host : HostPages) (size : ℕ) : 2 ^ host.shift ∣ roundUp host size :=
  Nat.dvd_mul_left _ _

theorem page_dvd (host : HostPages) {n : ℕ} (h : 2 ^ host.shift ∣ n) : 2 ^ 12 ∣ n :=
  Nat.dvd_trans (Nat.pow_dvd_pow 2 host.le) h

/-- The views at some spans are deleted. -/
def dropped (spans : List Span) (s : Registry) : Registry :=
  spans.foldl (fun s span => deleteOverlapping span s) s

theorem deleteOverlapping_mapped (span m : Span) (s : Registry) :
    deleteOverlapping span (mapped m s) = mapped m (deleteOverlapping span s) := by
  rw [deleteOverlapping_eq, deleteOverlapping_eq]
  rfl

theorem vmDeallocate_mapped (m : Span) (s : Registry) : vmDeallocate m (mapped m s) = s := by
  unfold vmDeallocate mapped
  dsimp only
  rw [erase_cons_head]

theorem Fresh.of_mapped {m : Span} (h : Fresh host (mapped m s) span) :
    Fresh host s span ∧ m.Apart span :=
  ⟨⟨h.1, h.2.1, h.2.2.1, (forall_mem_cons.mp h.2.2.2.1).2, h.2.2.2.2⟩,
    (forall_mem_cons.mp h.2.2.2.1).1⟩

/-- The registry with one more pair. -/
def withPair (write exec : Span) (s : Registry) : Registry :=
  { withViews write exec s with
    records := ⟨write.offset, exec.offset, exec.size⟩ :: s.records
    mappings := write :: exec :: s.mappings }

/-- **A call that failed.** It has deleted views where the kernel had mapped
anew, and nothing else. -/
def Failed (host : HostPages) (s t : Registry) : Prop :=
  ∃ spans : List Span, (∀ span ∈ spans, Fresh host s span) ∧ t = dropped spans s

/-- **A pair that was allocated.** -/
structure Allocated (cfg : Config) (s t : Registry) (write exec : Span) : Prop where
  enabled : cfg.enabled = true
  unsealed : s.sealed = false
  pos : 0 < exec.size
  dvd : 2 ^ cfg.host.shift ∣ exec.size
  size : write.size = exec.size
  fresh_write : Fresh cfg.host s write
  fresh_exec : Fresh cfg.host s exec
  apart : exec.Apart write
  eq : t = withPair write exec (dropped [exec, write] s)

/-- What the call does once there is memory to execute. -/
theorem mapPair_spec {cfg : Config} {results : Results} {status : NtStatus}
    (hviewed : Viewed s.views s.map) (hfresh : Fresh cfg.host s exec)
    (hdvd : 2 ^ cfg.host.shift ∣ exec.size)
    (h : mapPair cfg exec results (mapped exec s) = some (status, t)) :
    (status ≠ .success ∧ Failed cfg.host s t)
      ∨ (status = .success ∧ ∃ write : Span, write.size = exec.size ∧ Fresh cfg.host s write
        ∧ exec.Apart write ∧ t = withPair write exec (dropped [exec, write] s)) := by
  have hpages := And.intro (page_dvd cfg.host hfresh.2.1) (page_dvd cfg.host hdvd)
  have hunchanged : Failed cfg.host s s := ⟨[], forall_mem_nil _, rfl⟩
  unfold mapPair at h
  split at h
  · cases h
    rw [vmDeallocate_mapped]
    exact .inl ⟨NtStatus.noConfusion, hunchanged⟩
  · next address _ =>
    dsimp only at h
    split at h
    · exact absurd h (by simp)
    · next hnew =>
      obtain ⟨hwrite, hapart⟩ := (Decidable.not_not.mp hnew).of_mapped
      split at h
      · cases h
        rw [vmDeallocate_mapped, vmDeallocate_mapped]
        exact .inl ⟨NtStatus.noConfusion, hunchanged⟩
      · split at h
        · exact absurd h (by simp)
        · next hviews =>
          cases h
          refine .inl ⟨NtStatus.noConfusion, ?_⟩
          obtain ⟨-, hdeleted⟩ | ⟨hok, -⟩ :=
            juiceRegisterJitViews_spec (s := mapped _ (mapped exec s)) hviewed hpages hapart hviews
          · rw [deleteOverlapping_mapped, deleteOverlapping_mapped, deleteOverlapping_mapped,
              deleteOverlapping_mapped] at hdeleted
            rcases hdeleted with rfl | rfl
            · rw [vmDeallocate_mapped, vmDeallocate_mapped]
              exact ⟨[exec], forall_mem_singleton.mpr hfresh, rfl⟩
            · rw [vmDeallocate_mapped, vmDeallocate_mapped]
              exact ⟨[exec, _], forall_mem_cons.mpr
                ⟨hfresh, forall_mem_singleton.mpr hwrite⟩, rfl⟩
          · exact Bool.noConfusion hok
        · next hviews =>
          cases h
          refine .inr ⟨rfl, ⟨address, exec.size⟩, rfl, hwrite, hapart, ?_⟩
          obtain ⟨hok, -⟩ | ⟨-, rfl⟩ :=
            juiceRegisterJitViews_spec (s := mapped _ (mapped exec s)) hviewed hpages hapart hviews
          · exact Bool.noConfusion hok
          · rw [deleteOverlapping_mapped, deleteOverlapping_mapped, deleteOverlapping_mapped,
              deleteOverlapping_mapped]
            rfl

/-- **What `NtWineAllocateJitMemory` can do.** -/
theorem allocate_spec {cfg : Config} {writePtr execPtr : Bool} {size : UInt64} {results : Results}
    {status : NtStatus} (hviewed : Viewed s.views s.map)
    (h : ntWineAllocateJitMemory cfg writePtr execPtr size results s = some (status, t)) :
    (status ≠ .success ∧ Failed cfg.host s t)
      ∨ (status = .success ∧ ∃ write exec, Allocated cfg s t write exec) := by
  have hunchanged : Failed cfg.host s s := ⟨[], forall_mem_nil _, rfl⟩
  unfold ntWineAllocateJitMemory at h
  split at h
  · cases h
    exact .inl ⟨NtStatus.noConfusion, hunchanged⟩
  · next hargs =>
    simp only [not_or] at hargs
    obtain ⟨-, -, hsize, henabled, hbound⟩ := hargs
    have hround : cfg.host.roundSize size.toNat = roundUp cfg.host size.toNat :=
      cfg.host.roundSize_eq (by have := cfg.host.mask_lt; omega)
    have hpos : 0 < size.toNat := Nat.pos_of_ne_zero (fun hzero => hsize (UInt64.toNat_inj.mp hzero))
    split at h
    · cases h
      exact .inl ⟨NtStatus.noConfusion, hunchanged⟩
    · split at h
      · cases h
        exact .inl ⟨NtStatus.noConfusion, hunchanged⟩
      · next hsealed =>
        split at h
        · cases h
          exact .inl ⟨NtStatus.noConfusion, hunchanged⟩
        · dsimp only at h
          split at h
          · exact absurd h (by simp)
          · next hnew =>
            have hdvd : 2 ^ cfg.host.shift ∣ cfg.host.roundSize size.toNat :=
              hround ▸ dvd_roundUp cfg.host size.toNat
            refine (mapPair_spec hviewed (Decidable.not_not.mp hnew) hdvd h).imp_right ?_
            rintro ⟨hstatus, write, hwsize, hwrite, hapart, ht⟩
            exact ⟨hstatus, write, _, Bool.eq_true_of_not_eq_false henabled,
              Bool.eq_false_of_not_eq_true hsealed,
              hround ▸ Nat.lt_of_lt_of_le hpos (le_roundUp cfg.host _), hdvd, hwsize, hwrite,
              Decidable.not_not.mp hnew, hapart, ht⟩

end Juice.Jit
