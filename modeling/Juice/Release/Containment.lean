import Juice.Release.TreeDigest

/-!
# Where a delta can reach

`safe_path` looks at a path of the manifest as a text: it must not be
absolute, and must not contain `..`. Where the path leads is decided later,
by the file system, and an earlier entry may have put a link there. So a
delta can reach outside of the directory it is applied to
(`applyDelta_escapes`), although the script calls such a path unsafe.

It cannot where no entry's path leads over a link (`Straight`): then what an
entry touches is below the directory, whatever else is in the manifest
(`applyDelta_contained`). Two more cases belong to this. `chmod` and zstd
follow a link that is the last part of a path, and an empty path names the
directory itself, so that its temporary file is beside it.
-/

namespace Juice.Release

open List Prog LinkTree

variable {base : List Name} {ps : List (Step Name)}

/-- A physical path below a directory. -/
def Inside (base q : List Name) : Prop := base <+: q ∧ q ≠ base

theorem inside_append {ns : List Name} (h : ns ≠ []) : Inside base (base ++ ns) :=
  ⟨prefix_append _ _, fun heq => h (append_right_eq_self.mp heq)⟩

theorem Inside.below {p q : List Name} (h : Inside base p) (hpq : p <+: q) : Inside base q := by
  refine ⟨h.1.trans hpq, fun heq => h.2 ?_⟩
  subst heq
  exact hpq.eq_of_length_le h.1.length_le

/-! ## The condition -/

/-- **The path of an entry leads straight down**, in the tree as it is
before the entry is carried out. -/
structure Straight (t : Files) (base : List Name) (entry : Entry) : Prop where
  /-- It is not empty. -/
  ne_nil : ∀ path, entry.path = some path → parts path ≠ []
  /-- No part of it but the last is a link. -/
  parents : ∀ path, entry.path = some path → ∀ r : List Name, r ≠ [] →
    r.map .name <+: (parts path).dropLast → ∀ text, t.look (base ++ r) ≠ some (.link text)
  /-- Nor is the last one, if its mode is changed. -/
  mode : entry.kind = some .mode → ∀ path, entry.path = some path → ∀ r : List Name,
    parts path = r.map .name → ∀ text, t.look (base ++ r) ≠ some (.link text)
  /-- Nor is there a link with the name of a file that is being written. -/
  delta : entry.kind = some .patch ∨ entry.kind = some .full → ∀ path, entry.path = some path →
    ∀ (r : List Name) (n : Name), parts path = (r ++ [n]).map .name →
    ∀ text, t.look (base ++ (r ++ [n.delta])) ≠ some (.link text)

/-! ## Steps below a directory -/

/-- The steps of a path that `safe_path` lets through. -/
def Plain (ps : List (Step Name)) : Prop := ∀ s ∈ ps, s ≠ .here ∧ s ≠ .up

theorem Plain.names (h : Plain ps) (hbad : .bad ∉ ps) : ∃ ns : List Name, ps = ns.map .name := by
  induction ps with
  | nil => exact ⟨[], rfl⟩
  | cons s ps ih =>
    obtain ⟨ns, rfl⟩ := ih (fun s' hs' => h s' (mem_cons_of_mem _ hs'))
      (fun hmem => hbad (mem_cons_of_mem _ hmem))
    cases s with
    | name n => exact ⟨n :: ns, rfl⟩
    | up => exact absurd rfl (h .up mem_cons_self).2
    | here => exact absurd rfl (h .here mem_cons_self).1
    | bad => exact absurd mem_cons_self hbad

theorem plain_of_safePath {root : List Name} {name : Text} {destination : List (Step Name)}
    (h : safePath root name = .ok destination) :
    destination = root.map .name ++ parts name ∧ Plain (parts name) := by
  unfold safePath at h
  split at h
  · cases h
  next hno =>
    refine ⟨(Except.ok.inj h).symm, fun s hs => ⟨?_, ?_⟩⟩
    · have := (mem_filter.mp hs).2
      simpa using this
    · rintro rfl
      exact hno (.inr hs)

/-- No part of these steps is a link. -/
def StepsNoLinks (t : Files) (base : List Name) (ps : List (Step Name)) : Prop :=
  ∀ r : List Name, r ≠ [] → r.map .name <+: ps → ∀ text, t.look (base ++ r) ≠ some (.link text)

theorem noLinks_of_steps {t : Files} {ns : List Name} (hbase : t.look base = some .dir)
    (h : StepsNoLinks t base (ns.map .name)) : NoLinks t [] (base ++ ns) := by
  intro r hr hne text
  rw [nil_append]
  rcases prefix_or_prefix_of_prefix hr (prefix_append base ns) with hpre | ⟨r', rfl⟩
  · have hdir : t.look r = some .dir := by
      by_cases heq : r = base
      · rw [heq, hbase]
      · exact t.look_above (by rw [hbase]; simp) hpre heq
    rw [hdir]
    simp
  · by_cases hnil : r' = []
    · rw [hnil, append_nil, hbase]
      simp
    · exact h r' hnil (((prefix_append_right_inj base).mp hr).map _) text

/-- **Steps that lead down**: no part is a link, and the last one neither if
it would be followed. -/
structure Down (t : Files) (base : List Name) (follow : Bool) (ps : List (Step Name)) : Prop where
  ne_nil : ps ≠ []
  plain : Plain ps
  parents : StepsNoLinks t base ps.dropLast
  last : follow = true → StepsNoLinks t base ps

theorem StepsNoLinks.down {t : Files} {follow : Bool} (h : StepsNoLinks t base ps) (hne : ps ≠ [])
    (hplain : Plain ps) : Down t base follow ps :=
  ⟨hne, hplain, fun r hr hpre => h r hr (hpre.trans (List.dropLast_prefix _)), fun _ => h⟩

/-- **Such steps lead below the directory.** -/
theorem Down.inside {t : Files} {p : List Name} {follow : Bool} (hdown : Down t base follow ps)
    (hbase : t.look base = some .dir)
    (h : t.locates route linkLimit follow (base.map .name ++ ps) = .ok p) : Inside base p := by
  unfold Tree.locates at h
  split at h
  · cases h
  next hbad =>
    obtain ⟨ns, rfl⟩ := hdown.plain.names fun hmem => hbad (mem_append_right _ hmem)
    have hne : ns ≠ [] := fun hnil => hdown.ne_nil (by rw [hnil]; rfl)
    have hparents := hdown.parents
    rw [← map_dropLast] at hparents
    rw [← map_append] at h
    have hp : p = [] ++ (base ++ ns) := by
      refine walk_of_noLinks ?_ (fun hfollow => noLinks_of_steps hbase (hdown.last hfollow)) h
      rw [dropLast_append_of_ne_nil hne]
      exact noLinks_of_steps hbase hparents
    rw [hp]
    exact inside_append hne

/-! ## One entry -/

/-- **What has been done since `w₀`**: nothing outside was touched, and the
directory is still there. -/
structure Kept (base : List Name) (w₀ w : World Name Data Target) : Prop where
  touched : ∀ q ∈ w.touched, q ∈ w₀.touched ∨ Inside base q
  base : w.tree.look base = some .dir

/-- … and, before the last thing an entry does, there are no new links. -/
structure Contained (base : List Name) (w₀ w : World Name Data Target) : Prop
    extends Kept base w₀ w where
  links : ∀ q text, w.tree.look q = some (.link text) → w₀.tree.look q = some (.link text)

section Entry

variable {base p : List Name} {w₀ w w' : World Name Data Target} {ps : List (Step Name)}
  {follow : Bool} {P : Node Data Target → Prop} {α : Type} {m : Script α}

theorem Contained.down (hw : Contained base w₀ w) (h : Down w₀.tree base follow ps) :
    Down w.tree base follow ps where
  ne_nil := h.ne_nil
  plain := h.plain
  parents := fun r hr hpre text hlink => h.parents r hr hpre text (hw.links _ _ hlink)
  last := fun hfollow r hr hpre text hlink => h.last hfollow r hr hpre text (hw.links _ _ hlink)

theorem Kept.edit (hw : Kept base w₀ w) (hp : Inside base p) (h : Edit P p w w') :
    Kept base w₀ w' := by
  have htouch : ∀ q ∈ p :: w.touched, q ∈ w₀.touched ∨ Inside base q := fun q hq =>
    (mem_cons.mp hq).elim (fun heq => .inr (heq ▸ hp)) (hw.touched q)
  cases h with
  | touch h => exact h ▸ ⟨htouch, hw.base⟩
  | place node _ h => exact ⟨h.touched ▸ htouch, by rw [h.look, if_neg hp.2.symm, hw.base]⟩
  | remove h =>
    refine ⟨fun q hq => ?_, ?_⟩
    · rcases mem_append.mp (h.touched ▸ hq) with hq | hq
      · exact .inr (hp.below (Tree.prefix_of_mem_below hq))
      · exact hw.touched q hq
    · rw [h.look, if_neg fun hpre => hp.2 (hpre.eq_of_length_le hp.1.length_le), hw.base]

theorem Contained.edit (hw : Contained base w₀ w) (hp : Inside base p)
    (hP : ∀ node, P node → ∀ text, node ≠ .link text) (h : Edit P p w w') :
    Contained base w₀ w' := by
  refine ⟨hw.toKept.edit hp h, fun q text hlink => hw.links q text ?_⟩
  cases h with
  | touch h => exact (congrArg (fun w => w.tree.look q) h).symm.trans hlink
  | place node hnode h =>
    rw [h.look] at hlink
    split at hlink
    · exact absurd (Option.some.inj hlink) (hP node hnode text)
    · exact hlink
  | remove h =>
    rw [h.look] at hlink
    split at hlink
    · cases hlink
    · exact hlink

/-- **A call at a path that leads down**, which makes no link. -/
theorem keeps_of_edits (hdown : Down w₀.tree base follow ps)
    (hP : ∀ node, P node → ∀ text, node ≠ .link text)
    (h : Edits route linkLimit P follow (base.map .name ++ ps) m) :
    Keeps (Contained base w₀) m := by
  intro w hw
  rcases h w with heq | ⟨p, hp, hedit⟩
  · rwa [heq]
  · exact hw.edit ((hw.down hdown).inside hw.base hp) hP hedit

theorem Contained.edited (hw : Contained base w₀ w) (hdown : Down w₀.tree base follow ps)
    {w₁ : World Name Data Target} (hw₁ : Kept base w₀ w₁)
    (h : Edited route linkLimit P w.tree follow (base.map .name ++ ps) w₁ w') :
    Kept base w₀ w' := by
  rcases h with rfl | ⟨p, hp, hedit⟩
  · exact hw₁
  · exact hw₁.edit ((hw.down hdown).inside hw.base hp) hedit

theorem keeps_mkdir (hdown : Down w₀.tree base false ps) :
    Keeps (Contained base w₀) (mkdir route linkLimit (base.map .name ++ ps)) :=
  keeps_of_edits hdown (fun _ hnode _ => by rw [hnode]; simp) mkdir_edits

/-- A directory that is not made may be there already. -/
theorem keeps_unlessDir {I : World Name Data Target → Prop} (path : List (Step Name)) (e : Errno) :
    Keeps I (do if ← isDir route linkLimit path then pure () else fail e : Script Unit) :=
  keeps_bind keeps_isDir fun dir => by
    cases dir with
    | true => exact keeps_pure ()
    | false => exact keeps_fail e

theorem keeps_mkdirOnce (hdown : Down w₀.tree base false ps) :
    Keeps (Contained base w₀) (mkdirs.mkdirOnce (base.map .name ++ ps)) := by
  refine keeps_bind (keeps_attempt (keeps_mkdir hdown)) fun r => ?_
  rcases r with e | _
  · cases e with
    | enoent => exact keeps_fail _
    | _ => exact keeps_unlessDir _ _
  · exact keeps_pure ()

/-- The directory itself exists, so that none above it is made. -/
theorem keeps_mkdirs_base : Keeps (Contained base w₀) (mkdirs (base.map Step.name).reverse) := by
  intro w hw
  have hself : w.tree.locates route linkLimit false (base.map Step.name) = .ok base := by
    unfold Tree.locates
    rw [if_neg (by simp)]
    exact walk_of_dir hw.base
  have hexists : attempt (mkdir route linkLimit (base.map Step.name)) w
      = (.ok (.error .eexist), w) := by
    have hrun : mkdir route linkLimit (base.map Step.name) w = (.error .eexist, w) := by
      rw [mkdir, bind_of_ok (m := locate route linkLimit false _) (congrArg (·, w) hself),
        bind_of_ok (show lookAt base w = (.ok (w.tree.look base), w) from rfl), hw.base]
      rfl
    rw [attempt, hrun]
  cases hrev : (base.map Step.name).reverse with
  | nil =>
    have hnil : base.map Step.name = [] := reverse_eq_nil_iff.mp hrev
    rw [hnil] at hexists
    rw [mkdirs, mkdirs.mkdirOnce, bind_of_ok hexists]
    exact keeps_unlessDir _ _ w hw
  | cons step up =>
    have hback : (step :: up).reverse = base.map Step.name := by
      rw [← hrev, reverse_reverse]
    rw [mkdirs, hback, bind_of_ok hexists]
    exact keeps_unlessDir _ _ w hw

/-- **The directories above a path**: all that are made are below the
directory, which is there. -/
theorem keeps_mkdirs (hplain : Plain ps) (hlinks : StepsNoLinks w₀.tree base ps) :
    Keeps (Contained base w₀) (mkdirs (base.map Step.name ++ ps).reverse) := by
  induction ps using List.reverseRecOn with
  | nil =>
    rw [append_nil]
    exact keeps_mkdirs_base
  | append_singleton ps s ih =>
    have hdown : Down w₀.tree base false (ps ++ [s]) := hlinks.down (by simp) hplain
    have hup := ih (fun s' hs' => hplain s' (mem_append_left _ hs'))
      fun r hr hpre => hlinks r hr (hpre.trans (prefix_append _ _))
    have hrev : (base.map Step.name ++ (ps ++ [s])).reverse
        = s :: (base.map Step.name ++ ps).reverse := by
      rw [← append_assoc, reverse_append, reverse_singleton, singleton_append]
    rw [hrev, mkdirs, ← hrev, reverse_reverse]
    refine keeps_bind (keeps_attempt (keeps_mkdir hdown)) fun r => ?_
    rcases r with e | _
    · cases e with
      | enoent => exact keeps_bind hup fun _ => keeps_mkdirOnce hdown
      | _ => exact keeps_unlessDir _ _
    · exact keeps_pure ()

/-- `unlink` of a path below the directory. -/
theorem keeps_unlinkMissingOk (hdown : Down w₀.tree base false ps) :
    Keeps (Contained base w₀) (unlinkMissingOk (base.map Step.name ++ ps)) := by
  refine keeps_bind (keeps_attempt (keeps_of_edits hdown nofun unlink_edits)) fun r => ?_
  rcases r with e | _
  · cases e with
    | enoent => exact keeps_pure ()
    | _ => exact keeps_fail _
  · exact keeps_pure ()

/-- `chmod` of a path below the directory that is not a link. -/
theorem keeps_chmod {mode : ℕ} (hdown : Down w₀.tree base true ps) :
    Keeps (Contained base w₀) (chmod mode (base.map Step.name ++ ps)) :=
  keeps_of_edits hdown (fun _ ⟨_, hnode⟩ _ => by rw [hnode]; simp) change_edits

/-- All but the last call of an entry. -/
theorem takes_then {β : Type} {f : α → Script β} (hm : Keeps (Contained base w₀) m)
    (hf : ∀ a, Takes (Contained base w₀) (Kept base w₀) (f a)) :
    Takes (Contained base w₀) (Kept base w₀) (m >>= f) :=
  takes_bind hm (fun _ h => h.toKept) hf

theorem takes_of_keeps (hm : Keeps (Contained base w₀) m) :
    Takes (Contained base w₀) (Kept base w₀) m := fun w hw => (hm w hw).toKept

/-- The file that is written, and its way to its place. -/
theorem takes_replaceWith {sha : Sha256} {entry : Entry} {ps' : List (Step Name)}
    {content : Option (List UInt8)} (hdown : Down w₀.tree base false ps)
    (hdown' : ∀ follow, Down w₀.tree base follow ps') :
    Takes (Contained base w₀) (Kept base w₀)
      (replaceWith sha entry (base.map Step.name ++ ps') (base.map Step.name ++ ps) content) := by
  refine takes_then (keeps_field _) fun content => takes_then ?_ fun _ => ?_
  · exact keeps_of_edits (hdown' true) (fun _ ⟨_, hnode⟩ _ => by rw [hnode]; simp) create_edits
  refine takes_then keeps_read fun written => takes_then (keeps_field _) fun expected => ?_
  refine takes_then (keeps_lift _) fun _ => takes_then (keeps_field _) fun mode => ?_
  refine takes_then (keeps_chmod (hdown' true)) fun _ w hw => ?_
  obtain ⟨w₁, hplaced, hremoved⟩ := rename_edits w
  exact hw.edited (hdown' false) (hw.edited hdown hw.toKept hplaced) hremoved

/-- A new link, the last thing its entry does. -/
theorem takes_symlinkTo {target : Text} (hdown : Down w₀.tree base false ps) :
    Takes (Contained base w₀) (Kept base w₀) (symlinkTo target (base.map Step.name ++ ps)) := by
  unfold symlinkTo
  split
  · exact fun w hw => hw.edited hdown hw.toKept (symlink_edits w)
  · exact fun w hw => hw.toKept

/-- What `with_name` makes of a path below the directory. -/
theorem withDelta_eq {ps : List (Step Name)} {replacement : List (Step Name)} (hne : ps ≠ [])
    (hplain : Plain ps) (h : withDelta (base.map Step.name ++ ps) = .ok replacement) :
    ∃ s, replacement = base.map Step.name ++ (ps.dropLast ++ [s])
      ∧ (s = .bad ∨ ∃ n, ps = ps.dropLast ++ [.name n] ∧ s = .name n.delta) := by
  unfold withDelta at h
  rw [List.getLast?_append_of_ne_nil _ hne, List.getLast?_eq_some_getLast hne] at h
  have hlast : ps = ps.dropLast ++ [ps.getLast hne] := (dropLast_append_getLast hne).symm
  have happ : ∀ s : Step Name, (base.map Step.name ++ ps).dropLast ++ [s]
      = base.map Step.name ++ (ps.dropLast ++ [s]) := by
    intro s
    rw [dropLast_append_of_ne_nil hne, append_assoc]
  cases hstep : ps.getLast hne with
  | name n =>
    rw [hstep] at h hlast
    exact ⟨.name n.delta, (Except.ok.inj h).symm.trans (happ _), .inr ⟨n, hlast, rfl⟩⟩
  | bad =>
    rw [hstep] at h
    exact ⟨.bad, (Except.ok.inj h).symm.trans (happ _), .inl rfl⟩
  | up => exact absurd hstep (hplain _ (getLast_mem hne)).2
  | here => exact absurd hstep (hplain _ (getLast_mem hne)).1

end Entry

section Run

variable {sha : Sha256} {zstd : Zstd} {base stage : List Name}

/-- **One entry whose path leads straight down** touches nothing outside. -/
theorem applyEntry_kept {entry : Entry} {w : World Name Data Target}
    (hbase : w.tree.look base = some .dir) (hstraight : Straight w.tree base entry) :
    Kept base w (applyEntry sha zstd base stage entry w).2 := by
  suffices htakes : Takes (Contained base w) (Kept base w)
      (applyEntry sha zstd base stage entry) from
    htakes w ⟨⟨fun _ h => .inl h, hbase⟩, fun _ _ h => h⟩
  have hend : ∀ w₁, Contained base w w₁ → Kept base w w₁ := fun _ h => h.toKept
  refine takes_field hend fun path hpath => takes_lift hend fun destination hsafe => ?_
  obtain ⟨rfl, hplain⟩ := plain_of_safePath hsafe
  have hne := hstraight.ne_nil path hpath
  have hparents : StepsNoLinks w.tree base (parts path).dropLast := hstraight.parents path hpath
  have hplain' : Plain (parts path).dropLast := fun s hs => hplain s (mem_of_mem_dropLast hs)
  have hdown : Down w.tree base false (parts path) := ⟨hne, hplain, hparents, fun h => by cases h⟩
  have hmkdirs := keeps_mkdirs hplain' hparents
  rw [← dropLast_append_of_ne_nil hne] at hmkdirs
  -- the last two steps of a path to a file that is replaced
  have hreplace : entry.kind = some .patch ∨ entry.kind = some .full → ∀ replacement content,
      withDelta (base.map Step.name ++ parts path) = .ok replacement →
      Takes (Contained base w) (Kept base w)
        (replaceWith sha entry replacement (base.map Step.name ++ parts path) content) := by
    intro hkind replacement content hreplacement
    obtain ⟨s, rfl, hs⟩ := withDelta_eq hne hplain hreplacement
    have hlinks : StepsNoLinks w.tree base ((parts path).dropLast ++ [s]) := by
      intro r hr hpre text
      rcases prefix_concat_iff.mp hpre with heq | hpre
      · obtain ⟨r', l, rfl, hr', hl⟩ := map_eq_append_iff.mp heq
        obtain ⟨m, rfl, rfl⟩ := map_eq_singleton_iff.mp hl
        rcases hs with hbad | ⟨n, hpath', hname⟩
        · cases hbad
        · cases hname
          refine hstraight.delta hkind path hpath r' n ?_ text
          rw [map_append, hr']
          exact hpath'
      · exact hparents r hr hpre text
    refine takes_replaceWith hdown fun follow => hlinks.down (by simp)
      (forall_mem_append.mpr ⟨hplain', forall_mem_singleton.mpr ?_⟩)
    rcases hs with rfl | ⟨n, -, rfl⟩ <;> simp
  refine takes_field hend fun kind hkind => ?_
  cases kind with
  | delete =>
    refine takes_of_keeps (keeps_bind keeps_isDir fun dir => keeps_bind keeps_isLink fun link => ?_)
    split
    · exact keeps_of_edits hdown nofun rmtree_edits
    · exact keeps_unlinkMissingOk hdown
  | symlink =>
    refine takes_then hmkdirs fun _ => takes_then (keeps_unlinkMissingOk hdown) fun _ => ?_
    exact takes_then (keeps_field _) fun target => takes_symlinkTo hdown
  | mode =>
    refine takes_of_keeps (keeps_bind hmkdirs fun _ => keeps_bind (keeps_field _) fun mode => ?_)
    refine keeps_chmod ⟨hne, hplain, hparents, fun _ r hr hpre text => ?_⟩
    rw [← dropLast_append_getLast hne] at hpre
    rcases prefix_concat_iff.mp hpre with heq | hpre
    · rw [dropLast_append_getLast hne] at heq
      exact hstraight.mode hkind path hpath r heq.symm text
    · exact hparents r hr hpre text
  | patch =>
    refine takes_then hmkdirs fun _ => takes_then (keeps_field _) fun blob => ?_
    refine takes_lift hend fun replacement hreplacement => ?_
    refine takes_then keeps_read fun dictionary => takes_then keeps_read fun compressed => ?_
    exact hreplace (.inl hkind) replacement _ hreplacement
  | full =>
    refine takes_then hmkdirs fun _ => takes_then (keeps_field _) fun blob => ?_
    refine takes_lift hend fun replacement hreplacement => ?_
    exact takes_then keeps_read fun compressed => hreplace (.inr hkind) replacement _ hreplacement
  | other =>
    refine takes_of_keeps (keeps_bind hmkdirs fun _ => keeps_bind (keeps_field _) fun blob => ?_)
    exact keeps_bind (keeps_lift _) fun _ => keeps_fail _

/-- **Every entry of a run leads straight down** when its turn comes. -/
def AllStraight (sha : Sha256) (zstd : Zstd) (base stage : List Name) :
    List Entry → World Name Data Target → Prop
  | [], _ => True
  | entry :: rest, w => Straight w.tree base entry
    ∧ ∀ w', applyEntry sha zstd base stage entry w = (.ok (), w') →
      AllStraight sha zstd base stage rest w'

/-- **A run of such entries.** -/
theorem applyEntries_kept {entries : List Entry} {w : World Name Data Target}
    (hbase : w.tree.look base = some .dir) (h : AllStraight sha zstd base stage entries w) :
    Kept base w (applyEntries sha zstd base stage entries w).2 := by
  induction entries generalizing w with
  | nil => exact ⟨fun _ hq => .inl hq, hbase⟩
  | cons entry rest ih =>
    obtain ⟨hstraight, hrest⟩ := h
    have hentry : Kept base w (applyEntry sha zstd base stage entry w).2 :=
      applyEntry_kept hbase hstraight
    rw [applyEntries]
    rcases hrun : applyEntry sha zstd base stage entry w with ⟨e | _, w₁⟩
    · rw [hrun] at hentry
      rwa [bind_of_error hrun]
    · rw [hrun] at hentry
      rw [bind_of_ok hrun]
      have hw₂ := ih hentry.base (hrest w₁ hrun)
      exact ⟨fun q hq => (hw₂.touched q hq).elim (hentry.touched q) .inr, hw₂.base⟩

end Run

/-- **A delta whose entries all lead straight down stays inside**: all that
`apply_delta` creates, replaces, changes or deletes, in every state it
reaches, is below the directory it is applied to. -/
theorem applyDelta_contained (sha : Sha256) (zstd : Zstd) (base stage : List Name)
    (manifest : Manifest) (t : Files) (hbase : t.look base = some .dir)
    (h : ∀ entries, manifest.entries = some entries →
      AllStraight sha zstd base stage entries ⟨t, []⟩) :
    ∀ q ∈ (applyDelta sha zstd base stage manifest ⟨t, []⟩).2.touched, Inside base q := by
  have hstart : Kept base ⟨t, []⟩ ⟨t, []⟩ := ⟨fun _ hq => .inl hq, hbase⟩
  have hkept : Takes (· = ⟨t, []⟩) (Kept base ⟨t, []⟩) (applyDelta sha zstd base stage manifest) := by
    refine takes_lift (fun _ hw => hw ▸ hstart) fun _ _ => ?_
    refine takes_field (fun _ hw => hw ▸ hstart) fun entries hentries => ?_
    refine takes_bind (J := Kept base ⟨t, []⟩) ?_ (fun _ h => h)
      fun _ => keeps_bind (keeps_gets _) fun actual => ?_
    · rintro _ rfl
      exact applyEntries_kept hbase (h entries hentries)
    exact keeps_bind (keeps_field _) fun expected => keeps_lift _
  intro q hq
  exact ((hkept _ rfl).touched q hq).resolve_left not_mem_nil

theorem applyDelta_contained_linkDelta :
    Tree.look emptyDir [nameB] = some .dir
      ∧ ∀ q ∈ (applyDelta spelled stored [nameB] [nameA] linkDelta ⟨emptyDir, []⟩).2.touched,
        Inside [nameB] q := by
  refine ⟨by decide +kernel, applyDelta_contained spelled stored [nameB] [nameA] linkDelta emptyDir
    (by decide +kernel) fun entries hentries => ?_⟩
  obtain rfl := Option.some.inj hentries
  have hparts : parts [0x61] = [.name nameA] := by decide +kernel
  refine ⟨⟨?_, ?_, fun h => by simp at h, fun h => by simp at h⟩, fun _ _ => trivial⟩
  · intro path hpath
    obtain rfl := Option.some.inj hpath
    rw [hparts]
    simp
  · intro path hpath r hr hpre
    obtain rfl := Option.some.inj hpath
    rw [hparts, dropLast_singleton, prefix_nil, map_eq_nil_iff] at hpre
    exact absurd hpre hr

/-! ## A delta that escapes -/

/-- An empty directory `/b`, to which a delta is applied, and beside it
`/a` with a file `b`. -/
def beside : Files where
  nodes := [([nameB], .dir), ([nameA], .dir), ([nameA, nameB], .file ⟨0x1a4, []⟩)]
  nodup := by decide
  closed := by
    intro p node h
    simp only [List.mem_cons, List.not_mem_nil, or_false, Prod.mk.injEq] at h
    rcases h with ⟨rfl, -⟩ | ⟨rfl, -⟩ | ⟨rfl, -⟩
    · simp
    · simp
    · simp

/-- A link `a` to `/a`, and then the removal of `a/b`. -/
def escape : Manifest where
  format := some 1
  targetTreeSha256 := none
  entries := some [{ path := some [0x61], kind := some .symlink, target := some [0x2f, 0x61] },
    { path := some [0x61, 0x2f, 0x62], kind := some .delete }]

/-- **The file beside the directory is deleted.** -/
theorem applyDelta_escapes :
    Tree.look beside [nameB] = some .dir
      ∧ [nameA, nameB]
        ∈ (applyDelta spelled stored [nameB] [blobsName] escape ⟨beside, []⟩).2.touched
      ∧ ¬ Inside [nameB] [nameA, nameB] ∧ ¬ [blobsName] <+: [nameA, nameB] := by
  refine ⟨by decide +kernel, by decide +kernel, fun h => ?_, by decide⟩
  have hpre : [nameB] <+: [nameA, nameB] := h.1
  exact absurd hpre (by decide)

end Juice.Release
