import Mathlib.Data.List.Basic

/-!
# Where an entry of an archive goes

The name of an entry is a relative path, with `/` between its components.
`JZSafeDestination` drops the components that say nothing, refuses the
entry when one of the others could leave the destination or means something
else to Windows, and appends what is left to the destination.

Strings are lists of characters here. Of the functions of Foundation,
`stringByStandardizingPath` is taken to drop empty components and `.`, and
to resolve `..` in an absolute path; `stringByAppendingPathComponent:` is
one slash between its parts, since the result is standardized anyway.

`jzSafeDestination_eq_some` says what comes out: the destination, in its
standard form, with the safe components below it. The check of the
prefix at the end fails for one destination only, the root.
-/

namespace Juice.Zip

open List

variable {c : Name} {cs safe : List Name} {entry : List Char}

/-- A component of a path. -/
abbrev Name := List Char

/-- `componentsJoinedByString:@"/"`. -/
def joined (components : List Name) : List Char := List.intercalate ['/'] components

/-- `hasPrefix:@"/"`. -/
def isAbsolute (path : List Char) : Bool := path.head? = some '/'

/-- A component of a path is read, after those of `stack`. -/
def push (absolute : Bool) (stack : List Name) (component : Name) : List Name :=
  if component = [] ∨ component = ['.'] then stack
  else if absolute ∧ component = ['.', '.'] then stack.dropLast
  else stack ++ [component]

/-- The components of a path in its standard form. -/
def resolved (path : List Char) : List Name :=
  (path.splitOn '/').foldl (push (isAbsolute path)) []

/-- `stringByStandardizingPath`. -/
def standardizingPath (path : List Char) : List Char :=
  (if isAbsolute path then ['/'] else []) ++ joined (resolved path)

/-- `stringByAppendingPathComponent:`. -/
def appendingPathComponent (root component : List Char) : List Char :=
  if root = [] then component else root ++ '/' :: component

/-- The components of a path that name something. -/
def pathComponents (path : List Char) : List Name :=
  (path.splitOn '/').filter (· ≠ [])

/-- `lastPathComponent`. -/
def lastPathComponent (path : List Char) : List Char := (pathComponents path).getLastD []

/-- The loop of `JZSafeDestination` over the components of an entry. -/
def safeComponents : List Name → Option (List Name)
  | [] => some []
  | component :: rest =>
    if component = [] ∨ component = ['.'] then safeComponents rest
    else if component = ['.', '.'] ∨ ':' ∈ component then none
    else (safeComponents rest).map (component :: ·)

/-- **`JZSafeDestination`.** -/
def jzSafeDestination (root entry : List Char) : Option (List Char) :=
  if entry = [] ∨ isAbsolute entry then none
  else if '\x00' ∈ entry then none
  else match safeComponents (entry.splitOn '/') with
    | none => none
    | some safe =>
      if safe = [] then none
      else
        let path := appendingPathComponent root (joined safe)
        let standardRoot := standardizingPath root
        let standardPath := standardizingPath path
        if (standardRoot ++ ['/']).isPrefixOf standardPath then some standardPath else none

/-- `JZCollisionKey`, where `folded` is canonical precomposition followed by
lowercasing. -/
def jzCollisionKey (folded : List Char → List Char) (path : List Char) : List Char :=
  folded (standardizingPath path)

/-! ## Components -/

/-- **A component that is safe.** -/
@[mk_iff]
structure IsSafe (c : Name) : Prop where
  ne_nil : c ≠ []
  ne_dot : c ≠ ['.']
  ne_dots : c ≠ ['.', '.']
  colon : ':' ∉ c
  slash : '/' ∉ c
  nul : '\x00' ∉ c

instance (c : Name) : Decidable (IsSafe c) := decidable_of_iff _ (isSafe_iff c).symm

theorem slash_of_mem_splitOn {s : List Char} (h : c ∈ s.splitOn '/') : '/' ∉ c := by
  induction s generalizing c with
  | nil =>
    rw [splitOn_nil, mem_singleton] at h
    rw [h]
    exact not_mem_nil
  | cons x s ih =>
    rw [splitOn_cons_eq_if_modifyHead] at h
    split at h
    · rcases mem_cons.mp h with rfl | h
      · exact not_mem_nil
      · exact ih h
    · rename_i hx
      cases hs : s.splitOn '/' with
      | nil => exact absurd hs (splitOn_ne_nil _ _)
      | cons d ds =>
        rw [hs] at h ih
        rcases mem_cons.mp h with rfl | h
        · intro hmem
          rcases mem_cons.mp hmem with rfl | hmem
          · exact hx (beq_self_eq_true _)
          · exact ih mem_cons_self hmem
        · exact ih (mem_cons_of_mem _ h)

theorem mem_of_mem_splitOn {s : List Char} (h : c ∈ s.splitOn '/') {x : Char} (hx : x ∈ c) :
    x ∈ s := by
  induction s generalizing c with
  | nil =>
    rw [splitOn_nil, mem_singleton] at h
    rwa [h] at hx
  | cons y s ih =>
    rw [splitOn_cons_eq_if_modifyHead] at h
    split at h
    · rcases mem_cons.mp h with rfl | h
      · exact absurd hx not_mem_nil
      · exact mem_cons_of_mem _ (ih h hx)
    · cases hs : s.splitOn '/' with
      | nil => exact absurd hs (splitOn_ne_nil _ _)
      | cons d ds =>
        rw [hs] at h ih
        rcases mem_cons.mp h with rfl | h
        · rcases mem_cons.mp hx with rfl | hx
          · exact mem_cons_self
          · exact mem_cons_of_mem _ (ih mem_cons_self hx)
        · exact mem_cons_of_mem _ (ih (mem_cons_of_mem _ h) hx)

/-- What the loop keeps is safe. -/
theorem isSafe_of_safeComponents (h : safeComponents cs = some safe)
    (hcs : ∀ c ∈ cs, '/' ∉ c ∧ '\x00' ∉ c) : ∀ c ∈ safe, IsSafe c := by
  induction cs generalizing safe with
  | nil =>
    rw [← Option.some.inj h]
    exact fun _ hc => absurd hc not_mem_nil
  | cons d ds ih =>
    have hds := fun c hc => hcs c (mem_cons_of_mem _ hc)
    unfold safeComponents at h
    split at h
    · exact ih h hds
    · rename_i hskip
      split at h
      · exact nomatch h
      · rename_i hbad
        obtain ⟨safe', hsafe, rfl⟩ := Option.map_eq_some_iff.mp h
        rw [not_or] at hskip hbad
        have hd := hcs d mem_cons_self
        intro c hc
        rcases mem_cons.mp hc with rfl | hc
        · exact ⟨hskip.1, hskip.2, hbad.1, hbad.2, hd.1, hd.2⟩
        · exact ih hsafe hds c hc

/-- The loop keeps safe components, and drops empty ones. -/
theorem safeComponents_eq (h : ∀ c ∈ cs, c = [] ∨ IsSafe c) :
    safeComponents cs = some (cs.filter (· ≠ [])) := by
  induction cs with
  | nil => rfl
  | cons c cs ih =>
    have hcs := ih (fun d hd => h d (mem_cons_of_mem _ hd))
    unfold safeComponents
    rcases h c mem_cons_self with rfl | hc
    · rw [if_pos (Or.inl rfl), hcs]
      rfl
    · rw [if_neg (not_or.mpr ⟨hc.ne_nil, hc.ne_dot⟩), if_neg (not_or.mpr ⟨hc.ne_dots, hc.colon⟩),
        hcs, filter_cons_of_pos (by simpa using hc.ne_nil)]
      rfl

/-! ## Joining -/

theorem joined_append {xs ys : List Name} (hx : xs ≠ []) (hy : ys ≠ []) :
    joined (xs ++ ys) = joined xs ++ '/' :: joined ys := by
  induction xs with
  | nil => exact absurd rfl hx
  | cons x xs ih =>
    by_cases hnil : xs = []
    · rw [hnil]
      show List.intercalate ['/'] (x :: ys) = List.intercalate ['/'] [x] ++ '/' :: joined ys
      rw [intercalate_cons_of_ne_nil hy, intercalate_singleton, append_assoc]
      rfl
    · show List.intercalate ['/'] (x :: (xs ++ ys))
        = List.intercalate ['/'] (x :: xs) ++ '/' :: joined ys
      rw [intercalate_cons_of_ne_nil (append_ne_nil_of_left_ne_nil hnil _),
        intercalate_cons_of_ne_nil hnil, append_assoc (x ++ ['/'])]
      exact congrArg _ (ih hnil)

theorem splitOn_joined (h : ∀ c ∈ cs, '/' ∉ c) (hne : cs ≠ []) :
    (joined cs).splitOn '/' = cs := splitOn_intercalate '/' h hne

/-- What is joined from components does not begin with a slash. -/
theorem isAbsolute_joined (h : ∀ c ∈ cs, c ≠ [] ∧ '/' ∉ c) : isAbsolute (joined cs) = false := by
  cases cs with
  | nil => rfl
  | cons c cs =>
    obtain ⟨hne, hslash⟩ := h c mem_cons_self
    cases c with
    | nil => exact absurd rfl hne
    | cons x c =>
      have hx : x ≠ '/' := fun heq => hslash (heq ▸ mem_cons_self)
      unfold joined
      rw [intercalate_cons_cons_left]
      exact decide_eq_false (fun heq => hx (Option.some.inj heq))

/-! ## Standard paths -/

/-- A component that stays in a standard path. -/
def Kept (absolute : Bool) (c : Name) : Prop :=
  c ≠ [] ∧ c ≠ ['.'] ∧ ¬ (absolute ∧ c = ['.', '.'])

theorem foldl_push {absolute : Bool} (h : ∀ c ∈ cs, Kept absolute c) (stack : List Name) :
    cs.foldl (push absolute) stack = stack ++ cs := by
  induction cs generalizing stack with
  | nil => exact (append_nil _).symm
  | cons c cs ih =>
    obtain ⟨hne, hdot, hdots⟩ := h c mem_cons_self
    rw [foldl_cons, ih (fun d hd => h d (mem_cons_of_mem _ hd)), push,
      if_neg (not_or.mpr ⟨hne, hdot⟩), if_neg hdots, append_assoc]
    rfl

theorem kept_of_mem_foldl {absolute : Bool} {stack : List Name} (hcs : ∀ c ∈ cs, '/' ∉ c)
    (hst : ∀ c ∈ stack, Kept absolute c ∧ '/' ∉ c) :
    ∀ c ∈ cs.foldl (push absolute) stack, Kept absolute c ∧ '/' ∉ c := by
  induction cs generalizing stack with
  | nil => exact hst
  | cons d ds ih =>
    refine ih (fun c hc => hcs c (mem_cons_of_mem _ hc)) ?_
    unfold push
    split
    · exact hst
    · rename_i hskip
      split
      · exact fun c hc => hst c (dropLast_subset _ hc)
      · rename_i hdots
        rw [not_or] at hskip
        exact forall_mem_append.mpr ⟨hst, forall_mem_singleton.mpr
          ⟨⟨hskip.1, hskip.2, hdots⟩, hcs d mem_cons_self⟩⟩

theorem kept_of_mem_resolved {path : List Char} (h : c ∈ resolved path) :
    Kept (isAbsolute path) c ∧ '/' ∉ c :=
  kept_of_mem_foldl (fun _ hc => slash_of_mem_splitOn hc)
    (fun _ hc => absurd hc not_mem_nil) c h

theorem IsSafe.kept (h : IsSafe c) (absolute : Bool) : Kept absolute c :=
  ⟨h.ne_nil, h.ne_dot, fun hd => h.ne_dots hd.2⟩

/-- The path of a list of components below a destination. -/
def located (root : List Char) (safe : List Name) : List Char :=
  (if isAbsolute root then ['/'] else []) ++ joined (resolved root ++ safe)

section Located

variable {root : List Char} {safe : List Name}

theorem mem_located (hsafe : ∀ c ∈ safe, IsSafe c) :
    ∀ c ∈ resolved root ++ safe, Kept (isAbsolute root) c ∧ '/' ∉ c :=
  forall_mem_append.mpr ⟨fun _ => kept_of_mem_resolved,
    fun c hc => ⟨(hsafe c hc).kept _, (hsafe c hc).slash⟩⟩

theorem isAbsolute_located (hsafe : ∀ c ∈ safe, IsSafe c) :
    isAbsolute (located root safe) = isAbsolute root := by
  unfold located
  cases habs : isAbsolute root with
  | true => rfl
  | false =>
    exact isAbsolute_joined (fun c hc => ⟨(mem_located hsafe c hc).1.1, (mem_located hsafe c hc).2⟩)

/-- The components of a path of components. -/
theorem splitOn_located (hsafe : ∀ c ∈ safe, IsSafe c) :
    (located root safe).splitOn '/' = (if isAbsolute root then [[]] else [])
      ++ (if resolved root ++ safe = [] then [[]] else resolved root ++ safe) := by
  have hslash : ∀ c ∈ resolved root ++ safe, '/' ∉ c := fun c hc => (mem_located hsafe c hc).2
  have hsplit : (joined (resolved root ++ safe)).splitOn '/'
      = if resolved root ++ safe = [] then [[]] else resolved root ++ safe := by
    split
    · rename_i hnil
      rw [hnil]
      rfl
    · exact splitOn_joined hslash ‹_›
  rw [← hsplit, located]
  split
  · rw [show ['/'] ++ joined (resolved root ++ safe) = [] ++ '/' :: joined (resolved root ++ safe)
      from rfl, splitOn_append_cons_self, splitOn_nil]
  · rfl

/-- **The components of a destination**, as the file system sees them. -/
theorem pathComponents_located (hsafe : ∀ c ∈ safe, IsSafe c) :
    pathComponents (located root safe) = resolved root ++ safe := by
  have hall : (resolved root ++ safe).filter (· ≠ []) = resolved root ++ safe :=
    filter_eq_self.mpr (fun c hc => by simpa using (mem_located hsafe c hc).1.1)
  have hif : (if resolved root ++ safe = [] then [[]] else resolved root ++ safe).filter (· ≠ [])
      = resolved root ++ safe := by
    split
    · rename_i hnil
      rw [hnil]
      rfl
    · exact hall
  unfold pathComponents
  rw [splitOn_located hsafe, filter_append, hif]
  split <;> rfl

/-- **A standard path is standard.** -/
theorem standardizingPath_located (hsafe : ∀ c ∈ safe, IsSafe c) :
    standardizingPath (located root safe) = located root safe := by
  have hres : resolved (located root safe) = resolved root ++ safe := by
    have hkept : ∀ c ∈ resolved root ++ safe, Kept (isAbsolute root) c :=
      fun c hc => (mem_located hsafe c hc).1
    unfold resolved
    rw [isAbsolute_located hsafe, splitOn_located hsafe, foldl_append]
    have hskip : (if isAbsolute root then [[]] else [] : List Name).foldl
        (push (isAbsolute root)) [] = [] := by split <;> rfl
    rw [hskip]
    split
    · rename_i hnil
      exact hnil.symm
    · rw [foldl_push hkept, nil_append]
      rfl
  rw [standardizingPath, hres, isAbsolute_located hsafe]
  rfl

theorem standardizingPath_root : standardizingPath root = located root [] := by
  rw [located, append_nil]
  rfl

/-- Appending components to the root and standardizing. -/
theorem standardizingPath_append (hsafe : ∀ c ∈ safe, IsSafe c) (hne : safe ≠ []) :
    standardizingPath (appendingPathComponent root (joined safe)) = located root safe := by
  have hslash : ∀ c ∈ safe, '/' ∉ c := fun c hc => (hsafe c hc).slash
  have hrel : isAbsolute (joined safe) = false :=
    isAbsolute_joined (fun c hc => ⟨(hsafe c hc).ne_nil, (hsafe c hc).slash⟩)
  unfold appendingPathComponent located
  split
  · rename_i hroot
    rw [hroot, standardizingPath, hrel, resolved, splitOn_joined hslash hne,
      foldl_push (fun c hc => (hsafe c hc).kept _)]
    rfl
  · rename_i hroot
    have habs : isAbsolute (root ++ '/' :: joined safe) = isAbsolute root := by
      cases root with
      | nil => exact absurd rfl hroot
      | cons x r => rfl
    rw [standardizingPath, habs, resolved, habs, splitOn_append_cons_self, foldl_append,
      splitOn_joined hslash hne, foldl_push (fun c hc => (hsafe c hc).kept _)]
    rfl

/-- The check of the prefix refuses the root only. -/
theorem isPrefixOf_located (hsafe : ∀ c ∈ safe, IsSafe c) (hne : safe ≠ []) :
    (standardizingPath root ++ ['/']).isPrefixOf (located root safe) ↔ resolved root ≠ [] := by
  rw [List.isPrefixOf_iff_prefix, standardizingPath_root, located, located, append_nil,
    append_assoc, prefix_append_right_inj]
  constructor
  · intro hpre hnil
    rw [hnil] at hpre
    have habs := isAbsolute_joined
      (fun c hc => ⟨(hsafe c hc).ne_nil, (hsafe c hc).slash⟩ : ∀ c ∈ safe, c ≠ [] ∧ '/' ∉ c)
    obtain ⟨t, ht⟩ := hpre
    rw [nil_append] at ht
    rw [← ht] at habs
    exact nomatch habs
  · intro hroot
    rw [joined_append hroot hne]
    exact (prefix_append_right_inj _).mpr ⟨joined safe, rfl⟩

end Located

/-! ## `JZSafeDestination` -/

/-- **An entry with the safe components `safe`.** -/
structure Leads (entry : List Char) (safe : List Name) : Prop where
  ne_nil : entry ≠ []
  relative : isAbsolute entry = false
  nul : '\x00' ∉ entry
  components : safeComponents (entry.splitOn '/') = some safe
  some_component : safe ≠ []

theorem Leads.isSafe (h : Leads entry safe) : ∀ c ∈ safe, IsSafe c :=
  isSafe_of_safeComponents h.components (fun _ hc =>
    ⟨slash_of_mem_splitOn hc, fun hx => h.nul (mem_of_mem_splitOn hc hx)⟩)

theorem Leads.unique {safe' : List Name} (h : Leads entry safe) (h' : Leads entry safe') :
    safe = safe' :=
  Option.some.inj (h.components.symm.trans h'.components)

/-- **What `JZSafeDestination` returns**: the safe components of the entry,
below the destination. -/
theorem jzSafeDestination_eq_some {root path : List Char} :
    jzSafeDestination root entry = some path
      ↔ ∃ safe, Leads entry safe ∧ resolved root ≠ [] ∧ path = located root safe := by
  constructor
  · intro h
    unfold jzSafeDestination at h
    split at h
    · exact nomatch h
    rename_i hfirst
    rw [not_or, Bool.not_eq_true] at hfirst
    split at h
    · exact nomatch h
    rename_i hnul
    split at h
    · exact nomatch h
    rename_i safe hcomp
    split at h
    · exact nomatch h
    rename_i hne
    have hleads : Leads entry safe := ⟨hfirst.1, hfirst.2, hnul, hcomp, hne⟩
    dsimp only at h
    rw [standardizingPath_append hleads.isSafe hne] at h
    split at h
    · rename_i hpre
      exact ⟨safe, hleads, (isPrefixOf_located hleads.isSafe hne).mp hpre, (Option.some.inj h).symm⟩
    · exact nomatch h
  · rintro ⟨safe, hleads, hroot, rfl⟩
    have hfirst : ¬ (entry = [] ∨ isAbsolute entry = true) := by
      rw [hleads.relative]
      exact not_or.mpr ⟨hleads.ne_nil, nofun⟩
    unfold jzSafeDestination
    rw [if_neg hfirst, if_neg hleads.nul, hleads.components]
    dsimp only
    rw [if_neg hleads.some_component,
      standardizingPath_append hleads.isSafe hleads.some_component,
      if_pos ((isPrefixOf_located hleads.isSafe hleads.some_component).mpr hroot)]

end Juice.Zip
