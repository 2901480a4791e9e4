import Juice.Bundle.LoadCommands

/-!
# The directory is self-contained

When the script ends without an error, a library of the directory finds the
others in it: no entry is a link, and a dependency on a name of the
directory leads to a file that holds what this name stood for.

There are three phases, and each is a step between two states of the
directory. `FilesPatched` changes only the content of files,
`LinksReplaced` puts copies in place of links, and `AliasesCopied` adds new
names. The order is what makes the result right: a copy is taken of a file
that does not change any more. The last two are loops over copies, whose
sources are not among their destinations (`wp_copyEach`).

A link resolves by `Resolves` through as many links as it takes.
-/

namespace Juice.Bundle

open List Prog ByteSeq

/-! ## Links -/

/-- **The path `name` leads to the entry `target`**, over links or none. -/
inductive Resolves (follow : Text → Lead) (d : Directory) : Text → Text → Prop
  | here {name : Text} {node : Node} (h : d.lookup name = some node)
      (hnode : ∀ text, node ≠ .link text) : Resolves follow d name name
  | link {name text next target : Text} (h : d.lookup name = some (.link text))
      (hlead : follow text = .entry next) (hnext : Resolves follow d next target) :
      Resolves follow d name target

section Resolve

variable {follow : Text → Lead} {d d' : Directory} {limit : ℕ} {name target : Text}

theorem resolveWithin_of_node {node : Node} (h : d.lookup name = some node)
    (hnode : ∀ text, node ≠ .link text) : resolveWithin follow d limit name = .entry name := by
  unfold resolveWithin
  rw [h]
  cases node with
  | link text => exact absurd rfl (hnode text)
  | file content => rfl
  | other => rfl

theorem resolveWithin_of_link {text next : Text} (h : d.lookup name = some (.link text))
    (hlead : follow text = .entry next) :
    resolveWithin follow d (limit + 1) name = resolveWithin follow d limit next := by
  rw [resolveWithin, h]
  simp only [hlead]

theorem resolves_of_resolveWithin (h : resolveWithin follow d limit name = .entry target) :
    Resolves follow d name target := by
  induction limit, name using resolveWithin.induct follow d with
  | case1 limit name hnone => simp [resolveWithin, hnone] at h
  | case2 limit name text hlink hlead => simp [resolveWithin, hlink, hlead] at h
  | case3 limit name text hlink other hlead => simp [resolveWithin, hlink, hlead] at h
  | case4 name text hlink next hlead => simp [resolveWithin, hlink, hlead] at h
  | case5 name text hlink next hlead limit ih =>
    rw [resolveWithin_of_link hlink hlead] at h
    exact .link hlink hlead (ih h)
  | case6 limit name node hnolink hnode =>
    rw [resolveWithin_of_node hnode hnolink] at h
    cases h
    exact .here hnode hnolink

/-- A directory with the same links. -/
theorem Resolves.of_sameLinks (h : Resolves follow d' name target)
    (hlink : ∀ name text, d'.lookup name = some (.link text) → d.lookup name = some (.link text))
    (hnode : ∀ name node, d'.lookup name = some node → (∀ text, node ≠ .link text) →
      ∃ node', d.lookup name = some node' ∧ ∀ text, node' ≠ .link text) :
    Resolves follow d name target := by
  induction h with
  | here h hno =>
    obtain ⟨node', h', hno'⟩ := hnode _ _ h hno
    exact .here h' hno'
  | link h hlead _ ih => exact .link (hlink _ _ h) hlead ih

end Resolve

/-! ## Copies -/

section Copy

variable {follow : Text → Lead} {d : Directory} {content : List UInt8} {source destination : Text}

/-- One entry has become a copy of another. -/
structure Copied (d d' : Directory) (source destination : Text) : Prop where
  copy : d'.lookup destination = d.lookup source
  same : ∀ name, name ≠ destination → d'.lookup name = d.lookup name

theorem wp_readBytes {path : Text} {Q : List UInt8 → Directory → Prop}
    {E : Failure → Directory → Prop} (h : d.lookup path = some (.file content)) (hQ : Q content d) :
    (readBytes path).wp Q E d := by
  unfold readBytes
  refine wp_bind.mpr (wp_gets.mpr ?_)
  rw [h]
  exact wp_pure.mpr hQ

theorem wp_copy (h : d.lookup source = some (.file content)) :
    (copy follow source destination).wp
      (fun _ d' => d' = d.insert destination (.file content)) (fun _ _ => True) d := by
  have hresolve : resolve follow d source = .entry source :=
    resolveWithin_of_node h fun _ => Node.noConfusion
  unfold copy
  refine wp_bind.mpr (wp_gets.mpr ?_)
  rw [hresolve]
  refine wp_bind.mpr (wp_readBytes h ?_)
  exact wp_modify.mpr rfl

theorem copied_insert {d₁ : Directory} (h : d.lookup source = some (.file content))
    (hsame : ∀ name, name ≠ destination → d₁.lookup name = d.lookup name) :
    Copied d (d₁.insert destination (.file content)) source destination where
  copy := (AList.lookup_insert _).trans h.symm
  same name hne := (AList.lookup_insert_ne hne).trans (hsame name hne)

/-- **A copy in place of a link.** -/
theorem wp_replaceLink {target entry : Text} (hne : target ≠ entry)
    (h : d.lookup target = some (.file content)) :
    (replaceLink follow target entry).wp (fun _ d' => Copied d d' target entry)
      (fun _ _ => True) d := by
  unfold replaceLink
  refine wp_bind.mpr (wp_modify.mpr ?_)
  refine wp_imp (wp_copy ((AList.lookup_erase_ne hne).trans h)) ?_ fun _ _ _ => trivial
  rintro - d' rfl
  exact copied_insert h fun name hname => AList.lookup_erase_ne hname

/-- **A copy under an alias.** -/
theorem wp_copyAlias (h : d.lookup source = some (.file content)) :
    (copyAlias follow source destination).wp (fun _ d' => Copied d d' source destination)
      (fun _ _ => True) d := by
  unfold copyAlias
  refine wp_bind.mpr (wp_gets.mpr (wp_bind.mpr (wp_ensure.mpr ⟨fun _ => ?_, fun _ => trivial⟩)))
  refine wp_bind.mpr (wp_gets.mpr (wp_bind.mpr (wp_ensure.mpr ⟨fun _ => ?_, fun _ => trivial⟩)))
  refine wp_imp (wp_copy h) ?_ fun _ _ _ => trivial
  rintro - d' rfl
  exact copied_insert h fun _ _ => rfl

/-- **A loop over copies** makes each destination a copy of its source as
it was before the loop, when no source is a destination. -/
theorem wp_copyEach {step : Text → Text → Script Unit}
    (hstep : ∀ (d : Directory) source destination content, source ≠ destination →
      d.lookup source = some (.file content) →
      (step source destination).wp (fun _ d' => Copied d d' source destination)
        (fun _ _ => True) d)
    {pairs : List (Text × Text)} (hnodup : (pairs.map Prod.snd).Nodup)
    (hapart : ∀ p ∈ pairs, p.1 ∉ pairs.map Prod.snd)
    (hfile : ∀ p ∈ pairs, ∃ content, d.lookup p.1 = some (.file content)) :
    (copyEach step pairs).wp
      (fun _ d' => (∀ p ∈ pairs, d'.lookup p.2 = d.lookup p.1)
        ∧ ∀ name, name ∉ pairs.map Prod.snd → d'.lookup name = d.lookup name)
      (fun _ _ => True) d := by
  induction pairs generalizing d with
  | nil => exact wp_pure.mpr ⟨fun _ h => absurd h not_mem_nil, fun _ _ => rfl⟩
  | cons p rest ih =>
    obtain ⟨source, destination⟩ := p
    obtain ⟨content, hcontent⟩ := hfile _ mem_cons_self
    rw [map_cons] at hnodup hapart ⊢
    obtain ⟨hnotin, hnodup⟩ := nodup_cons.mp hnodup
    have hne : source ≠ destination := fun heq =>
      hapart _ mem_cons_self (heq ▸ mem_cons_self)
    -- the sources that are left are as they were
    have hsource : ∀ p ∈ rest, p.1 ≠ destination ∧ p.1 ∉ rest.map Prod.snd := fun p hp =>
      ne_and_not_mem_of_not_mem_cons (hapart p (mem_cons_of_mem _ hp))
    refine wp_bind.mpr (wp_imp (hstep d source destination content hne hcontent) ?_
      fun _ _ _ => trivial)
    rintro - d₁ hcopied
    have hrest := @ih d₁ hnodup (fun p hp => (hsource p hp).2) fun p hp => by
      rw [hcopied.same _ (hsource p hp).1]
      exact hfile p (mem_cons_of_mem _ hp)
    refine wp_imp hrest ?_ fun _ _ _ => trivial
    rintro - d' ⟨hcopies, hsame⟩
    refine ⟨fun p hp => ?_, fun name hname => ?_⟩
    · rcases mem_cons.mp hp with rfl | hp
      · exact (hsame _ hnotin).trans hcopied.copy
      · exact (hcopies p hp).trans (hcopied.same _ (hsource p hp).1)
    · obtain ⟨hname, hname'⟩ := ne_and_not_mem_of_not_mem_cons hname
      exact (hsame _ hname').trans (hcopied.same _ hname)

end Copy

/-! ## The phases -/

section Phases

variable {follow : Text → Lead} {available : List Text} {d d₁ d₂ d' : Directory}

/-- **The first phase**: files are patched where they are. -/
structure FilesPatched (d d₁ : Directory) (aliases : AliasTable available) : Prop where
  files : ∀ name data, d.lookup name = some (.file data) →
    ∃ data', d₁.lookup name = some (.file data') ∧ Patched available aliases.Names data data'
  same : ∀ name, (∀ data, d.lookup name ≠ some (.file data)) → d₁.lookup name = d.lookup name

/-- **The second phase**: a link becomes a copy of what it leads to. -/
structure LinksReplaced (follow : Text → Lead) (d₁ d₂ : Directory) : Prop where
  links : ∀ name text, d₁.lookup name = some (.link text) →
    ∃ target content, Resolves follow d₁ name target ∧ d₁.lookup target = some (.file content)
      ∧ d₂.lookup name = some (.file content)
  same : ∀ name, (∀ text, d₁.lookup name ≠ some (.link text)) → d₂.lookup name = d₁.lookup name

/-- **The third phase**: an alias becomes a copy of its target. -/
structure AliasesCopied (d₂ d' : Directory) (aliases : AliasTable available) : Prop where
  copies : ∀ target name, aliases.byTarget.lookup target = some name →
    d'.lookup name = d₂.lookup target
  same : ∀ name, (∀ target, aliases.byTarget.lookup target ≠ some name) →
    d'.lookup name = d₂.lookup name

/-- **One file.** -/
theorem wp_patchFile {path : Text} {aliases : AliasTable available} {data : List UInt8}
    (h : d.lookup path = some (.file data)) :
    (patchFile path aliases).wp
      (fun r d₁ => aliases.Grows r.2
        ∧ (∃ data', d₁.lookup path = some (.file data') ∧ Patched available r.2.Names data data')
        ∧ ∀ name, name ≠ path → d₁.lookup name = d.lookup name)
      (fun _ _ => True) d := by
  unfold patchFile
  refine wp_bind.mpr (wp_readBytes h (wp_bind.mpr (wp_lift.mpr ⟨fun p hp => ?_, fun _ _ => trivial⟩)))
  obtain ⟨hpatched, hgrows, hsame⟩ := patchOne_spec hp
  split
  next hzero =>
    rw [hsame hzero] at hpatched
    exact wp_pure.mpr ⟨hgrows, ⟨data, h, hpatched⟩, fun _ _ => rfl⟩
  next =>
    refine wp_bind.mpr (wp_modify.mpr (wp_pure.mpr ?_))
    exact ⟨hgrows, ⟨p.data, AList.lookup_insert _, hpatched⟩, fun _ hne => AList.lookup_insert_ne hne⟩

/-- **The loop over the files.** -/
theorem wp_patchFiles {paths : List Text} {patchedFiles rewrittenCommands : ℕ}
    {aliases : AliasTable available} (hnodup : paths.Nodup)
    (hfiles : ∀ path ∈ paths, ∃ data, d.lookup path = some (.file data)) :
    (patchFiles paths patchedFiles rewrittenCommands aliases).wp
      (fun r d₁ => aliases.Grows r.2.2
        ∧ (∀ path ∈ paths, ∀ data, d.lookup path = some (.file data) →
          ∃ data', d₁.lookup path = some (.file data') ∧ Patched available r.2.2.Names data data')
        ∧ ∀ name, name ∉ paths → d₁.lookup name = d.lookup name)
      (fun _ _ => True) d := by
  induction paths generalizing d patchedFiles rewrittenCommands aliases with
  | nil =>
    exact wp_pure.mpr ⟨.refl _, fun _ h => absurd h not_mem_nil, fun _ _ => rfl⟩
  | cons path rest ih =>
    obtain ⟨hnotin, hnodup⟩ := nodup_cons.mp hnodup
    obtain ⟨data, hdata⟩ := hfiles _ mem_cons_self
    refine wp_bind.mpr (wp_imp (wp_patchFile hdata) ?_ fun _ _ _ => trivial)
    rintro ⟨count, aliases₁⟩ d₁ ⟨hgrows, ⟨data', hdata', hpatched⟩, hsame⟩
    -- the files that are left are as they were
    have hrest : ∀ name ∈ rest, d₁.lookup name = d.lookup name := fun name hname =>
      hsame name fun heq => hnotin (heq ▸ hname)
    refine wp_imp (ih hnodup fun name hname => ?_) ?_ fun _ _ _ => trivial
    · rw [hrest name hname]
      exact hfiles name (mem_cons_of_mem _ hname)
    · rintro ⟨_, _, aliases₂⟩ d₂ ⟨hgrows', hfiles', hsame'⟩
      refine ⟨hgrows.trans hgrows', fun name hname content hcontent => ?_, fun name hname => ?_⟩
      · rcases mem_cons.mp hname with rfl | hname
        · rw [hdata] at hcontent
          cases hcontent
          exact ⟨data', (hsame' _ hnotin).trans hdata', hpatched.mono fun _ _ _ => hgrows'.names⟩
        · exact hfiles' name hname content ((hrest name hname).trans hcontent)
      · obtain ⟨hne, hname⟩ := ne_and_not_mem_of_not_mem_cons hname
        exact (hsame' name hname).trans (hsame name hne)

theorem isRegular_iff {name : Text} :
    isRegular d name = true ↔ ∃ data, d.lookup name = some (.file data) := by
  unfold isRegular
  split
  next data h => exact iff_of_true rfl ⟨data, h⟩
  next h => exact iff_of_false Bool.false_ne_true fun ⟨data, hdata⟩ => h data hdata

theorem mem_keys_of_lookup {name : Text} {node : Node} (h : d.lookup name = some node) :
    name ∈ d.keys := by
  refine AList.mem_keys.mp (AList.lookup_isSome.mp ?_)
  rw [h]
  rfl

theorem wp_filesPatched (le : Text → Text → Prop) [DecidableRel le] :
    (patchFiles ((d.keys.filter (isRegular d)).insertionSort le) 0 0 (AliasTable.init d.keys)).wp
      (fun r d₁ => FilesPatched d d₁ r.2.2) (fun _ _ => True) d := by
  have hmem : ∀ name, name ∈ (d.keys.filter (isRegular d)).insertionSort le
      ↔ ∃ data, d.lookup name = some (.file data) := by
    intro name
    rw [mem_insertionSort, mem_filter, isRegular_iff]
    exact and_iff_right_of_imp fun ⟨_, h⟩ => mem_keys_of_lookup h
  have hnodup : ((d.keys.filter (isRegular d)).insertionSort le).Nodup :=
    (perm_insertionSort le _).nodup_iff.mpr (d.keys_nodup.filter _)
  refine wp_imp (wp_patchFiles hnodup fun name hname => (hmem name).mp hname) ?_
    fun _ _ _ => trivial
  rintro ⟨_, _, aliases⟩ d₁ ⟨-, hfiles, hsame⟩
  refine ⟨fun name data h => hfiles name ((hmem name).mpr ⟨data, h⟩) data h, fun name h => ?_⟩
  exact hsame name fun hname => ((hmem name).mp hname).elim h

/-- What the first loop of `materialize_symlinks` finds. -/
theorem links_spec {entries : List Text} {found : List (Text × Text)}
    (h : links follow d entries = .ok found) :
    (∀ p ∈ found, (∃ text, d.lookup p.2 = some (.link text)) ∧ Resolves follow d p.2 p.1
        ∧ ∃ content, d.lookup p.1 = some (.file content))
      ∧ (∀ name ∈ entries, ∀ text, d.lookup name = some (.link text) →
        ∃ target, (target, name) ∈ found)
      ∧ (found.map Prod.snd).Sublist entries := by
  induction entries generalizing found with
  | nil =>
    cases h
    exact ⟨fun _ h => absurd h not_mem_nil, fun _ h => absurd h not_mem_nil, .slnil⟩
  | cons entry rest ih =>
    rw [links] at h
    split at h
    next text hlink =>
      split at h
      · cases h
      · cases h
      · cases h
      next target htarget =>
        split at h
        next content hcontent =>
          obtain ⟨more, hmore, h₁⟩ := bind_eq_ok.mp h
          cases h₁
          obtain ⟨hfound, hall, hsub⟩ := ih hmore
          refine ⟨fun p hp => ?_, fun name hname text' htext => ?_, hsub.cons_cons _⟩
          · rcases mem_cons.mp hp with rfl | hp
            · exact ⟨⟨text, hlink⟩, resolves_of_resolveWithin htarget, ⟨content, hcontent⟩⟩
            · exact hfound p hp
          · rcases mem_cons.mp hname with rfl | hname
            · exact ⟨target, mem_cons_self⟩
            · obtain ⟨target', hmem⟩ := hall name hname text' htext
              exact ⟨target', mem_cons_of_mem _ hmem⟩
        · cases h
    next hno =>
      obtain ⟨hfound, hall, hsub⟩ := ih h
      refine ⟨hfound, fun name hname text htext => ?_, hsub.cons _⟩
      rcases mem_cons.mp hname with rfl | hname
      · exact absurd htext (hno text)
      · exact hall name hname text htext

theorem wp_linksReplaced (le : Text → Text → Prop) [DecidableRel le] {entries : List Text}
    (hnodup : entries.Nodup) (hentries : ∀ name, name ∈ d₁.keys → name ∈ entries) :
    (materializeSymlinks follow le entries).wp (fun _ d₂ => LinksReplaced follow d₁ d₂)
      (fun _ _ => True) d₁ := by
  unfold materializeSymlinks
  refine wp_bind.mpr (wp_gets.mpr (wp_bind.mpr (wp_lift.mpr ⟨fun found hfound => ?_,
    fun _ _ => trivial⟩)))
  obtain ⟨hlinks, hall, hsub⟩ := links_spec hfound
  have hperm := perm_insertionSort (fun a b : Text × Text => le a.2 b.2) found
  have hdest : ∀ name, name ∈ (found.insertionSort fun a b => le a.2 b.2).map Prod.snd
      ↔ ∃ text, d₁.lookup name = some (.link text) := by
    intro name
    rw [(hperm.map Prod.snd).mem_iff, mem_map]
    refine ⟨fun ⟨p, hp, heq⟩ => heq ▸ (hlinks p hp).1, fun ⟨text, htext⟩ => ?_⟩
    obtain ⟨target, hmem⟩ := hall name (hentries name (mem_keys_of_lookup htext)) text htext
    exact ⟨_, hmem, rfl⟩
  have hcopies := @wp_copyEach d₁ (replaceLink follow)
    (fun d source destination content hne h => wp_replaceLink hne h)
    (found.insertionSort fun a b => le a.2 b.2)
    ((hperm.map Prod.snd).nodup_iff.mpr (hnodup.sublist hsub))
    (fun p hp hmem => by
      obtain ⟨content, hcontent⟩ := (hlinks p (hperm.mem_iff.mp hp)).2.2
      obtain ⟨text, htext⟩ := (hdest _).mp hmem
      rw [hcontent] at htext
      cases htext)
    (fun p hp => (hlinks p (hperm.mem_iff.mp hp)).2.2)
  refine wp_bind.mpr (wp_imp hcopies ?_ fun _ _ _ => trivial)
  rintro - d₂ ⟨hcopied, hsame⟩
  refine wp_pure.mpr ⟨fun name text htext => ?_, fun name hno => ?_⟩
  · obtain ⟨target, hmem⟩ := hall name (hentries name (mem_keys_of_lookup htext)) text htext
    obtain ⟨-, hresolves, content, hcontent⟩ := hlinks _ hmem
    exact ⟨target, content, hresolves, hcontent,
      (hcopied _ (hperm.mem_iff.mpr hmem)).trans hcontent⟩
  · exact hsame name fun hmem => ((hdest name).mp hmem).elim hno

theorem wp_aliasesCopied (le : Text → Text → Prop) [DecidableRel le]
    (aliases : AliasTable available)
    (hfiles : ∀ name ∈ available, ∃ content, d₂.lookup name = some (.file content)) :
    (aliases.materialize follow le).wp (fun _ d' => AliasesCopied d₂ d' aliases)
      (fun _ _ => True) d₂ := by
  unfold AliasTable.materialize
  have hperm := perm_insertionSort (fun a b : Text × Text => le a.2 b.2) aliases.pairs
  have hmem : ∀ target name, (target, name) ∈ aliases.pairs.insertionSort (fun a b => le a.2 b.2)
      ↔ aliases.byTarget.lookup target = some name := fun target name =>
    hperm.mem_iff.trans aliases.mem_pairs
  have hdest : ∀ name, name ∈ (aliases.pairs.insertionSort fun a b => le a.2 b.2).map Prod.snd
      ↔ ∃ target, aliases.byTarget.lookup target = some name := by
    intro name
    rw [mem_map]
    refine ⟨fun ⟨p, hp, heq⟩ => ⟨p.1, heq ▸ (hmem _ _).mp hp⟩, fun ⟨target, h⟩ => ?_⟩
    exact ⟨_, (hmem _ _).mpr h, rfl⟩
  -- a target is in the directory, and an alias is not
  have hcopies := @wp_copyEach d₂ (copyAlias follow)
    (fun d source destination content _ h => wp_copyAlias h)
    (aliases.pairs.insertionSort fun a b => le a.2 b.2)
    ((hperm.map Prod.snd).nodup_iff.mpr aliases.nodup_pairs)
    (fun p hp hin => by
      obtain ⟨target, h⟩ := (hdest _).mp hin
      exact aliases.new _ _ h (aliases.known _ _ ((hmem _ _).mp hp)))
    (fun p hp => hfiles _ (aliases.known _ _ ((hmem _ _).mp hp)))
  refine wp_bind.mpr (wp_imp hcopies ?_ fun _ _ _ => trivial)
  rintro - d' ⟨hcopied, hsame⟩
  refine wp_pure.mpr ⟨fun target name h => hcopied _ ((hmem _ _).mpr h), fun name hno => ?_⟩
  exact hsame name fun hin => ((hdest name).mp hin).elim hno

end Phases

/-! ## The whole run -/

/-- Every entry is a file or a link. -/
def Flat (d : Directory) : Prop := ∀ name, d.lookup name ≠ some .other

/-- **`copy` is a file with the final content of the file that `name` led
to.** -/
def StandsFor (follow : Text → Lead) (d d' : Directory) (name copy : Text) : Prop :=
  ∃ target content, Resolves follow d name target ∧ d'.lookup target = some (.file content)
    ∧ d'.lookup copy = some (.file content)

/-- **What the script has made of the directory `d`.** -/
structure SelfContained (follow : Text → Lead) (d d' : Directory) (aliases : AliasTable d.keys) :
    Prop where
  no_links : ∀ name text, d'.lookup name ≠ some (.link text)
  links : ∀ name text, d.lookup name = some (.link text) → StandsFor follow d d' name name
  files : ∀ name data, d.lookup name = some (.file data) →
    ∃ data', d'.lookup name = some (.file data') ∧ data'.length = data.length
      ∧ Patched d.keys
        (fun target copy => aliases.Names target copy ∧ StandsFor follow d d' target copy)
        data data'
  entries : ∀ name, name ∈ d' ↔ name ∈ d ∨ ∃ target, aliases.byTarget.lookup target = some name
  aliases_new : ∀ target name, aliases.byTarget.lookup target = some name → name ∉ d
  aliases_copy : ∀ target name, aliases.byTarget.lookup target = some name →
    target ∈ d ∧ StandsFor follow d d' target name
  aliases_injective : ∀ target target' name, aliases.byTarget.lookup target = some name →
    aliases.byTarget.lookup target' = some name → target = target'

section Run

variable {follow : Text → Lead} {d d₁ d₂ d' : Directory} {aliases : AliasTable d.keys}

/-- An entry of a flat directory. -/
theorem Flat.cases (hflat : Flat d) {name : Text} (h : name ∈ d) :
    (∃ data, d.lookup name = some (.file data)) ∨ ∃ text, d.lookup name = some (.link text) := by
  obtain ⟨node, hnode⟩ := Option.isSome_iff_exists.mp (AList.lookup_isSome.mpr h)
  cases node with
  | file data => exact .inl ⟨data, hnode⟩
  | link text => exact .inr ⟨text, hnode⟩
  | other => exact absurd hnode (hflat name)

section FilesPatched

variable (hfiles : FilesPatched d d₁ aliases) {name : Text}
include hfiles

theorem FilesPatched.link_iff {text : Text} :
    d₁.lookup name = some (.link text) ↔ d.lookup name = some (.link text) := by
  by_cases h : ∃ data, d.lookup name = some (.file data)
  · obtain ⟨data, hdata⟩ := h
    obtain ⟨data', hdata', -⟩ := hfiles.files name data hdata
    rw [hdata, hdata']
    exact iff_of_false (by simp) (by simp)
  · rw [hfiles.same name fun data hdata => h ⟨data, hdata⟩]

theorem FilesPatched.mem_iff : name ∈ d₁ ↔ name ∈ d := by
  by_cases h : ∃ data, d.lookup name = some (.file data)
  · obtain ⟨data, hdata⟩ := h
    obtain ⟨data', hdata', -⟩ := hfiles.files name data hdata
    exact iff_of_true (mem_keys_of_lookup hdata') (mem_keys_of_lookup hdata)
  · rw [← AList.lookup_isSome, hfiles.same name fun data hdata => h ⟨data, hdata⟩,
      AList.lookup_isSome]

/-- The links lead where they led before. -/
theorem FilesPatched.resolves {target : Text} (h : Resolves follow d₁ name target) :
    Resolves follow d name target := by
  refine h.of_sameLinks (fun _ _ => hfiles.link_iff.mp) fun name node hnode hno => ?_
  have hmem : name ∈ d := hfiles.mem_iff.mp (mem_keys_of_lookup hnode)
  obtain ⟨node', hnode'⟩ := Option.isSome_iff_exists.mp (AList.lookup_isSome.mpr hmem)
  refine ⟨node', hnode', fun text heq => ?_⟩
  rw [heq, ← hfiles.link_iff, hnode] at hnode'
  exact hno text (Option.some.inj hnode')

variable (hflat : Flat d) (hlinks : LinksReplaced follow d₁ d₂)
include hflat hlinks

/-- **After the second phase every entry is a file**, with the content of
the file that it led to. -/
theorem lookup_of_linksReplaced (h : name ∈ d) :
    ∃ target content, Resolves follow d name target ∧ d₂.lookup target = some (.file content)
      ∧ d₂.lookup name = some (.file content) ∧ target ∈ d := by
  rcases hflat.cases h with ⟨data, hdata⟩ | ⟨text, htext⟩
  · obtain ⟨data', hdata', -⟩ := hfiles.files name data hdata
    have hkept : d₂.lookup name = some (.file data') :=
      (hlinks.same name fun text htext => by rw [hdata'] at htext; cases htext).trans hdata'
    exact ⟨name, data', .here hdata fun _ => Node.noConfusion, hkept, hkept, h⟩
  · obtain ⟨target, content, hresolves, hcontent, hcopy⟩ :=
      hlinks.links name text (hfiles.link_iff.mpr htext)
    have hkept : d₂.lookup target = some (.file content) :=
      (hlinks.same target fun text htext => by rw [hcontent] at htext; cases htext).trans hcontent
    exact ⟨target, content, hfiles.resolves hresolves, hkept, hcopy,
      hfiles.mem_iff.mp (mem_keys_of_lookup hcontent)⟩

theorem mem_iff_of_linksReplaced : name ∈ d₂ ↔ name ∈ d := by
  refine ⟨fun h => ?_, fun h => ?_⟩
  · by_contra hno
    have hnone : d₁.lookup name = none :=
      AList.lookup_eq_none.mpr fun h₁ => hno (hfiles.mem_iff.mp h₁)
    have hsame := hlinks.same name fun text htext => by rw [hnone] at htext; cases htext
    exact AList.lookup_eq_none.mp (hsame.trans hnone) h
  · obtain ⟨_, _, -, -, hcopy, -⟩ := lookup_of_linksReplaced hfiles hflat hlinks h
    exact mem_keys_of_lookup hcopy

/-- **The three phases.** -/
theorem selfContained_of_phases (haliases : AliasesCopied d₂ d' aliases) :
    SelfContained follow d d' aliases := by
  -- the third phase adds names and leaves the old ones
  have hold : ∀ name ∈ d, d'.lookup name = d₂.lookup name := fun name hname =>
    haliases.same name fun target h => aliases.new target name h hname
  have hstands : ∀ name ∈ d, StandsFor follow d d' name name := by
    intro name hname
    obtain ⟨target, content, hresolves, htarget, hcopy, hmem⟩ :=
      lookup_of_linksReplaced hfiles hflat hlinks hname
    exact ⟨target, content, hresolves, (hold _ hmem).trans htarget, (hold _ hname).trans hcopy⟩
  have halias : ∀ target name, aliases.byTarget.lookup target = some name →
      StandsFor follow d d' target name := by
    intro target name h
    have hknown : target ∈ d := aliases.known target name h
    obtain ⟨file, content, hresolves, hfile, hcopy⟩ := hstands target hknown
    refine ⟨file, content, hresolves, hfile, ?_⟩
    rw [haliases.copies target name h, ← hold target hknown, hcopy]
  have hentries : ∀ name, name ∈ d'
      ↔ name ∈ d ∨ ∃ target, aliases.byTarget.lookup target = some name := by
    intro name
    by_cases hname : ∃ target, aliases.byTarget.lookup target = some name
    · obtain ⟨target, h⟩ := hname
      obtain ⟨_, _, -, -, hcopy⟩ := halias target name h
      exact iff_of_true (mem_keys_of_lookup hcopy) (.inr ⟨target, h⟩)
    · rw [or_iff_left hname, ← mem_iff_of_linksReplaced hfiles hflat hlinks, ← AList.lookup_isSome,
        haliases.same name fun target h => hname ⟨target, h⟩, AList.lookup_isSome]
  exact {
    no_links := fun name text htext => by
      rcases (hentries name).mp (mem_keys_of_lookup htext) with hname | ⟨target, h⟩
      · obtain ⟨_, _, -, -, hcopy⟩ := hstands name hname
        rw [hcopy] at htext
        cases htext
      · obtain ⟨_, _, -, -, hcopy⟩ := halias target name h
        rw [hcopy] at htext
        cases htext
    links := fun name text htext => hstands name (mem_keys_of_lookup htext)
    files := fun name data hdata => by
      obtain ⟨data', hdata', hpatched⟩ := hfiles.files name data hdata
      have hkept : d₂.lookup name = some (.file data') :=
        (hlinks.same name fun text htext => by rw [hdata'] at htext; cases htext).trans hdata'
      refine ⟨data', (hold _ (mem_keys_of_lookup hdata)).trans hkept, hpatched.length_eq,
        hpatched.mono fun target htarget copy hnames => ⟨hnames, ?_⟩⟩
      rcases hnames with rfl | h
      · exact hstands _ htarget
      · exact halias target copy h
    entries := hentries
    aliases_new := aliases.new
    aliases_copy := fun target name h => ⟨aliases.known target name h, halias target name h⟩
    aliases_injective := aliases.injective }

end FilesPatched

/-- **Bundled dylibs find one another**: when `main` ends without an error
on a directory of files and links, the directory is self-contained. -/
theorem main_selfContained (follow : Text → Lead) (le : Text → Text → Prop) [DecidableRel le]
    (d d' : Directory) (report : Report) (hflat : Flat d)
    (h : main follow le d = (.ok report, d')) :
    ∃ aliases : AliasTable d.keys, SelfContained follow d d' aliases := by
  have hrun : (main follow le).wp
      (fun _ d' => ∃ aliases : AliasTable d.keys, SelfContained follow d d' aliases)
      (fun _ _ => True) d := by
    unfold main
    refine wp_bind.mpr (wp_gets.mpr (wp_bind.mpr (wp_gets.mpr (wp_bind.mpr ?_))))
    refine wp_imp (wp_filesPatched le) ?_ fun _ _ _ => trivial
    rintro ⟨_, _, aliases⟩ d₁ hfiles
    refine wp_bind.mpr (wp_imp (wp_linksReplaced le d.keys_nodup fun name hname =>
      hfiles.mem_iff.mp hname) ?_ fun _ _ _ => trivial)
    intro _ d₂ hlinks
    refine wp_bind.mpr (wp_imp (wp_aliasesCopied le aliases fun name hname => ?_) ?_
      fun _ _ _ => trivial)
    · obtain ⟨-, content, -, -, hcopy, -⟩ := lookup_of_linksReplaced hfiles hflat hlinks hname
      exact ⟨content, hcopy⟩
    · intro _ d' haliases
      exact wp_pure.mpr ⟨aliases, selfContained_of_phases hfiles hflat hlinks haliases⟩
  exact (of_wp hrun h).1 report rfl

end Run

/-! ## A library that depends on a link -/

/-- The name of the library, `m`. -/
def libraryName : Text := [0x6d]

/-- `longname` -/
def linkName : Text := [0x6c, 0x6f, 0x6e, 0x67, 0x6e, 0x61, 0x6d, 0x65]

/-- A Mach-O file whose only command loads `/longname`, with room for
sixteen bytes. -/
def library : List UInt8 :=
  layout [(4, magic64), (4, 0), (4, 0), (4, 6), (4, 1), (4, 40), (4, 0), (4, 0)]
    ++ (layout [(4, 0xc), (4, 40), (4, 24), (4, 0), (4, 0), (4, 0)]
      ++ (0x2f :: linkName ++ List.replicate 7 0))

/-- The library, and a link to it. -/
def bundle : Directory :=
  ((∅ : Directory).insert linkName (.link libraryName)).insert libraryName (.file library)

/-- The library gets an alias for the link, and both become copies of
it. -/
theorem main_bundle :
    Flat bundle ∧ (main Lead.entry (· ≤ ·) bundle).1 = .ok ⟨1, 1, 1, 1⟩
      ∧ ∃ aliases, SelfContained Lead.entry bundle (main Lead.entry (· ≤ ·) bundle).2 aliases := by
  have hflat : Flat bundle := by
    intro name h
    rcases lookup_insert_cases h with ⟨-, h⟩ | ⟨-, h⟩
    · cases h
    · rcases lookup_insert_cases h with ⟨-, h⟩ | ⟨-, h⟩
      · cases h
      · rw [AList.lookup_empty] at h
        cases h
  have hrun : (main Lead.entry (· ≤ ·) bundle).1 = .ok ⟨1, 1, 1, 1⟩ := by decide +kernel
  exact ⟨hflat, hrun, main_selfContained Lead.entry (· ≤ ·) bundle _ ⟨1, 1, 1, 1⟩ hflat
    (Prod.ext hrun rfl)⟩

end Juice.Bundle
