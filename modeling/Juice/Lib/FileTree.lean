import Mathlib.Data.List.Induction

/-!
# Trees of directories and files

A file system without links is a map from paths, given by their components,
to nodes. Two ways to write to it are enough here: `put`, which sets the
node of one path, and the creation of a directory with those above it,
which is the relation `MadeDirs` – it needs that no file is in the way,
and it changes nothing else.

A tree is described by a list of items, paths with the node that each of
them names. It is *spanned* by the items when the paths in it are those of
the items and of the directories above them: `Spanned`. The two rules of
the module say that adding an item, by `MadeDirs` alone or by `MadeDirs`
and a `put`, keeps a tree spanned – that a later item takes nothing from an
earlier one is their content. What can be said of a spanned tree can be said
of its items: `unambiguous_iff` does so for names that are compared by what
they fold to.
-/

namespace FileTree

open List

variable {N C : Type}

/-- What a path can name. -/
inductive Node (C : Type) where
  | dir
  | file (content : C)
  deriving DecidableEq, Repr

/-- The nodes of a file system, by path. -/
abbrev Files (N C : Type) := List N → Option (Node C)

section Put

variable [DecidableEq N]

/-- The node of one path is set. -/
def put (fs : Files N C) (p : List N) (node : Option (Node C)) : Files N C :=
  fun q => if q = p then node else fs q

variable {fs : Files N C} {p q : List N} {node : Option (Node C)}

theorem put_self : put fs p node p = node := if_pos rfl

theorem put_of_ne (h : q ≠ p) : put fs p node q = fs q := if_neg h

theorem put_put {node' : Option (Node C)} : put (put fs p node) p node' = put fs p node' := by
  funext q
  unfold put
  split
  · rfl
  · rfl

theorem put_eq_self (h : fs p = node) : put fs p node = fs := by
  funext q
  unfold put
  split
  · rename_i hq
    rw [hq, h]
  · rfl

end Put

/-! ## Prefixes of paths -/

/-- A path that begins with `q` and is longer leads through `q`. -/
theorem prefix_parent {q p : List N} (h : q <+: p) (hne : q ≠ p) : q <+: p.dropLast := by
  have hlen : q.length ≠ p.length := fun hlen => hne (h.eq_of_length hlen)
  have hle := h.length_le
  rw [dropLast_eq_take, prefix_take_iff]
  exact ⟨h, by omega⟩

theorem not_prefix_parent {p : List N} (h : p ≠ []) : ¬ p <+: p.dropLast := by
  intro hp
  have hle := hp.length_le
  rw [length_dropLast] at hle
  have hpos := length_pos_iff.mpr h
  omega

/-! ## Creating directories -/

/-- **`fs'` is `fs` with the directories along `p`**, a path below `base`. -/
structure MadeDirs (fs fs' : Files N C) (base p : List N) : Prop where
  /-- No file is in the way. -/
  was : ∀ r, r <+: p → r ≠ [] → fs (base ++ r) = none ∨ fs (base ++ r) = some .dir
  made : ∀ r, r <+: p → r ≠ [] → fs' (base ++ r) = some .dir
  other : ∀ q, (∀ r, r <+: p → r ≠ [] → q ≠ base ++ r) → fs' q = fs q

namespace MadeDirs

variable {fs fs' : Files N C} {base p : List N}

theorem nil : MadeDirs fs fs base [] where
  was _ hr hne := absurd (prefix_nil.mp hr) hne
  made _ hr hne := absurd (prefix_nil.mp hr) hne
  other _ _ := rfl

/-- A path below the base that is not on the way is left alone. -/
theorem other_below (h : MadeDirs fs fs' base p) {q : List N} (hq : ¬ q <+: p) :
    fs' (base ++ q) = fs (base ++ q) := by
  refine h.other _ (fun r hr _ heq => hq ?_)
  rw [append_cancel_left heq]
  exact hr

/-- The base is left alone. -/
theorem other_base (h : MadeDirs fs fs' base p) {b : List N} (hb : b <+: base) : fs' b = fs b := by
  refine h.other _ (fun r hr hne heq => hne ?_)
  have hlen := congrArg List.length heq
  rw [length_append] at hlen
  have hle := hb.length_le
  exact length_eq_zero_iff.mp (by omega)

variable [DecidableEq N]

/-- The first directory is made, then those below it. -/
theorem cons {c : N} (h0 : fs (base ++ [c]) = none ∨ fs (base ++ [c]) = some .dir)
    (h : MadeDirs (put fs (base ++ [c]) (some .dir)) fs' (base ++ [c]) p) :
    MadeDirs fs fs' base (c :: p) := by
  have hfirst : fs' (base ++ [c]) = some .dir := by
    rw [h.other_base (prefix_refl _), put_self]
  have hcons : ∀ r, r <+: c :: p → r ≠ [] → ∃ r', r = c :: r' ∧ r' <+: p := by
    intro r hr hne
    cases r with
    | nil => exact absurd rfl hne
    | cons d r' =>
      rw [cons_prefix_cons] at hr
      exact ⟨r', by rw [hr.1], hr.2⟩
  have happ : ∀ r' : List N, base ++ c :: r' = base ++ [c] ++ r' := fun r' => by
    rw [append_assoc, singleton_append]
  have hne : ∀ r' : List N, r' ≠ [] → base ++ [c] ++ r' ≠ base ++ [c] :=
    fun r' hr' heq => hr' (append_right_eq_self.mp heq)
  constructor
  · intro r hr hr0
    obtain ⟨r', rfl, hr'⟩ := hcons r hr hr0
    by_cases hnil : r' = []
    · rw [hnil]
      exact h0
    · have hwas := h.was r' hr' hnil
      rw [put_of_ne (hne r' hnil)] at hwas
      rw [happ]
      exact hwas
  · intro r hr hr0
    obtain ⟨r', rfl, hr'⟩ := hcons r hr hr0
    by_cases hnil : r' = []
    · rw [hnil]
      exact hfirst
    · rw [happ]
      exact h.made r' hr' hnil
  · intro q hq
    have hq1 : q ≠ base ++ [c] :=
      hq [c] (cons_prefix_cons.mpr ⟨rfl, nil_prefix⟩) (cons_ne_nil _ _)
    rw [h.other q, put_of_ne hq1]
    intro r hr _
    rw [← happ]
    exact hq (c :: r) (cons_prefix_cons.mpr ⟨rfl, hr⟩) (cons_ne_nil _ _)

end MadeDirs

/-! ## Spanned trees -/

/-- **The tree below `base` is spanned by the items**: it has their nodes,
the directories above them, and nothing else. -/
structure Spanned (fs : Files N C) (base : List N) (items : List (List N × Node C)) : Prop where
  file : ∀ p c, (p, .file c) ∈ items → fs (base ++ p) = some (.file c)
  dir : ∀ p node q, (p, node) ∈ items → q <+: p → q ≠ [] → (q = p → node = .dir) →
    fs (base ++ q) = some .dir
  only : ∀ q, q ≠ [] → fs (base ++ q) ≠ none → ∃ item ∈ items, q <+: item.1

namespace Spanned

variable {fs fs' : Files N C} {base p : List N} {items : List (List N × Node C)}

/-- An empty directory is spanned by nothing. -/
theorem nil (h : ∀ q, q ≠ [] → fs (base ++ q) = none) : Spanned fs base [] where
  file _ _ hmem := absurd hmem not_mem_nil
  dir _ _ _ hmem := absurd hmem not_mem_nil
  only q hq hne := absurd (h q hq) hne

/-- **What is in the tree**: the paths that an item leads through. -/
theorem ne_none_iff (h : Spanned fs base items) {q : List N} (hq : q ≠ []) :
    fs (base ++ q) ≠ none ↔ ∃ item ∈ items, q <+: item.1 := by
  refine ⟨h.only q hq, ?_⟩
  rintro ⟨⟨p, node⟩, hmem, hpre⟩
  cases node with
  | dir =>
    rw [h.dir p .dir q hmem hpre hq (fun _ => rfl)]
    exact nofun
  | file c =>
    by_cases heq : q = p
    · rw [heq, h.file p c hmem]
      exact nofun
    · rw [h.dir p (.file c) q hmem hpre hq (fun hqp => absurd hqp heq)]
      exact nofun

/-- A file in the tree is an item. -/
theorem mem_of_file (h : Spanned fs base items) {q : List N} (hq : q ≠ []) {c : C}
    (hf : fs (base ++ q) = some (.file c)) : (q, .file c) ∈ items := by
  obtain ⟨⟨p, node⟩, hmem, hpre⟩ := h.only q hq (by rw [hf]; exact nofun)
  have hdir : (q = p → node = .dir) → False := by
    intro hnode
    exact nomatch hf.symm.trans (h.dir p node q hmem hpre hq hnode)
  have heq : q = p := by
    by_contra hne
    exact hdir (fun hqp => absurd hqp hne)
  subst heq
  cases node with
  | dir => exact (hdir (fun _ => rfl)).elim
  | file c' =>
    have hc : some (Node.file c') = some (.file c) := (h.file q c' hmem).symm.trans hf
    rw [← Option.some.inj hc]
    exact hmem

/-- **A directory is added**, with those above it. -/
theorem add_dir (h : Spanned fs base items) (hmade : MadeDirs fs fs' base p) :
    Spanned fs' base (items ++ [(p, .dir)]) := by
  constructor
  · intro p' c hmem
    rcases mem_append.mp hmem with hmem | hmem
    · have hold := h.file p' c hmem
      rw [← hold]
      by_cases hnil : p' = []
      · rw [hnil, append_nil]
        exact hmade.other_base (prefix_refl _)
      · refine hmade.other_below (fun hpre => ?_)
        rcases hmade.was p' hpre hnil with hwas | hwas <;> rw [hold] at hwas <;> exact nomatch hwas
    · exact nomatch mem_singleton.mp hmem
  · intro p' node q hmem hpre hq hnode
    by_cases hqp : q <+: p
    · exact hmade.made q hqp hq
    · rcases mem_append.mp hmem with hmem | hmem
      · rw [hmade.other_below hqp]
        exact h.dir p' node q hmem hpre hq hnode
      · rw [(Prod.mk.inj (mem_singleton.mp hmem)).1] at hpre
        exact absurd hpre hqp
  · intro q hq hne
    by_cases hqp : q <+: p
    · exact ⟨(p, .dir), mem_append_right _ (mem_singleton_self _), hqp⟩
    · rw [hmade.other_below hqp] at hne
      obtain ⟨item, hmem, hpre⟩ := h.only q hq hne
      exact ⟨item, mem_append_left _ hmem, hpre⟩

variable [DecidableEq N]

/-- **A file is added**, with the directories above it, where no item names
its path and no directory is in its place. -/
theorem add_file (h : Spanned fs base items) (hmade : MadeDirs fs fs' base p.dropLast)
    (hp : p ≠ []) (hplace : fs' (base ++ p) ≠ some .dir) (hnew : ∀ item ∈ items, item.1 ≠ p)
    (c : C) : Spanned (put fs' (base ++ p) (some (.file c))) base (items ++ [(p, .file c)]) := by
  have hpath : fs' (base ++ p) = fs (base ++ p) := hmade.other_below (not_prefix_parent hp)
  -- an item below the new file would have made its path a directory
  have hbelow : ∀ item ∈ items, ¬ p <+: item.1 := by
    intro item hmem hpre
    refine hplace ?_
    rw [hpath]
    exact h.dir item.1 item.2 p hmem hpre hp (fun heq => absurd heq.symm (hnew item hmem))
  have hother : ∀ q, q ≠ p → put fs' (base ++ p) (some (.file c)) (base ++ q) = fs' (base ++ q) :=
    fun q hq => put_of_ne (fun heq => hq (append_cancel_left heq))
  constructor
  · intro p' c' hmem
    rcases mem_append.mp hmem with hmem | hmem
    · have hold := h.file p' c' hmem
      rw [hother p' (hnew _ hmem), ← hold]
      by_cases hnil : p' = []
      · rw [hnil, append_nil]
        exact hmade.other_base (prefix_refl _)
      · refine hmade.other_below (fun hpre => ?_)
        rcases hmade.was p' hpre hnil with hwas | hwas <;> rw [hold] at hwas <;> exact nomatch hwas
    · obtain ⟨rfl, heq⟩ := Prod.mk.inj (mem_singleton.mp hmem)
      rw [put_self, heq]
  · intro p' node q hmem hpre hq hnode
    rcases mem_append.mp hmem with hmem | hmem
    · have hqp : q ≠ p := fun heq => hbelow _ hmem (heq ▸ hpre)
      rw [hother q hqp]
      by_cases hway : q <+: p.dropLast
      · exact hmade.made q hway hq
      · rw [hmade.other_below hway]
        exact h.dir p' node q hmem hpre hq hnode
    · obtain ⟨rfl, rfl⟩ := Prod.mk.inj (mem_singleton.mp hmem)
      have hqp : q ≠ p' := fun heq => nomatch hnode heq
      rw [hother q hqp]
      exact hmade.made q (prefix_parent hpre hqp) hq
  · intro q hq hne
    have hlast : (p, Node.file c) ∈ items ++ [(p, .file c)] :=
      mem_append_right _ (mem_singleton_self _)
    by_cases hqp : q = p
    · exact ⟨_, hlast, hqp ▸ prefix_refl _⟩
    · rw [hother q hqp] at hne
      by_cases hway : q <+: p.dropLast
      · exact ⟨_, hlast, hway.trans (List.dropLast_prefix p)⟩
      · rw [hmade.other_below hway] at hne
        obtain ⟨item, hmem, hpre⟩ := h.only q hq hne
        exact ⟨item, mem_append_left _ hmem, hpre⟩

end Spanned

/-! ## Names that are folded -/

/-- **No directory below `base` has two names that fold to the same.** -/
def Unambiguous {K : Type} (fold : N → K) (fs : Files N C) (base : List N) : Prop :=
  ∀ d c c', fs (base ++ (d ++ [c])) ≠ none → fs (base ++ (d ++ [c'])) ≠ none →
    fold c = fold c' → c = c'

/-- **A spanned tree is unambiguous** when the paths through it are told
apart by what their components fold to. -/
theorem Spanned.unambiguous_iff {K : Type} {fold : N → K} {fs : Files N C} {base : List N}
    {items : List (List N × Node C)} (h : Spanned fs base items) :
    Unambiguous fold fs base ↔ ∀ item ∈ items, ∀ item' ∈ items, ∀ q q', q <+: item.1 →
      q' <+: item'.1 → q.map fold = q'.map fold → q = q' := by
  have hne : ∀ (d : List N) (c : N), d ++ [c] ≠ [] := fun d c => concat_ne_nil c d
  constructor
  · intro hun item hmem item' hmem' q
    induction q using List.reverseRecOn with
    | nil =>
      intro q' _ _ hmap
      exact (map_eq_nil_iff.mp hmap.symm).symm
    | append_singleton r c ih =>
      intro q' hq hq' hmap
      rcases eq_nil_or_concat q' with rfl | ⟨r', c', rfl⟩
      · exact absurd (map_eq_nil_iff.mp hmap) (hne r c)
      · rw [concat_eq_append] at hq' hmap ⊢
        rw [map_append, map_append] at hmap
        obtain ⟨hr, hc⟩ := append_inj' hmap rfl
        obtain rfl := ih r' ((prefix_append _ _).trans hq)
          ((prefix_append _ _).trans hq') hr
        have heq := hun r c c' ((h.ne_none_iff (hne r c)).mpr ⟨item, hmem, hq⟩)
          ((h.ne_none_iff (hne r c')).mpr ⟨item', hmem', hq'⟩) (List.cons.inj hc).1
        rw [heq]
  · intro hall d c c' hc hc' hfold
    obtain ⟨item, hmem, hq⟩ := h.only _ (hne d c) hc
    obtain ⟨item', hmem', hq'⟩ := h.only _ (hne d c') hc'
    have hmap : (d ++ [c]).map fold = (d ++ [c']).map fold := by
      rw [map_append, map_append, map_singleton, map_singleton, hfold]
    have heq := hall item hmem item' hmem' _ _ hq hq' hmap
    exact (List.cons.inj (append_cancel_left heq)).1

end FileTree
