import Juice.Lib.Prog
import Mathlib.Data.List.Infix

/-!
# Trees with symbolic links

A file system is a finite tree of directories, files and symbolic links.
A `Tree` lists its nodes by their *physical* paths: the one way from the
root to a node that goes through directories only. Every node but the root
is in a directory – a field of the structure, so that no operation can
leave a node without one.

A program names a node by a list of steps, and a step may be a link.
`walk` follows them and ends at a physical path; the last step may be left
alone or followed, as the system call wants it. It gives up after a number
of links, as systems do. Where there is no link on the way it ends at the
path it was given (`walk_of_noLinks`).

The system calls are programs over a `World`: the tree, and the physical
paths that were touched so far. What any of them can do to the tree is an
`Edit` at the path it finds (`Edits`), or two of them for a move.
-/

namespace LinkTree

open List

/-- What a path can name: a directory, a file with its content, or a link
with the text it holds. -/
inductive Node (C T : Type) where
  | dir
  | file (content : C)
  | link (text : T)
  deriving DecidableEq

/-- **A tree**, without its root. -/
structure Tree (N C T : Type) where
  nodes : List (List N × Node C T)
  nodup : (nodes.map Prod.fst).Nodup
  closed : ∀ p node, (p, node) ∈ nodes → p ≠ [] ∧ (p.dropLast = [] ∨ (p.dropLast, .dir) ∈ nodes)

variable {N C T : Type} [DecidableEq N]

namespace Tree

variable {p : List N} {node : Node C T} {t : Tree N C T}

/-- The node at a physical path. -/
def look (t : Tree N C T) (p : List N) : Option (Node C T) :=
  if p = [] then some .dir else t.nodes.lookup p

theorem look_nil (t : Tree N C T) : t.look [] = some .dir := if_pos rfl

theorem mem_iff_lookup {l : List (List N × Node C T)} (hl : (l.map Prod.fst).Nodup) :
    (p, node) ∈ l ↔ l.lookup p = some node := by
  induction l with
  | nil => simp
  | cons x l ih =>
    rw [map_cons, nodup_cons] at hl
    obtain ⟨q, m⟩ := x
    rw [lookup_cons, mem_cons]
    by_cases hq : p = q
    · subst hq
      rw [beq_self_eq_true]
      constructor
      · rintro (h | h)
        · exact congrArg some (Prod.mk.inj h).2.symm
        · exact absurd (mem_map_of_mem h) hl.1
      · intro h
        exact .inl (by rw [Option.some.inj h])
    · rw [beq_eq_false_iff_ne.mpr hq]
      exact (or_iff_right (fun h => hq (Prod.mk.inj h).1)).trans (ih hl.2)

theorem mem_iff_look : (p, node) ∈ t.nodes ↔ p ≠ [] ∧ t.look p = some node := by
  rw [mem_iff_lookup t.nodup, look]
  by_cases hp : p = []
  · subst hp
    refine iff_of_false (fun h => ?_) (fun h => h.1 rfl)
    exact (t.closed [] node ((mem_iff_lookup t.nodup).mpr h)).1 rfl
  · rw [if_neg hp]
    exact (and_iff_right hp).symm

/-- **Every node is in a directory.** -/
theorem look_dropLast (h : t.look p ≠ none) : t.look p.dropLast = some .dir := by
  by_cases hp : p = []
  · subst hp
    exact look_nil t
  obtain ⟨node, hnode⟩ := Option.ne_none_iff_exists'.mp h
  rcases (t.closed p node (mem_iff_look.mpr ⟨hp, hnode⟩)).2 with hroot | hdir
  · rw [hroot, look_nil]
  · exact (mem_iff_look.mp hdir).2

/-- **All that leads to a node is a directory.** -/
theorem look_above {q : List N} (hq : t.look q ≠ none) (h : p <+: q) (hne : p ≠ q) :
    t.look p = some .dir := by
  induction q using List.reverseRecOn with
  | nil => exact absurd (prefix_nil.mp h) hne
  | append_singleton q n ih =>
    have hdir : t.look q = some .dir := by
      have := look_dropLast hq
      rwa [dropLast_concat] at this
    rcases prefix_concat_iff.mp h with rfl | hpre
    · exact absurd rfl hne
    · by_cases heq : p = q
      · rw [heq, hdir]
      · exact ih (by rw [hdir]; simp) hpre heq

/-! ## Two edits -/

/-- A node at a path, in place of what is not a directory. -/
def put (t : Tree N C T) (p : List N) (node : Node C T) (hp : p ≠ [])
    (hparent : t.look p.dropLast = some .dir) (hold : t.look p ≠ some .dir) : Tree N C T where
  nodes := (p, node) :: t.nodes.filter fun x => decide (x.1 ≠ p)
  nodup := by
    rw [List.map_cons, List.nodup_cons]
    constructor
    · intro h
      obtain ⟨x, hx, hxp⟩ := List.mem_map.mp h
      exact of_decide_eq_true (List.mem_filter.mp hx).2 hxp
    · exact t.nodup.sublist (List.filter_sublist.map _)
  closed := by
    have hstays : ∀ q : List N, t.look q = some .dir → q ≠ [] →
        (q, .dir) ∈ t.nodes.filter fun x => decide (x.1 ≠ p) := fun q hq hne =>
      List.mem_filter.mpr ⟨mem_iff_look.mpr ⟨hne, hq⟩,
        decide_eq_true fun (heq : q = p) => hold (heq ▸ hq)⟩
    intro q m h
    rcases List.mem_cons.mp h with h | h
    · obtain ⟨rfl, -⟩ := Prod.mk.inj h
      refine ⟨hp, ?_⟩
      by_cases hroot : q.dropLast = []
      · exact .inl hroot
      · exact .inr (List.mem_cons_of_mem _ (hstays _ hparent hroot))
    · obtain ⟨hq, hup⟩ := t.closed q m (List.mem_filter.mp h).1
      refine ⟨hq, hup.imp_right fun hup => ?_⟩
      exact List.mem_cons_of_mem _ (hstays _ (mem_iff_look.mp hup).2 (mem_iff_look.mp hup).1)

theorem look_put (hp : p ≠ []) (hparent : t.look p.dropLast = some .dir)
    (hold : t.look p ≠ some .dir) (q : List N) :
    (t.put p node hp hparent hold).look q = if q = p then some node else t.look q := by
  by_cases hq : q = []
  · subst hq
    rw [look_nil, look_nil, if_neg (fun h => hp h.symm)]
  refine Option.ext fun m => ?_
  have hmem : (t.put p node hp hparent hold).look q = some m
      ↔ (q, m) ∈ (p, node) :: t.nodes.filter fun x => decide (x.1 ≠ p) := by
    exact (and_iff_right hq).symm.trans mem_iff_look.symm
  rw [hmem, mem_cons, mem_filter, decide_eq_true_eq, mem_iff_look]
  by_cases hqp : q = p
  · subst hqp
    rw [if_pos rfl]
    constructor
    · rintro (h | h)
      · exact congrArg some (Prod.mk.inj h).2.symm
      · exact absurd rfl h.2
    · intro h
      exact .inl (by rw [Option.some.inj h])
  · rw [if_neg hqp]
    constructor
    · rintro (h | h)
      · exact absurd (Prod.mk.inj h).1 hqp
      · exact h.1.2
    · exact fun h => .inr ⟨⟨hq, h⟩, hqp⟩

/-- The tree without a path and all below it. -/
def prune (t : Tree N C T) (p : List N) : Tree N C T where
  nodes := t.nodes.filter fun x => decide (¬ p <+: x.1)
  nodup := t.nodup.sublist (List.filter_sublist.map _)
  closed := by
    intro q m h
    obtain ⟨hmem, hpre⟩ := List.mem_filter.mp h
    obtain ⟨hq, hup⟩ := t.closed q m hmem
    refine ⟨hq, hup.imp_right fun hup => List.mem_filter.mpr ⟨hup, decide_eq_true fun hpre' => ?_⟩⟩
    exact of_decide_eq_true hpre (hpre'.trans (List.dropLast_prefix q))

theorem look_prune (hp : p ≠ []) (q : List N) :
    (t.prune p).look q = if p <+: q then none else t.look q := by
  by_cases hq : q = []
  · subst hq
    rw [look_nil, look_nil, if_neg (fun h => hp (prefix_nil.mp h))]
  refine Option.ext fun m => ?_
  have hmem : (t.prune p).look q = some m
      ↔ (q, m) ∈ t.nodes.filter fun x => decide (¬ p <+: x.1) := by
    exact (and_iff_right hq).symm.trans mem_iff_look.symm
  rw [hmem, mem_filter, decide_eq_true_eq, mem_iff_look]
  by_cases hpre : p <+: q
  · rw [if_pos hpre]
    exact ⟨fun h => absurd hpre h.2, fun h => absurd h (by simp)⟩
  · rw [if_neg hpre]
    exact ⟨fun h => h.1.2, fun h => ⟨⟨hq, h⟩, hpre⟩⟩

end Tree

/-! ## Walking -/

/-- A step of a path, as it is written. -/
inductive Step (N : Type) where
  | name (n : N)
  /-- `..` -/
  | up
  /-- `.`, and the empty step behind a slash at the end. -/
  | here
  /-- What no name can be. -/
  | bad
  deriving DecidableEq

/-- Where a link leads: from the root or from its own directory. -/
structure Route (N : Type) where
  absolute : Bool
  steps : List (Step N)

/-- Why a system call fails, or the program that makes it. -/
inductive Errno
  | enoent
  | enotdir
  | eexist
  | eisdir
  | eloop
  | einval
  /-- The program gives up by itself. -/
  | exit
  deriving DecidableEq

/-- How far the steps lead before the next link. -/
inductive Scan (N T : Type) where
  | found (p : List N)
  | failed (e : Errno)
  | jump (cur : List N) (text : T) (rest : List (Step N))

/-- **The steps up to the next link** that has to be followed. -/
def scan (t : Tree N C T) (follow : Bool) (cur : List N) : List (Step N) → Scan N T
  | [] => .found cur
  | .here :: rest => scan t follow cur rest
  | .up :: rest => scan t follow cur.dropLast rest
  | .bad :: _ => .failed .einval
  | .name n :: rest => match t.look (cur ++ [n]) with
    | some .dir => scan t follow (cur ++ [n]) rest
    | some (.file _) => if rest = [] then .found (cur ++ [n]) else .failed .enotdir
    | some (.link text) =>
      if rest = [] ∧ follow = false then .found (cur ++ [n]) else .jump cur text rest
    | none => if rest = [] then .found (cur ++ [n]) else .failed .enoent

/-- **The physical path that the steps lead to**, over at most so many
links. The last step need not exist. -/
def walk (route : T → Route N) (t : Tree N C T) (follow : Bool) (fuel : ℕ) (cur : List N)
    (steps : List (Step N)) : Except Errno (List N) :=
  match scan t follow cur steps with
  | .found p => .ok p
  | .failed e => .error e
  | .jump cur text rest => match fuel with
    | 0 => .error .eloop
    | fuel + 1 => walk route t follow fuel (if (route text).absolute then [] else cur)
        ((route text).steps ++ rest)

section Walk

variable {route : T → Route N} {t : Tree N C T} {follow : Bool} {cur names : List N}

/-- No link is in the way. -/
def NoLinks (t : Tree N C T) (cur names : List N) : Prop :=
  ∀ r, r <+: names → r ≠ [] → ∀ text, t.look (cur ++ r) ≠ some (.link text)

theorem scan_of_noLinks (h : NoLinks t cur names.dropLast)
    (hlast : follow = true → NoLinks t cur names) :
    scan t follow cur (names.map .name) = .found (cur ++ names)
      ∨ scan t follow cur (names.map .name) = .failed .enotdir
      ∨ scan t follow cur (names.map .name) = .failed .enoent := by
  induction names generalizing cur with
  | nil =>
    left
    rw [map_nil, scan, append_nil]
  | cons n names ih =>
    rw [map_cons, scan]
    have happ : cur ++ n :: names = cur ++ [n] ++ names := by
      rw [append_assoc, singleton_append]
    cases hnode : t.look (cur ++ [n]) with
    | none =>
      by_cases hnames : names = []
      · subst hnames
        exact .inl (if_pos rfl)
      · exact .inr (.inr (if_neg (by simpa using hnames)))
    | some node =>
      cases node with
      | file c =>
        by_cases hnames : names = []
        · subst hnames
          exact .inl (if_pos rfl)
        · exact .inr (.inl (if_neg (by simpa using hnames)))
      | link text =>
        by_cases hnames : names = []
        · subst hnames
          have hfollow : follow = false := by
            by_contra htrue
            exact hlast (Bool.not_eq_false _ ▸ htrue) [n] (prefix_refl _) (by simp) text hnode
          exact .inl (if_pos ⟨rfl, hfollow⟩)
        · refine absurd hnode (h [n] ?_ (by simp) text)
          rw [dropLast_cons_of_ne_nil hnames]
          exact cons_prefix_cons.mpr ⟨rfl, nil_prefix⟩
      | dir =>
        rw [happ]
        by_cases hnames : names = []
        · subst hnames
          left
          rw [map_nil, scan, append_nil]
        · have hsub : ∀ {l : List N}, NoLinks t cur (n :: l) → NoLinks t (cur ++ [n]) l := by
            intro l hl r hr hne text
            rw [append_assoc, singleton_append]
            exact hl (n :: r) (cons_prefix_cons.mpr ⟨rfl, hr⟩) (by simp) text
          refine ih (hsub ?_) (fun hfollow => hsub (hlast hfollow))
          rw [dropLast_cons_of_ne_nil hnames] at h
          exact h

/-- **A walk without links** ends where the names say. -/
theorem walk_of_noLinks {fuel : ℕ} {p : List N} (h : NoLinks t cur names.dropLast)
    (hlast : follow = true → NoLinks t cur names)
    (hwalk : walk route t follow fuel cur (names.map .name) = .ok p) : p = cur ++ names := by
  rw [walk.eq_def] at hwalk
  rcases scan_of_noLinks h hlast with hscan | hscan | hscan
  · rw [hscan] at hwalk
    exact (Except.ok.inj hwalk).symm
  · rw [hscan] at hwalk
    cases hwalk
  · rw [hscan] at hwalk
    cases hwalk

/-- The names of a directory lead to it. -/
theorem scan_of_dir (h : t.look (cur ++ names) = some .dir) :
    scan t follow cur (names.map .name) = .found (cur ++ names) := by
  induction names generalizing cur with
  | nil => rw [map_nil, scan, append_nil]
  | cons n names ih =>
    have happ : cur ++ n :: names = cur ++ [n] ++ names := by
      rw [append_assoc, singleton_append]
    rw [happ] at h ⊢
    have hdir : t.look (cur ++ [n]) = some .dir := by
      by_cases hnames : names = []
      · rwa [hnames, append_nil] at h
      · exact t.look_above (by rw [h]; simp) (prefix_append _ _)
          fun heq => hnames (append_right_eq_self.mp heq.symm)
    rw [map_cons, scan, hdir]
    exact ih h

theorem walk_of_dir {fuel : ℕ} (h : t.look (cur ++ names) = some .dir) :
    walk route t follow fuel cur (names.map .name) = .ok (cur ++ names) := by
  rw [walk.eq_def, scan_of_dir h]

end Walk

/-! ## System calls -/

/-- A file system in use: the tree, and the physical paths touched so
far. -/
structure World (N C T : Type) where
  tree : Tree N C T
  touched : List (List N)

/-- Programs that use a file system. -/
abbrev Sys (N C T : Type) : Type → Type := Prog (World N C T) Errno

open Prog

/-- The node at a physical path. -/
def lookAt (p : List N) : Sys N C T (Option (Node C T)) := gets fun w => w.tree.look p

/-- Whether there is a directory. -/
instance decidableEqDir (o : Option (Node C T)) : Decidable (o = some .dir) :=
  match o with
  | none => isFalse (by simp)
  | some .dir => isTrue rfl
  | some (.file _) => isFalse (by simp)
  | some (.link _) => isFalse (by simp)

/-- Puts a node at a physical path. -/
def place (p : List N) (node : Node C T) : Sys N C T Unit := fun w =>
  if h : p ≠ [] ∧ w.tree.look p.dropLast = some .dir ∧ w.tree.look p ≠ some .dir then
    (.ok (), ⟨w.tree.put p node h.1 h.2.1 h.2.2, p :: w.touched⟩)
  else (.error .eisdir, w)

/-- The physical paths at and below one. -/
def Tree.below (t : Tree N C T) (p : List N) : List (List N) :=
  (t.nodes.map Prod.fst).filter fun q => decide (p <+: q)

/-- Removes a node, and all below it. -/
def remove (p : List N) : Sys N C T Unit := fun w =>
  if p = [] then (.error .eisdir, w)
  else (.ok (), ⟨w.tree.prune p, w.tree.below p ++ w.touched⟩)

section Calls

variable (route : T → Route N) (limit : ℕ)

/-- Where a call finds the node it is about. -/
def Tree.locates (t : Tree N C T) (follow : Bool) (steps : List (Step N)) :
    Except Errno (List N) :=
  if .bad ∈ steps then .error .einval else walk route t follow limit [] steps

/-- The physical path of the node a call is about. -/
def locate (follow : Bool) (steps : List (Step N)) : Sys N C T (List N) := fun w =>
  (w.tree.locates route limit follow steps, w)

/-- `mkdir` -/
def mkdir (steps : List (Step N)) : Sys N C T Unit := do
  let p ← locate route limit false steps
  match ← lookAt p with
  | none => place p .dir
  | some _ => fail .eexist

/-- `unlink` -/
def unlink (steps : List (Step N)) : Sys N C T Unit := do
  let p ← locate route limit false steps
  match ← lookAt p with
  | none => fail .enoent
  | some .dir => fail .eisdir
  | some _ => remove p

/-- The removal of a directory with all in it. -/
def rmtree (steps : List (Step N)) : Sys N C T Unit := do
  let p ← locate route limit false steps
  match ← lookAt p with
  | none => fail .enoent
  | some .dir => remove p
  | some _ => fail .enotdir

/-- `symlink` -/
def symlink (text : T) (steps : List (Step N)) : Sys N C T Unit := do
  let p ← locate route limit false steps
  match ← lookAt p with
  | none => place p (.link text)
  | some _ => fail .eexist

/-- A change of a file in place, such as `chmod`. It follows a link, and may
be made to a directory, which has nothing to change here. -/
def change (f : C → C) (steps : List (Step N)) : Sys N C T Unit := do
  let p ← locate route limit true steps
  match ← lookAt p with
  | none => fail .enoent
  | some .dir => modify fun w => { w with touched := p :: w.touched }
  | some (.file c) => place p (.file (f c))
  | some (.link _) => fail .eloop

/-- The content of a file. -/
def read (follow : Bool) (steps : List (Step N)) : Sys N C T C := do
  let p ← locate route limit follow steps
  match ← lookAt p with
  | none => fail .enoent
  | some .dir => fail .eisdir
  | some (.file c) => pure c
  | some (.link _) => fail .eloop

/-- A new file, behind a link if there is one. What exists is not
overwritten. -/
def create (c : C) (steps : List (Step N)) : Sys N C T Unit := do
  let p ← locate route limit true steps
  match ← lookAt p with
  | none => place p (.file c)
  | some .dir => fail .eisdir
  | some _ => fail .eexist

/-- `rename` of what is not a directory. -/
def rename (source target : List (Step N)) : Sys N C T Unit := do
  let p ← locate route limit false source
  let q ← locate route limit false target
  match ← lookAt p with
  | none => fail .enoent
  | some .dir => fail .eisdir
  | some node =>
    if p = q then pure ()
    else match ← lookAt q with
      | some .dir => fail .eisdir
      | _ => do
        place q node
        remove p

/-- Whether the steps lead to a directory. -/
def isDir (steps : List (Step N)) : Sys N C T Bool := do
  match ← attempt (locate route limit true steps) with
  | .error _ => pure false
  | .ok p => match ← lookAt p with
    | some .dir => pure true
    | _ => pure false

/-- Whether the steps lead to a link. -/
def isLink (steps : List (Step N)) : Sys N C T Bool := do
  match ← attempt (locate route limit false steps) with
  | .error _ => pure false
  | .ok p => match ← lookAt p with
    | some (.link _) => pure true
    | _ => pure false

end Calls

/-! ## What a call can do -/

/-- **A node was put at a path.** -/
structure Placed (w : World N C T) (p : List N) (node : Node C T) (w' : World N C T) : Prop where
  touched : w'.touched = p :: w.touched
  look : ∀ q, w'.tree.look q = if q = p then some node else w.tree.look q

/-- **A node was removed, with all below it.** -/
structure Removed (w : World N C T) (p : List N) (w' : World N C T) : Prop where
  touched : w'.touched = w.tree.below p ++ w.touched
  look : ∀ q, w'.tree.look q = if p <+: q then none else w.tree.look q

theorem Tree.prefix_of_mem_below {t : Tree N C T} {p q : List N} (h : q ∈ t.below p) : p <+: q :=
  of_decide_eq_true (mem_filter.mp h).2

/-- **An edit at a path**: a node is put there, one that `P` allows, or what
is there is removed, or its entry touched. -/
inductive Edit (P : Node C T → Prop) (p : List N) (w w' : World N C T) : Prop
  | place (node : Node C T) (allowed : P node) (placed : Placed w p node w')
  | remove (removed : Removed w p w')
  | touch (touched : w' = { w with touched := p :: w.touched })

section Edits

variable (route : T → Route N) (limit : ℕ)

/-- **At most one edit**, at the path that the steps lead to. -/
def Edited (P : Node C T → Prop) (t : Tree N C T) (follow : Bool) (steps : List (Step N))
    (w w' : World N C T) : Prop :=
  w' = w ∨ ∃ p, t.locates route limit follow steps = .ok p ∧ Edit P p w w'

/-- **A call edits the tree at most at the path it is given.** -/
def Edits {α : Type} (P : Node C T → Prop) (follow : Bool) (steps : List (Step N))
    (m : Sys N C T α) : Prop :=
  ∀ w, Edited route limit P w.tree follow steps w (m w).2

end Edits

section Calls

variable {route : T → Route N} {limit : ℕ} {steps : List (Step N)} {follow : Bool}
  {P : Node C T → Prop} {p : List N} {w : World N C T} {α : Type}

theorem place_edit {node : Node C T} (hnode : P node) :
    (place p node w).2 = w ∨ Edit P p w (place p node w).2 := by
  unfold place
  split
  next h => exact .inr (.place node hnode ⟨rfl, Tree.look_put h.1 h.2.1 h.2.2⟩)
  · exact .inl rfl

theorem remove_edit : (remove p w).2 = w ∨ Edit P p w (remove p w).2 := by
  unfold remove
  split
  · exact .inl rfl
  next h => exact .inr (.remove ⟨rfl, Tree.look_prune h⟩)

theorem locate_bind (k : List N → Sys N C T α) (w : World N C T) :
    ((locate route limit follow steps >>= k) w).2 = w
      ∨ ∃ p, w.tree.locates route limit follow steps = .ok p
        ∧ (locate route limit follow steps >>= k) w = k p w := by
  cases hp : w.tree.locates route limit follow steps with
  | error e =>
    exact .inl (congrArg Prod.snd
      (bind_of_error (m := locate route limit follow steps) (congrArg (·, w) hp)))
  | ok p => exact .inr ⟨p, rfl, bind_of_ok (congrArg (·, w) hp)⟩

/-- What a call does once it has found its node. -/
theorem edits_found {k : List N → Option (Node C T) → Sys N C T α}
    (h : ∀ p w, (k p (w.tree.look p) w).2 = w ∨ Edit P p w (k p (w.tree.look p) w).2) :
    Edits route limit P follow steps
      (locate route limit follow steps >>= fun p => lookAt p >>= k p) := by
  intro w
  rcases locate_bind (fun p => lookAt p >>= k p) w with hw | ⟨p, hp, hw⟩
  · exact .inl hw
  · rw [hw]
    exact (h p w).imp_right fun hedit => ⟨p, hp, hedit⟩

theorem mkdir_edits :
    Edits route limit (fun node : Node C T => node = .dir) false steps (mkdir route limit steps) :=
  edits_found fun p w => by
    cases w.tree.look p with
    | none => exact place_edit rfl
    | some node => exact .inl rfl

theorem unlink_edits :
    Edits route limit (fun _ : Node C T => False) false steps (unlink route limit steps) :=
  edits_found fun p w => by
    rcases w.tree.look p with _ | _ | _ | _
    · exact .inl rfl
    · exact .inl rfl
    · exact remove_edit
    · exact remove_edit

theorem rmtree_edits :
    Edits route limit (fun _ : Node C T => False) false steps (rmtree route limit steps) :=
  edits_found fun p w => by
    rcases w.tree.look p with _ | _ | _ | _
    · exact .inl rfl
    · exact remove_edit
    · exact .inl rfl
    · exact .inl rfl

theorem symlink_edits {text : T} :
    Edits route limit (fun node : Node C T => node = .link text) false steps
      (symlink route limit text steps) :=
  edits_found fun p w => by
    cases w.tree.look p with
    | none => exact place_edit rfl
    | some node => exact .inl rfl

theorem change_edits {f : C → C} :
    Edits route limit (fun node : Node C T => ∃ c, node = .file c) true steps
      (change route limit f steps) :=
  edits_found fun p w => by
    rcases w.tree.look p with _ | _ | c | _
    · exact .inl rfl
    · exact .inr (.touch rfl)
    · exact place_edit ⟨f c, rfl⟩
    · exact .inl rfl

theorem create_edits {c : C} :
    Edits route limit (fun node : Node C T => ∃ c, node = .file c) true steps
      (create route limit c steps) :=
  edits_found fun p w => by
    rcases w.tree.look p with _ | _ | _ | _
    · exact place_edit ⟨c, rfl⟩
    · exact .inl rfl
    · exact .inl rfl
    · exact .inl rfl

/-- **A move** is an edit at the new path, and then one at the old path. -/
theorem rename_edits {source target : List (Step N)} (w : World N C T) :
    ∃ w₁, Edited route limit (fun _ => True) w.tree false target w w₁
      ∧ Edited route limit (fun _ => False) w.tree false source w₁
        (rename route limit source target w).2 := by
  unfold rename
  rcases locate_bind _ w with hw | ⟨p, hp, hw⟩
  · exact ⟨w, .inl rfl, .inl hw⟩
  rw [hw]
  rcases locate_bind _ w with hw | ⟨q, hq, hw⟩
  · exact ⟨w, .inl rfl, .inl hw⟩
  rw [hw]
  have hmove : ∀ node, ∃ w₁, Edited route limit (fun _ => True) w.tree false target w w₁
      ∧ Edited route limit (fun _ => False) w.tree false source w₁
        ((if p = q then pure () else lookAt q >>= fun o => (match o with
          | some .dir => fail .eisdir
          | _ => do
            place q node
            remove p) : Sys N C T Unit) w).2 := by
    intro node
    have hplaced : ∃ w₁, Edited route limit (fun _ => True) w.tree false target w w₁
        ∧ Edited route limit (fun _ => False) w.tree false source w₁
          ((place q node >>= fun _ => remove p : Sys N C T Unit) w).2 := by
      refine ⟨(place q node w).2, (place_edit trivial).imp_right fun h => ⟨q, hq, h⟩, ?_⟩
      rcases hrun : place q node w with ⟨_ | _, w₁⟩
      · exact .inl (by rw [bind_of_error hrun])
      · rw [bind_of_ok hrun]
        exact remove_edit.imp_right fun h => ⟨p, hp, h⟩
    split
    · exact ⟨w, .inl rfl, .inl rfl⟩
    · rw [bind_of_ok (show lookAt q w = (.ok (w.tree.look q), w) from rfl)]
      rcases w.tree.look q with _ | _ | _ | _
      · exact hplaced
      · exact ⟨w, .inl rfl, .inl rfl⟩
      · exact hplaced
      · exact hplaced
  rw [bind_of_ok (show lookAt p w = (.ok (w.tree.look p), w) from rfl)]
  rcases w.tree.look p with _ | _ | c | text
  · exact ⟨w, .inl rfl, .inl rfl⟩
  · exact ⟨w, .inl rfl, .inl rfl⟩
  · exact hmove (.file c)
  · exact hmove (.link text)

section Reads

variable {I : World N C T → Prop}

theorem keeps_read : Keeps I (read route limit follow steps : Sys N C T C) :=
  keeps_bind (fun _ h => h) fun _ => keeps_bind (keeps_gets _) fun node => by
    rcases node with _ | _ | c | _
    · exact keeps_fail _
    · exact keeps_fail _
    · exact keeps_pure c
    · exact keeps_fail _

theorem keeps_isDir : Keeps I (isDir route limit steps : Sys N C T Bool) := by
  refine keeps_bind (keeps_attempt fun _ h => h) fun r => ?_
  cases r with
  | error e => exact keeps_pure _
  | ok p =>
    refine keeps_bind (keeps_gets _) fun node => ?_
    rcases node with _ | _ | _ | _ <;> exact keeps_pure _

theorem keeps_isLink : Keeps I (isLink route limit steps : Sys N C T Bool) := by
  refine keeps_bind (keeps_attempt fun _ h => h) fun r => ?_
  cases r with
  | error e => exact keeps_pure _
  | ok p =>
    refine keeps_bind (keeps_gets _) fun node => ?_
    rcases node with _ | _ | _ | _ <;> exact keeps_pure _

end Reads

end Calls

end LinkTree
