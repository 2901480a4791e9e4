import Juice.Zip.Extract

/-!
# What the parts of an extraction do

There is one result for each function that has an effect. For a run that
returns, it says what is in the file system then; for a run that fails, it
says why, as far as that matters – a platform on which no call fails, which
is `Platform.Reliable`, leaves only few reasons. In both cases, `Within`
bounds what the run did: what it created, what it opened, how much it wrote,
and that the variables of the loop are as before.
-/

namespace Juice.Zip

open List FileTree ByteSeq Prog

variable {Z : Type} {sys : Platform Z} {s : Extraction} {base p : List Name}

theorem wp_call {Q : ℕ → Extraction → Prop} {E : Failure → Extraction → Prop} :
    call.wp Q E s ↔ Q s.calls { s with calls := s.calls + 1 } := by
  unfold wp
  exact Iff.rfl

/-- **No call fails.** -/
structure Platform.Reliable (sys : Platform Z) : Prop where
  createsDirectory : ∀ k, sys.createsDirectory k = true
  opens : ∀ k, sys.opens k = true
  writes : ∀ k, ∃ n, sys.writes k = some (n + 1)
  closes : ∀ k, sys.closes k = true
  starts : ∀ k, ∃ z, sys.starts k = some z
  allocates : ∀ k, sys.allocates k = true

/-- **What was done from `s` to `t`**: only paths with `P` were created or
changed, those of `opens` were opened, and at most `n` bytes were written. -/
structure Within (P : List Name → Prop) (opens : List (List Name)) (n : ℕ) (s t : Extraction) :
    Prop where
  created : ∃ new, t.created = s.created ++ new ∧ ∀ q ∈ new, P q
  changed : ∀ q, t.fs q ≠ s.fs q → P q
  opened : t.opened = s.opened ++ opens
  written : t.written ≤ s.written + n
  seenPaths : t.seenPaths = s.seenPaths
  cursor : t.cursor = s.cursor
  extractedTotal : t.extractedTotal = s.extractedTotal
  walked : t.walked = s.walked

namespace Within

variable {P P' : List Name → Prop} {opens opens' : List (List Name)} {n n' : ℕ}
  {s t u : Extraction}

/-- What has no record. -/
theorem of_eq {fs : Files Name (List UInt8)} (hfs : ∀ q, fs q ≠ s.fs q → P q) (calls n : ℕ) :
    Within P [] n s { s with fs := fs, calls := calls } where
  created := ⟨[], (append_nil _).symm, fun _ hq => absurd hq not_mem_nil⟩
  changed := hfs
  opened := (append_nil _).symm
  written := Nat.le_add_right _ _
  seenPaths := rfl
  cursor := rfl
  extractedTotal := rfl
  walked := rfl

theorem refl (n : ℕ) : Within P [] n s s := of_eq (fun _ hq => absurd rfl hq) s.calls n

theorem trans (h : Within P opens n s t) (h' : Within P opens' n' t u) :
    Within P (opens ++ opens') (n + n') s u where
  created := by
    obtain ⟨new, heq, hnew⟩ := h.created
    obtain ⟨new', heq', hnew'⟩ := h'.created
    exact ⟨new ++ new', by rw [heq', heq, append_assoc],
      forall_mem_append.mpr ⟨hnew, hnew'⟩⟩
  changed q hq := by
    by_cases hsame : t.fs q = s.fs q
    · exact h'.changed q (hsame ▸ hq)
    · exact h.changed q hsame
  opened := by rw [h'.opened, h.opened, append_assoc]
  written := by
    have hw := h.written
    have hw' := h'.written
    omega
  seenPaths := h'.seenPaths.trans h.seenPaths
  cursor := h'.cursor.trans h.cursor
  extractedTotal := h'.extractedTotal.trans h.extractedTotal
  walked := h'.walked.trans h.walked

theorem mono (h : Within P opens n s t) (hP : ∀ q, P q → P' q) (hn : n ≤ n') :
    Within P' opens n' s t := by
  obtain ⟨new, heq, hnew⟩ := h.created
  exact { h with
    created := ⟨new, heq, fun q hq => hP q (hnew q hq)⟩
    changed := fun q hq => hP q (h.changed q hq)
    written := Nat.le_trans h.written (by omega) }

/-- The number of a call is no record. -/
theorem after_call (h : Within P opens n { s with calls := s.calls + 1 } t) :
    Within P opens n s t := { h with }

/-- A path that `put` sets is the only one that it changes. -/
theorem changed_put {fs : Files Name (List UInt8)} {p : List Name}
    {node : Option (Node (List UInt8))} (hp : P p) : ∀ q, put fs p node q ≠ fs q → P q := by
  intro q hq
  by_cases heq : q = p
  · rw [heq]
    exact hp
  · exact absurd (put_of_ne heq) hq

end Within

/-! ## Directories -/

/-- The path of a directory along `p`, below `base`. -/
def Along (base p q : List Name) : Prop := ∃ r, r <+: p ∧ r ≠ [] ∧ q = base ++ r

theorem Along.cons {q : List Name} {c : Name} (h : Along (base ++ [c]) p q) :
    Along base (c :: p) q := by
  obtain ⟨r, hr, -, rfl⟩ := h
  refine ⟨c :: r, cons_prefix_cons.mpr ⟨rfl, hr⟩, cons_ne_nil _ _, ?_⟩
  rw [append_assoc, singleton_append]

theorem Along.mono {p' q : List Name} (h : Along base p q) (hp : p <+: p') : Along base p' q := by
  obtain ⟨r, hr, hne, heq⟩ := h
  exact ⟨r, hr.trans hp, hne, heq⟩

/-- A file is in the way of the directories along `p`. -/
def Blocked (fs : Files Name (List UInt8)) (base p : List Name) : Prop :=
  ∃ r, r <+: p ∧ r ≠ [] ∧ ∃ content, fs (base ++ r) = some (.file content)

/-- **The directories along a path are made.** -/
theorem wp_createDirectories (base p : List Name) (s : Extraction) :
    (createDirectories sys base p).wp
      (fun _ t => MadeDirs s.fs t.fs base p ∧ Within (Along base p) [] 0 s t)
      (fun e t => e = .foundation ∧ Within (Along base p) [] 0 s t
        ∧ (sys.Reliable → Blocked s.fs base p)) s := by
  induction p generalizing base s with
  | nil => exact wp_pure.mpr ⟨.nil, .refl 0⟩
  | cons c p ih =>
    have hfirst : [c] <+: c :: p := cons_prefix_cons.mpr ⟨rfl, nil_prefix⟩
    have hblocked : ∀ fs : Files Name (List UInt8), (∀ r, r ≠ [] →
        fs (base ++ [c] ++ r) = s.fs (base ++ [c] ++ r)) →
        Blocked fs (base ++ [c]) p → Blocked s.fs base (c :: p) := by
      rintro fs hfs ⟨r, hr, hne, content, hfile⟩
      refine ⟨c :: r, cons_prefix_cons.mpr ⟨rfl, hr⟩, cons_ne_nil _ _, content, ?_⟩
      rw [← hfile, hfs r hne, append_assoc, singleton_append]
    refine wp_bind.mpr (wp_gets.mpr ?_)
    cases hnode : s.fs (base ++ [c]) with
    | some node =>
      cases node with
      | dir =>
        refine wp_imp (ih (base ++ [c]) s) ?_ ?_
        · rintro _ t ⟨hmade, hwithin⟩
          refine ⟨.cons (.inr hnode) ?_, hwithin.mono (fun _ => Along.cons) (Nat.le_refl _)⟩
          rw [put_eq_self hnode]
          exact hmade
        · rintro e t ⟨he, hwithin, hwhy⟩
          exact ⟨he, hwithin.mono (fun _ => Along.cons) (Nat.le_refl _),
            fun hrel => hblocked s.fs (fun _ _ => rfl) (hwhy hrel)⟩
      | file content =>
        exact wp_fail.mpr
          ⟨rfl, .refl 0, fun _ => ⟨[c], hfirst, cons_ne_nil _ _, content, hnode⟩⟩
    | none =>
      refine wp_bind.mpr (wp_call.mpr (wp_bind.mpr (wp_ensure.mpr ⟨fun hok => ?_, fun hno => ?_⟩)))
      · refine wp_bind.mpr (wp_modify.mpr ?_)
        have hnew : Along base (c :: p) (base ++ [c]) :=
          ⟨[c], hfirst, cons_ne_nil _ _, rfl⟩
        have hstep : Within (Along base (c :: p)) [] 0 s { s with
            fs := put s.fs (base ++ [c]) (some .dir)
            created := s.created ++ [base ++ [c]]
            calls := s.calls + 1 } :=
          ⟨⟨[base ++ [c]], rfl, fun q hq => mem_singleton.mp hq ▸ hnew⟩,
            Within.changed_put hnew, (append_nil _).symm, Nat.le_refl _, rfl, rfl, rfl, rfl⟩
        refine wp_imp (ih (base ++ [c]) _) ?_ ?_
        · rintro _ t ⟨hmade, hwithin⟩
          exact ⟨.cons (.inl hnode) hmade,
            hstep.trans (hwithin.mono (fun _ => Along.cons) (Nat.le_refl _))⟩
        · rintro e t ⟨he, hwithin, hwhy⟩
          refine ⟨he, hstep.trans (hwithin.mono (fun _ => Along.cons) (Nat.le_refl _)),
            fun hrel => hblocked _ (fun r hr => put_of_ne ?_) (hwhy hrel)⟩
          exact fun heq => hr (append_right_eq_self.mp heq)
      · exact ⟨rfl, (Within.refl 0).after_call, fun hrel => absurd (hrel.createsDirectory _) hno⟩

/-- The directories that are there are passed. -/
theorem createDirectories_append {above : List Name}
    (h : ∀ r, r <+: base → r ≠ [] → s.fs (above ++ r) = some .dir) :
    createDirectories sys above (base ++ p) s = createDirectories sys (above ++ base) p s := by
  induction base generalizing above with
  | nil => rw [nil_append, append_nil]
  | cons c base ih =>
    have hfirst : s.fs (above ++ [c]) = some .dir :=
      h [c] (cons_prefix_cons.mpr ⟨rfl, nil_prefix⟩) (cons_ne_nil _ _)
    have hrest : createDirectories sys above (c :: (base ++ p)) s
        = createDirectories sys (above ++ [c]) (base ++ p) s := by
      rw [createDirectories, gets_bind, hfirst]
    rw [cons_append, hrest, ih, append_assoc, singleton_append]
    intro r hr hne
    have happ : above ++ [c] ++ r = above ++ c :: r := by
      rw [append_assoc, singleton_append]
    rw [happ]
    exact h (c :: r) (cons_prefix_cons.mpr ⟨rfl, hr⟩) (cons_ne_nil _ _)

/-- **`createDirectoryAtPath:` below a directory.** -/
theorem wp_createDirectory (p : List Name) (hbase : ∀ b, b <+: base → s.fs b = some .dir) :
    (createDirectory sys (base ++ p)).wp
      (fun _ t => MadeDirs s.fs t.fs base p ∧ Within (Along base p) [] 0 s t)
      (fun e t => e = .foundation ∧ Within (Along base p) [] 0 s t
        ∧ (sys.Reliable → Blocked s.fs base p)) s := by
  refine wp_bind.mpr (wp_call.mpr (wp_bind.mpr (wp_ensure.mpr ⟨fun _ => ?_, fun hno => ?_⟩)))
  · refine (wp_congr (createDirectories_append (fun r hr _ => hbase r hr))).mpr ?_
    refine wp_imp (wp_createDirectories base p _) ?_ ?_
    · rintro _ t ⟨hmade, hwithin⟩
      exact ⟨hmade, hwithin.after_call⟩
    · rintro e t ⟨he, hwithin, hwhy⟩
      exact ⟨he, hwithin.after_call, hwhy⟩
  · exact ⟨rfl, (Within.refl 0).after_call, fun hrel => absurd (hrel.createsDirectory _) hno⟩

/-! ## Files -/

section Files

variable {path : List Char} {s : Extraction} {P : List Name → Prop} {content remaining : List UInt8}

/-- **A file is opened.** -/
theorem wp_openFile :
    (openFile sys path).wp
      (fun _ t => s.fs (pathComponents path) ≠ some .dir
        ∧ t.fs = put s.fs (pathComponents path) (some (.file []))
        ∧ Within (· = pathComponents path) [pathComponents path] 0 s t)
      (fun e t => e ≠ .undefined ∧ Within (· = pathComponents path) [] 0 s t
        ∧ (sys.Reliable → s.fs (pathComponents path) = some .dir
          ∨ s.fs (pathComponents path).dropLast ≠ some .dir)) s := by
  refine wp_bind.mpr (wp_call.mpr (wp_bind.mpr (wp_gets.mpr (wp_bind.mpr
    (wp_ensure.mpr ⟨fun hok => ?_, fun hno => ?_⟩)))))
  · refine wp_modify.mpr ⟨hok.2.1, rfl, ?_, Within.changed_put rfl, rfl, Nat.le_refl _, rfl, rfl,
      rfl, rfl⟩
    show ∃ new, (if (s.fs (pathComponents path)).isNone then s.created ++ [pathComponents path]
      else s.created) = s.created ++ new ∧ _
    split
    · exact ⟨_, rfl, fun q hq => mem_singleton.mp hq⟩
    · exact ⟨[], (append_nil _).symm, fun q hq => absurd hq not_mem_nil⟩
  · refine ⟨nofun, (Within.refl 0).after_call, fun hrel => ?_⟩
    by_contra hcon
    rw [not_or, not_not] at hcon
    exact hno ⟨hrel.opens _, hcon.1, hcon.2⟩

theorem appendFile_eq {fs : Files Name (List UInt8)} {p : List Name} {chunk : List UInt8}
    (h : fs p = some (.file content)) :
    appendFile fs p chunk = put fs p (some (.file (content ++ chunk))) := by
  unfold appendFile
  rw [h]

/-- The loop of `JZWriteAll`. -/
theorem wp_writeLoop (hP : P (pathComponents path)) (n : ℕ) {bytes : List UInt8}
    (hn : bytes.length ≤ n) (hfile : s.fs (pathComponents path) = some (.file content)) :
    (writeLoop sys path n bytes).wp
      (fun _ t => t.fs = put s.fs (pathComponents path) (some (.file (content ++ bytes)))
        ∧ Within P [] bytes.length s t)
      (fun e t => e ≠ .undefined ∧ Within P [] bytes.length s t ∧ ¬ sys.Reliable) s := by
  induction n generalizing bytes content s with
  | zero =>
    obtain rfl := length_eq_zero_iff.mp (Nat.le_zero.mp hn)
    rw [append_nil]
    exact wp_pure.mpr ⟨(put_eq_self hfile).symm, .refl 0⟩
  | succ n ih =>
    unfold writeLoop
    split
    · rename_i hnil
      rw [hnil, append_nil]
      exact wp_pure.mpr ⟨(put_eq_self hfile).symm, .refl 0⟩
    · refine wp_bind.mpr (wp_call.mpr ?_)
      split
      · rename_i hw
        refine wp_fail.mpr ⟨nofun, (Within.refl _).after_call, fun hrel => ?_⟩
        obtain ⟨k, hk⟩ := hrel.writes s.calls
        exact nomatch hw.symm.trans hk
      · rename_i hw
        refine wp_fail.mpr ⟨nofun, (Within.refl _).after_call, fun hrel => ?_⟩
        obtain ⟨k, hk⟩ := hrel.writes s.calls
        exact nomatch hw.symm.trans hk
      · rename_i w hw
        refine wp_bind.mpr (wp_modify.mpr ?_)
        rw [appendFile_eq hfile]
        have hlen : (bytes.take (w + 1)).length + (bytes.drop (w + 1)).length = bytes.length := by
          rw [← length_append, take_append_drop]
        have hstep : Within P [] (bytes.take (w + 1)).length s { s with
            fs := put s.fs (pathComponents path) (some (.file (content ++ bytes.take (w + 1))))
            calls := s.calls + 1
            written := s.written + (bytes.take (w + 1)).length } :=
          ⟨⟨[], (append_nil _).symm, fun q hq => absurd hq not_mem_nil⟩,
            Within.changed_put hP, (append_nil _).symm, Nat.le_refl _, rfl, rfl, rfl, rfl⟩
        have hdrop : (bytes.drop (w + 1)).length ≤ n := by
          rw [length_drop]
          omega
        refine wp_imp (ih hdrop put_self) ?_ ?_
        · rintro _ t ⟨hfs, hwithin⟩
          rw [put_put, append_assoc, take_append_drop] at hfs
          exact ⟨hfs, (hstep.trans hwithin).mono (fun _ h => h) (Nat.le_of_eq hlen)⟩
        · rintro e t ⟨he, hwithin, hrel⟩
          exact ⟨he, (hstep.trans hwithin).mono (fun _ h => h) (Nat.le_of_eq hlen), hrel⟩

/-- **`JZWriteAll`.** -/
theorem wp_jzWriteAll (hP : P (pathComponents path)) {bytes : List UInt8}
    (hfile : s.fs (pathComponents path) = some (.file content)) :
    (jzWriteAll sys path bytes).wp
      (fun _ t => t.fs = put s.fs (pathComponents path) (some (.file (content ++ bytes)))
        ∧ Within P [] bytes.length s t)
      (fun e t => e ≠ .undefined ∧ Within P [] bytes.length s t ∧ ¬ sys.Reliable) s :=
  wp_writeLoop hP bytes.length (Nat.le_refl _) hfile

/-- The loop of `JZExtractStored`. -/
theorem wp_storedLoop (hP : P (pathComponents path)) (n : ℕ) (crc : UInt32)
    (hn : remaining.length ≤ n) (hfile : s.fs (pathComponents path) = some (.file content)) :
    (storedLoop sys path n crc remaining).wp
      (fun crc' t => crc' = crc32 crc remaining
        ∧ t.fs = put s.fs (pathComponents path) (some (.file (content ++ remaining)))
        ∧ Within P [] remaining.length s t)
      (fun e t => e ≠ .undefined ∧ Within P [] remaining.length s t ∧ ¬ sys.Reliable) s := by
  induction n generalizing remaining content s crc with
  | zero =>
    obtain rfl := length_eq_zero_iff.mp (Nat.le_zero.mp hn)
    rw [append_nil, crc32_nil]
    exact wp_pure.mpr ⟨rfl, (put_eq_self hfile).symm, .refl 0⟩
  | succ n ih =>
    unfold storedLoop
    split
    · rename_i hnil
      rw [hnil, append_nil, crc32_nil]
      exact wp_pure.mpr ⟨rfl, (put_eq_self hfile).symm, .refl 0⟩
    · have hlen : (remaining.take JZIOChunkSize).length + (remaining.drop JZIOChunkSize).length
          = remaining.length := by
        rw [← length_append, take_append_drop]
      have hdrop : (remaining.drop JZIOChunkSize).length ≤ n := by
        rw [length_drop, JZIOChunkSize]
        omega
      refine wp_bind.mpr (wp_imp (wp_jzWriteAll hP hfile) ?_ ?_)
      · rintro _ t ⟨hfs, hwithin⟩
        have hfile' : t.fs (pathComponents path)
            = some (.file (content ++ remaining.take JZIOChunkSize)) := by
          rw [hfs, put_self]
        refine wp_imp (ih _ hdrop hfile') ?_ ?_
        · rintro crc' u ⟨hcrc, hfs', hwithin'⟩
          rw [crc32_append, take_append_drop] at hcrc
          rw [hfs, put_put, append_assoc, take_append_drop] at hfs'
          exact ⟨hcrc, hfs', (hwithin.trans hwithin').mono (fun _ h => h) (Nat.le_of_eq hlen)⟩
        · rintro e u ⟨he, hwithin', hrel⟩
          exact ⟨he, (hwithin.trans hwithin').mono (fun _ h => h) (Nat.le_of_eq hlen), hrel⟩
      · rintro e t ⟨he, hwithin, hrel⟩
        exact ⟨he, hwithin.mono (fun _ h => h) (by omega), hrel⟩

theorem wp_addUnsigned {a b : ℕ} (h : a + b < 2 ^ 64) {Q : ℕ → Extraction → Prop}
    {E : Failure → Extraction → Prop} : (lift (addUnsigned a b)).wp Q E s ↔ Q (a + b) s := by
  unfold addUnsigned
  rw [if_pos h]
  exact wp_ok

/-- The stream is fed when it has nothing left. -/
theorem refilled {avail fed rest : List UInt8}
    (hfed : (if decide (avail = [] ∧ remaining ≠ []) then remaining.take JZIOChunkSize
      else avail) = fed)
    (hrest : (if decide (avail = [] ∧ remaining ≠ []) then remaining.drop JZIOChunkSize
      else remaining) = rest) : avail ++ remaining = fed ++ rest ∧ (fed = [] → rest = []) := by
  subst hfed hrest
  by_cases h : avail = [] ∧ remaining ≠ []
  · rw [decide_eq_true h, if_pos rfl, if_pos rfl, h.1, nil_append, take_append_drop]
    refine ⟨rfl, fun hnil => ?_⟩
    rw [take_eq_nil_iff] at hnil
    rcases hnil with hnil | hnil
    · exact absurd hnil (by decide)
    · exact absurd hnil h.2
  · rw [decide_eq_false h, if_neg Bool.false_ne_true, if_neg Bool.false_ne_true]
    exact ⟨rfl, fun hnil => Decidable.of_not_not (fun hne => h ⟨hnil, hne⟩)⟩

/-- **The loop of `JZExtractDeflated`.** On a platform where no call fails,
a stream that reproduces as many bytes as are declared is extracted, given
the rounds that it needs. -/
theorem wp_inflateLoop (hP : P (pathComponents path)) {uncompressedSize : ℕ}
    (hsize : uncompressedSize < 2 ^ 32) (fuel : ℕ) {z : Z} {avail : List UInt8} {total : ℕ}
    {crc : UInt32} (htotal : total ≤ uncompressedSize)
    (hfile : s.fs (pathComponents path) = some (.file content)) :
    (inflateLoop sys path uncompressedSize fuel z avail remaining total crc).wp
      (fun crc' t => ∃ data, Inflates sys.zlib z (avail ++ remaining) data
        ∧ total + data.length = uncompressedSize ∧ crc' = crc32 crc data
        ∧ t.fs = put s.fs (pathComponents path) (some (.file (content ++ data)))
        ∧ Within P [] (uncompressedSize - total) s t)
      (fun e t => e ≠ .undefined ∧ Within P [] (uncompressedSize - total) s t
        ∧ (sys.Reliable → ∀ data, Reproduces sys.zlib z (avail ++ remaining) data →
          total + data.length = uncompressedSize →
          fuel ≤ (avail ++ remaining).length + data.length)) s := by
  induction fuel generalizing z avail remaining content total crc s with
  | zero => exact wp_fail.mpr ⟨nofun, .refl _, fun _ _ _ _ => Nat.zero_le _⟩
  | succ fuel ih =>
    unfold inflateLoop
    dsimp only
    generalize hfed : (if decide (avail = [] ∧ remaining ≠ []) then remaining.take JZIOChunkSize
      else avail) = fed
    generalize hrest : (if decide (avail = [] ∧ remaining ≠ []) then
      remaining.drop JZIOChunkSize else remaining) = rest
    obtain ⟨hsplit, hfeed⟩ := refilled hfed hrest
    rw [hsplit]
    have hout := sys.zlib.output_le z fed
    have hcons := sys.zlib.consumed_le z fed
    -- what a stream that reproduces its data does in this round
    have hgoes : ∀ data, Reproduces sys.zlib z (fed ++ rest) data →
        Goes (Reproduces sys.zlib) (sys.zlib.inflate z fed) fed rest data :=
      fun data hdata => hdata.goes hfeed
    have hfinish := @Inflates.finish Z sys.zlib z fed
    have hmore := fun data => @Inflates.more Z sys.zlib z fed rest data hfeed
    generalize sys.zlib.inflate z fed = r at *
    unfold JZIOChunkSize at hout
    refine wp_bind.mpr ((wp_addUnsigned (by omega)).mpr ?_)
    refine wp_bind.mpr (wp_ensure.mpr ⟨fun hle => ?_, fun hbig => ?_⟩)
    · have hle : total + r.output.length ≤ uncompressedSize := by
        rcases hle with hnil | hle
        · rw [hnil]
          exact htotal
        · exact hle
      have hbytes : r.output.length + (uncompressedSize - (total + r.output.length))
          ≤ uncompressedSize - total := by omega
      refine wp_bind.mpr (wp_imp (wp_jzWriteAll hP hfile) ?_ ?_)
      · rintro _ t ⟨hfs, hwithin⟩
        have hwithin' := hwithin.mono (fun _ h => h) (show r.output.length
          ≤ uncompressedSize - total by omega)
        cases hstatus : r.status with
        | streamEnd =>
          refine wp_bind.mpr (wp_ensure.mpr ⟨fun hall => ?_, fun hno => ?_⟩)
          · obtain ⟨hlen, rfl, hdrop⟩ := hall
            rw [drop_eq_nil_iff] at hdrop
            rw [append_nil]
            exact wp_pure.mpr ⟨r.output, hfinish hstatus (Nat.le_antisymm hcons hdrop), hlen, rfl,
              hfs, hwithin'⟩
          · refine ⟨nofun, hwithin', fun _ data hdata hlen => absurd ?_ hno⟩
            obtain ⟨rfl, rfl, hall⟩ := (hgoes data hdata).finish hstatus
            exact ⟨hlen, rfl, drop_eq_nil_iff.mpr (Nat.le_of_eq hall.symm)⟩
        | failed code =>
          refine wp_fail.mpr ⟨nofun, hwithin', fun _ data hdata _ => ?_⟩
          rcases (hgoes data hdata).status with h | h <;> exact nomatch hstatus.symm.trans h
        | ok =>
          refine wp_bind.mpr (wp_ensure.mpr ⟨fun _ => ?_, fun hno => ?_⟩)
          · have hfile' : t.fs (pathComponents path) = some (.file (content ++ r.output)) := by
              rw [hfs, put_self]
            refine wp_imp (ih hle hfile') ?_ ?_
            · rintro crc' u ⟨data, hinflates, hlen, hcrc, hfs', hwithin''⟩
              rw [crc32_append] at hcrc
              rw [hfs, put_put, append_assoc] at hfs'
              refine ⟨r.output ++ data, hmore data hstatus hinflates, ?_, hcrc, hfs',
                (hwithin.trans hwithin'').mono (fun _ h => h) hbytes⟩
              rw [length_append]
              omega
            · rintro e u ⟨he, hwithin'', hwhy⟩
              refine ⟨he, (hwithin.trans hwithin'').mono (fun _ h => h) hbytes,
                fun hrel data hdata hlen => ?_⟩
              have hg := hgoes data hdata
              have hpre := hg.output.length_le
              have hfuel := hwhy hrel _ (hg.more hstatus) (by
                rw [length_drop]
                omega)
              rw [length_append, length_drop, length_drop] at hfuel
              rw [length_append]
              rcases hg.progress hstatus with hprog | hprog
              · omega
              · have hpos := length_pos_iff.mpr hprog
                omega
          · refine ⟨nofun, hwithin', fun _ data hdata _ => absurd ?_ hno⟩
            rintro ⟨hnil, hdrop, rfl⟩
            have hwaits := (hgoes data hdata).waits hstatus hnil
            rw [hdrop] at hwaits
            exact hwaits rfl
      · rintro e t ⟨he, hwithin, hrel⟩
        exact ⟨he, hwithin.mono (fun _ h => h) (by omega), fun h => absurd h hrel⟩
    · refine ⟨nofun, .refl _, fun _ data hdata hlen => absurd ?_ hbig⟩
      have hpre := (hgoes data hdata).output.length_le
      exact .inr (by omega)

/-! ## The data of an entry -/

/-- **`data` is what the archive has for the entry `e`**: the stored bytes at
`dataOffset`, or what they inflate to. -/
def Carried (sys : Platform Z) (bytes : List UInt8) (e : Entry) (dataOffset : ℕ)
    (data : List UInt8) : Prop :=
  (e.method = 0 ∧ data = slice bytes dataOffset e.uncompressedSize)
    ∨ (e.method ≠ 0 ∧ ∃ k z, sys.starts k = some z
      ∧ Inflates sys.zlib z (slice bytes dataOffset e.compressedSize) data)

/-- **The entry `e` carries `data` as it should**, and `fuel` rounds are
enough. -/
structure Ready (fuel : ℕ) (sys : Platform Z) (bytes : List UInt8) (e : Entry) (dataOffset : ℕ)
    (data : List UInt8) : Prop where
  length : data.length = e.uncompressedSize
  crc : (crc32 0 data).toNat = e.expectedCRC
  stored : e.method = 0 → data = slice bytes dataOffset e.uncompressedSize
  deflated : e.method ≠ 0 → ∀ k z, sys.starts k = some z →
    Reproduces sys.zlib z (slice bytes dataOffset e.compressedSize) data
  fuel : e.method ≠ 0 → e.compressedSize + e.uncompressedSize < fuel

variable {bytes : List UInt8} {e : Entry} {dataOffset fuel : ℕ}

theorem Ready.eq_of_carried {data data' : List UInt8} (h : Ready fuel sys bytes e dataOffset data)
    (h' : Carried sys bytes e dataOffset data') : data' = data := by
  rcases h' with ⟨hm, heq⟩ | ⟨hm, k, z, hz, hinflates⟩
  · rw [heq, h.stored hm]
  · exact (h.deflated hm k z hz).eq_of_inflates hinflates

/-- **The data of an entry is extracted.** -/
theorem wp_extractData (hP : P (pathComponents path))
    (hbounds : dataOffset + e.compressedSize ≤ bytes.length) (hsize : e.uncompressedSize < 2 ^ 32)
    (hstored : e.method = 0 → e.compressedSize = e.uncompressedSize)
    (hfile : s.fs (pathComponents path) = some (.file [])) :
    (extractData fuel sys bytes path e dataOffset).wp
      (fun crc t => ∃ data, Carried sys bytes e dataOffset data
        ∧ data.length = e.uncompressedSize ∧ crc = crc32 0 data
        ∧ t.fs = put s.fs (pathComponents path) (some (.file data))
        ∧ Within P [] e.uncompressedSize s t)
      (fun err t => err ≠ .undefined ∧ Within P [] e.uncompressedSize s t
        ∧ (sys.Reliable → ∀ data, ¬ Ready fuel sys bytes e dataOffset data)) s := by
  unfold extractData
  split
  · rename_i hm
    have hbounds : dataOffset + e.uncompressedSize ≤ bytes.length := hstored hm ▸ hbounds
    have hlen : (slice bytes dataOffset e.uncompressedSize).length = e.uncompressedSize :=
      length_slice hbounds
    rw [readBytes_of_le hbounds]
    refine wp_bind.mpr (wp_ok.mpr ?_)
    refine wp_imp (wp_storedLoop hP _ 0 (Nat.le_refl _) hfile) ?_ ?_
    · rintro crc t ⟨hcrc, hfs, hwithin⟩
      rw [hlen] at hwithin
      exact ⟨_, .inl ⟨hm, rfl⟩, hlen, hcrc, hfs, hwithin⟩
    · rintro err t ⟨he, hwithin, hrel⟩
      rw [hlen] at hwithin
      exact ⟨he, hwithin, fun h => absurd h hrel⟩
  · rename_i hm
    have hlen : (slice bytes dataOffset e.compressedSize).length = e.compressedSize :=
      length_slice hbounds
    rw [readBytes_of_le hbounds]
    refine wp_bind.mpr (wp_ok.mpr (wp_bind.mpr (wp_call.mpr ?_)))
    cases hz : sys.starts s.calls with
    | none =>
      refine wp_fail.mpr ⟨nofun, (Within.refl _).after_call, fun hrel => ?_⟩
      obtain ⟨z, hz'⟩ := hrel.starts s.calls
      exact nomatch hz.symm.trans hz'
    | some z =>
      refine wp_bind.mpr (wp_call.mpr (wp_bind.mpr (wp_ensure.mpr ⟨fun _ => ?_, fun hno => ?_⟩)))
      · refine wp_imp (wp_inflateLoop hP hsize fuel (Nat.zero_le _) hfile) ?_ ?_
        · rintro crc t ⟨data, hinflates, hlength, hcrc, hfs, hwithin⟩
          rw [Nat.zero_add] at hlength
          exact ⟨data, .inr ⟨hm, s.calls, z, hz, hinflates⟩, hlength, hcrc, hfs,
            hwithin.after_call.after_call⟩
        · rintro err t ⟨he, hwithin, hwhy⟩
          refine ⟨he, hwithin.after_call.after_call, fun hrel data hready => ?_⟩
          have hle := hwhy hrel data (hready.deflated hm _ z hz)
            (by rw [Nat.zero_add]; exact hready.length)
          have hfuel := hready.fuel hm
          rw [nil_append, hlen, hready.length] at hle
          omega
      · exact ⟨nofun, (Within.refl _).after_call.after_call,
          fun hrel => absurd (hrel.allocates _) hno⟩

theorem wp_unlink (hP : P (pathComponents path)) {Q : Unit → Extraction → Prop}
    {E : Failure → Extraction → Prop} (h : ∀ t, Within P [] 0 s t → Q () t) : (unlink sys path).wp Q E s := by
  refine wp_bind.mpr (wp_call.mpr (wp_modify.mpr (h _ ?_)))
  split
  · exact .of_eq (Within.changed_put hP) _ 0
  · exact .of_eq (fun _ hq => absurd rfl hq) _ 0

/-- **A file is closed**, and kept when all is well. -/
theorem wp_closeFile (hP : P (pathComponents path)) {name : List Char} {expectedCRC : ℕ}
    {result : Except Failure UInt32} (hresult : result ≠ .error .undefined) :
    (closeFile sys name path expectedCRC result).wp
      (fun _ t => (∃ crc, result = .ok crc ∧ crc.toNat = expectedCRC) ∧ t.fs = s.fs
        ∧ Within P [] 0 s t)
      (fun err t => err ≠ .undefined ∧ Within P [] 0 s t
        ∧ (sys.Reliable → ∀ crc, result = .ok crc → crc.toNat ≠ expectedCRC)) s := by
  have hunlink : ∀ {err : Failure} {why : Prop}, err ≠ .undefined → why →
      (do unlink sys path; fail err : ZipM Unit).wp
        (fun _ t => (∃ crc, result = .ok crc ∧ crc.toNat = expectedCRC) ∧ t.fs = s.fs
          ∧ Within P [] 0 s t)
        (fun err t => err ≠ .undefined ∧ Within P [] 0 s t ∧ why)
        { s with calls := s.calls + 1 } := by
    intro err why herr hwhy
    exact wp_bind.mpr (wp_unlink hP (fun t ht => wp_fail.mpr ⟨herr, ht.after_call, hwhy⟩))
  cases result with
  | error err =>
    cases err with
    | undefined => exact absurd rfl hresult
    | diverges => exact wp_fail.mpr ⟨nofun, .refl 0, nofun⟩
    | zip code message => exact wp_bind.mpr (wp_call.mpr (hunlink nofun nofun))
    | foundation => exact wp_bind.mpr (wp_call.mpr (hunlink nofun nofun))
  | ok crc =>
    refine wp_bind.mpr (wp_call.mpr ?_)
    split
    · rename_i hno
      refine hunlink nofun (fun hrel => ?_)
      exact nomatch hno.symm.trans (hrel.closes _)
    · split
      · rename_i hne
        refine hunlink nofun (fun _ crc' hcrc => ?_)
        rw [← Except.ok.inj hcrc]
        exact hne
      · rename_i heq
        exact wp_pure.mpr ⟨⟨crc, rfl, Decidable.of_not_not heq⟩, rfl, (Within.refl 0).after_call⟩

end Files

/-- **A node is put in its place**: what an entry does to the file system. -/
def Placed (fs fs' : Files Name (List UInt8)) (base p : List Name) :
    Node (List UInt8) → Prop
  | .dir => MadeDirs fs fs' base p
  | .file data => ∃ fs₁, MadeDirs fs fs₁ base p.dropLast ∧ fs₁ (base ++ p) ≠ some .dir
    ∧ fs' = put fs₁ (base ++ p) (some (.file data))

/-- **A file of an archive is extracted.** -/
theorem wp_extractFile {fuel : ℕ} {bytes : List UInt8} {name path : List Char} {e : Entry}
    {dataOffset : ℕ} (hbase : ∀ b, b <+: base → s.fs b = some .dir)
    (hpath : pathComponents path = base ++ p) (hp : p ≠ [])
    (hbounds : dataOffset + e.compressedSize ≤ bytes.length) (hsize : e.uncompressedSize < 2 ^ 32)
    (hstored : e.method = 0 → e.compressedSize = e.uncompressedSize) :
    (extractFile fuel sys bytes name path e dataOffset).wp
      (fun _ t => (∃ data, Carried sys bytes e dataOffset data
          ∧ data.length = e.uncompressedSize ∧ (crc32 0 data).toNat = e.expectedCRC
          ∧ Placed s.fs t.fs base p (.file data))
        ∧ Within (Along base p) [base ++ p] e.uncompressedSize s t)
      (fun err t => err ≠ .undefined
        ∧ (∃ opens, (opens = [] ∨ opens = [base ++ p])
          ∧ Within (Along base p) opens e.uncompressedSize s t)
        ∧ (sys.Reliable → (∃ data, Ready fuel sys bytes e dataOffset data) →
          Blocked s.fs base p.dropLast ∨ s.fs (base ++ p) = some .dir)) s := by
  have hparent : (pathComponents path).dropLast = base ++ p.dropLast := by
    rw [hpath, dropLast_append_of_ne_nil hp]
  have hdirs : ∀ q, Along base p.dropLast q → Along base p q :=
    fun _ hq => hq.mono (List.dropLast_prefix p)
  have hself : ∀ q, q = pathComponents path → Along base p q :=
    fun q hq => ⟨p, prefix_refl p, hp, hq.trans hpath⟩
  unfold extractFile
  rw [hparent]
  refine wp_bind.mpr (wp_imp (wp_createDirectory p.dropLast hbase) ?_ ?_)
  · rintro _ t ⟨hmade, hwithin⟩
    have hwithin := hwithin.mono hdirs (Nat.le_refl 0)
    have hplace : t.fs (base ++ p) = s.fs (base ++ p) :=
      hmade.other_below (not_prefix_parent hp)
    have habove : t.fs (base ++ p.dropLast) = some .dir := by
      by_cases hnil : p.dropLast = []
      · rw [hnil, append_nil, hmade.other_base (prefix_refl _)]
        exact hbase base (prefix_refl _)
      · exact hmade.made _ (prefix_refl _) hnil
    refine wp_bind.mpr (wp_imp wp_openFile ?_ ?_)
    · rintro _ u ⟨hdir, hfs, hopen⟩
      have hopen := hwithin.trans (hopen.mono hself (Nat.le_refl 0))
      have hfile : u.fs (pathComponents path) = some (.file []) := by rw [hfs, put_self]
      refine wp_bind.mpr (wp_attempt.mpr (wp_imp
        (wp_extractData (hself _ rfl) hbounds hsize hstored hfile) ?_ ?_))
      · rintro crc v ⟨data, hcarried, hlen, rfl, hfs', hdata⟩
        have hdata := hopen.trans hdata
        rw [hpath] at hdata hfs hfs' hdir
        refine wp_imp (wp_closeFile (hself _ rfl) nofun) ?_ ?_
        · rintro _ x ⟨⟨crc, hcrc, hsum⟩, hx, hclose⟩
          obtain rfl := Except.ok.inj hcrc
          refine ⟨⟨data, hcarried, hlen, hsum, t.fs, hmade, hdir, ?_⟩,
            (hdata.trans hclose).mono (fun _ h => h) (by omega)⟩
          rw [hx, hfs', hfs, put_put]
        · rintro err x ⟨he, hclose, hwhy⟩
          refine ⟨he, ⟨_, .inr rfl, (hdata.trans hclose).mono (fun _ h => h) (by omega)⟩, ?_⟩
          rintro hrel ⟨data', hready⟩
          obtain rfl := hready.eq_of_carried hcarried
          exact absurd hready.crc (hwhy hrel _ rfl)
      · rintro err v ⟨he, hdata, hwhy⟩
        have hdata := hopen.trans hdata
        rw [hpath] at hdata
        refine wp_imp (wp_closeFile (hself _ rfl) (fun h => he (Except.error.inj h))) ?_ ?_
        · rintro _ x ⟨⟨crc, hcrc, -⟩, -⟩
          exact nomatch hcrc
        · rintro err' x ⟨he', hclose, -⟩
          refine ⟨he', ⟨_, .inr rfl, (hdata.trans hclose).mono (fun _ h => h) (by omega)⟩, ?_⟩
          rintro hrel ⟨data', hready⟩
          exact absurd hready (hwhy hrel data')
    · rintro err u ⟨he, hopen, hwhy⟩
      refine ⟨he, ⟨[], .inl rfl,
        (hwithin.trans (hopen.mono hself (Nat.le_refl 0))).mono (fun _ h => h) (by omega)⟩, ?_⟩
      intro hrel _
      rw [hparent, hpath] at hwhy
      rcases hwhy hrel with h | h
      · rw [hplace] at h
        exact .inr h
      · exact absurd habove h
  · rintro err t ⟨rfl, hwithin, hwhy⟩
    exact ⟨nofun, ⟨[], .inl rfl, hwithin.mono hdirs (Nat.zero_le _)⟩,
      fun hrel _ => .inl (hwhy hrel)⟩

end Juice.Zip
