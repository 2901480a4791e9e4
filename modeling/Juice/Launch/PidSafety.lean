import Juice.Launch.Launcher
import Juice.Lib.Slots

/-!
# Numbers of processes are safe

At any time each process that was started and not yet waited for is in the
hands of one part of the host: `self.child`, `self.server`, the main thread
while it stops things, or a worker of `TerminateProcessGroup`. These handles
are `Launcher.handles`, and that they are to distinct children none of which
is reaped is the invariant behind everything else.

`JuicePollCurrentChild` and a handoff hold numbers too, but copies: theirs
count only while their generation is the current one, and then they are
copies of `self.child` – `Current`.
-/

namespace Juice

open Option List Processes

/-! ## Who holds a number -/

/-- The numbers the main thread holds beside those in the controller. -/
def MainThread.handles : MainThread → List Handle
  | .stopping _ _ (.waiting helper _) _ => [helper]
  | .stopping _ _ (.kill helper) _ => [helper]
  | .stopping _ _ (.reap helper) _ => [helper]
  | .terminating groups _ _ => groups
  | _ => []

/-- The number a worker holds until it is done. -/
def Terminator.handles (worker : Terminator) : List Handle :=
  if worker.stage = .finished then [] else [worker.leader]

/-- **The numbers in use.** -/
def Launcher.handles (s : Launcher) : List Handle :=
  s.child.toList ++ s.server.toList ++ s.main.handles ++ s.terminators.flatMap Terminator.handles

/-- Changing one worker changes what it holds. -/
theorem flatMap_handles_set {ws : List Terminator} {w : ℕ} {worker : Terminator}
    (hw : ws[w]? = some worker) (worker' : Terminator) :
    ∃ pre post, ws.flatMap Terminator.handles = pre ++ worker.handles ++ post
      ∧ (ws.set w worker').flatMap Terminator.handles = pre ++ worker'.handles ++ post := by
  obtain ⟨hlt, rfl⟩ := List.getElem?_eq_some_iff.mp hw
  refine ⟨(ws.take w).flatMap Terminator.handles, (ws.drop (w + 1)).flatMap Terminator.handles,
    ?_, ?_⟩
  · have hsplit : ws = ws.take w ++ ws[w] :: ws.drop (w + 1) := by
      rw [← drop_eq_getElem_cons hlt, take_append_drop]
    conv_lhs => rw [hsplit]
    rw [flatMap_append, flatMap_cons, append_assoc]
  · rw [set_eq_take_append_cons_drop, if_pos hlt]
    simp

/-! ## The records -/

/-- **What was signalled and what was waited for**: a signal went to a child
that still had its number, and a wait returned the child it was for, each
child once. -/
structure Records (procs : List Proc) (waits : List Waited) (sent : List Sent) : Prop where
  reaped : ∀ w ∈ waits, Reaped procs w.proc
  own : ∀ w ∈ waits, w.proc = w.target.proc
  once : (waits.map Waited.proc).Nodup
  hit : ∀ e ∈ sent, e.hit = some e.target.proc

namespace Records

variable {procs : List Proc} {waits : List Waited} {sent : List Sent} {hs : List Handle}

theorem signal (h : Records procs waits sent) (ho : Owned procs hs) {target : Handle}
    (hmem : target ∈ hs) (group : Bool) (signal : Signal) :
    Records procs waits (sent ++ [⟨target, group, signal, lookup procs target.pid⟩]) where
  reaped := h.reaped
  own := h.own
  once := h.once
  hit := Slots.forall_mem_concat h.hit (ho.lookup_eq hmem)

theorem modify (h : Records procs waits sent) {f : Proc → Proc}
    (hf : ∀ p : Proc, p.reaped = true → (f p).reaped = true) (i : ℕ) :
    Records (procs.modify i f) waits sent :=
  ⟨fun w hw => (h.reaped w hw).modify hf i, h.own, h.once, h.hit⟩

theorem spawn (h : Records procs waits sent) {pid : ℕ} {procs' : List Proc} {leader : Handle}
    (hsp : Processes.spawn procs pid = some (procs', leader)) : Records procs' waits sent :=
  ⟨fun w hw => (h.reaped w hw).spawn hsp, h.own, h.once, h.hit⟩

/-- A child that was owned is waited for. -/
theorem wait (h : Records procs waits sent) {target : Handle} (hheld : Held procs target) :
    Records (procs.modify target.proc (fun p => { p with reaped := true }))
      (waits ++ [⟨target, target.proc⟩]) sent := by
  have hmod := h.modify (f := fun p => { p with reaped := true }) (fun _ _ => rfl) target.proc
  obtain ⟨p, hp, -⟩ := id hheld
  exact ⟨Slots.forall_mem_concat hmod.reaped (.reap hp), Slots.forall_mem_concat h.own rfl,
    Slots.nodup_map_concat h.once
      (fun w hw (heq : w.proc = target.proc) => hheld.not_reaped (heq ▸ h.reaped w hw)), h.hit⟩

end Records

/-! ## The current launch -/

/-- The launch that a session is for. -/
def JITSession.key (session : JITSession) : Handle × ℕ := (session.leader, session.generation)

/-- **Copies of the number of the child.** What belongs to the current
generation is about `self.child`. -/
structure Current (child : Option Handle) (generation : ℕ) (consumers : List Consumer)
    (keys : List (Handle × ℕ)) : Prop where
  consumer : ∀ c ∈ consumers, c.stage ≠ .finished → c.generation = generation →
    child = some c.leader
  consumer_le : ∀ c ∈ consumers, c.generation ≤ generation
  distinct : (consumers.map Consumer.generation).Nodup
  session : ∀ k ∈ keys, k.2 = generation → ∀ h, child = some h → h = k.1
  session_le : ∀ k ∈ keys, k.2 ≤ generation

namespace Current

variable {child : Option Handle} {generation : ℕ} {consumers : List Consumer}
  {keys : List (Handle × ℕ)} {c : Consumer}

/-- A stop leaves nothing of the new generation. -/
theorem stop (h : Current child generation consumers keys) (child' : Option Handle) :
    Current child' (generation + 1) consumers keys where
  consumer c hc _ heq := absurd (h.consumer_le c hc) (by omega)
  consumer_le c hc := Nat.le_succ_of_le (h.consumer_le c hc)
  distinct := h.distinct
  session k hk heq := absurd (h.session_le k hk) (by omega)
  session_le k hk := Nat.le_succ_of_le (h.session_le k hk)

/-- The child may be forgotten once no consumer is of the current generation. -/
theorem clear (h : Current child generation consumers keys)
    (hnone : ∀ c ∈ consumers, c.generation ≠ generation) :
    Current none generation consumers keys where
  consumer c hc _ heq := absurd heq (hnone c hc)
  consumer_le := h.consumer_le
  distinct := h.distinct
  session _ _ _ _ heq := nomatch heq
  session_le := h.session_le

/-- A launch adds a consumer, and perhaps a session, of a new generation. -/
theorem launch (h : Current child generation consumers keys) (leader : Handle)
    {keys' : List (Handle × ℕ)} (hkeys : ∀ k ∈ keys', k ∈ keys ∨ k = (leader, generation + 1)) :
    Current (some leader) (generation + 1) (consumers ++ [⟨leader, generation + 1, .reading⟩])
      keys' := by
  have hstop := h.stop none
  refine ⟨Slots.forall_mem_concat ?_ (fun _ _ => rfl),
    Slots.forall_mem_concat hstop.consumer_le (Nat.le_refl _),
    Slots.nodup_map_concat h.distinct (fun c hc heq => ?_), ?_, ?_⟩
  · intro c hc hstage heq
    exact nomatch hstop.consumer c hc hstage heq
  · have hle := h.consumer_le c hc
    dsimp only at heq
    omega
  · intro k hk heq l hl
    rcases hkeys k hk with hk | rfl
    · exact absurd (h.session_le k hk) (by omega)
    · exact (some_inj.mp hl).symm
  · intro k hk
    rcases hkeys k hk with hk | rfl
    · exact hstop.session_le k hk
    · exact Nat.le_refl _

/-- A consumer changes its stage only. -/
theorem mem_set {k : ℕ} (hc : consumers[k]? = some c) {stage : ConsumerStage} {x : Consumer}
    (hx : x ∈ consumers.set k { c with stage := stage }) :
    ∃ y ∈ consumers, x.generation = y.generation := by
  rcases mem_or_eq_of_mem_set hx with hmem | rfl
  · exact ⟨x, hmem, rfl⟩
  · exact ⟨c, mem_of_getElem? hc, rfl⟩

/-- The output of a launch is closed. -/
theorem close (h : Current child generation consumers keys) {k : ℕ} (hc : consumers[k]? = some c)
    (hstage : c.stage = .reading) :
    Current child generation (consumers.set k { c with stage := .polling }) keys := by
  have hmem := mem_of_getElem? hc
  refine { h with
    consumer := ?_
    consumer_le := ?_
    distinct := (Slots.map_set (f := Consumer.generation) (b := { c with stage := .polling })
      hc rfl).symm ▸ h.distinct }
  · intro x hx hx' heq
    rcases mem_or_eq_of_mem_set hx with hold | rfl
    · exact h.consumer x hold hx' heq
    · exact h.consumer c hmem (by rw [hstage]; exact nofun) heq
  · intro x hx
    obtain ⟨y, hy, heq⟩ := mem_set hc hx
    exact heq ▸ h.consumer_le y hy

/-- The consumer of the current launch is the only one: once it is finished
the child may be forgotten. -/
theorem finish (h : Current child generation consumers keys) {k : ℕ} (hc : consumers[k]? = some c)
    (child' : Option Handle) (hchild : c.generation = generation ∧ child' = none ∨ child' = child) :
    Current child' generation (consumers.set k { c with stage := .finished }) keys where
  consumer x hx hx' heq := by
    obtain ⟨j, hj⟩ := mem_iff_getElem?.mp hx
    rcases Slots.getElem?_set_cases hj with ⟨-, rfl⟩ | ⟨hjk, hj⟩
    · exact absurd rfl hx'
    · rcases hchild with ⟨hgen, rfl⟩ | rfl
      · exact absurd (Slots.eq_of_nodup_map h.distinct hj hc (heq.trans hgen.symm)) hjk
      · exact h.consumer x (mem_of_getElem? hj) hx' heq
  consumer_le x hx := by
    obtain ⟨y, hy, heq⟩ := mem_set hc hx
    exact heq ▸ h.consumer_le y hy
  distinct := (Slots.map_set (f := Consumer.generation) (b := { c with stage := .finished })
    hc rfl).symm ▸ h.distinct
  session x hx heq l hl := by
    rcases hchild with ⟨-, rfl⟩ | rfl
    · exact nomatch hl
    · exact h.session x hx heq l hl
  session_le := h.session_le

end Current

/-! ## The invariant -/

namespace Launcher

variable {main : MainThread} {sent : List Sent} {next : AfterStop} {leader : Handle}
  {input : MainInput}

/-- **What holds where the main thread is.** While it stops a launch the
handoff is over and no launch is the current one; from where it has
forgotten the numbers on there is no child. -/
def Position (s : Launcher) : Prop :=
  match s.main with
  | .idle => True
  | .adopting => True
  | .stopping c v _ _ => s.session = none ∧ c = s.child ∧ v = s.server
    ∧ ∀ x ∈ s.consumers, x.generation ≠ s.launchGeneration
  | .terminating _ _ _ => s.session = none ∧ s.child = none ∧ s.server = none
  | .startServer => s.session = none ∧ s.child = none ∧ s.server = none
  | .startChild => s.session = none ∧ s.child = none

/-- **The invariant.** -/
structure Inv (s : Launcher) : Prop where
  owned : Owned s.procs s.handles
  records : Records s.procs s.waits s.sent
  current : Current s.child s.launchGeneration s.consumers (s.sessions.map JITSession.key)
  position : s.Position

theorem inv_start : Inv start where
  owned := .empty
  records := ⟨nofun, nofun, nodup_nil, nofun⟩
  current := ⟨nofun, nofun, nodup_nil, nofun, nofun⟩
  position := trivial

variable {s t : Launcher}

/-- The main thread goes on, with no number it did not have. -/
theorem Inv.goto (h : Inv s) (hsub : main.handles.Sublist s.main.handles)
    (hpos : Position { s with main := main }) : Inv { s with main := main } :=
  { h with
    owned := h.owned.sublist (((List.Sublist.refl _).append hsub).append (List.Sublist.refl _))
    position := hpos }

/-- A number in use is signalled. -/
theorem Inv.signal (h : Inv s) {target : Handle} (hmem : target ∈ s.handles) (group : Bool)
    (signal : Signal) : Inv (s.signal target group signal) :=
  { h with records := h.records.signal h.owned hmem group signal }

/-! ## The handoff -/

/-- **What `JuiceJITEventReceived` changes**: the states of the sessions, the
session of the controller, which it may dispose of, and the records by the
signal it sends. -/
structure Handled (s t : Launcher) (sent : List Sent) : Prop where
  eq : t = { s with
    sent := s.sent ++ sent
    sessions := t.sessions
    session := t.session }
  keys : t.sessions.map JITSession.key = s.sessions.map JITSession.key
  session : t.session = s.session ∨ t.session = none

theorem Handled.refl (s : Launcher) : Handled s s [] :=
  ⟨by rw [append_nil], rfl, .inl rfl⟩

theorem Handled.dispose (h : Handled s t sent) (i : ℕ) : Handled s (t.dispose i) sent := by
  unfold Launcher.dispose
  split
  · exact ⟨by conv_lhs => rw [h.eq], h.keys, .inr rfl⟩
  · exact h

/-- A signal is sent only for the child that the session owns. -/
def Resumes (s : Launcher) (sent : List Sent) : Prop :=
  ∀ e ∈ sent, ∃ session ∈ s.sessions, ∃ child, s.child = some child
    ∧ child.pid = session.leader.pid ∧ session.generation = s.launchGeneration
    ∧ e.target = session.leader ∧ e.hit = lookup s.procs session.leader.pid

theorem transition_resume {state : JITState} {event : JITEvent} {nowMS : UInt64}
    {owns foreground : Bool} (h : (state.transition event nowMS owns foreground).2 = .resume) :
    owns = true ∧ event ≠ .cancel := by
  have heff := JITState.effect_receive state ⟨event, nowMS, owns, foreground⟩
  unfold JITState.receive at heff
  rw [h] at heff
  generalize (state.transition event nowMS owns foreground).1 = t at heff
  cases heff with
  | resumed hpend hd hf hp ha =>
    have hn := not_or.mp hd.1
    exact ⟨by simpa using hn.1, hn.2⟩

theorem ownsChild_eq_true {i : ℕ} {session : JITSession} (h : s.ownsChild i session = true) :
    ∃ child, s.child = some child ∧ child.pid = session.leader.pid
      ∧ session.generation = s.launchGeneration := by
  unfold ownsChild at h
  rw [Bool.and_eq_true, Bool.and_eq_true, Option.any_eq_true] at h
  obtain ⟨⟨-, child, hchild, hpid⟩, hgen⟩ := h
  exact ⟨child, hchild, by simpa using hpid, by simpa using (of_decide_eq_true hgen).symm⟩

theorem handled_eventReceived (s : Launcher) (i : ℕ) (event : JITEvent) (nowMS : UInt64)
    (foreground resumed : Bool) :
    ∃ sent, Handled s (s.eventReceived i event nowMS foreground resumed).1 sent
      ∧ Resumes s sent ∧ (event = .cancel → sent = []) := by
  unfold eventReceived
  split
  case h_1 => exact ⟨[], .refl s, nofun, fun _ => rfl⟩
  case h_2 session hsession =>
  extract_lets owns
  split
  rename_i state action htrans
  extract_lets signalled
  -- the signal, if there is one
  obtain ⟨sent, hsig, hres, hcancel⟩ : ∃ sent, signalled = { s with sent := s.sent ++ sent }
      ∧ Resumes s sent ∧ (event = .cancel → sent = []) := by
    by_cases hact : action = .resume
    · have hr := transition_resume ((congrArg Prod.snd htrans).trans hact)
      obtain ⟨child, hchild, hpid, hgen⟩ := ownsChild_eq_true hr.1
      refine ⟨_, if_pos hact, ?_, fun hc => absurd hc hr.2⟩
      intro e he
      rw [mem_singleton.mp he]
      exact ⟨session, mem_of_getElem? hsession, child, hchild, hpid, hgen, rfl, rfl⟩
    · refine ⟨[], ?_, nofun, fun _ => rfl⟩
      rw [append_nil]
      exact if_neg hact
  split
  rename_i state' action' hstate
  extract_lets noted
  have hnoted : Handled s noted sent := by
    have heq : noted = { s with
        sent := s.sent ++ sent
        sessions := s.sessions.set i { session with state := state' } } := by
      show ({ signalled with sessions := _ } : Launcher) = _
      rw [hsig]
    rw [heq]
    exact ⟨rfl, Slots.map_set hsession rfl, .inl rfl⟩
  split
  · exact ⟨sent, hnoted, hres, hcancel⟩
  · exact ⟨sent, hnoted.dispose i, hres, hcancel⟩

/-- A position that needs the handoff to be over keeps what it needs. -/
theorem Position.handled (hpos : Position s) (h : Handled s t sent) : Position t := by
  obtain ⟨heq, -, hsession⟩ := h
  have hnone : s.session = none → t.session = none := by
    intro hs
    rcases hsession with hold | hnew
    · rw [hold, hs]
    · exact hnew
  rw [heq]
  unfold Position at hpos ⊢
  dsimp only
  split at hpos
  case h_1 | h_2 => trivial
  all_goals exact ⟨hnone hpos.1, hpos.2⟩

/-- A handoff that owns its child signals that child. -/
theorem Inv.handled (h : Inv s) (hh : Handled s t sent) (hres : Resumes s sent) : Inv t := by
  have hpos := h.position.handled hh
  have hkeys := hh.keys
  have heq := hh.eq
  generalize t.sessions = sessions at heq hkeys
  generalize t.session = session at heq
  subst heq
  refine ⟨h.owned, { h.records with
    hit := forall_mem_append.mpr ⟨h.records.hit, fun e he => ?_⟩ }, hkeys ▸ h.current, hpos⟩
  obtain ⟨x, hx, child, hchild, hpid, hgen, htarget, hhit⟩ := hres e he
  have hleader : child = x.leader :=
    h.current.session x.key (mem_map_of_mem hx) hgen child hchild
  have hmem : child ∈ s.handles := by
    simp [handles, hchild]
  rw [hhit, htarget, ← hleader]
  exact h.owned.lookup_eq hmem

theorem Inv.eventReceived (h : Inv s) (i : ℕ) (event : JITEvent) (nowMS : UInt64)
    (foreground resumed : Bool) : Inv (s.eventReceived i event nowMS foreground resumed).1 := by
  obtain ⟨sent, hh, hres, -⟩ := handled_eventReceived s i event nowMS foreground resumed
  exact h.handled hh hres

/-- A cancellation signals nothing. -/
theorem handled_cancel (s : Launcher) (i : ℕ) (nowMS : UInt64) (foreground : Bool) :
    Handled s (((s.eventReceived i .cancel nowMS foreground true).1).dispose i) [] := by
  obtain ⟨sent, hh, -, hnil⟩ := handled_eventReceived s i .cancel nowMS foreground true
  rw [hnil rfl] at hh
  exact hh.dispose i

theorem main_eventReceived (s : Launcher) (i : ℕ) (event : JITEvent) (nowMS : UInt64)
    (foreground resumed : Bool) :
    (s.eventReceived i event nowMS foreground resumed).1.main = s.main := by
  obtain ⟨sent, hh, -, -⟩ := handled_eventReceived s i event nowMS foreground resumed
  rw [hh.eq]

/-! ## Stopping -/

theorem Inv.beginStop (h : Inv s) (hmain : s.main.handles = []) (hsession : s.session = none)
    (next : AfterStop) : Inv (s.beginStop next) where
  owned := by
    have ho := h.owned
    unfold handles at ho
    rw [hmain] at ho
    exact ho
  records := h.records
  current := h.current.stop s.child
  position := by
    refine ⟨hsession, rfl, rfl, fun x hx => ?_⟩
    have hle := h.current.consumer_le x hx
    show x.generation ≠ s.launchGeneration + 1
    omega

theorem Inv.hardenedStop (h : Inv s) (hmain : s.main.handles = []) (resigning : Bool)
    (nowMS : UInt64) (foreground : Bool) (next : AfterStop) :
    Inv (s.hardenedStop resigning nowMS foreground next) := by
  unfold Launcher.hardenedStop
  split
  case h_1 hsession => exact h.beginStop hmain hsession next
  case h_2 i hsession =>
  split
  · exact h.goto (nil_sublist _) trivial
  · have hh := handled_cancel s i nowMS foreground
    have hmain' := congrArg Launcher.main hh.eq
    refine (h.handled hh nofun).beginStop (hmain' ▸ hmain) ?_ next
    -- what was disposed of was the session of the controller
    obtain ⟨sent, hev, -, -⟩ := handled_eventReceived s i .cancel nowMS foreground true
    have hor := hev.session
    rw [hsession] at hor
    unfold Launcher.dispose
    split
    · rfl
    · rename_i hne
      exact hor.resolve_left hne

/-! ## Reaping the child -/

theorem handled_willReap (s : Launcher) (leader : Handle) (generation : ℕ) (nowMS : UInt64)
    (foreground : Bool) : Handled s (s.willReap leader generation nowMS foreground) [] := by
  unfold willReap
  split
  · exact .refl s
  · split
    · exact handled_cancel s _ nowMS foreground
    · exact .refl s

/-- Cancelling the handoff of a child that is gone and then forgetting its
number. -/
theorem finished_eq (s : Launcher) (k : ℕ) (c : Consumer) (nowMS : UInt64) (foreground : Bool) :
    ∃ sessions session, s.finished k c nowMS foreground = { s with
        sessions := sessions
        session := session
        child := if s.child.any (·.pid == c.leader.pid) then none else s.child
        consumers := s.consumers.set k { c with stage := .finished } }
      ∧ sessions.map JITSession.key = s.sessions.map JITSession.key := by
  have hh := handled_willReap s c.leader c.generation nowMS foreground
  refine ⟨_, (s.willReap c.leader c.generation nowMS foreground).session, ?_, hh.keys⟩
  unfold finished
  rw [hh.eq, append_nil]

theorem Inv.pollCurrentChild (h : Inv s) (hmain : s.main = .idle) {k : ℕ} {c : Consumer}
    (hc : s.consumers[k]? = some c) (hstage : c.stage = .polling) (nowMS : UInt64)
    (foreground : Bool) : Inv (s.pollCurrentChild k c nowMS foreground) := by
  have hpos {s' : Launcher} (hm : s'.main = .idle) : Position s' := by
    unfold Position
    rw [hm]
    trivial
  unfold Launcher.pollCurrentChild
  split
  case isTrue hgen =>
    exact ⟨h.owned, h.records, h.current.finish hc s.child (.inr rfl), hpos hmain⟩
  case isFalse hgen =>
  rw [not_not] at hgen
  have hchild : s.child = some c.leader :=
    h.current.consumer c (mem_of_getElem? hc) (by rw [hstage]; exact nofun) hgen
  have hforget : (if s.child.any (·.pid == c.leader.pid) then none else s.child) = none := by
    rw [hchild]
    simp
  have howned : Owned s.procs (c.leader :: (s.server.toList ++ s.main.handles
      ++ s.terminators.flatMap Terminator.handles)) := by
    have ho := h.owned
    unfold handles at ho
    rw [hchild] at ho
    simpa using ho
  rcases howned.wait_cases with hw | ⟨hw, hrest⟩
  · rw [hw]
    exact h
  · rw [hw]
    obtain ⟨sessions, session, heq, hkeys⟩ :=
      finished_eq (s.waited c.leader _ c.leader.proc) k c nowMS foreground
    show Inv ((s.waited c.leader _ c.leader.proc).finished k c nowMS foreground)
    rw [heq]
    refine ⟨?_, h.records.wait (howned.held _ mem_cons_self), ?_, hpos hmain⟩
    · show Owned _ (Option.toList (if s.child.any _ then none else s.child) ++ _ ++ _ ++ _)
      rw [hforget]
      exact hrest
    · show Current (if s.child.any _ then none else s.child) _ _ _
      rw [hforget, hkeys]
      exact h.current.finish hc none (.inl ⟨hgen, rfl⟩)

/-! ## The workers -/

section worker
variable {w : ℕ} {worker : Terminator} (h : Inv s) (hw : s.terminators[w]? = some worker)
  (hactive : worker.stage ≠ .finished)
include h hw hactive

omit h in
theorem leader_mem_handles : worker.leader ∈ s.handles := by
  refine mem_append_right _ (mem_flatMap.mpr ⟨worker, mem_of_getElem? hw, ?_⟩)
  rw [Terminator.handles, if_neg hactive]
  exact mem_singleton_self _

/-- A worker goes on and keeps its number. -/
theorem Inv.worker_goes {stage : TerminatorStage} (hstage : stage ≠ .finished) :
    Inv { s with terminators := s.terminators.set w { worker with stage := stage } } := by
  refine ⟨?_, h.records, h.current, h.position⟩
  obtain ⟨pre, post, hold, hnew⟩ := flatMap_handles_set hw { worker with stage := stage }
  have ho := h.owned
  unfold handles at ho ⊢
  rw [hold, Terminator.handles, if_neg hactive] at ho
  rw [hnew, Terminator.handles, if_neg hstage]
  exact ho

/-- A worker is done when it has waited for its leader. -/
theorem Inv.worker_done {procs : List Proc} {proc : ℕ}
    (hwait : wait s.procs worker.leader.pid = (procs, .reaped proc)) :
    Inv { s.waited worker.leader procs proc with
      terminators := s.terminators.set w { worker with stage := .finished } } := by
  obtain ⟨pre, post, hold, hnew⟩ := flatMap_handles_set hw { worker with stage := .finished }
  have ho : Owned s.procs (worker.leader ::
      ({ s with terminators := s.terminators.set w { worker with stage := .finished } } :
        Launcher).handles) := by
    refine h.owned.perm ?_
    unfold handles
    rw [hold, hnew, Terminator.handles, Terminator.handles, if_neg hactive, if_pos rfl]
    simp only [append_nil, ← append_assoc]
    rw [append_assoc _ [worker.leader] post]
    exact perm_middle.symm
  rcases ho.wait_cases with hrun | ⟨hreap, hrest⟩
  · rw [hrun] at hwait
    cases hwait
  · rw [hreap] at hwait
    cases hwait
    exact ⟨hrest, h.records.wait (ho.held _ mem_cons_self), h.current, h.position⟩

end worker

theorem Inv.terminatorStep (h : Inv s) {w : ℕ} {worker : Terminator}
    (hw : s.terminators[w]? = some worker) {result : KillResult}
    (hst : s.terminatorStep w worker result = some t) : Inv t := by
  have hsignal (hactive : worker.stage ≠ .finished) (group : Bool) (signal : Signal)
      {stage : TerminatorStage} (hstage : stage ≠ .finished) :
      Inv { s.signal worker.leader group signal with
        terminators := s.terminators.set w { worker with stage := stage } } :=
    (h.signal (leader_mem_handles hw hactive) group signal).worker_goes hw hactive hstage
  revert hst
  fun_cases Launcher.terminatorStep s w worker result <;> intro hst <;> cases hst
  case case6 hstage _ hwait =>
    -- the number is in use, so there is such a child
    have hlook := h.owned.lookup_eq (leader_mem_handles hw (by simp [hstage]))
    unfold wait at hwait
    rw [hlook] at hwait
    dsimp only at hwait
    split at hwait <;> cases hwait
  case case7 hstage _ _ hwait => exact h.worker_done hw (by simp [hstage]) hwait
  case case1 _ hstage =>
    refine hsignal (by rw [hstage]; exact nofun) _ _ ?_
    split
    · exact nofun
    · split <;> exact nofun
  case case2 _ hstage => exact hsignal (by rw [hstage]; exact nofun) _ _ nofun
  case case3 _ hstage =>
    refine hsignal (by rw [hstage]; exact nofun) _ _ ?_
    split <;> exact nofun
  case case4 _ hstage => exact hsignal (by rw [hstage]; exact nofun) _ _ nofun

/-! ## The main thread -/

/-- What holds where the main thread is known to be. -/
theorem Inv.position_of (h : Inv s) (hmain : s.main = main) : Position { s with main := main } := by
  rw [← hmain]
  exact h.position

/-- The main thread goes on without a number of its own. -/
theorem Inv.goes (h : Inv s) {main' : MainThread} (hmain : s.main = main)
    (hnil : main'.handles = [])
    (hpos : Position { s with main := main } → Position { s with main := main' }) :
    Inv { s with main := main' } :=
  h.goto (hnil ▸ nil_sublist _) (hpos (h.position_of hmain))

/-- What the main thread holds is in use. -/
theorem main_mem_handles {target : Handle} (hmem : target ∈ s.main.handles) : target ∈ s.handles :=
  mem_append_left _ (mem_append_right _ hmem)

theorem Inv.waitHelper (h : Inv s) {helper : Handle} (hmain : s.main.handles = [helper])
    {running : Option MainThread} {done : MainThread}
    (hst : s.waitHelper helper running done = some t)
    (hrunning : ∀ main, running = some main →
      main.handles = [helper] ∧ Position { s with main := main })
    (hdone : done.handles = [] ∧ Position { s with main := done }) : Inv t := by
  have ho : Owned s.procs (helper :: ({ s with main := done } : Launcher).handles) := by
    refine h.owned.perm ?_
    unfold handles
    rw [hmain, hdone.1, append_nil, append_assoc _ [helper]]
    exact perm_middle.symm
  unfold Launcher.waitHelper at hst
  rcases ho.wait_cases with hrun | ⟨hreap, hrest⟩
  · rw [hrun] at hst
    obtain ⟨main, hsome, rfl⟩ := map_eq_some_iff.mp hst
    obtain ⟨hhandles, hpos⟩ := hrunning main hsome
    exact h.goto (by rw [hhandles, hmain]) hpos
  · rw [hreap] at hst
    obtain rfl := some_inj.mp hst
    exact ⟨hrest, h.records.wait (ho.held _ mem_cons_self), h.current, hdone.2⟩

/-- The numbers are forgotten and handed on. -/
theorem Inv.clear (h : Inv s) {c v : Option Handle} (hmain : s.main = .stopping c v .clear next) :
    Inv { s with
      child := none
      server := none
      main := .terminating (c.toList ++ v.toList) false next } := by
  obtain ⟨hsession, hc, hv, hnone⟩ := h.position_of hmain
  dsimp only at hc hv
  subst hc hv
  refine ⟨?_, h.records, h.current.clear hnone, hsession, rfl, rfl⟩
  have ho := h.owned
  unfold handles at ho
  rw [hmain] at ho
  simpa [handles, MainThread.handles] using ho

/-- A number passes from the main thread to a worker. -/
theorem Inv.terminated (h : Inv s) {groups : List Handle} {again : Bool}
    (hmain : s.main = .terminating (leader :: groups) again next) :
    Inv (s.terminated leader groups next) := by
  have hpos := h.position_of hmain
  refine ⟨h.owned.perm ?_, h.records, h.current, hpos⟩
  unfold handles Launcher.terminated
  rw [hmain, flatMap_append]
  have hperm := (perm_append_singleton leader
    (groups ++ s.terminators.flatMap Terminator.handles)).append_left
    (s.child.toList ++ s.server.toList)
  simpa [MainThread.handles, Terminator.handles] using hperm

theorem Inv.startServer (h : Inv s) (hmain : s.main = .startServer) {pid : ℕ}
    {procs : List Proc} {server : Handle} (hsp : spawn s.procs pid = some (procs, server)) :
    Inv { s with procs := procs, server := some server, main := .startChild } := by
  obtain ⟨hsession, hchild, hserver⟩ := h.position_of hmain
  have ho := h.owned.spawn hsp
  unfold handles at ho
  rw [hmain, hchild, hserver] at ho
  refine ⟨?_, h.records.spawn hsp, h.current, hsession, hchild⟩
  unfold handles
  rw [hchild]
  exact ho

/-- The sessions of a launch: those there were, and one for the new child. -/
theorem keys_launched (hsession : s.session = none) (deadlineMS : Option UInt64) {k : Handle × ℕ}
    (hk : k ∈ ((s.openSession leader deadlineMS).launched leader).sessions.map JITSession.key) :
    k ∈ s.sessions.map JITSession.key ∨ k = (leader, s.launchGeneration + 1) := by
  cases deadlineMS with
  | none =>
    unfold openSession launched adopt at hk
    dsimp only at hk
    rw [hsession] at hk
    exact .inl hk
  | some deadlineMS =>
    have hmem : k ∈ ((s.sessions ++ [(⟨leader, 0, .fresh deadlineMS⟩ : JITSession)]).modify
        s.sessions.length (fun session =>
          if session.leader.pid = leader.pid then
            { session with generation := s.launchGeneration + 1 }
          else session)).map JITSession.key := hk
    obtain ⟨x, hx, rfl⟩ := mem_map.mp hmem
    obtain ⟨j, hj⟩ := mem_iff_getElem?.mp hx
    rw [List.getElem?_modify] at hj
    obtain ⟨y, hy, rfl⟩ := map_eq_some_iff.mp hj
    rcases Slots.getElem?_concat_cases hy with ⟨rfl, rfl⟩ | hy
    · exact .inr (by simp [JITSession.key])
    · rw [if_neg (Nat.ne_of_gt (List.getElem?_eq_some_iff.mp hy).1)]
      exact .inl (mem_map_of_mem (mem_of_getElem? hy))

/-- A launch changes nothing else. -/
theorem launched_eq (s : Launcher) (leader : Handle) (deadlineMS : Option UInt64) :
    (s.openSession leader deadlineMS).launched leader = { s with
      child := some leader
      launchGeneration := s.launchGeneration + 1
      consumers := s.consumers ++ [(⟨leader, s.launchGeneration + 1, .reading⟩ : Consumer)]
      main := .adopting
      sessions := ((s.openSession leader deadlineMS).launched leader).sessions
      session := ((s.openSession leader deadlineMS).launched leader).session } := by
  cases deadlineMS <;> unfold openSession launched adopt <;> dsimp only
  split <;> rfl

theorem Inv.launched (h : Inv s) (hmain : s.main = .startChild) {pid : ℕ} {procs : List Proc}
    (hsp : spawn s.procs pid = some (procs, leader)) (deadlineMS : Option UInt64) :
    Inv ((({ s with procs := procs } : Launcher).openSession leader deadlineMS).launched
      leader) := by
  obtain ⟨hsession, hchild⟩ := h.position_of hmain
  have ho := h.owned.spawn hsp
  unfold handles at ho
  rw [hmain, hchild] at ho
  have hcurrent := h.current.launch leader (fun k hk =>
    @keys_launched leader { s with procs := procs } hsession deadlineMS k hk)
  rw [launched_eq]
  exact ⟨ho, h.records.spawn hsp, hcurrent, trivial⟩

/-- A step of `stopAllWineProcesses:` up to `TerminateProcessGroup`. -/
theorem Inv.stoppingStep (h : Inv s) {c v : Option Handle} {stage : StopStage}
    (hmain : s.main = .stopping c v stage next) (hst : s.mainStep input = some t) : Inv t := by
  unfold Launcher.mainStep at hst
  rw [hmain] at hst
  have hpos := h.position_of hmain
  cases stage with
  | spawn =>
    cases input with
    | noHelper =>
      cases hst
      exact h.goes hmain rfl id
    | spawned pid =>
      obtain ⟨⟨procs, helper⟩, hsp, rfl⟩ := map_eq_some_iff.mp hst
      refine ⟨(h.owned.spawn hsp).perm ?_, h.records.spawn hsp, h.current, hpos⟩
      unfold handles
      rw [hmain]
      have hperm : (s.child.toList ++ s.server.toList ++ helper ::
          s.terminators.flatMap Terminator.handles).Perm (helper :: (s.child.toList
            ++ s.server.toList ++ s.terminators.flatMap Terminator.handles)) := perm_middle
      simpa [MainThread.handles] using hperm
    | _ => cases hst
  | waiting helper attempt =>
    cases input with
    | waited eintr =>
      dsimp only at hst
      split at hst
      · cases hst
        exact h.goes hmain rfl id
      · refine h.waitHelper (by rw [hmain]; rfl) hst ?_ ⟨rfl, hpos⟩
        rintro main ⟨rfl⟩
        exact ⟨by split <;> rfl, hpos⟩
    | _ => cases hst
  | kill helper =>
    cases input with
    | killed _ =>
      cases hst
      have hmem : helper ∈ s.main.handles := by simp [hmain, MainThread.handles]
      exact (h.signal (main_mem_handles hmem) false .kill).goto (hmain ▸ .refl _) hpos
    | _ => cases hst
  | reap helper =>
    cases input with
    | waited eintr =>
      dsimp only at hst
      split at hst
      · cases hst
        exact h.goes hmain rfl id
      · exact h.waitHelper (by rw [hmain]; rfl) hst nofun ⟨rfl, hpos⟩
    | _ => cases hst
  | clear =>
    cases input with
    | go =>
      cases hst
      exact h.clear hmain
    | _ => cases hst

/-- A step of `TerminateProcessGroup` on the main thread. -/
theorem Inv.terminatingStep (h : Inv s) {groups : List Handle} {leader : Bool}
    (hmain : s.main = .terminating groups leader next) (hst : s.mainStep input = some t) :
    Inv t := by
  unfold Launcher.mainStep at hst
  rw [hmain] at hst
  cases groups with
  | nil =>
    cases input with
    | go =>
      cases hst
      cases next with
      | rest => exact h.goes hmain rfl fun _ => trivial
      | launch => exact h.goes hmain rfl id
    | _ => cases hst
  | cons first groups =>
    have hmem : first ∈ s.handles := main_mem_handles (by simp [hmain, MainThread.handles])
    cases input with
    | killed result =>
      cases leader with
      | false =>
        have hsig := h.signal hmem true .term
        dsimp only at hst
        split at hst
        · cases hst
          exact hsig.goto (hmain ▸ .refl _) (h.position_of hmain)
        · cases hst
          exact hsig.terminated hmain
      | true =>
        cases hst
        exact (h.signal hmem false .term).terminated hmain
    | _ => cases leader <;> cases hst

/-- A step of a launch. -/
theorem Inv.launchStep (h : Inv s) (hst : s.mainStep input = some t)
    (hmain : s.main = .startServer ∨ s.main = .startChild ∨ s.main = .adopting) : Inv t := by
  unfold Launcher.mainStep at hst
  rcases hmain with hmain | hmain | hmain <;> rw [hmain] at hst
  · cases input with
    | rejected =>
      cases hst
      exact h.goes hmain rfl fun _ => trivial
    | serverFailed =>
      cases hst
      rw [← (h.position_of hmain).2.2]
      exact h.goes hmain rfl fun _ => trivial
    | spawned pid =>
      obtain ⟨⟨procs, server⟩, hsp, rfl⟩ := map_eq_some_iff.mp hst
      exact h.startServer hmain hsp
    | _ => cases hst
  · cases input with
    | setupFailed nowMS foreground =>
      cases hst
      exact h.hardenedStop (by rw [hmain]; rfl) _ _ _ _
    | childFailed nowMS foreground =>
      cases hst
      rw [← show s.child = none from (h.position_of hmain).2, ← hmain]
      exact h.hardenedStop (by rw [hmain]; rfl) _ _ _ _
    | child pid deadlineMS =>
      dsimp only at hst
      split at hst
      · cases hst
      · obtain ⟨⟨procs, child⟩, hsp, rfl⟩ := map_eq_some_iff.mp hst
        have hlaunched := h.launched hmain hsp deadlineMS
        rw [hmain] at hlaunched
        exact hlaunched
    | _ => cases hst
  · cases input with
    | go =>
      cases hst
      exact h.goes hmain rfl fun _ => trivial
    | refused nowMS foreground =>
      dsimp only at hst
      split at hst
      · cases hst
        exact h.goes hmain rfl fun _ => trivial
      · rename_i i _
        have hev := h.eventReceived i .openRejected nowMS foreground true
        have hm := (main_eventReceived s i .openRejected nowMS foreground true).trans hmain
        split at hst
        · cases hst
          exact hev.hardenedStop (by rw [hm]; rfl) _ _ _ _
        · cases hst
          exact hev.goes hm rfl fun _ => trivial
    | _ => cases hst

theorem Inv.mainStep (h : Inv s) (hst : s.mainStep input = some t) : Inv t := by
  cases hmain : s.main with
  | idle =>
    unfold Launcher.mainStep at hst
    rw [hmain] at hst
    cases input <;> cases hst
  | stopping c v stage next => exact h.stoppingStep hmain hst
  | terminating groups leader next => exact h.terminatingStep hmain hst
  | startServer => exact h.launchStep hst (.inl hmain)
  | startChild => exact h.launchStep hst (.inr (.inl hmain))
  | adopting => exact h.launchStep hst (.inr (.inr hmain))

theorem Inv.step (h : Inv s) {a : LauncherAction} (hst : s.step a = some t) : Inv t := by
  revert hst
  fun_cases Launcher.step s a <;> intro hst <;> try cases hst
  case case1 proc =>
    have hrec := h.records.modify (f := fun p => { p with exited := true }) (fun _ hr => hr) proc
    exact ⟨h.owned.exit proc, hrec, h.current, h.position⟩
  case case2 w result =>
    obtain ⟨worker, hw, hst⟩ := bind_eq_some_iff.mp hst
    exact h.terminatorStep hw hst
  case case3 k =>
    obtain ⟨c, hc, hst⟩ := bind_eq_some_iff.mp hst
    obtain ⟨hstage, hst⟩ := ite_none_right_eq_some.mp hst
    cases hst
    refine ⟨h.owned, h.records, h.current.close hc hstage, ?_⟩
    have hpos := h.position
    unfold Position at hpos ⊢
    dsimp only
    split at hpos
    case h_3 =>
      refine ⟨hpos.1, hpos.2.1, hpos.2.2.1, fun x hx => ?_⟩
      rcases mem_or_eq_of_mem_set hx with hx | rfl
      · exact hpos.2.2.2 x hx
      · exact hpos.2.2.2 c (mem_of_getElem? hc)
    all_goals exact hpos
  case case4 input => exact h.mainStep hst
  case case5 hmain => exact h.hardenedStop (by rw [hmain]; rfl) _ _ _ _
  case case7 hmain => exact h.hardenedStop (by rw [hmain]; rfl) _ _ _ _
  case case9 i event nowMS foreground resumed hmain u hu =>
    have hev := h.eventReceived i event nowMS foreground resumed
    have hm := main_eventReceived s i event nowMS foreground resumed
    rw [hu] at hev hm
    exact hev.hardenedStop (by rw [hm, hmain]; rfl) _ _ _ _
  case case10 i event nowMS foreground resumed hmain stop _ hu =>
    have hev := h.eventReceived i event nowMS foreground resumed
    rw [hu] at hev
    exact hev
  case case12 k nowMS foreground hmain =>
    obtain ⟨c, hc, hst⟩ := bind_eq_some_iff.mp hst
    obtain ⟨hstage, hst⟩ := ite_none_right_eq_some.mp hst
    cases hst
    exact h.pollCurrentChild hmain hc hstage nowMS foreground

theorem inv_of_reachable (h : machine.Reachable s) : Inv s :=
  h.invariant (I := Inv) inv_start (fun _ _ _ _ hi hst => hi.step hst)

/-! ## Safety -/

/-- **Numbers of processes are safe**: a signal reaches the child it is meant
for, which is not reaped; a wait returns the child it is for; and no child is
waited for twice. -/
structure PidSafe (s : Launcher) : Prop where
  /-- At every call of `kill` the child it is for has not been reaped – it
  still has the number. -/
  signalled : ∀ e ∈ s.sent, e.hit = some e.target.proc
  waited : ∀ w ∈ s.waits, w.proc = w.target.proc
  once : (s.waits.map Waited.proc).Nodup

/-- **Process control is safe in every reachable state.** -/
theorem pidSafe_of_reachable (h : machine.Reachable s) : PidSafe s :=
  have hi := inv_of_reachable h
  ⟨hi.records.hit, hi.records.own, hi.records.once⟩

/-- A launch whose child exits before it is stopped, and a second launch to
which the system gives the numbers again. -/
def relaunch : List LauncherAction :=
  [.launch 0 true, .main .noHelper, .main .go, .main .go, .main (.spawned 10),
    .main (.child 11 (some 1000)), .main .go, .event 0 .openAccepted 1 true true,
    .event 0 .debugged 2 true true, .exit 1, .outputClosed 0,
    .poll 0 3 true, .launch 4 true, .main (.spawned 11), .exit 2, .main (.waited false),
    .main .go, .main (.killed .ok), .terminator 0 .ok, .terminator 0 .ok, .exit 0,
    .terminator 0 .ok, .main .go, .main (.spawned 11), .main (.child 10 none), .main .go,
    .stop true 5 false, .main .noHelper, .main .go, .main (.killed .esrch),
    .main (.killed .ok), .main (.killed .ok)]

/-- The hypothesis is met where numbers were given out again. -/
theorem pidSafe_relaunch : ∃ s, machine.Reachable s ∧ s.sent.length = 7
    ∧ s.waits.length = 3 ∧ PidSafe s := by
  obtain ⟨s, hs, hsent, hwaits⟩ : ∃ s, machine.run relaunch = some s ∧ s.sent.length = 7
      ∧ s.waits.length = 3 := by
    decide +kernel
  exact ⟨s, .of_run hs, hsent, hwaits, pidSafe_of_reachable (.of_run hs)⟩

end Launcher
end Juice
