import Juice.Control.Server
import Juice.Lib.Slots

/-!
# Who has a connection

Every descriptor of a connection is with one task or with the slot, and no
connection is with two of them. That is the invariant, `Inv`, and the rest
follows the task of a connection from one step to the next: which message it
has read, that nothing has been answered as long as no response was begun,
and that what has been written is the beginning of the one response.

A step of a task changes its own connection, and the descriptors of its own
connection, and nothing of another: `Local`. So what is known of the other
tasks is kept, and `Inv.advance` and `Inv.drop` need only what is known of
the task that moves.
-/

namespace Juice.Control

open Function List

variable {unfit : List Char → List UInt8}

/-- **A request that has the slot.** -/
def Connection.Active (conn : Connection) : Prop := conn.admitted = true ∧ conn.finished = false

/-- **A response that may be sent on a connection**: it has the identifier of
the request that was read from it, and says so if that was refused. -/
structure Answers (unfit : List Char → List UInt8) (conn : Connection) (m : Message) : Prop where
  response : IsResponse m
  own : ∃ request, conn.received = some request ∧ m.requestId = request.requestId
    ∧ (conn.admitted = false → m = busy unfit request)

/-- **What is known of a connection**, whatever is done with it. -/
structure Connection.Proper (unfit : List Char → List UInt8) (conn : Connection) : Prop where
  received : ∀ request, conn.received = some request →
    messageSize ≤ conn.inbound.length ∧ request = .of (conn.inbound.take messageSize)
  once : conn.answers.length ≤ 1
  answers : ∀ m ∈ conn.answers, Answers unfit conn m ∧ conn.outbound <+: m.wire
  silent : conn.answers = [] → conn.outbound = []
  order : conn.admitted = false → conn.finished = false
  /-- A connection that was not accepted is as it was made. -/
  blank : conn.accepted = false → conn.received = none ∧ conn.admitted = false ∧ conn.answers = []

/-- What a task knows of its connection. -/
def Task.Knows (unfit : List Char → List UInt8) (conn : Connection) : Task → Prop
  | .read _ => conn.received = none ∧ conn.admitted = false ∧ conn.answers = []
  | .respond _ m => Answers unfit conn m ∧ conn.answers = []
  | .close _ _ m => conn.answers = [m] ∧ conn.outbound = []
  | .enqueue _ m => conn.answers = [m] ∧ conn.outbound = []
  | .write _ rest => ∃ m, conn.answers = [m] ∧ conn.outbound ++ rest = m.wire
  | .release _ => conn.answers ≠ []

/-- **A task has the connection `c`.** -/
structure Held (unfit : List Char → List UInt8) (s : Server) (c : ℕ) (task : Task) : Prop where
  accepted : (s.conns c).accepted = true
  inactive : ¬ (s.conns c).Active
  fds : ∀ fd ∈ task.fds, s.table fd = some c
  nodup : task.fds.Nodup
  knows : task.Knows unfit (s.conns c)

/-- **The slot has the connection `c`**, by the descriptor `fd`. -/
structure SlotHeld (s : Server) (fd c : ℕ) : Prop where
  accepted : (s.conns c).accepted = true
  active : (s.conns c).Active
  fd : s.table fd = some c
  other : c ∉ s.tasks.map Prod.fst
  answers : (s.conns c).answers = []
  received : ∃ request, (s.conns c).received = some request
    ∧ s.controlRequestID = request.requestId

/-- **The invariant of the host.** -/
structure Inv (unfit : List Char → List UInt8) (s : Server) : Prop where
  proper : ∀ c, (s.conns c).Proper unfit
  held : ∀ p ∈ s.tasks, Held unfit s p.1 p.2
  distinct : (s.tasks.map Prod.fst).Nodup
  slot : ∀ fd, s.controlPickerFD = some fd → ∃ c, SlotHeld s fd c
  active : ∀ c, (s.conns c).Active → ∃ fd, s.controlPickerFD = some fd ∧ s.table fd = some c
  /-- Every descriptor is with a task or with the slot. -/
  covered : ∀ fd c, s.table fd = some c →
    (∃ p ∈ s.tasks, fd ∈ p.2.fds) ∨ s.controlPickerFD = some fd
  /-- Connections that are not made are new. -/
  unmade : ∀ c, s.count ≤ c → (s.conns c).accepted = false

/-! ## What is known of a connection -/

theorem proper_new (bytes : List UInt8) : (Connection.new bytes).Proper unfit where
  received _ h := nomatch h
  once := Nat.zero_le 1
  answers _ h := absurd h not_mem_nil
  silent _ := rfl
  order _ := rfl
  blank _ := ⟨rfl, rfl, rfl⟩

section Proper

variable {conn : Connection} {m : Message}

theorem Answers.inbound (h : Answers unfit conn m) (bytes : List UInt8) :
    Answers unfit { conn with inbound := bytes } m := ⟨h.response, h.own⟩

namespace Connection.Proper

variable (h : conn.Proper unfit)
include h

theorem answered (haccepted : conn.accepted = true) (hnone : conn.answers = [])
    (hm : Answers unfit conn m) : Proper unfit { conn with answers := conn.answers ++ [m] } := by
  rw [hnone, nil_append]
  refine ⟨h.received, Nat.le_refl 1, forall_mem_singleton.mpr ⟨⟨hm.response, hm.own⟩, ?_⟩,
    nofun, h.order, fun hno => absurd (haccepted.symm.trans hno) (by decide)⟩
  show conn.outbound <+: _
  rw [h.silent hnone]
  exact nil_prefix

theorem sent (hm : conn.answers = [m]) {rest : List UInt8} (hrest : conn.outbound ++ rest = m.wire)
    (n : ℕ) : Proper unfit { conn with outbound := conn.outbound ++ rest.take n } := by
  refine ⟨h.received, h.once, fun m' hm' => ?_, fun hnil => ?_, h.order, h.blank⟩
  · obtain ⟨hanswers, -⟩ := h.answers m' hm'
    refine ⟨⟨hanswers.response, hanswers.own⟩, rest.drop n, ?_⟩
    change m' ∈ conn.answers at hm'
    rw [hm, mem_singleton] at hm'
    show conn.outbound ++ rest.take n ++ rest.drop n = m'.wire
    rw [append_assoc, take_append_drop, hrest, hm']
  · exact absurd (hm.symm.trans hnil) (cons_ne_nil _ _)

/-- What is read of a connection is what the client wrote first. -/
theorem read (haccepted : conn.accepted = true) (hnone : conn.answers = [])
    (hlen : messageSize ≤ conn.inbound.length) :
    Proper unfit { conn with received := some (.of (conn.inbound.take messageSize)) } :=
  ⟨fun request hrequest => ⟨hlen, (Option.some.inj hrequest).symm⟩, h.once,
    fun m hm => absurd hm (eq_nil_iff_forall_not_mem.mp hnone m), h.silent, h.order,
    fun hno => absurd (haccepted.symm.trans hno) (by decide)⟩

theorem admitted (haccepted : conn.accepted = true) (hnone : conn.answers = []) :
    Proper unfit { conn with admitted := true } :=
  ⟨h.received, h.once, fun m hm => absurd hm (eq_nil_iff_forall_not_mem.mp hnone m),
    h.silent, nofun, fun hno => absurd (haccepted.symm.trans hno) (by decide)⟩

/-- A connection that was not accepted is a new one. -/
theorem eq_new (hno : conn.accepted = false) : conn = .new conn.inbound := by
  obtain ⟨hreceived, hadmitted, hanswers⟩ := h.blank hno
  have houtbound := h.silent hanswers
  have hfinished := h.order hadmitted
  cases conn
  simp_all only [Connection.new]

theorem more (bytes : List UInt8) :
    Proper unfit { conn with inbound := conn.inbound ++ bytes } := by
  refine ⟨fun request hrequest => ?_, h.once, fun m hm => ?_, h.silent, h.order, h.blank⟩
  · obtain ⟨hlen, heq⟩ := h.received request hrequest
    refine ⟨?_, ?_⟩
    · show messageSize ≤ (conn.inbound ++ bytes).length
      rw [length_append]
      exact Nat.le_add_right_of_le hlen
    · show request = .of ((conn.inbound ++ bytes).take messageSize)
      rw [take_append_of_le_length hlen]
      exact heq
  · exact ⟨(h.answers m hm).1.inbound _, (h.answers m hm).2⟩

theorem opened (hno : conn.accepted = false) : Proper unfit { conn with accepted := true } :=
  ⟨h.received, h.once,
    fun m hm => absurd hm (eq_nil_iff_forall_not_mem.mp (h.blank hno).2.2 m), h.silent,
    h.order, nofun⟩

theorem finished (hadmitted : conn.admitted = true) :
    Proper unfit { conn with finished := true } := by
  refine ⟨h.received, h.once, fun m hm => ?_, h.silent, fun hno => ?_, h.blank⟩
  · obtain ⟨hm, hout⟩ := h.answers m hm
    exact ⟨⟨hm.response, hm.own⟩, hout⟩
  · exact absurd (hadmitted.symm.trans hno) (by decide)

end Connection.Proper

end Proper

/-! ## Steps of a connection -/

/-- **What was done from `s` to `t` was done with the connection `c`.** -/
structure Local (s t : Server) (c : ℕ) : Prop where
  conns : ∀ k, k ≠ c → t.conns k = s.conns k
  table : ∀ fd k, k ≠ c → (t.table fd = some k ↔ s.table fd = some k)

namespace Local

variable {s t u : Server} {c : ℕ}

theorem refl (s : Server) (c : ℕ) : Local s s c := ⟨fun _ _ => rfl, fun _ _ _ => Iff.rfl⟩

theorem trans (h : Local s t c) (h' : Local t u c) : Local s u c where
  conns k hk := (h'.conns k hk).trans (h.conns k hk)
  table fd k hk := (h'.table fd k hk).trans (h.table fd k hk)

/-- The tasks are not looked at. -/
theorem tasks (h : Local s t c) (tasks : List (ℕ × Task)) : Local s { t with tasks := tasks } c :=
  ⟨h.conns, h.table⟩

theorem onConn (s : Server) (c : ℕ) (f : Connection → Connection) : Local s (s.onConn c f) c where
  conns _ hk := update_of_ne hk _ _
  table _ _ _ := Iff.rfl

/-- A descriptor that is free, or of the connection, becomes so. -/
theorem setFd {fd : ℕ} {v : Option ℕ} (hold : ∀ k, s.table fd = some k → k = c)
    (hnew : ∀ k, v = some k → k = c) : Local s (s.setFd fd v) c where
  conns _ _ := rfl
  table fd' k hk := by
    show Function.update s.table fd v fd' = some k ↔ _
    by_cases heq : fd' = fd
    · rw [heq, update_self]
      exact iff_of_false (fun h => hk (hnew k h)) (fun h => hk (hold k h))
    · rw [update_of_ne heq]

end Local

section Steps

variable {s t : Server} {i c : ℕ} {task task' : Task} {conn : Connection} {fd : ℕ} {m : Message}

theorem Held.frame {k : ℕ} (h : Held unfit s k task) (hlocal : Local s t c) (hk : k ≠ c) :
    Held unfit t k task := by
  have hconn := hlocal.conns k hk
  refine ⟨?_, ?_, fun fd hfd => (hlocal.table fd k hk).mpr (h.fds fd hfd), h.nodup, ?_⟩
  · rw [hconn]
    exact h.accepted
  · rw [hconn]
    exact h.inactive
  · rw [hconn]
    exact h.knows

theorem Inv.held_at (h : Inv unfit s) (hi : s.tasks[i]? = some (c, task)) :
    Held unfit s c task := h.held _ (mem_of_getElem? hi)

/-- The connection of the slot is not that of a task. -/
theorem SlotHeld.ne {k : ℕ} (h : SlotHeld s fd k) (hi : s.tasks[i]? = some (c, task)) : k ≠ c := by
  rintro rfl
  exact h.other (mem_map.mpr ⟨_, mem_of_getElem? hi, rfl⟩)

theorem SlotHeld.frame {k : ℕ} (h : SlotHeld s fd k) (hlocal : Local s t c) (hk : k ≠ c)
    (htasks : ∀ p ∈ t.tasks, p.1 ≠ c → p ∈ s.tasks)
    (hrequest : t.controlRequestID = s.controlRequestID) : SlotHeld t fd k := by
  have hconn := hlocal.conns k hk
  refine ⟨?_, ?_, (hlocal.table fd k hk).mpr h.fd, fun hmem => ?_, ?_, ?_⟩
  · rw [hconn]
    exact h.accepted
  · rw [hconn]
    exact h.active
  · obtain ⟨p, hp, rfl⟩ := mem_map.mp hmem
    exact h.other (mem_map.mpr ⟨p, htasks p hp hk, rfl⟩)
  · rw [hconn]
    exact h.answers
  · rw [hconn, hrequest]
    exact h.received

/-- What a task knows is not what the client has written. -/
theorem Task.Knows.inbound (h : task.Knows unfit conn) (bytes : List UInt8) :
    task.Knows unfit { conn with inbound := bytes } := by
  cases task with
  | respond fd m => exact ⟨h.1.inbound bytes, h.2⟩
  | _ => exact h

theorem pickedResult_status (file : Picked) :
    (pickedResult file).1 = JUICE_CONTROL_STATUS_COMPLETE
      ∨ (pickedResult file).1 = JUICE_CONTROL_STATUS_CANCELLED
      ∨ (pickedResult file).1 = JUICE_CONTROL_STATUS_ERROR := by
  fun_cases pickedResult file <;> simp

/-- **What the steps of a task keep**, but for the tasks themselves. The
connection is `conn` after the step. -/
structure Kept (unfit : List Char → List UInt8) (s t : Server) (c : ℕ) (conn : Connection) :
    Prop where
  step : Local s t c
  after : t.conns c = conn
  picker : t.controlPickerFD = s.controlPickerFD
  request : t.controlRequestID = s.controlRequestID
  count : t.count = s.count
  proper : conn.Proper unfit
  accepted : conn.accepted = true
  inactive : ¬ conn.Active

/-- The tasks are not looked at. -/
theorem Kept.tasks (h : Kept unfit s t c conn) (tasks : List (ℕ × Task)) :
    Kept unfit s { t with tasks := tasks } c conn :=
  { h with step := ⟨h.step.conns, h.step.table⟩ }

theorem Kept.setFd (h : Kept unfit s t c conn) {v : Option ℕ}
    (hold : ∀ k, t.table fd = some k → k = c) (hnew : ∀ k, v = some k → k = c) :
    Kept unfit s (t.setFd fd v) c conn :=
  { h with step := h.step.trans (.setFd hold hnew) }

section Inv

variable (h : Inv unfit s)
include h

/-- **A connection moves**, and is with `o` or with the slot afterwards.
Nothing is asked of the others. -/
theorem Inv.moved {o : Option Task} (hlocal : Local s t c)
    (htasks : ∀ p, p ∈ t.tasks ↔ p ∈ s.tasks ∧ p.1 ≠ c ∨ ∃ task ∈ o, p = (c, task))
    (hdistinct : (t.tasks.map Prod.fst).Nodup) (hproper : (t.conns c).Proper unfit)
    (hheld : ∀ task ∈ o, Held unfit t c task)
    (hslot : ∀ fd, t.controlPickerFD = some fd → SlotHeld t fd c ∨ s.controlPickerFD = some fd
      ∧ s.table fd ≠ some c ∧ t.controlRequestID = s.controlRequestID)
    (hothers : ∀ fd, s.controlPickerFD = some fd → s.table fd ≠ some c →
      t.controlPickerFD = some fd)
    (hactive : (t.conns c).Active → ∃ fd, t.controlPickerFD = some fd ∧ t.table fd = some c)
    (hcovered : ∀ fd, t.table fd = some c →
      (∃ task ∈ o, fd ∈ task.fds) ∨ t.controlPickerFD = some fd)
    (hcount : t.count = s.count) (hmade : c < s.count) : Inv unfit t := by
  constructor
  · intro k
    by_cases hk : k = c
    · rwa [hk]
    · rw [hlocal.conns k hk]
      exact h.proper k
  · intro p hp
    rcases (htasks p).mp hp with ⟨hp, hne⟩ | ⟨task, hown, rfl⟩
    · exact (h.held p hp).frame hlocal hne
    · exact hheld task hown
  · exact hdistinct
  · intro fd hfd
    rcases hslot fd hfd with hc | ⟨hold, hne, hrequest⟩
    · exact ⟨c, hc⟩
    · obtain ⟨k, hk⟩ := h.slot fd hold
      refine ⟨k, hk.frame hlocal (fun heq => hne (heq ▸ hk.fd)) (fun p hp hpc => ?_) hrequest⟩
      rcases (htasks p).mp hp with hp | ⟨task, -, rfl⟩
      · exact hp.1
      · exact absurd rfl hpc
  · intro k hk
    by_cases hkc : k = c
    · rw [hkc] at hk ⊢
      exact hactive hk
    · rw [hlocal.conns k hkc] at hk
      obtain ⟨fd, hfd, htable⟩ := h.active k hk
      refine ⟨fd, hothers fd hfd fun heq => ?_, (hlocal.table fd k hkc).mpr htable⟩
      exact hkc (Option.some.inj (htable.symm.trans heq))
  · intro fd k hfd
    by_cases hk : k = c
    · refine (hcovered fd (hk ▸ hfd)).imp_left fun ⟨task, hown, hmem⟩ => ?_
      exact ⟨_, (htasks _).mpr (.inr ⟨task, hown, rfl⟩), hmem⟩
    · rw [hlocal.table fd k hk] at hfd
      have hne : s.table fd ≠ some c := fun heq => hk (Option.some.inj (hfd.symm.trans heq))
      refine (h.covered fd k hfd).imp (fun ⟨p, hp, hmem⟩ => ⟨p, ?_, hmem⟩) (hothers fd · hne)
      exact (htasks p).mpr (.inl ⟨hp, fun heq => hne (heq ▸ (h.held p hp).fds fd hmem)⟩)
  · intro k hk
    rw [hcount] at hk
    rw [hlocal.conns k fun heq => absurd (heq ▸ hk) (Nat.not_le_of_lt hmade)]
    exact h.unmade k hk

theorem Inv.made (haccepted : (s.conns c).accepted = true) : c < s.count := by
  by_contra hnot
  exact absurd (haccepted.symm.trans (h.unmade c (Nat.le_of_not_lt hnot))) (by decide)

section Task

variable (hi : s.tasks[i]? = some (c, task))
include hi

/-- A descriptor of a task stands for its connection. -/
theorem Inv.table_eq (hfd : fd ∈ task.fds) (k : ℕ) (hk : s.table fd = some k) : k = c :=
  Option.some.inj (hk.symm.trans ((h.held_at hi).fds fd hfd))

theorem Inv.kept_self : Kept unfit s s c (s.conns c) :=
  ⟨.refl s c, rfl, rfl, rfl, rfl, h.proper c, (h.held_at hi).accepted, (h.held_at hi).inactive⟩

theorem Inv.kept_onConn {f : Connection → Connection} (hproper : (f (s.conns c)).Proper unfit)
    (haccepted : (f (s.conns c)).accepted = (s.conns c).accepted)
    (hactive : (f (s.conns c)).Active → (s.conns c).Active) :
    Kept unfit s (s.onConn c f) c (f (s.conns c)) :=
  ⟨.onConn s c f, update_self _ _ _, rfl, rfl, rfl, hproper,
    haccepted.trans (h.held_at hi).accepted, fun ha => (h.held_at hi).inactive (hactive ha)⟩

/-- A task moves its connection, and leaves the slot. -/
theorem Inv.kept {o : Option Task} (hkept : Kept unfit s t c conn)
    (htasks : ∀ p, p ∈ t.tasks ↔ p ∈ s.tasks ∧ p.1 ≠ c ∨ ∃ task ∈ o, p = (c, task))
    (hdistinct : (t.tasks.map Prod.fst).Nodup)
    (hfds : ∀ fd, t.table fd = some c ↔ ∃ task ∈ o, fd ∈ task.fds)
    (hown : ∀ task ∈ o, task.fds.Nodup ∧ task.Knows unfit conn) : Inv unfit t := by
  obtain ⟨hlocal, rfl, hpicker, hrequest, hcount, hproper, haccepted, hinactive⟩ := hkept
  have hother : ∀ fd, s.controlPickerFD = some fd → s.table fd ≠ some c := by
    intro fd hfd heq
    obtain ⟨k, hslot⟩ := h.slot fd hfd
    exact hslot.ne hi (Option.some.inj (hslot.fd.symm.trans heq))
  refine h.moved hlocal htasks hdistinct hproper (fun task hmem => ?_) (fun fd hfd => .inr ?_)
    (fun fd hfd _ => hpicker.trans hfd) (fun h => absurd h hinactive)
    (fun fd hfd => .inl ((hfds fd).mp hfd)) hcount (h.made (h.held_at hi).accepted)
  · obtain ⟨hnodup, hknows⟩ := hown task hmem
    exact ⟨haccepted, hinactive, fun fd hfd => (hfds fd).mpr ⟨task, hmem, hfd⟩, hnodup, hknows⟩
  · rw [hpicker] at hfd
    exact ⟨hfd, hother fd hfd, hrequest⟩

/-- **A task moves on.** -/
theorem Inv.advance (hkept : Kept unfit s t c conn) (htasks : t.tasks = s.tasks.set i (c, task'))
    (hfds : ∀ fd, t.table fd = some c ↔ fd ∈ task'.fds) (hnodup : task'.fds.Nodup)
    (hknows : task'.Knows unfit conn) : Inv unfit t := by
  refine h.kept hi (o := some task') hkept (fun p => ?_) ?_ (fun fd => ?_) ?_
  · rw [htasks, Slots.mem_set_iff h.distinct hi]
    simp
  · rw [htasks, Slots.map_set (b := (c, task')) hi rfl]
    exact h.distinct
  · rw [hfds]
    simp
  · rintro _ ⟨⟩
    exact ⟨hnodup, hknows⟩

/-- **A task is done**, and its connection closed. -/
theorem Inv.drop (hkept : Kept unfit s t c conn) (htasks : t.tasks = s.tasks.eraseIdx i)
    (hclosed : ∀ fd, t.table fd ≠ some c) : Inv unfit t := by
  refine h.kept hi (o := none) hkept (fun p => ?_) ?_ (fun fd => ?_) nofun
  · rw [htasks, Slots.mem_eraseIdx_iff h.distinct hi]
    simp
  · rw [htasks]
    exact h.distinct.sublist ((eraseIdx_sublist _ _).map _)
  · exact iff_of_false (hclosed fd) (by simp)

/-- **The descriptors of a connection** are those of its task. -/
theorem Inv.table_iff (fd : ℕ) : s.table fd = some c ↔ fd ∈ task.fds := by
  refine ⟨fun hfd => ?_, (h.held_at hi).fds fd⟩
  rcases h.covered fd c hfd with ⟨p, hp, hmem⟩ | hslot
  · have hlabel : p.1 = c :=
      Option.some.inj (((h.held p hp).fds fd hmem).symm.trans hfd)
    have hsame : p = (c, task) :=
      inj_on_of_nodup_map h.distinct hp (mem_of_getElem? hi) hlabel
    rw [hsame] at hmem
    exact hmem
  · obtain ⟨k, hk⟩ := h.slot fd hslot
    exact absurd (Option.some.inj (hk.fd.symm.trans hfd)) (hk.ne hi)

/-- It moves on with the descriptors that it has. -/
theorem Inv.advance_same (hkept : Kept unfit s t c conn)
    (htasks : t.tasks = s.tasks.set i (c, task')) (htable : t.table = s.table)
    (hfds : task'.fds = task.fds) (hknows : task'.Knows unfit conn) : Inv unfit t := by
  refine h.advance hi hkept htasks (fun fd => ?_) (hfds ▸ (h.held_at hi).nodup) hknows
  rw [htable, hfds, h.table_iff hi]

/-- The last descriptor of a connection is closed. -/
theorem Inv.table_closed
    (hfds : task.fds = [fd]) (x : ℕ) : Function.update s.table fd none x ≠ some c := by
  intro hx
  by_cases heq : x = fd
  · rw [heq, update_self] at hx
    exact nomatch hx
  · rw [update_of_ne heq, h.table_iff hi, hfds, mem_singleton] at hx
    exact heq hx

theorem Inv.dropped (hfds : task.fds = [fd]) : Inv unfit ((s.setFd fd none).dropTask i) := by
  have hfd := h.table_eq hi (hfds ▸ mem_singleton_self fd)
  have hclose := (h.kept_self hi).setFd (v := none) hfd nofun
  exact h.drop hi (hclose.tasks _) rfl (h.table_closed hi hfds)

end Task

theorem Inv.readFailed (hs : readFailed s i = some t) : Inv unfit t := by
  revert hs
  fun_cases Control.readFailed s i <;> intro hs <;> cases hs
  case case1 hi => exact h.dropped hi rfl

theorem Inv.releaseWriter (hs : releaseWriter s i = some t) : Inv unfit t := by
  revert hs
  fun_cases Control.releaseWriter s i <;> intro hs <;> cases hs
  case case1 hi => exact h.dropped hi rfl

theorem Inv.closeFd (hs : closeFd s i = some t) : Inv unfit t := by
  revert hs
  fun_cases Control.closeFd s i <;> intro hs <;> cases hs
  case case1 c fd w m hi =>
    have hheld := h.held_at hi
    have hclose := (h.kept_self hi).setFd (v := none) (h.table_eq hi mem_cons_self) nofun
    refine h.advance hi (hclose.tasks _) rfl (fun fd' => ?_)
      (nodup_singleton w) hheld.knows
    have hne : w ≠ fd := fun heq => (nodup_cons.mp hheld.nodup).1 (by
      rw [heq]
      exact mem_singleton_self fd)
    show Function.update s.table fd none fd' = some c ↔ fd' ∈ [w]
    by_cases heq : fd' = fd
    · rw [heq, update_self, mem_singleton]
      exact iff_of_false nofun (fun h => hne h.symm)
    · rw [update_of_ne heq, h.table_iff hi]
      exact ⟨fun hmem => (mem_cons.mp hmem).resolve_left heq, mem_cons_of_mem _⟩
  case case2 hi => exact h.dropped hi rfl

theorem Inv.enqueueData {accepts : Bool} (hs : enqueueData s i accepts = some t) : Inv unfit t := by
  revert hs
  fun_cases Control.enqueueData s i accepts <;> intro hs <;> cases hs
  case case1 c w m hi =>
    obtain ⟨hanswers, houtbound⟩ := (h.held_at hi).knows
    have hkept := (h.kept_self hi).tasks
    cases accepts with
    | true =>
      refine h.advance_same hi (hkept _) rfl rfl rfl ⟨m, hanswers, ?_⟩
      show (s.conns c).outbound ++ m.wire = m.wire
      rw [houtbound]
      rfl
    | false =>
      refine h.advance_same hi (hkept _) rfl rfl rfl ?_
      show (s.conns c).answers ≠ []
      rw [hanswers]
      exact cons_ne_nil _ _

/-! ## Steps that change the connection -/

/-- A response is begun on the connection of its task. -/
theorem Inv.answered (hi : s.tasks[i]? = some (c, .respond fd m)) :
    Kept unfit s (s.onConn c (fun conn => { conn with answers := conn.answers ++ [m] })) c
        { s.conns c with answers := (s.conns c).answers ++ [m] }
      ∧ (s.conns c).answers ++ [m] = [m] ∧ (s.conns c).outbound = [] := by
  obtain ⟨hm, hnone⟩ := (h.held_at hi).knows
  refine ⟨h.kept_onConn hi ((h.proper c).answered (h.held_at hi).accepted hnone hm) rfl id, ?_⟩
  rw [hnone]
  exact ⟨rfl, (h.proper c).silent hnone⟩

theorem Inv.initWriter {writer : Option ℕ} (hs : initWriter s i writer = some t) : Inv unfit t := by
  revert hs
  fun_cases Control.initWriter s i writer <;> intro hs <;> cases hs
  case case2 c fd m hi k hfd _ =>
    obtain rfl := h.table_eq hi (mem_singleton_self fd) k hfd
    obtain ⟨hkept, hknows⟩ := h.answered hi
    exact h.advance_same hi (hkept.tasks _) rfl rfl rfl hknows
  case case3 c fd m hi k hfd _ w hfree =>
    obtain rfl := h.table_eq hi (mem_singleton_self fd) k hfd
    obtain ⟨hkept, hknows⟩ := h.answered hi
    have hdup := hkept.setFd (v := some k)
      (fun j (hk : s.table w = some j) => nomatch hfree.symm.trans hk)
      (fun _ hk => (Option.some.inj hk).symm)
    refine h.advance hi (hdup.tasks _) rfl (fun x => ?_) ?_ hknows
    · show Function.update s.table w (some k) x = some k ↔ x ∈ [fd, w]
      by_cases heq : x = w
      · rw [heq, update_self]
        exact iff_of_true rfl (mem_cons_of_mem _ (mem_singleton_self w))
      · rw [update_of_ne heq, h.table_iff hi]
        show x ∈ [fd] ↔ _
        rw [mem_cons, mem_cons, mem_singleton]
        exact ⟨fun hx => hx.imp_right (fun hn => absurd hn not_mem_nil),
          fun hx => .inl (hx.resolve_right heq)⟩
    · have hne : fd ≠ w := by
        rintro rfl
        exact nomatch hfree.symm.trans hfd
      exact nodup_cons.mpr ⟨fun hmem => hne (mem_singleton.mp hmem),
        nodup_singleton w⟩

/-- A part of a response is written. -/
theorem Inv.sendSome {sent : Option ℕ} (hs : sendSome s i sent = some t) : Inv unfit t := by
  have hsome : ∀ {c w rest}, s.tasks[i]? = some (c, .write w rest) → (s.conns c).answers ≠ [] := by
    intro c w rest hi
    obtain ⟨m, hm, -⟩ := (h.held_at hi).knows
    rw [hm]
    exact cons_ne_nil _ _
  revert hs
  fun_cases Control.sendSome s i sent <;> intro hs <;> cases hs
  case case1 c w rest hi =>
    exact h.advance_same hi ((h.kept_self hi).tasks _) rfl rfl rfl (hsome hi)
  case case3 c w rest hi n k hw _ _ =>
    obtain rfl := h.table_eq hi (mem_singleton_self w) k hw
    obtain ⟨m, hm, hrest⟩ := (h.held_at hi).knows
    have hkept := h.kept_onConn hi (f := fun conn =>
      { conn with outbound := conn.outbound ++ rest.take n }) ((h.proper k).sent hm hrest n) rfl id
    split
    · exact h.advance_same hi (hkept.tasks _) rfl rfl rfl (hsome hi)
    · refine h.advance_same hi (hkept.tasks _) rfl rfl rfl ⟨m, hm, ?_⟩
      show (s.conns k).outbound ++ rest.take n ++ rest.drop n = m.wire
      rw [append_assoc, take_append_drop, hrest]

/-- **A request takes the slot**, which is free. -/
theorem Inv.admit (hi : s.tasks[i]? = some (c, .read fd))
    (hfree : s.controlPickerFD = none) (hlocal : Local s t c) (htable : t.table = s.table)
    (hcount : t.count = s.count) (htasks : t.tasks = s.tasks.eraseIdx i)
    (hpicker : t.controlPickerFD = some fd) (hrequest : t.controlRequestID = m.requestId)
    (hconn : t.conns c = { s.conns c with received := some m, admitted := true })
    (hproper : Connection.Proper unfit { s.conns c with received := some m, admitted := true }) :
    Inv unfit t := by
  have hheld := h.held_at hi
  obtain ⟨-, hadmitted, hnone⟩ := hheld.knows
  have hfd : t.table fd = some c := htable ▸ hheld.fds fd (mem_singleton_self fd)
  have hmem : ∀ p, p ∈ t.tasks ↔ p ∈ s.tasks ∧ p.1 ≠ c := fun p => by
    rw [htasks, Slots.mem_eraseIdx_iff h.distinct hi]
  refine h.moved hlocal (o := none) (fun p => by simp [hmem]) ?_ (hconn ▸ hproper) nofun
    (fun fd' hfd' => .inl ?_) (fun fd' hfd' => nomatch hfree.symm.trans hfd')
    (fun _ => ⟨fd, hpicker, hfd⟩) (fun fd' hfd' => .inr ?_) hcount (h.made hheld.accepted)
  · rw [htasks]
    exact h.distinct.sublist ((eraseIdx_sublist _ _).map _)
  · obtain rfl : fd = fd' := Option.some.inj (hpicker.symm.trans hfd')
    refine ⟨?_, ?_, hfd, fun hlabel => ?_, ?_, m, ?_, hrequest⟩
    · rw [hconn]
      exact hheld.accepted
    · rw [hconn]
      exact ⟨rfl, (h.proper c).order hadmitted⟩
    · obtain ⟨p, hp, heq⟩ := mem_map.mp hlabel
      exact ((hmem p).mp hp).2 heq
    · rw [hconn]
      exact hnone
    · rw [hconn]
  · rw [htable, h.table_iff hi, Task.fds, mem_singleton] at hfd'
    rw [hfd', hpicker]

theorem Inv.requested (hi : s.tasks[i]? = some (c, .read fd))
    (hlen : ¬ (s.conns c).inbound.length < messageSize) :
    (s.conns c).answers = [] ∧ Kept unfit s
      (s.onConn c (fun conn =>
        { conn with received := some (.of ((s.conns c).inbound.take messageSize)) })) c
      { s.conns c with received := some (.of ((s.conns c).inbound.take messageSize)) } := by
  obtain ⟨-, -, hnone⟩ := (h.held_at hi).knows
  have hproper := (h.proper c).read (h.held_at hi).accepted hnone (Nat.le_of_not_lt hlen)
  exact ⟨hnone, h.kept_onConn hi hproper rfl id⟩

/-- **A message is read.** -/
theorem Inv.juiceReadControl (hs : juiceReadControl unfit s i = some t) : Inv unfit t := by
  revert hs
  fun_cases Control.juiceReadControl unfit s i <;> intro hs <;> cases hs
  case case3 fd hi k hfd hlen _ _ _ =>
    have htable := h.table_eq hi (mem_singleton_self fd)
    obtain rfl := htable k hfd
    exact h.drop hi (((h.requested hi hlen).2.setFd (v := none) htable nofun).tasks _) rfl
      (h.table_closed hi rfl)
  case case4 fd hi k hfd hlen _ _ _ _ =>
    obtain rfl := h.table_eq hi (mem_singleton_self fd) k hfd
    obtain ⟨hnone, hkept⟩ := h.requested hi hlen
    refine h.advance_same hi (hkept.tasks _) rfl rfl rfl
      ⟨⟨?_, _, rfl, rfl, fun _ => rfl⟩, hnone⟩
    exact isResponse_importResponse _ _ _ _ (.inr (.inr rfl))
  case case5 fd hi k hfd hlen _ _ _ hfree _ =>
    obtain rfl := h.table_eq hi (mem_singleton_self fd) k hfd
    obtain ⟨hnone, hkept⟩ := h.requested hi hlen
    have hgiven := hkept.step.trans (.onConn _ k (fun conn => { conn with admitted := true }))
    refine h.admit hi (Option.not_isSome_iff_eq_none.mp hfree) ⟨hgiven.conns, hgiven.table⟩ rfl rfl
      rfl rfl rfl ?_ (hkept.proper.admitted (h.held_at hi).accepted hnone)
    show Function.update _ k _ k = _
    rw [update_self]
    show ({ Function.update s.conns k _ k with admitted := true } : Connection) = _
    rw [update_self]

/-! ## Steps of the main thread and of the clients -/

/-- **A step that is not of a task**: more is written to the connections, and
the slot keeps its request. -/
theorem Inv.congr
    (hconns : ∀ k, (t.conns k).Proper unfit
      ∧ ∃ bytes, t.conns k = { s.conns k with inbound := bytes })
    (htable : t.table = s.table) (htasks : t.tasks = s.tasks)
    (hpicker : t.controlPickerFD = s.controlPickerFD)
    (hrequest : s.controlPickerFD ≠ none → t.controlRequestID = s.controlRequestID)
    (hcount : s.count ≤ t.count) : Inv unfit t := by
  constructor
  · exact fun k => (hconns k).1
  · intro p hp
    have hheld := h.held p (htasks ▸ hp)
    obtain ⟨-, bytes, hbytes⟩ := hconns p.1
    refine ⟨?_, ?_, fun fd hfd => htable ▸ hheld.fds fd hfd, hheld.nodup, ?_⟩ <;> rw [hbytes]
    · exact hheld.accepted
    · exact hheld.inactive
    · exact hheld.knows.inbound bytes
  · rw [htasks]
    exact h.distinct
  · intro fd hfd
    rw [hpicker] at hfd
    obtain ⟨k, hslot⟩ := h.slot fd hfd
    obtain ⟨-, bytes, hbytes⟩ := hconns k
    have hsome : s.controlPickerFD ≠ none := hfd ▸ Option.some_ne_none fd
    refine ⟨k, ?_, ?_, htable ▸ hslot.fd, htasks ▸ hslot.other, ?_, ?_⟩ <;> rw [hbytes]
    · exact hslot.accepted
    · exact hslot.active
    · exact hslot.answers
    · rw [hrequest hsome]
      exact hslot.received
  · intro k hk
    obtain ⟨-, bytes, hbytes⟩ := hconns k
    rw [hbytes] at hk
    rw [hpicker, htable]
    exact h.active k hk
  · intro fd k hfd
    rw [htable] at hfd
    rw [hpicker, htasks]
    exact h.covered fd k hfd
  · intro k hk
    obtain ⟨-, bytes, hbytes⟩ := hconns k
    rw [hbytes]
    exact h.unmade k (Nat.le_trans hcount hk)

theorem Inv.connect (bytes : List UInt8) : Inv unfit (s.connect bytes) := by
  refine h.congr (fun k => ?_) rfl rfl rfl (fun _ => rfl) (Nat.le_succ _)
  show (Function.update s.conns s.count (.new bytes) k).Proper unfit
    ∧ ∃ b, Function.update s.conns s.count (.new bytes) k = _
  by_cases hk : k = s.count
  · rw [hk, update_self, (h.proper s.count).eq_new (h.unmade s.count (Nat.le_refl _))]
    exact ⟨proper_new bytes, bytes, rfl⟩
  · rw [update_of_ne hk]
    exact ⟨h.proper k, _, rfl⟩

theorem Inv.more (c : ℕ) (bytes : List UInt8) :
    Inv unfit (s.onConn c (fun conn => { conn with inbound := conn.inbound ++ bytes })) := by
  refine h.congr (fun k => ?_) rfl rfl rfl (fun _ => rfl) (Nat.le_refl _)
  show (Function.update s.conns c _ k).Proper unfit ∧ ∃ b, Function.update s.conns c _ k = _
  by_cases hk : k = c
  · rw [hk, update_self]
    exact ⟨(h.proper c).more bytes, _, rfl⟩
  · rw [update_of_ne hk]
    exact ⟨h.proper k, _, rfl⟩

theorem Inv.presentControlPicker (hs : presentControlPicker s = some t) : Inv unfit t := by
  revert hs
  fun_cases Control.presentControlPicker s <;> intro hs <;> cases hs <;>
    exact h.congr (fun k => ⟨h.proper k, _, rfl⟩) rfl rfl rfl (fun _ => rfl) (Nat.le_refl _)

/-- **A task begins**, with a connection that had none. If that was the
connection of the slot, the slot is free. -/
theorem Inv.begin (hnew : c ∉ s.tasks.map Prod.fst) (hlocal : Local s t c)
    (htasks : t.tasks = s.tasks ++ [(c, task)]) (hconn : t.conns c = conn)
    (hproper : conn.Proper unfit) (haccepted : conn.accepted = true) (hinactive : ¬ conn.Active)
    (hknows : task.Knows unfit conn) (hfds : ∀ fd, t.table fd = some c ↔ fd ∈ task.fds)
    (hnodup : task.fds.Nodup)
    (hslot : (t.controlPickerFD = s.controlPickerFD ∧ t.controlRequestID = s.controlRequestID
        ∧ ∀ fd, s.controlPickerFD = some fd → s.table fd ≠ some c)
      ∨ (t.controlPickerFD = none ∧ ∀ fd, s.controlPickerFD = some fd → s.table fd = some c))
    (hcount : t.count = s.count) (hmade : c < s.count) : Inv unfit t := by
  subst hconn
  refine h.moved hlocal (o := some task) (fun p => ?_) ?_ hproper ?_ (fun fd hfd => .inr ?_)
    (fun fd hfd hne => ?_) (fun h => absurd h hinactive)
    (fun fd hfd => .inl ⟨task, rfl, (hfds fd).mp hfd⟩) hcount hmade
  · have hne : p ∈ s.tasks → p.1 ≠ c := fun hp heq => hnew (mem_map.mpr ⟨p, hp, heq⟩)
    rw [htasks, mem_append, mem_singleton, and_iff_left_of_imp hne]
    simp
  · rw [htasks, map_append, map_singleton, nodup_append_comm]
    exact nodup_cons.mpr ⟨hnew, h.distinct⟩
  · rintro _ ⟨⟩
    exact ⟨haccepted, hinactive, fun fd hfd => (hfds fd).mpr hfd, hnodup, hknows⟩
  · rcases hslot with ⟨hpicker, hrequest, hother⟩ | ⟨hnone, -⟩
    · rw [hpicker] at hfd
      exact ⟨hfd, hother fd hfd, hrequest⟩
    · exact nomatch hnone.symm.trans hfd
  · rcases hslot with ⟨hpicker, -, -⟩ | ⟨-, hown⟩
    · exact hpicker.trans hfd
    · exact absurd (hown fd hfd) hne

/-- A connection of which the host has a descriptor was accepted. -/
theorem Inv.accepted_of_table (hfd : s.table fd = some c) : (s.conns c).accepted = true := by
  rcases h.covered fd c hfd with ⟨p, hp, hmem⟩ | hslot
  · have hheld := h.held p hp
    rw [← Option.some.inj ((hheld.fds fd hmem).symm.trans hfd)]
    exact hheld.accepted
  · obtain ⟨k, hk⟩ := h.slot fd hslot
    rw [← Option.some.inj (hk.fd.symm.trans hfd)]
    exact hk.accepted

theorem Inv.acceptControl (hs : acceptControl s c fd = some t) : Inv unfit t := by
  unfold Control.acceptControl at hs
  split at hs
  · rename_i hguard
    obtain ⟨hmade, hno, hfree⟩ := hguard
    cases hs
    have hclosed : ∀ x, s.table x ≠ some c := fun x hx =>
      absurd ((h.accepted_of_table hx).symm.trans hno) (by decide)
    have hopen : Local (s.onConn c (fun conn => { conn with accepted := true }))
        (Server.setFd _ fd (some c)) c :=
      .setFd (fun k hk => nomatch hfree.symm.trans hk) (fun k hk => (Option.some.inj hk).symm)
    have hlocal := (Local.onConn s c (fun conn => { conn with accepted := true })).trans hopen
    obtain ⟨hreceived, hadmitted, hanswers⟩ := (h.proper c).blank hno
    refine h.begin ?_ (hlocal.tasks _) rfl (update_self _ _ _)
      ((h.proper c).opened hno) rfl (fun hactive => ?_) ⟨hreceived, hadmitted, hanswers⟩
      (fun x => ?_) (nodup_singleton fd) (.inl ⟨rfl, rfl, fun x _ => hclosed x⟩) rfl hmade
    · intro hmem
      obtain ⟨p, hp, rfl⟩ := mem_map.mp hmem
      exact absurd ((h.held p hp).accepted.symm.trans hno) (by decide)
    · exact absurd (hadmitted.symm.trans hactive.1) (by decide)
    · show Function.update s.table fd (some c) x = some c ↔ x ∈ [fd]
      rw [mem_singleton]
      by_cases hx : x = fd
      · rw [hx, update_self]
        exact iff_of_true rfl rfl
      · rw [update_of_ne hx]
        exact iff_of_false (hclosed x) hx
  · exact nomatch hs

/-- **The slot is freed**, and the response to its request is begun. -/
theorem Inv.finishControlImport {status : UInt32}
    (hstatus : status = JUICE_CONTROL_STATUS_COMPLETE ∨ status = JUICE_CONTROL_STATUS_CANCELLED
      ∨ status = JUICE_CONTROL_STATUS_ERROR) (path detail : List Char) :
    Inv unfit (finishControlImport unfit s status path detail) := by
  unfold Control.finishControlImport
  dsimp only
  split
  · rename_i hnone
    exact h.congr (fun k => ⟨h.proper k, _, rfl⟩) rfl rfl hnone.symm
      (fun hsome => absurd hnone hsome) (Nat.le_refl _)
  · rename_i fd hfd
    obtain ⟨c, hslot⟩ := h.slot fd hfd
    obtain ⟨request, hrequest, hid⟩ := hslot.received
    have hk : (s.table fd).getD 0 = c := by
      rw [hslot.fd]
      rfl
    rw [hk]
    have hlocal := Local.onConn s c (fun conn => { conn with finished := true })
    refine h.begin hslot.other ⟨hlocal.conns, hlocal.table⟩ rfl (update_self _ _ _)
      ((h.proper c).finished hslot.active.1) hslot.accepted (fun hactive => nomatch hactive.2)
      ⟨⟨isResponse_importResponse _ _ _ _ hstatus, request, hrequest, hid, fun hno => ?_⟩,
        hslot.answers⟩
      (fun x => ?_) (nodup_singleton fd) (.inr ⟨rfl, fun x hx => ?_⟩) rfl
      (h.made hslot.accepted)
    · exact absurd (hslot.active.1.symm.trans hno) (by decide)
    · show s.table x = some c ↔ x ∈ [fd]
      rw [mem_singleton]
      refine ⟨fun hx => ?_, fun hx => hx ▸ hslot.fd⟩
      rcases h.covered x c hx with ⟨p, hp, hmem⟩ | hx
      · have hlabel := Option.some.inj (((h.held p hp).fds x hmem).symm.trans hx)
        exact absurd (mem_map.mpr ⟨p, hp, hlabel⟩) hslot.other
      · exact Option.some.inj (hx.symm.trans hfd)
    · rw [← Option.some.inj (hfd.symm.trans hx)]
      exact hslot.fd

theorem Inv.didPickDocuments (picker : ℕ) (file : Option Picked) :
    Inv unfit (didPickDocuments unfit s picker file) := by
  unfold Control.didPickDocuments
  split
  · exact h
  · rename_i file
    split
    · exact h.finishControlImport (pickedResult_status file) _ _
    · exact h

theorem Inv.pickerWasCancelled (picker : ℕ) : Inv unfit (pickerWasCancelled unfit s picker) := by
  unfold Control.pickerWasCancelled
  split
  · exact h.finishControlImport (.inr (.inl rfl)) _ _
  · exact h

/-! ## Runs -/

/-- **Every step keeps the invariant.** -/
theorem Inv.step {a : ServerAction} (hs : serverStep unfit s a = some t) : Inv unfit t := by
  cases a with
  | connect bytes =>
    cases hs
    exact h.connect bytes
  | more c bytes =>
    change (if c < s.count then some _ else none) = some t at hs
    obtain ⟨-, hs⟩ := Option.ite_none_right_eq_some.mp hs
    cases hs
    exact h.more c bytes
  | accept c fd => exact h.acceptControl hs
  | readFailed i => exact h.readFailed hs
  | read i => exact h.juiceReadControl hs
  | initWriter i writer => exact h.initWriter hs
  | close i => exact h.closeFd hs
  | enqueue i accepts => exact h.enqueueData hs
  | send i sent => exact h.sendSome hs
  | release i => exact h.releaseWriter hs
  | present => exact h.presentControlPicker hs
  | picked picker file =>
    cases hs
    exact h.didPickDocuments picker file
  | cancelled picker =>
    cases hs
    exact h.pickerWasCancelled picker

end Inv

theorem inv_start : Inv unfit .start where
  proper _ := proper_new []
  held _ hp := absurd hp not_mem_nil
  distinct := nodup_nil
  slot _ hfd := nomatch hfd
  active _ hactive := nomatch hactive.1
  covered _ _ hfd := nomatch hfd
  unmade _ _ := rfl

/-- **The invariant holds in every run.** -/
theorem inv_of_reachable (hs : (server unfit).Reachable s) : Inv unfit s :=
  hs.invariant inv_start (fun _ _ _ _ h hstep => h.step hstep)

/-- **No descriptor is lost**: what is open is with the task of its connection
or, as long as the request is active, with the slot. -/
theorem keeps_of_reachable (hs : (server unfit).Reachable s) (hfd : s.table fd = some c) :
    (∃ p ∈ s.tasks, p.1 = c ∧ fd ∈ p.2.fds)
      ∨ s.controlPickerFD = some fd ∧ (s.conns c).Active := by
  have h := inv_of_reachable hs
  rcases h.covered fd c hfd with ⟨p, hp, hmem⟩ | hslot
  · cases hfd.symm.trans ((h.held p hp).fds fd hmem)
    exact .inl ⟨p, hp, rfl, hmem⟩
  · obtain ⟨k, hk⟩ := h.slot fd hslot
    cases hfd.symm.trans hk.fd
    exact .inr ⟨hslot, hk.active⟩

end Steps

end Juice.Control
