import Juice.Control.Driver
import Juice.Control.Ownership

/-!
# The import protocol

What the invariant of the host says to those outside of it. One request at
most has the slot, a connection is answered at most once and with the
identifier that came over it, and a request that comes while another one has
the slot is refused and leaves that one alone. A connection that is answered
has a task at it which has nothing else to do than to write the response and
to close, and has less of it to do with each of its steps.

The program reads what the host has written, in whatever pieces. As the host
writes nothing but the one response, the program is told of that response or
that the connection came to its end.
-/

namespace Juice.Control

variable {unfit : List Char → List UInt8} {s t : Server} {i c : ℕ} {task : Task} {a : ServerAction}

/-- The host has no descriptor of the connection any more. -/
def Closed (s : Server) (c : ℕ) : Prop := ∀ fd, s.table fd ≠ some c

/-! ## A response comes to its end -/

/-- What a task has still to do once a response is begun. -/
def Task.work : Task → ℕ
  | .read _ => 0
  | .respond _ _ => 0
  | .close _ _ m => m.wire.length + 3
  | .enqueue _ m => m.wire.length + 2
  | .write _ rest => rest.length + 1
  | .release _ => 0

/-- The task whose step an action is. -/
def ServerAction.owner : ServerAction → Option ℕ
  | .readFailed i => some i
  | .read i => some i
  | .initWriter i _ => some i
  | .close i => some i
  | .enqueue i _ => some i
  | .send i _ => some i
  | .release i => some i
  | _ => none

/-- **A task on its way to the end**: the connection is closed, or the task
has less to do. -/
def Nearer (t : Server) (i c : ℕ) (task : Task) : Prop :=
  Closed t c ∨ ∃ task', t.tasks[i]? = some (c, task') ∧ task'.work < task.work

theorem nearer_setTask (hi : s.tasks[i]? = some (c, task)) (u : Server) (hu : u.tasks = s.tasks)
    {task' : Task} (hless : task'.work < task.work) : Nearer (u.setTask i c task') i c task := by
  refine .inr ⟨task', ?_, hless⟩
  show (u.tasks.set i (c, task'))[i]? = _
  rw [hu]
  exact Slots.getElem?_set_self hi _

/-- **The task of a connection that is answered** comes nearer to its end with
each of its steps. -/
theorem nearer_of_step (h : Inv unfit s) (hi : s.tasks[i]? = some (c, task))
    (hanswered : (s.conns c).answers ≠ []) (ha : a.owner = some i)
    (hs : serverStep unfit s a = some t) : Nearer t i c task := by
  have hknows := (h.held_at hi).knows
  have hclosed {fd : ℕ} (hfds : task.fds = [fd]) : Closed ((s.setFd fd none).dropTask i) c :=
    h.table_closed hi hfds
  cases a <;> cases ha <;> revert hs <;> simp only [serverStep]
  case readFailed =>
    fun_cases readFailed s i <;> intro hs <;> cases hs
    case case1 hj =>
      cases hi.symm.trans hj
      exact absurd hknows.2.2 hanswered
  case read =>
    unfold juiceReadControl
    split
    · rename_i hj
      cases hi.symm.trans hj
      exact absurd hknows.2.2 hanswered
    · exact nofun
  case initWriter =>
    unfold initWriter
    split
    · rename_i hj
      cases hi.symm.trans hj
      exact absurd hknows.2 hanswered
    · exact nofun
  case close =>
    fun_cases closeFd s i <;> intro hs <;> cases hs
    case case1 hj =>
      cases hi.symm.trans hj
      exact nearer_setTask hi (s.setFd _ none) rfl (Nat.lt_succ_self _)
    case case2 hj =>
      cases hi.symm.trans hj
      exact .inl (hclosed rfl)
  case enqueue accepts =>
    fun_cases enqueueData s i accepts <;> intro hs <;> cases hs
    case case1 hj =>
      cases hi.symm.trans hj
      refine nearer_setTask hi _ rfl ?_
      cases accepts with
      | true => exact Nat.lt_succ_self _
      | false => exact Nat.succ_pos _
  case send sent =>
    fun_cases sendSome s i sent <;> intro hs <;> cases hs
    case case1 hj =>
      cases hi.symm.trans hj
      exact nearer_setTask hi _ rfl (Nat.succ_pos _)
    case case3 w rest hj n _ _ _ hn =>
      cases hi.symm.trans hj
      refine nearer_setTask hi _ rfl ?_
      split
      · exact Nat.succ_pos _
      · simp only [Task.work, List.length_drop]
        omega
  case release =>
    fun_cases releaseWriter s i <;> intro hs <;> cases hs
    case case1 hj =>
      cases hi.symm.trans hj
      exact .inl (hclosed rfl)

/-- A task of a connection that is answered has a step. -/
theorem exists_step_of_answered (h : Inv unfit s) (hi : s.tasks[i]? = some (c, task))
    (hanswered : (s.conns c).answers ≠ []) :
    ∃ a t, ServerAction.owner a = some i ∧ serverStep unfit s a = some t := by
  have hknows := (h.held_at hi).knows
  cases task with
  | read fd => exact absurd hknows.2.2 hanswered
  | respond fd m => exact absurd hknows.2 hanswered
  | close fd writer m =>
    cases writer with
    | none => exact ⟨.close i, _, rfl, by simp only [serverStep, closeFd, hi]; rfl⟩
    | some w => exact ⟨.close i, _, rfl, by simp only [serverStep, closeFd, hi]; rfl⟩
  | enqueue w m => exact ⟨.enqueue i true, _, rfl, by simp only [serverStep, enqueueData, hi]; rfl⟩
  | write w rest => exact ⟨.send i none, _, rfl, by simp only [serverStep, sendSome, hi]; rfl⟩
  | release w => exact ⟨.release i, _, rfl, by simp only [serverStep, releaseWriter, hi]; rfl⟩

/-- **A connection that is answered** is closed, or has a task. -/
theorem Inv.closed_or_held (h : Inv unfit s) (hanswered : (s.conns c).answers ≠ []) :
    Closed s c ∨ ∃ (i : ℕ) (task : Task), s.tasks[i]? = some (c, task) := by
  by_cases hclosed : Closed s c
  · exact .inl hclosed
  · right
    obtain ⟨fd, hfd⟩ : ∃ fd, s.table fd = some c := by
      by_contra hnone
      exact hclosed (fun fd hfd => hnone ⟨fd, hfd⟩)
    rcases h.covered fd c hfd with ⟨p, hp, hmem⟩ | hslot
    · have hlabel := Option.some.inj (((h.held p hp).fds fd hmem).symm.trans hfd)
      obtain ⟨i, hi⟩ := List.mem_iff_getElem?.mp hp
      refine ⟨i, p.2, ?_⟩
      rw [hi, ← hlabel]
    · obtain ⟨k, hk⟩ := h.slot fd hslot
      rw [← Option.some.inj (hk.fd.symm.trans hfd)] at hanswered
      exact absurd hk.answers hanswered

/-- **What a step does to the tasks.** -/
theorem tasks_of_step (hs : serverStep unfit s a = some t) :
    (∃ j, a.owner = some j ∧ ((∃ p, t.tasks = s.tasks.set j p) ∨ t.tasks = s.tasks.eraseIdx j))
      ∨ ∃ l, t.tasks = s.tasks ++ l := by
  have hsame : ∃ l, s.tasks = s.tasks ++ l := ⟨[], (List.append_nil _).symm⟩
  have hfinish : ∀ status path detail,
      ∃ l, (finishControlImport unfit s status path detail).tasks = s.tasks ++ l := by
    intro status path detail
    fun_cases finishControlImport unfit s status path detail
    · exact hsame
    · exact ⟨_, rfl⟩
  have hset : ∀ (j : ℕ) p, (∃ k, some j = some k ∧ ((∃ q, s.tasks.set j p = s.tasks.set k q)
      ∨ s.tasks.set j p = s.tasks.eraseIdx k)) ∨ ∃ l, s.tasks.set j p = s.tasks ++ l :=
    fun j p => .inl ⟨j, rfl, .inl ⟨p, rfl⟩⟩
  have herase : ∀ j : ℕ, (∃ k, some j = some k ∧ ((∃ q, s.tasks.eraseIdx j = s.tasks.set k q)
      ∨ s.tasks.eraseIdx j = s.tasks.eraseIdx k)) ∨ ∃ l, s.tasks.eraseIdx j = s.tasks ++ l :=
    fun j => .inl ⟨j, rfl, .inr rfl⟩
  cases a <;> revert hs <;> simp only [serverStep]
  case connect =>
    rintro ⟨⟩
    exact .inr hsame
  case more =>
    intro hs
    obtain ⟨-, hs⟩ := Option.ite_none_right_eq_some.mp hs
    cases hs
    exact .inr hsame
  case accept c fd =>
    fun_cases acceptControl s c fd <;> intro hs <;> cases hs
    exact .inr ⟨_, rfl⟩
  case readFailed j =>
    fun_cases readFailed s j <;> intro hs <;> cases hs
    exact herase j
  case read j =>
    fun_cases juiceReadControl unfit s j <;> intro hs <;> cases hs
    · exact herase j
    · exact hset j _
    · exact herase j
  case initWriter j w => fun_cases initWriter s j w <;> intro hs <;> cases hs <;> exact hset j _
  case close j =>
    fun_cases closeFd s j <;> intro hs <;> cases hs
    · exact hset j _
    · exact herase j
  case enqueue j b =>
    fun_cases enqueueData s j b <;> intro hs <;> cases hs
    exact hset j _
  case send j n => fun_cases sendSome s j n <;> intro hs <;> cases hs <;> exact hset j _
  case release j =>
    fun_cases releaseWriter s j <;> intro hs <;> cases hs
    exact herase j
  case present =>
    fun_cases presentControlPicker s <;> intro hs <;> cases hs <;> exact .inr hsame
  case picked picker file =>
    rintro ⟨⟩
    right
    fun_cases didPickDocuments unfit s picker file <;> first | exact hsame | exact hfinish _ _ _
  case cancelled picker =>
    rintro ⟨⟩
    right
    fun_cases pickerWasCancelled unfit s picker <;> first | exact hsame | exact hfinish _ _ _

/-- The steps of the others leave a task as it is. -/
theorem mem_tasks_of_owner_ne (hi : s.tasks[i]? = some (c, task)) (ha : a.owner ≠ some i)
    (hs : serverStep unfit s a = some t) : (c, task) ∈ t.tasks := by
  have hne : ∀ {j}, a.owner = some j → j ≠ i := by
    rintro j hj rfl
    exact ha hj
  rcases tasks_of_step hs with ⟨j, hj, ⟨p, hset⟩ | herase⟩ | ⟨l, happend⟩
  · rw [hset]
    refine List.mem_of_getElem? (i := i) ?_
    rw [List.getElem?_set_ne (hne hj)]
    exact hi
  · rw [herase]
    exact List.mem_eraseIdx_iff_getElem?.mpr ⟨i, fun heq => hne hj heq.symm, hi⟩
  · rw [happend]
    exact List.mem_append_left _ (List.mem_of_getElem? hi)

/-! ## What holds in every run of the host -/

/-- **The rules of the protocol**, as the connections show them. -/
structure Orderly (unfit : List Char → List UInt8) (s : Server) : Prop where
  /-- At most one request is active. -/
  one : ∀ c c', (s.conns c).Active → (s.conns c').Active → c = c'
  /-- The slot is in use exactly as long as a request is active. -/
  slot : s.controlPickerFD.isSome ↔ ∃ c, (s.conns c).Active
  /-- The request is what was first written to the connection. -/
  received : ∀ c request, (s.conns c).received = some request →
    messageSize ≤ (s.conns c).inbound.length
      ∧ request = .of ((s.conns c).inbound.take messageSize)
  once : ∀ c, (s.conns c).answers.length ≤ 1
  /-- A response has the identifier that was received with the connection, and
  is an error if the request was not given the slot. -/
  own : ∀ c, ∀ m ∈ (s.conns c).answers, ∃ request, (s.conns c).received = some request
    ∧ m.requestId = request.requestId ∧ ((s.conns c).admitted = false → m = busy unfit request)
  /-- Nothing else is written than the response. -/
  written : ∀ c, (s.conns c).outbound = []
    ∨ ∃ m, (s.conns c).answers = [m] ∧ (s.conns c).outbound <+: m.wire
  /-- What is answered is closed, or a task is at it. -/
  closed : ∀ c, (s.conns c).answers ≠ [] →
    Closed s c ∨ ∃ (i : ℕ) (task : Task), s.tasks[i]? = some (c, task)
  /-- That task can go on, and each of its steps brings it nearer to the end. -/
  ends : ∀ (i c : ℕ) (task : Task), s.tasks[i]? = some (c, task) → (s.conns c).answers ≠ [] →
    (∃ a t, ServerAction.owner a = some i ∧ serverStep unfit s a = some t)
      ∧ ∀ a t, serverStep unfit s a = some t →
        (ServerAction.owner a = some i → Nearer t i c task)
          ∧ (ServerAction.owner a ≠ some i → (c, task) ∈ t.tasks)

theorem Connection.Proper.written {conn : Connection} (h : conn.Proper unfit) :
    conn.outbound = [] ∨ ∃ m, conn.answers = [m] ∧ conn.outbound <+: m.wire := by
  cases hanswers : conn.answers with
  | nil => exact .inl (h.silent hanswers)
  | cons m rest =>
    have honce := h.once
    have hmem : m ∈ conn.answers := hanswers ▸ List.mem_cons_self
    rw [hanswers, List.length_cons] at honce
    have hrest : rest = [] :=
      List.length_eq_zero_iff.mp (Nat.le_zero.mp (Nat.le_of_succ_le_succ honce))
    exact .inr ⟨m, by rw [hrest], (h.answers m hmem).2⟩

theorem Inv.orderly (h : Inv unfit s) : Orderly unfit s where
  one c c' hc hc' := by
    obtain ⟨fd, hfd, htable⟩ := h.active c hc
    obtain ⟨fd', hfd', htable'⟩ := h.active c' hc'
    rw [← Option.some.inj (hfd.symm.trans hfd')] at htable'
    exact Option.some.inj (htable.symm.trans htable')
  slot := by
    refine ⟨fun hsome => ?_, fun ⟨c, hc⟩ => ?_⟩
    · obtain ⟨fd, hfd⟩ := Option.isSome_iff_exists.mp hsome
      obtain ⟨c, hc⟩ := h.slot fd hfd
      exact ⟨c, hc.active⟩
    · obtain ⟨fd, hfd, -⟩ := h.active c hc
      rw [hfd]
      rfl
  received c := (h.proper c).received
  once c := (h.proper c).once
  own c m hm := ((h.proper c).answers m hm).1.own
  written c := (h.proper c).written
  closed _ := h.closed_or_held
  ends _ _ _ hi hanswered := ⟨exists_step_of_answered h hi hanswered, fun _ _ hs =>
    ⟨fun ha => nearer_of_step h hi hanswered ha hs, fun ha => mem_tasks_of_owner_ne hi ha hs⟩⟩

/-- **A request that comes while another one is active** is refused, with an
error and its own identifier, and nothing else changes. -/
theorem refused_of_active (h : Inv unfit s) {fd : ℕ} (hi : s.tasks[i]? = some (c, .read fd))
    (hactive : ∃ k, (s.conns k).Active)
    (hvalid : validMessage (.of ((s.conns c).inbound.take messageSize))
      JUICE_CONTROL_IMPORT_REQUEST)
    (hs : serverStep unfit s (.read i) = some t) :
    t = (s.onConn c (fun conn => { conn with
          received := some (.of ((s.conns c).inbound.take messageSize)) })).setTask i c
        (.respond fd (busy unfit (.of ((s.conns c).inbound.take messageSize)))) := by
  have hfd : s.table fd = some c := (h.held_at hi).fds fd (List.mem_singleton_self fd)
  change juiceReadControl unfit s i = some t at hs
  unfold juiceReadControl at hs
  rw [hi] at hs
  dsimp only at hs
  rw [hfd] at hs
  dsimp only at hs
  obtain ⟨-, hs⟩ := Option.ite_none_left_eq_some.mp hs
  rw [if_neg (fun hnot => hnot hvalid), if_pos (h.orderly.slot.mpr hactive)] at hs
  exact (Option.some.inj hs).symm

/-! ## The program and the host -/

/-- **What the program is told of the host's response.** -/
theorem importResult_of_isResponse (sys : Unixlib) {m : Message} (hm : IsResponse m) :
    importResult sys m.requestId m
      = ⟨m.status, copyUtf8ToWide sys JUICE_IOS_PATH_CHARS (cString m.path),
          copyUtf8ToWide sys JUICE_IOS_DETAIL_CHARS (cString m.detail)⟩ := by
  unfold importResult
  rw [if_pos ⟨hm.valid, rfl⟩, cString_append hm.path, cString_append hm.detail]

/-- **An import from both sides.** The program wrote its request to the
connection, and `used` is what its calls of `recv` returned of what the host
wrote. Then it is told of the response of the host, or that the connection
came to its end. -/
theorem Inv.outcome (h : Inv unfit s) {sys : Unixlib} {requestId filters : UInt32}
    {used : List Recv} {out : PollParams}
    (hrequest : (importRequest requestId filters).wire <+: (s.conns c).inbound)
    (hreceived : received used <+: (s.conns c).outbound)
    (hout : Outcome sys requestId [] used out) :
    out = disconnected sys ∨ ∃ m, (s.conns c).answers = [m] ∧ m.requestId = requestId
      ∧ IsResponse m ∧ out = ⟨m.status, copyUtf8ToWide sys JUICE_IOS_PATH_CHARS (cString m.path),
          copyUtf8ToWide sys JUICE_IOS_DETAIL_CHARS (cString m.detail)⟩ := by
  cases hout with
  | disconnected => exact .inl rfl
  | answered hused hlen =>
    right
    rw [List.nil_append] at hlen ⊢
    rcases (h.proper c).written with hnil | ⟨m, hm, hprefix⟩
    · rw [hnil, List.prefix_nil] at hreceived
      rw [hreceived] at hlen
      exact absurd hlen (by decide)
    · obtain ⟨hanswers, -⟩ := (h.proper c).answers m (hm ▸ List.mem_singleton_self m)
      obtain ⟨request, hread, hid, -⟩ := hanswers.own
      obtain ⟨-, hof⟩ := (h.proper c).received request hread
      have hwire : received used = m.wire := by
        refine (hreceived.trans hprefix).eq_of_length_le ?_
        rw [m.length_wire]
        exact hlen
      have hsent : (s.conns c).inbound.take messageSize
          = (importRequest requestId filters).wire := by
        have htake := List.prefix_iff_eq_take.mp hrequest
        rw [Message.length_wire] at htake
        exact htake.symm
      have hsame : m.requestId = requestId := by
        rw [hid, hof, hsent, Message.of_wire]
        rfl
      refine ⟨m, hm, hsame, hanswers.response, ?_⟩
      rw [hwire, ← m.length_wire, List.take_length, Message.of_wire, ← hsame]
      exact importResult_of_isResponse sys hanswers.response

/-- **The import protocol.** In every run of the host the rules hold, and a
request that comes while another one is active is refused and leaves all but
its own connection and task alone. A call of the program returns, the calls
since an import was begun say that it is pending until they have the whole
response, or the connection is at its end, and then one of them tells how it
ended; after it the library is idle, and an import can be begun. What the
program is told is the host's response, or that the connection came to its
end. -/
theorem import_protocol (hs : (server unfit).Reachable s) (sys : Unixlib) :
    Orderly unfit s
    ∧ (∀ i c fd t, s.tasks[i]? = some (c, .read fd) → (∃ k, (s.conns k).Active) →
        validMessage (.of ((s.conns c).inbound.take messageSize)) JUICE_CONTROL_IMPORT_REQUEST →
        serverStep unfit s (.read i) = some t →
        t = (s.onConn c (fun conn => { conn with
              received := some (.of ((s.conns c).inbound.take messageSize)) })).setTask i c
            (.respond fd (importResponse unfit
              (Message.of ((s.conns c).inbound.take messageSize)).requestId
              JUICE_CONTROL_STATUS_ERROR []
              "Another Juice import request is already active.".toList)))
    ∧ (∀ requestId results d,
        ((∃ r ∈ results, ¬ Recv.continues r)
          ∨ messageSize ≤ (Driver.response d ++ received results).length) →
        (pollFileImport sys JUICE_IOS_API_VERSION requestId results d).isSome)
    ∧ (∀ requestId results n outs d d' rest, Driver.Waiting d requestId →
        polls sys requestId n results d = some (outs, d', rest) →
        ∃ used, results = used ++ rest
          ∧ ((outs = List.replicate n pending ∧ (∀ r ∈ used, r.continues ∨ r = .eagain)
              ∧ (d.response ++ received used).length < messageSize
              ∧ d' = { d with response := d.response ++ received used })
            ∨ ∃ k m out, outs = List.replicate k pending ++ out :: List.replicate m (unmatched sys)
              ∧ Outcome sys requestId d.response used out
              ∧ d'.importFd = none ∧ d'.response = []
              ∧ ∀ filters fd,
                (beginFileImport sys JUICE_IOS_API_VERSION filters (.made fd) d').1
                  = (.success, JUICE_IOS_STATUS_PENDING, nextRequestId sys d')))
    ∧ ∀ c requestId filters used out,
        (importRequest requestId filters).wire <+: (s.conns c).inbound →
        received used <+: (s.conns c).outbound → Outcome sys requestId [] used out →
        out = disconnected sys ∨ ∃ m, (s.conns c).answers = [m] ∧ m.requestId = requestId
          ∧ IsResponse m
          ∧ out = ⟨m.status, copyUtf8ToWide sys JUICE_IOS_PATH_CHARS (cString m.path),
              copyUtf8ToWide sys JUICE_IOS_DETAIL_CHARS (cString m.detail)⟩ := by
  have h := inv_of_reachable hs
  refine ⟨h.orderly, ?_, fun _ _ _ => pollFileImport_isSome, ?_, fun _ _ _ _ _ => h.outcome⟩
  · intro i c fd t hi hactive hvalid ht
    exact refused_of_active h hi hactive hvalid ht
  · intro requestId results n outs d d' rest hd hpolls
    obtain ⟨used, hresults, hpending | ⟨k, m, out, houts, hout, rfl⟩⟩ := polls_spec hd hpolls
    · exact ⟨used, hresults, .inl hpending⟩
    · refine ⟨used, hresults, .inr ⟨k, m, out, houts, hout, rfl, rfl, fun filters fd => ?_⟩⟩
      obtain ⟨after, hbegin, -⟩ :=
        @beginFileImport_idle sys (closeImport d) filters fd rfl rfl
      rw [hbegin]

/-- The descriptor of a task that waits for a message. -/
def Task.reading : Task → Option ℕ
  | .read fd => some fd
  | _ => none

theorem Task.eq_read {fd : ℕ} (h : task.reading = some fd) : task = .read fd := by
  cases task with
  | read fd' => exact congrArg Task.read (Option.some.inj h)
  | _ => exact nomatch h

/-- Two requests, of which the first has the slot and the second is about to
be read. -/
def twoRequests : List ServerAction :=
  [.connect (importRequest 7 0).wire, .connect (importRequest 8 0).wire, .accept 0 3, .accept 1 4,
    .read 0]

theorem import_protocol_twoRequests : ∃ s t, (server (fun _ => [])).Reachable s
    ∧ (s.conns 0).Active ∧ Orderly (fun _ => []) s
    ∧ serverStep (fun _ => []) s (.read 0) = some t
    ∧ t.controlRequestID = 7 ∧ (t.conns 0).Active ∧ (t.conns 1).admitted = false := by
  obtain ⟨s, hs, hadmitted, hfinished, hother, hid, hvalid, ⟨p, hp, hc, hfd⟩, hstep⟩ : ∃ s,
      (server (fun _ => [])).run twoRequests = some s
      ∧ (s.conns 0).admitted = true ∧ (s.conns 0).finished = false ∧ (s.conns 1).admitted = false
      ∧ s.controlRequestID = 7
      ∧ validMessage (.of ((s.conns 1).inbound.take messageSize)) JUICE_CONTROL_IMPORT_REQUEST
      ∧ (∃ p, s.tasks[0]? = some p ∧ p.1 = 1 ∧ p.2.reading = some 4)
      ∧ (serverStep (fun _ => []) s (.read 0)).isSome = true := by
    decide +kernel
  obtain ⟨t, ht⟩ := Option.isSome_iff_exists.mp hstep
  have hreachable := Machine.Reachable.of_run hs
  have hi : s.tasks[0]? = some (1, .read 4) := by
    rw [hp, ← hc, ← Task.eq_read hfd]
  have hprotocol := import_protocol hreachable ⟨1, fun _ _ => none, []⟩
  have hrefused := hprotocol.2.1 0 1 4 t hi ⟨0, hadmitted, hfinished⟩ hvalid ht
  refine ⟨s, t, hreachable, ⟨hadmitted, hfinished⟩, hprotocol.1, ht, ?_, ?_, ?_⟩
  · rw [hrefused]
    exact hid
  · rw [hrefused]
    exact ⟨hadmitted, hfinished⟩
  · rw [hrefused]
    exact hother

theorem keeps_twoRequests : ∃ s, (server (fun _ => [])).run twoRequests = some s
    ∧ ((∃ p ∈ s.tasks, p.1 = 0 ∧ 3 ∈ p.2.fds)
      ∨ s.controlPickerFD = some 3 ∧ (s.conns 0).Active) := by
  obtain ⟨s, hs, hfd⟩ : ∃ s, (server (fun _ => [])).run twoRequests = some s
      ∧ s.table 3 = some 0 := by
    decide +kernel
  exact ⟨s, hs, keeps_of_reachable (.of_run hs) hfd⟩

end Juice.Control
