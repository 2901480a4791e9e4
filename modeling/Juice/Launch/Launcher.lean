import Juice.Lib.Machine
import Juice.Lib.Processes
import Juice.Launch.JitState

/-!
# Starting, stopping and reaping

The host starts a wineserver and a child for every launch and keeps their
numbers in `self.server` and `self.child`. Four parts of it signal these
processes or wait for them:

* `stopAllWineProcesses:`, on the main thread, which asks a helper to shut
  the prefix down, forgets the numbers and hands each to
  `TerminateProcessGroup`;
* the worker that `TerminateProcessGroup` leaves behind, on a global queue,
  which a second later kills the group and waits for its leader;
* `JuicePollCurrentChild`, in turns of the main queue, which waits for the
  child of the current launch once its output is closed;
* the handoff to a debugger, on the main thread, which resumes the child.

What runs on the main thread is not interrupted by other work of the main
thread, but the workers and the processes themselves go on meanwhile. So the
main thread has a position, with a step for each call that concerns a
process; what such a call returns is part of the action. `launchGeneration`
tells a turn of `JuicePollCurrentChild` whether its launch is still the
current one.

`sent` and `waits` are for the proofs: each call of `kill` with the child
that had the number at the time, and each `waitpid` that returned a child.
-/

namespace Juice

open Processes

/-- The signals that are sent; `probe` is the signal 0. -/
inductive Signal where
  | probe
  | term
  | kill
  | cont
  deriving DecidableEq, Repr

/-- What `kill` returns. -/
inductive KillResult where
  | ok
  | eperm
  | esrch
  | failed
  deriving DecidableEq, Repr

/-- A call of `kill`, for a process or for its group. -/
structure Sent where
  target : Handle
  group : Bool
  signal : Signal
  /-- The child that has the number when the call is made. -/
  hit : Option ℕ
  deriving DecidableEq, Repr

/-- A `waitpid` for a number that returned a child. -/
structure Waited where
  target : Handle
  proc : ℕ
  deriving DecidableEq, Repr

/-- `JuiceJITSession`. -/
structure JITSession where
  leader : Handle
  generation : ℕ
  state : JITState
  deriving DecidableEq, Repr

/-- The stages of `JuiceConsumeOutput`. -/
inductive ConsumerStage where
  | reading
  | polling
  | finished
  deriving DecidableEq, Repr

/-- `JuiceConsumeOutput` of a launch. -/
structure Consumer where
  leader : Handle
  generation : ℕ
  stage : ConsumerStage
  deriving DecidableEq, Repr

/-- The calls of the worker of `TerminateProcessGroup`. -/
inductive TerminatorStage where
  | probeGroup
  | killGroup
  | probeLeader
  | killLeader
  | wait
  | finished
  deriving DecidableEq, Repr

/-- The worker of `TerminateProcessGroup`. -/
structure Terminator where
  leader : Handle
  stage : TerminatorStage
  deriving DecidableEq, Repr

/-- `stopAllWineProcesses:` up to where the numbers are forgotten. -/
inductive StopStage where
  | spawn
  /-- In the loop that waits for the helper. -/
  | waiting (helper : Handle) (attempt : ℕ)
  | kill (helper : Handle)
  | reap (helper : Handle)
  | clear
  deriving DecidableEq, Repr

/-- What the main thread does after a stop. -/
inductive AfterStop where
  | rest
  | launch
  deriving DecidableEq, Repr

/-- Where the main thread is. -/
inductive MainThread where
  | idle
  | stopping (childGroup serverGroup : Option Handle) (stage : StopStage) (next : AfterStop)
  /-- In `TerminateProcessGroup`, for the first of the groups; `leader` once
  the group was not found. -/
  | terminating (groups : List Handle) (leader : Bool) (next : AfterStop)
  | startServer
  | startChild
  /-- In `JuiceJITAdoptLaunch`. -/
  | adopting
  deriving DecidableEq, Repr

/-- The controller, as far as processes go, and the system's children. -/
structure Launcher where
  procs : List Proc
  child : Option Handle
  server : Option Handle
  launchGeneration : ℕ
  sessions : List JITSession
  /-- The session that is associated with the controller. -/
  session : Option ℕ
  consumers : List Consumer
  terminators : List Terminator
  main : MainThread
  sent : List Sent
  waits : List Waited
  deriving Repr

/-- What a call of the main thread returns, or which way it goes. -/
inductive MainInput where
  /-- `stopAllWineProcesses:` starts no helper. -/
  | noHelper
  | spawned (pid : ℕ)
  | waited (eintr : Bool)
  | killed (result : KillResult)
  | go
  /-- The launch is given up before a process is started. -/
  | rejected
  | serverFailed
  /-- Something fails between the start of the server and that of the child. -/
  | setupFailed (nowMS : UInt64) (foreground : Bool)
  | childFailed (nowMS : UInt64) (foreground : Bool)
  /-- The child is started, suspended and with a deadline when a debugger is
  to be attached. -/
  | child (pid : ℕ) (deadlineMS : Option UInt64)
  /-- `JuiceJITAdoptLaunch` cannot ask for the debugger. -/
  | refused (nowMS : UInt64) (foreground : Bool)
  deriving DecidableEq, Repr

/-- What can happen. -/
inductive LauncherAction where
  | exit (proc : ℕ)
  /-- `stopAllWineProcesses:` with `application-will-resign-active` or not. -/
  | stop (resigning : Bool) (nowMS : UInt64) (foreground : Bool)
  | launch (nowMS : UInt64) (foreground : Bool)
  /-- `JuiceJITEventReceived`, and whether a `kill` in it succeeds. -/
  | event (session : ℕ) (event : JITEvent) (nowMS : UInt64) (foreground : Bool) (resumed : Bool)
  | outputClosed (consumer : ℕ)
  | poll (consumer : ℕ) (nowMS : UInt64) (foreground : Bool)
  | main (input : MainInput)
  | terminator (worker : ℕ) (result : KillResult)
  deriving DecidableEq, Repr

namespace Launcher

/-- A call of `kill`. -/
def signal (s : Launcher) (target : Handle) (group : Bool) (signal : Signal) : Launcher :=
  { s with sent := s.sent ++ [⟨target, group, signal, lookup s.procs target.pid⟩] }

/-- A `waitpid` for `target` returned the child `proc`. -/
def waited (s : Launcher) (target : Handle) (procs : List Proc) (proc : ℕ) : Launcher :=
  { s with procs := procs, waits := s.waits ++ [⟨target, proc⟩] }

/-! ## The handoff -/

/-- `JuiceJITOwnsChild`. -/
def ownsChild (s : Launcher) (i : ℕ) (session : JITSession) : Bool :=
  s.session = some i && s.child.any (·.pid == session.leader.pid)
    && s.launchGeneration = session.generation

/-- `JuiceJITDispose`. -/
def dispose (s : Launcher) (i : ℕ) : Launcher :=
  if s.session = some i then { s with session := none } else s

/-- **`JuiceJITEventReceived`**, and whether it calls for a stop. -/
def eventReceived (s : Launcher) (i : ℕ) (event : JITEvent) (nowMS : UInt64)
    (foreground resumed : Bool) : Launcher × Bool :=
  match s.sessions[i]? with
  | none => (s, false)
  | some session =>
    let owns := s.ownsChild i session
    let (state, action) := session.state.transition event nowMS owns foreground
    let signalled := if action = .resume then s.signal session.leader false .cont else s
    let (state, action) :=
      if action = .resume ∧ resumed = false then ({ state with phase := .failed }, .stop)
      else (state, action)
    let noted := { signalled with sessions := s.sessions.set i { session with state := state } }
    if state.pending then (noted, false)
    else (noted.dispose i, action = .stop && owns)

/-- `stopAllWineProcesses:` begins. -/
def beginStop (s : Launcher) (next : AfterStop) : Launcher :=
  { s with
    launchGeneration := s.launchGeneration + 1
    main := .stopping s.child s.server .spawn next }

/-- **`JuiceJITHardenedStop`.** A handoff survives that the application
resigns; otherwise it is cancelled. -/
def hardenedStop (s : Launcher) (resigning : Bool) (nowMS : UInt64) (foreground : Bool)
    (next : AfterStop) : Launcher :=
  match s.session with
  | none => s.beginStop next
  | some i =>
    if resigning && (s.sessions[i]?).any (fun session => s.ownsChild i session
        && session.state.pending && decide (nowMS < session.state.deadlineMS)) then
      { s with main := .idle }
    else
      (((s.eventReceived i .cancel nowMS foreground true).1).dispose i).beginStop next

/-- `JuiceJITWillReap`. -/
def willReap (s : Launcher) (leader : Handle) (generation : ℕ) (nowMS : UInt64)
    (foreground : Bool) : Launcher :=
  match s.session with
  | none => s
  | some i =>
    if (s.sessions[i]?).any (fun session => session.leader.pid == leader.pid
        && session.generation == generation) then
      ((s.eventReceived i .cancel nowMS foreground true).1).dispose i
    else s

/-! ## The launch -/

/-- `JuiceSpawnForLaunch` once the child is started: a child to be debugged
gets a session. -/
def openSession (s : Launcher) (leader : Handle) : Option UInt64 → Launcher
  | none => s
  | some deadlineMS =>
    { s with
      sessions := s.sessions ++ [⟨leader, 0, .fresh deadlineMS⟩]
      session := some s.sessions.length }

/-- `JuiceJITAdoptLaunch` takes the generation of the launch over into the
session of the child. -/
def adopt (s : Launcher) (leader : Handle) (generation : ℕ) : Launcher :=
  match s.session with
  | none => s
  | some i => { s with
      sessions := s.sessions.modify i (fun session =>
        if session.leader.pid = leader.pid then { session with generation := generation }
        else session) }

/-- The end of `JuiceHardenedLaunch`. -/
def launched (s : Launcher) (leader : Handle) : Launcher :=
  let generation := s.launchGeneration + 1
  ({ s with
    child := some leader
    launchGeneration := generation
    consumers := s.consumers ++ [(⟨leader, generation, .reading⟩ : Consumer)]
    main := .adopting }).adopt leader generation

/-! ## The turns of the reaper -/

/-- The block that `JuicePollCurrentChild` calls when the child is gone. -/
def finished (s : Launcher) (k : ℕ) (consumer : Consumer) (nowMS : UInt64) (foreground : Bool) :
    Launcher :=
  let s := s.willReap consumer.leader consumer.generation nowMS foreground
  { s with
    child := if s.child.any (·.pid == consumer.leader.pid) then none else s.child
    consumers := s.consumers.set k { consumer with stage := .finished } }

/-- **`JuicePollCurrentChild`.** -/
def pollCurrentChild (s : Launcher) (k : ℕ) (consumer : Consumer) (nowMS : UInt64)
    (foreground : Bool) : Launcher :=
  if consumer.generation ≠ s.launchGeneration then
    { s with consumers := s.consumers.set k { consumer with stage := .finished } }
  else
    match wait s.procs consumer.leader.pid with
    | (_, .running) => s
    | (_, .noChild) => s.finished k consumer nowMS foreground
    | (procs, .reaped proc) =>
      (s.waited consumer.leader procs proc).finished k consumer nowMS foreground

/-! ## The steps -/

/-- What follows a stop. -/
def MainThread.after : AfterStop → MainThread
  | .rest => .idle
  | .launch => .startServer

/-- The main thread leaves `TerminateProcessGroup` for the next group; a
worker stays behind. -/
def terminated (s : Launcher) (leader : Handle) (groups : List Handle) (next : AfterStop) :
    Launcher :=
  { s with
    terminators := s.terminators ++ [⟨leader, .probeGroup⟩]
    main := .terminating groups false next }

/-- The main thread waits for the helper. A wait that returns anything but 0
ends the attempts. -/
def waitHelper (s : Launcher) (helper : Handle) (running : Option MainThread)
    (done : MainThread) : Option Launcher :=
  match wait s.procs helper.pid with
  | (_, .running) => running.map (fun main => { s with main := main })
  | (_, .noChild) => some { s with main := done }
  | (procs, .reaped proc) =>
    some { s.waited helper procs proc with main := done }

/-- The attempts at the helper. -/
def attempts : ℕ := 40

/-- **The main thread takes a step.** -/
def mainStep (s : Launcher) (input : MainInput) : Option Launcher :=
  match s.main, input with
  | .stopping c v .spawn next, .noHelper => some { s with main := .stopping c v .clear next }
  | .stopping c v .spawn next, .spawned pid =>
    (spawn s.procs pid).map (fun (procs, helper) =>
      { s with procs := procs, main := .stopping c v (.waiting helper 0) next })
  | .stopping c v (.waiting helper attempt) next, .waited eintr =>
    if eintr then some { s with main := .stopping c v .clear next }
    else s.waitHelper helper
      (some (.stopping c v
        (if attempt + 1 < attempts then .waiting helper (attempt + 1) else .kill helper) next))
      (.stopping c v .clear next)
  | .stopping c v (.kill helper) next, .killed _ =>
    some { s.signal helper false .kill with main := .stopping c v (.reap helper) next }
  | .stopping c v (.reap helper) next, .waited eintr =>
    if eintr then some { s with main := .stopping c v .clear next }
    else s.waitHelper helper none (.stopping c v .clear next)
  | .stopping c v .clear next, .go =>
    some { s with
      child := none
      server := none
      main := .terminating (c.toList ++ v.toList) false next }
  | .terminating [] _ next, .go => some { s with main := MainThread.after next }
  | .terminating (leader :: groups) false next, .killed result =>
    let s := s.signal leader true .term
    if result = .esrch then some { s with main := .terminating (leader :: groups) true next }
    else some (s.terminated leader groups next)
  | .terminating (leader :: groups) true next, .killed _ =>
    some ((s.signal leader false .term).terminated leader groups next)
  | .startServer, .rejected => some { s with main := .idle }
  | .startServer, .serverFailed => some { s with server := none, main := .idle }
  | .startServer, .spawned pid =>
    (spawn s.procs pid).map (fun (procs, server) =>
      { s with procs := procs, server := some server, main := .startChild })
  | .startChild, .setupFailed nowMS foreground =>
    some (s.hardenedStop false nowMS foreground .rest)
  | .startChild, .childFailed nowMS foreground =>
    some ({ s with child := none }.hardenedStop false nowMS foreground .rest)
  | .startChild, .child pid deadlineMS =>
    -- `JuiceSpawnForLaunch` starts no second handoff
    if deadlineMS.isSome && s.session.isSome then none
    else (spawn s.procs pid).map (fun (procs, child) =>
      ({ s with procs := procs }.openSession child deadlineMS).launched child)
  | .adopting, .go => some { s with main := .idle }
  | .adopting, .refused nowMS foreground =>
    match s.session with
    | none => some { s with main := .idle }
    | some i =>
      let (s, stop) := s.eventReceived i .openRejected nowMS foreground true
      if stop then some (s.hardenedStop false nowMS foreground .rest)
      else some { s with main := .idle }
  | _, _ => none

/-- The worker of `TerminateProcessGroup` takes a step. -/
def terminatorStep (s : Launcher) (w : ℕ) (worker : Terminator) (result : KillResult) :
    Option Launcher :=
  let goto (s : Launcher) (stage : TerminatorStage) : Launcher :=
    { s with terminators := s.terminators.set w { worker with stage := stage } }
  match worker.stage with
  | .probeGroup =>
    some (goto (s.signal worker.leader true .probe)
      (if result = .ok ∨ result = .eperm then .killGroup
        else if result = .esrch then .probeLeader else .wait))
  | .killGroup => some (goto (s.signal worker.leader true .kill) .wait)
  | .probeLeader =>
    some (goto (s.signal worker.leader false .probe)
      (if result = .ok then .killLeader else .wait))
  | .killLeader => some (goto (s.signal worker.leader false .kill) .wait)
  | .wait =>
    match wait s.procs worker.leader.pid with
    | (_, .running) => none
    | (_, .noChild) => some (goto s .finished)
    | (procs, .reaped proc) =>
      some (goto (s.waited worker.leader procs proc) .finished)
  | .finished => none

/-- **A step.** What is not a step of a worker or of a child needs the main
thread. -/
def step (s : Launcher) (a : LauncherAction) : Option Launcher :=
  match a with
  | .exit proc => some { s with procs := exit s.procs proc }
  | .terminator w result =>
    (s.terminators[w]?).bind (fun worker => s.terminatorStep w worker result)
  | .outputClosed k =>
    (s.consumers[k]?).bind (fun consumer =>
      if consumer.stage = .reading then
        some { s with consumers := s.consumers.set k { consumer with stage := .polling } }
      else none)
  | .main input => s.mainStep input
  | .stop resigning nowMS foreground =>
    if s.main = .idle then some (s.hardenedStop resigning nowMS foreground .rest) else none
  | .launch nowMS foreground =>
    if s.main = .idle then some (s.hardenedStop false nowMS foreground .launch) else none
  | .event i event nowMS foreground resumed =>
    if s.main = .idle then
      let (t, stop) := s.eventReceived i event nowMS foreground resumed
      if stop then some (t.hardenedStop false nowMS foreground .rest) else some t
    else none
  | .poll k nowMS foreground =>
    if s.main = .idle then
      (s.consumers[k]?).bind (fun consumer =>
        if consumer.stage = .polling then
          some (s.pollCurrentChild k consumer nowMS foreground)
        else none)
    else none

/-- The controller when the host starts. -/
def start : Launcher :=
  ⟨[], none, none, 0, [], none, [], [], .idle, [], []⟩

/-- **The machine of process control.** -/
def machine : Machine Launcher LauncherAction := ⟨start, step⟩

end Launcher
end Juice
