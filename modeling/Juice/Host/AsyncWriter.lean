import Mathlib.Algebra.Group.Nat.Defs
import Juice.Lib.Machine

/-!
# Writers with a queue

`JuiceAsyncWriter` writes packets to a descriptor of its own on a serial
queue. `enqueueData:` and `cancel` run under the lock of the writer, on any
thread; the worker takes the lock only to settle the accounts of a packet.
Two things are shared without a lock: `_cancelled`, an atomic that `cancel`
and a worker that fails store to and everyone loads, and the count of
buffered bytes, an atomic that all writers share.

So the model has a step for each access to these two, and what a thread has
loaded is part of its state: `JuiceReserveBytes` loads the count and tries to
exchange it, and between the two any other thread may have changed it. What
the clock, `fcntl`, `send`, `write` and `poll` return is part of the action.

`accepted`, `wire` and `failed` are for the proofs: the packets that were
accepted, the bytes that the system took, and whether a packet ended
otherwise than with all of its bytes written.
-/

namespace Juice

/-- `JUICE_IO_GLOBAL_BYTES`. -/
def JUICE_IO_GLOBAL_BYTES : UInt64 := 8 * 1024 * 1024
/-- `JUICE_IO_MAX_PACKETS`. -/
def JUICE_IO_MAX_PACKETS : UInt64 := 512
/-- `JUICE_IO_WRITE_TIMEOUT_MS`. -/
def JUICE_IO_WRITE_TIMEOUT_MS : ℤ := 2000

/-- The length of a packet, a `size_t`. -/
def sizeOf64 (data : List UInt8) : UInt64 := .ofNat data.length

/-! ## The worker -/

/-- What `send` or `write` returns. -/
inductive SendResult where
  | wrote (count : ℕ)
  | zero
  | eintr
  | eagain
  | failed
  deriving DecidableEq, Repr

/-- What `poll` returns. -/
inductive PollResult where
  | timeout
  | ready
  | nval
  | eintr
  | failed
  deriving DecidableEq, Repr

/-- What the worker gets from the system. A negative time is a clock that
failed. -/
inductive WorkerInput where
  | clock (now : ℤ)
  /-- `fcntl` with `F_GETFL`, and whether `O_NONBLOCK` is set. -/
  | flags (nonblocking : Bool)
  /-- Nothing: the test of the loop. -/
  | test
  | sent (result : SendResult)
  | polled (result : PollResult)
  deriving DecidableEq, Repr

/-- Where the block of a packet is. From `enter` to `returned` it is inside
`JuiceWriteWithDeadline`; `rest` is what is left of the packet. -/
inductive Stage where
  /-- The clock is read. -/
  | begin (deadline : ℤ)
  | enter (timeout : UInt32)
  | start (timeout : UInt32)
  /-- At the head of the loop. -/
  | loop (rest : List UInt8) (deadline : ℤ)
  | timed (rest : List UInt8) (deadline : ℤ)
  | send (rest : List UInt8) (deadline : ℤ)
  /-- The descriptor was not ready. -/
  | again (rest : List UInt8) (deadline : ℤ)
  | poll (rest : List UInt8) (deadline : ℤ)
  | returned (ok : Bool)
  /-- Before the accounts are settled. -/
  | settle
  deriving DecidableEq, Repr

/-- **The block of a packet up to the return of `JuiceWriteWithDeadline`**, a
step at a time. The queue has consumed part of the deadline when it begins,
and the rest is cast to `unsigned`. -/
def Stage.advance (data : List UInt8) (isOpen cancelled : Bool) : Stage → WorkerInput → Option Stage
  | .begin deadline, .clock now =>
    if now < 0 ∨ deadline - now ≤ 0 then some (.returned false)
    else some (.enter (.ofInt (deadline - now)))
  | .enter timeout, .flags nonblocking =>
    if !isOpen || timeout = 0 || !nonblocking then some (.returned false)
    else some (.start timeout)
  | .start timeout, .clock now =>
    if now < 0 then some (.returned false) else some (.loop data (now + timeout.toNat))
  | .loop [] _, .test => some (.returned true)
  | .loop rest deadline, .test =>
    if cancelled then some (.returned false) else some (.timed rest deadline)
  | .timed rest deadline, .clock now =>
    if now < 0 ∨ deadline ≤ now then some (.returned false) else some (.send rest deadline)
  | .send rest deadline, .sent (.wrote count) =>
    if 0 < count ∧ count ≤ rest.length then some (.loop (rest.drop count) deadline) else none
  | .send _ _, .sent .zero => some (.returned false)
  | .send rest deadline, .sent .eintr => some (.loop rest deadline)
  | .send rest deadline, .sent .eagain => some (.again rest deadline)
  | .send _ _, .sent .failed => some (.returned false)
  | .again rest deadline, .clock now =>
    if now < 0 ∨ deadline - now ≤ 0 then some (.returned false) else some (.poll rest deadline)
  | .poll _ _, .polled .failed => some (.returned false)
  | .poll _ _, .polled .nval => some (.returned false)
  | .poll rest deadline, .polled _ => some (.loop rest deadline)
  | _, _ => none

/-- The bytes that the system takes with it. -/
def Stage.takes : Stage → WorkerInput → List UInt8
  | .send rest _, .sent (.wrote count) => rest.take count
  | _, _ => []

/-! ## A writer -/

/-- A block on the queue of a writer. -/
inductive Job where
  | packet (data : List UInt8) (deadline : ℤ)
  /-- Of `cancel`. -/
  | close
  deriving DecidableEq, Repr

/-- Who is inside the lock of a writer. -/
inductive Lock where
  | free
  /-- `enqueueData:`, before it loads `_cancelled`. -/
  | entered (data : List UInt8) (deadline : ℤ)
  /-- After the tests of the limits. -/
  | bounded (data : List UInt8) (deadline : ℤ)
  /-- In the loop of `JuiceReserveBytes`, with the count it has loaded. -/
  | reserving (data : List UInt8) (deadline : ℤ) (total : UInt64)
  | reserved (data : List UInt8) (deadline : ℤ)
  /-- `cancel`, before it queues its block. -/
  | cancelling
  deriving DecidableEq, Repr

/-- **A writer.** -/
structure AsyncWriter where
  /-- `_fd` is not −1. -/
  isOpen : Bool
  socket : Bool
  limit : UInt64
  queuedBytes : UInt64
  queuedPackets : UInt64
  cancelled : Bool
  /-- `shutdown` was called. -/
  shut : Bool
  queue : List Job
  /-- The block that the worker runs: its packet, and where it is. -/
  worker : Option (List UInt8 × Stage)
  lock : Lock
  accepted : List (List UInt8)
  wire : List UInt8
  failed : Bool
  deriving Repr

namespace AsyncWriter

/-- `initWithFD:socket:limit:failure:`, after its tests. -/
def new (socket : Bool) (limit : UInt64) : AsyncWriter where
  isOpen := true
  socket := socket
  limit := limit
  queuedBytes := 0
  queuedPackets := 0
  cancelled := false
  shut := false
  queue := []
  worker := none
  lock := .free
  accepted := []
  wire := []
  failed := false

/-- What a thread does with a writer. -/
inductive Action where
  /-- `enqueueData:` is called, reads the clock and takes the lock. -/
  | enter (data : List UInt8) (now : ℤ)
  /-- It loads `_cancelled` and tests the limits. -/
  | check
  /-- It loads the count of buffered bytes. -/
  | load
  /-- It tests what it has loaded and tries to exchange the count; a weak
  exchange may fail for no reason. -/
  | exchange (spurious : Bool)
  /-- The packet could be copied or not. -/
  | copy (copied : Bool)
  /-- `cancel` takes the lock and stores `_cancelled`. -/
  | cancel
  /-- It queues its block. -/
  | dispatchClose
  /-- The queue runs its next block. -/
  | take
  | work (input : WorkerInput)
  /-- A worker whose packet failed stores `_cancelled` and shuts the socket
  down. -/
  | finish
  /-- The worker settles its accounts, in the lock. -/
  | settle

/-- The tests of `enqueueData:` against the limits of the writer. -/
def full (w : AsyncWriter) (data : List UInt8) : Bool :=
  sizeOf64 data > w.limit || w.queuedBytes > w.limit - sizeOf64 data
    || w.queuedPackets ≥ JUICE_IO_MAX_PACKETS

/-- **One action on a writer**, and the count of buffered bytes after it. -/
def step (w : AsyncWriter) (buffered : UInt64) : Action → Option (AsyncWriter × UInt64)
  | .enter data now =>
    if w.lock = .free ∧ data ≠ [] ∧ data.length < 2 ^ 64 ∧ 0 ≤ now then
      some ({ w with lock := .entered data (now + JUICE_IO_WRITE_TIMEOUT_MS) }, buffered)
    else none
  | .check => match w.lock with
    | .entered data deadline =>
      if w.cancelled || w.full data then some ({ w with lock := .free }, buffered)
      else some ({ w with lock := .bounded data deadline }, buffered)
    | _ => none
  | .load => match w.lock with
    | .bounded data deadline => some ({ w with lock := .reserving data deadline buffered }, buffered)
    | _ => none
  | .exchange spurious => match w.lock with
    | .reserving data deadline total =>
      if sizeOf64 data > JUICE_IO_GLOBAL_BYTES || total > JUICE_IO_GLOBAL_BYTES - sizeOf64 data then
        some ({ w with lock := .free }, buffered)
      else if !spurious && buffered = total then
        some ({ w with lock := .reserved data deadline }, total + sizeOf64 data)
      else some ({ w with lock := .reserving data deadline buffered }, buffered)
    | _ => none
  | .copy copied => match w.lock with
    | .reserved data deadline =>
      if copied then
        some ({ w with
          lock := .free
          queuedBytes := w.queuedBytes + sizeOf64 data
          queuedPackets := w.queuedPackets + 1
          queue := w.queue ++ [.packet data deadline]
          accepted := w.accepted ++ [data] }, buffered)
      else some ({ w with lock := .free }, buffered - sizeOf64 data)
    | _ => none
  | .cancel =>
    if w.lock = .free then some ({ w with lock := .cancelling, cancelled := true }, buffered)
    else none
  | .dispatchClose =>
    if w.lock = .cancelling then
      some ({ w with lock := .free, queue := w.queue ++ [.close] }, buffered)
    else none
  | .take => match w.worker, w.queue with
    | none, .packet data deadline :: rest =>
      some ({ w with worker := some (data, .begin deadline), queue := rest }, buffered)
    | none, .close :: rest => some ({ w with isOpen := false, queue := rest }, buffered)
    | _, _ => none
  | .work input => match w.worker with
    | some (data, stage) => (stage.advance data w.isOpen w.cancelled input).map (fun stage' =>
      ({ w with worker := some (data, stage'), wire := w.wire ++ stage.takes input }, buffered))
    | none => none
  | .finish => match w.worker with
    | some (data, .returned ok) =>
      some ({ w with
        worker := some (data, .settle)
        cancelled := w.cancelled || !ok
        shut := w.shut || (!ok && !w.cancelled && w.socket)
        failed := w.failed || !ok }, buffered)
    | _ => none
  | .settle => match w.worker with
    | some (data, .settle) =>
      if w.lock = .free then
        some ({ w with
          worker := none
          queuedBytes := w.queuedBytes - sizeOf64 data
          queuedPackets := w.queuedPackets - 1 }, buffered - sizeOf64 data)
      else none
    | _ => none

end AsyncWriter

/-! ## All writers -/

/-- The writers, and `JuiceBufferedBytes`. -/
structure Writers where
  buffered : UInt64
  writers : List AsyncWriter

namespace Writers

inductive Action where
  /-- A writer is made. -/
  | new (socket : Bool) (limit : UInt64)
  | writer (i : ℕ) (a : AsyncWriter.Action)

/-- **One action.** -/
def step (s : Writers) : Action → Option Writers
  | .new socket limit =>
    if limit ≠ 0 ∧ limit ≤ JUICE_IO_GLOBAL_BYTES then
      some { s with writers := s.writers ++ [.new socket limit] }
    else none
  | .writer i a => match s.writers[i]? with
    | some w => (w.step s.buffered a).map (fun r => ⟨r.2, s.writers.set i r.1⟩)
    | none => none

/-- **Any number of writers**, none to begin with. -/
def machine : Machine Writers Action := ⟨⟨0, []⟩, step⟩

end Writers

end Juice
