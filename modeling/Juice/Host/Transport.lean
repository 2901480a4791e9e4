import Juice.Lib.Machine
import Juice.Host.Retained

/-!
# The host's display transport

The readers of the connections and the deliveries of frames to the main
queue, as one machine. A reader loops over the records of its connection:
it checks a header, reserves room for the payload, reads it, applies the
frame, schedules its delivery and gives the room back. A delivery takes a
snapshot of the frame on the snapshot queue, not more often than the
display needs, and hands it to a block on the main queue, which presents
it if the frame is still the one of its window and has not changed hands.

One action is one critical section, or one read. What arrives on a
connection is up to the peer: a header and a payload are data of the
action, and any bytes may be a header. The snapshot queue is serial and
the main queue runs its blocks in order; here any delivery may take its
next step at any time, which allows more runs.

Three things are for the proofs only. `Reader.handled` is what a reader has
dealt with, `Transport.snapshots` the generation of the last snapshot of
each frame, and `Transport.presented` the snapshots that were presented,
each with the frame as it was when that was decided.
-/

namespace Juice

open JuiceMsg

/-! ## Readers -/

/-- Where a reader is in `JuiceHardenedReadClient`. -/
inductive ReaderPc where
  /-- About to read a header. -/
  | loop
  /-- A header was read and passed the checks. -/
  | admitted (m : JuiceMsg)
  /-- Room for the payload is reserved. -/
  | reserved (m : JuiceMsg)
  /-- The payload was read. -/
  | loaded (m : JuiceMsg) (data : List UInt8)
  /-- Between the two critical sections of `JuiceApplyDirty`. -/
  | merging (m : JuiceMsg) (data : List UInt8) (f : ℕ)
  /-- The frame was applied and is to be scheduled. -/
  | applied (m : JuiceMsg) (f : ℕ)
  /-- In the `@finally` block, on the way back to the loop or out of it. -/
  | releasing (m : JuiceMsg) (leave : Bool)
  /-- Out of the loop. -/
  | closing
  /-- After `JuiceInvalidateClient`. -/
  | detaching
  /-- After `close(fd)`. -/
  | closed
  deriving DecidableEq, Repr

/-- **The reader of a connection.** -/
structure Reader where
  fd : Fd
  peerPID : Int32
  firstFrame : Bool
  pc : ReaderPc
  handled : List Content
  deriving DecidableEq, Repr

/-- The reader of a connection just accepted. -/
def Reader.new (fd : Fd) : Reader := ⟨fd, 0, true, .loop, []⟩

/-- What a reader does next. -/
inductive ReaderAction where
  /-- `JuiceDisplayReadAll` returns a header. -/
  | header (m : JuiceMsg)
  /-- `JuiceDisplayReadAll` fails, or there is no memory for a payload. -/
  | readFail
  | reserve
  /-- A record without payload is dealt with. -/
  | dispatch
  /-- `JuiceDisplayReadAll` returns a payload. -/
  | payload (data : List UInt8)
  | apply
  | merge
  | schedule
  | release
  | invalidate
  | close
  deriving DecidableEq, Repr

/-! ## Deliveries -/

/-- **What `JuiceDeliverFrame` takes of a frame** for the block on the main
queue. -/
structure Snapshot where
  bytes : List UInt8
  hwnd : UInt64
  width : Int32
  height : Int32
  stride : UInt32
  clientFD : Fd
  peerPID : Int32
  generation : ℕ
  first : Bool
  deriving DecidableEq, Repr

/-- **A delivery in flight.** -/
inductive Delivery where
  /-- `JuiceDeliverFrame` is queued. -/
  | queued (f : ℕ)
  /-- `JuiceDeliverFrame` is to be queued after a delay. -/
  | delayed (f : ℕ)
  /-- The frame could not be copied, and its flag is to be cleared. -/
  | failed (f : ℕ)
  /-- The block on the main queue. -/
  | block (f : ℕ) (snapshot : Snapshot)
  /-- The block, between its two critical sections. -/
  | presenting (f : ℕ) (snapshot : Snapshot) (present : Bool)
  deriving DecidableEq, Repr

/-- The frame a delivery is of. -/
def Delivery.frame : Delivery → ℕ
  | queued f => f
  | delayed f => f
  | failed f => f
  | block f _ => f
  | presenting f _ _ => f

/-- The next step of a delivery. -/
inductive DeliveryAction where
  /-- `JuiceDeliverFrame` runs: at a time, at a rate, and its copy of the
  bytes succeeds or not. -/
  | deliver (now : UInt64) (fps : UInt32) (copied : Bool)
  | elapse
  | abandon
  /-- The first critical section of the block. -/
  | decide
  /-- The second. -/
  | finish
  deriving DecidableEq, Repr

/-- `JuiceSnapshotDelay`. -/
def juiceSnapshotDelay (previous now : UInt64) (fps : UInt32) : UInt64 :=
  if previous = 0 ∨ now < previous then 0
  else
    let fps : UInt32 := if fps = 0 then 15 else if fps > 240 then 240 else fps
    let interval : UInt64 := 1000000000 / fps.toUInt64
    let elapsed := now - previous
    if elapsed ≥ interval then 0 else interval - elapsed

/-- A snapshot that was presented, and the frame as it was when that was
decided. -/
structure Presented where
  frame : ℕ
  snapshot : Snapshot
  seen : Framebuffer
  deriving DecidableEq, Repr

namespace Framebuffer

/-- The critical section of `JuiceScheduleFrame`, past its first line. -/
def schedule (fb : Framebuffer) (first : Bool) : Framebuffer :=
  { fb with
    firstPending := first || fb.firstPending
    scheduled := true
    coalesced := if fb.scheduled then fb.coalesced + 1 else fb.coalesced }

/-- What a snapshot takes. -/
def snapshot (fb : Framebuffer) : Snapshot :=
  ⟨fb.bytes.getD [], fb.hwnd, fb.width, fb.height, fb.stride, fb.clientFD, fb.peerPID,
    fb.generation, fb.firstPending⟩

/-- A snapshot is taken: the clock of the frame is set, and its first
presentation is no longer pending. -/
def taken (fb : Framebuffer) (now : UInt64) : Framebuffer :=
  { fb with lastSnapshotNS := now, firstPending := false }

/-- The delivery is over. -/
def unschedule (fb : Framebuffer) : Framebuffer := { fb with scheduled := false }

/-- A snapshot is presented. -/
def render (fb : Framebuffer) : Framebuffer := { fb with rendered := fb.rendered + 1 }

theorem content_schedule (first : Bool) (fb : Framebuffer) :
    (fb.schedule first).content = fb.content := rfl

theorem content_taken (now : UInt64) (fb : Framebuffer) : (fb.taken now).content = fb.content :=
  rfl

theorem content_unschedule (fb : Framebuffer) : fb.unschedule.content = fb.content := rfl

theorem content_render (fb : Framebuffer) : fb.render.content = fb.content := rfl

/-- Whether the block on the main queue is to present a snapshot. -/
def Presents (fb : Framebuffer) (s : Snapshot) : Prop :=
  fb.invalidated = false ∧ fb.clientFD = s.clientFD ∧ fb.peerPID = s.peerPID

instance (fb : Framebuffer) (s : Snapshot) : Decidable (fb.Presents s) := by
  unfold Presents
  infer_instance

end Framebuffer

/-! ## The machine -/

/-- **The state of the transport.** -/
structure Transport where
  frames : Frames
  /-- `JuiceDisplayPendingBytesKey`. -/
  pending : UInt64
  readers : List Reader
  deliveries : List Delivery
  snapshots : ℕ → Option ℕ
  presented : List Presented

namespace Transport

variable {d : Delivery} {a : DeliveryAction}

/-- What can happen: a connection is accepted on a descriptor, a reader or a
delivery goes on. -/
inductive Action where
  | accept (fd : Fd)
  | reader (c : ℕ) (a : ReaderAction)
  | delivery (i : ℕ) (a : DeliveryAction)
  deriving DecidableEq, Repr

/-- A reader goes on. -/
def goto (t : Transport) (c : ℕ) (r : Reader) (pc : ReaderPc) : Transport :=
  { t with readers := t.readers.set c { r with pc } }

/-- A reader goes on, having dealt with a record. -/
def handle (t : Transport) (c : ℕ) (r : Reader) (m : JuiceMsg) (data : List UInt8)
    (pc : ReaderPc) : Transport :=
  t.goto c { r with handled := r.handled ++ [(m, data)] } pc

/-- `JuiceReserveDisplayPayload`: the counter after it, `none` where it
returns `NO`. -/
def juiceReserveDisplayPayload (pending : UInt64) (bytes : UInt32) : Option UInt64 :=
  if bytes.toUInt64 > UInt64.ofNat MAX_BYTES - pending then none
  else some (pending + bytes.toUInt64)

/-- A record without payload: a `HELLO` names the process, a `DESTROY` takes
down the frame of its window. What they and a `WINDOW` have done on the
main queue is not part of the transport. -/
def dispatch (t : Transport) (c : ℕ) (r : Reader) (m : JuiceMsg) : Transport :=
  if m.type = HELLO then t.handle c { r with peerPID := m.flags.toInt32 } m [] .loop
  else if m.type = DESTROY then
    { t with frames := t.frames.juiceInvalidateHWND m.hwnd r.fd }.handle c r m [] .loop
  else t.handle c r m [] .loop

/-- The call of `JuiceApplyFull`, or `JuiceApplyDirty` as far as its first
critical section. -/
def apply (t : Transport) (c : ℕ) (r : Reader) (m : JuiceMsg) (data : List UInt8) : Transport :=
  if m.dirty then
    match t.frames.juiceApplyDirty m data with
    | none => t.handle c r m data (.releasing m false)
    | some f => t.goto c r (.merging m data f)
  else
    let p := t.frames.juiceApplyFull m data r.fd r.peerPID
    match p.2 with
    | none => { t with frames := p.1 }.goto c r (.releasing m true)
    | some f => { t with frames := p.1 }.handle c r m data (.applied m f)

/-- `JuiceApplyDirty` from its second critical section on. -/
def merge (t : Transport) (c : ℕ) (r : Reader) (m : JuiceMsg) (data : List UInt8) (f : ℕ) :
    Transport :=
  let p := t.frames.mergeDirty f m data r.fd r.peerPID
  match p.2 with
  | none => { t with frames := p.1 }.handle c r m data (.releasing m false)
  | some f => { t with frames := p.1 }.handle c r m data (.applied m f)

/-- `JuiceScheduleFrame`. -/
def juiceScheduleFrame (t : Transport) (f : ℕ) (first : Bool) : Transport :=
  if (t.frames.heap f).invalidated then t
  else { t with
    frames := t.frames.modify f (fun fb => fb.schedule first)
    deliveries := if (t.frames.heap f).scheduled then t.deliveries
      else t.deliveries ++ [.queued f] }

@[simp] theorem juiceScheduleFrame_readers (t : Transport) (f : ℕ) (first : Bool) :
    (t.juiceScheduleFrame f first).readers = t.readers := by
  unfold juiceScheduleFrame
  split <;> rfl

theorem mem_juiceScheduleFrame {t : Transport} {f : ℕ} {first : Bool}
    (h : d ∈ (t.juiceScheduleFrame f first).deliveries) : d ∈ t.deliveries ∨ d = .queued f := by
  unfold juiceScheduleFrame at h
  split at h
  · exact .inl h
  · dsimp only at h
    split at h
    · exact .inl h
    · simpa using h

/-- **One action of a reader.** -/
def readerStep (t : Transport) (c : ℕ) (r : Reader) (a : ReaderAction) : Option Transport :=
  match r.pc, a with
  | .loop, .header m =>
    some (t.goto c r (if (juiceCheckHeader m).isSome then .closing else .admitted m))
  | .loop, .readFail => some (t.goto c r .closing)
  | .admitted m, .dispatch => if m.type = FRAME then none else some (t.dispatch c r m)
  | .admitted m, .reserve =>
    if m.type ≠ FRAME then none
    else match juiceReserveDisplayPayload t.pending m.size with
      | none => some (t.goto c r .closing)
      | some pending => some ({ t with pending }.goto c r (.reserved m))
  | .reserved m, .payload data =>
    if data.length = m.size.toNat then some (t.goto c r (.loaded m data)) else none
  | .reserved m, .readFail => some (t.goto c r (.releasing m true))
  | .loaded m data, .apply => some (t.apply c r m data)
  | .merging m data f, .merge => some (t.merge c r m data f)
  | .applied m f, .schedule =>
    some ((t.juiceScheduleFrame f r.firstFrame).goto c { r with firstFrame := false }
      (.releasing m false))
  | .releasing m leave, .release =>
    some ({ t with pending := t.pending - m.size.toUInt64 }.goto c r
      (if leave then .closing else .loop))
  | .closing, .invalidate =>
    some ({ t with frames := t.frames.juiceInvalidateClient r.fd }.goto c r .detaching)
  | .detaching, .close => some (t.goto c r .closed)
  | _, _ => none

/-- A delivery is over: the flag of its frame is cleared. -/
def unschedule (t : Transport) (i f : ℕ) : Transport :=
  { t with
    frames := t.frames.modify f Framebuffer.unschedule
    deliveries := t.deliveries.eraseIdx i }

/-- A delivery goes on as another one. -/
def redeliver (t : Transport) (i : ℕ) (d : Delivery) : Transport :=
  { t with deliveries := t.deliveries.set i d }

/-- `JuiceDeliverFrame`. -/
def juiceDeliverFrame (t : Transport) (i f : ℕ) (now : UInt64) (fps : UInt32) (copied : Bool) :
    Transport :=
  let fb := t.frames.heap f
  if fb.invalidated then t.unschedule i f
  else if !fb.firstPending && juiceSnapshotDelay fb.lastSnapshotNS now fps ≠ 0 then
    t.redeliver i (.delayed f)
  else
    let t := { t with frames := t.frames.modify f (fun fb => fb.taken now) }
    if copied then
      { t with snapshots := Function.update t.snapshots f (some fb.generation) }.redeliver i
        (.block f fb.snapshot)
    else t.redeliver i (.failed f)

/-- **One action of a delivery.** -/
def deliveryStep (t : Transport) (i : ℕ) (d : Delivery) (a : DeliveryAction) : Option Transport :=
  match d, a with
  | .queued f, .deliver now fps copied => some (t.juiceDeliverFrame i f now fps copied)
  | .delayed f, .elapse => some (t.redeliver i (.queued f))
  | .failed f, .abandon => some (t.unschedule i f)
  | .block f s, .decide =>
    if (t.frames.heap f).Presents s then
      some ({ t with
        frames := t.frames.modify f Framebuffer.render
        presented := t.presented ++ [Presented.mk f s (t.frames.heap f)] }.redeliver i
          (.presenting f s true))
    else some (t.redeliver i (.presenting f s false))
  | .presenting f s _, .finish =>
    if (t.frames.heap f).invalidated then some (t.unschedule i f)
    else if (t.frames.heap f).generation ≠ s.generation then some (t.redeliver i (.queued f))
    else some (t.unschedule i f)
  | _, _ => none

/-- A descriptor is in use as long as its reader has not closed it. -/
def InUse (t : Transport) (fd : Fd) : Prop := ∃ r ∈ t.readers, r.fd = fd ∧ r.pc ≠ .closed

instance (t : Transport) (fd : Fd) : Decidable (t.InUse fd) := by
  unfold InUse
  infer_instance

/-- **One action of the transport.** -/
def step (t : Transport) : Action → Option Transport
  | .accept fd =>
    if fd < 0 ∨ t.InUse fd then none else some { t with readers := t.readers ++ [.new fd] }
  | .reader c a => t.readers[c]?.bind (fun r => t.readerStep c r a)
  | .delivery i a => t.deliveries[i]?.bind (fun d => t.deliveryStep i d a)

/-- The transport before any connection. -/
def start : Transport := ⟨.empty, 0, [], [], fun _ => none, []⟩

/-- **The display transport of the host.** -/
def machine : Machine Transport Action := ⟨start, step⟩

/-! ## What an action does -/

/-- **What an action of a reader does**, to the state it shares with others
and to itself. -/
inductive ReaderEffect (t : Transport) (r : Reader) : ReaderAction → Transport → Reader → Prop
  | reject {m : JuiceMsg} (hpc : r.pc = .loop) (hm : juiceCheckHeader m ≠ none) :
      ReaderEffect t r (.header m) t { r with pc := .closing }
  | pass {m : JuiceMsg} (hpc : r.pc = .loop) (hm : juiceCheckHeader m = none) :
      ReaderEffect t r (.header m) t { r with pc := .admitted m }
  | ended (hpc : r.pc = .loop) : ReaderEffect t r .readFail t { r with pc := .closing }
  | hello {m : JuiceMsg} (hpc : r.pc = .admitted m) (hm : m.type = HELLO) :
      ReaderEffect t r .dispatch t
        { r with peerPID := m.flags.toInt32, handled := r.handled ++ [(m, [])], pc := .loop }
  | destroy {m : JuiceMsg} (hpc : r.pc = .admitted m) (hm : m.type = DESTROY) :
      ReaderEffect t r .dispatch { t with frames := t.frames.juiceInvalidateHWND m.hwnd r.fd }
        { r with handled := r.handled ++ [(m, [])], pc := .loop }
  | window {m : JuiceMsg} (hpc : r.pc = .admitted m) (hframe : m.type ≠ FRAME)
      (hhello : m.type ≠ HELLO) (hdestroy : m.type ≠ DESTROY) :
      ReaderEffect t r .dispatch t { r with handled := r.handled ++ [(m, [])], pc := .loop }
  | refuse {m : JuiceMsg} (hpc : r.pc = .admitted m) (hm : m.type = FRAME)
      (hres : juiceReserveDisplayPayload t.pending m.size = none) :
      ReaderEffect t r .reserve t { r with pc := .closing }
  | reserve {m : JuiceMsg} {pending : UInt64} (hpc : r.pc = .admitted m) (hm : m.type = FRAME)
      (hres : juiceReserveDisplayPayload t.pending m.size = some pending) :
      ReaderEffect t r .reserve { t with pending } { r with pc := .reserved m }
  | payload {m : JuiceMsg} {data : List UInt8} (hpc : r.pc = .reserved m)
      (hlen : data.length = m.size.toNat) :
      ReaderEffect t r (.payload data) t { r with pc := .loaded m data }
  | truncated {m : JuiceMsg} (hpc : r.pc = .reserved m) :
      ReaderEffect t r .readFail t { r with pc := .releasing m true }
  | missing {m : JuiceMsg} {data : List UInt8} (hpc : r.pc = .loaded m data)
      (hm : m.dirty = true) (hf : t.frames.juiceApplyDirty m data = none) :
      ReaderEffect t r .apply t
        { r with handled := r.handled ++ [(m, data)], pc := .releasing m false }
  | found {m : JuiceMsg} {data : List UInt8} {f : ℕ} (hpc : r.pc = .loaded m data)
      (hm : m.dirty = true) (hf : t.frames.juiceApplyDirty m data = some f) :
      ReaderEffect t r .apply t { r with pc := .merging m data f }
  | exceeded {m : JuiceMsg} {data : List UInt8} (hpc : r.pc = .loaded m data)
      (hm : m.dirty = false)
      (hf : t.frames.juiceApplyFull m data r.fd r.peerPID = (t.frames, none)) :
      ReaderEffect t r .apply t { r with pc := .releasing m true }
  | full {m : JuiceMsg} {data : List UInt8} {fs : Frames} {f : ℕ} (hpc : r.pc = .loaded m data)
      (hm : m.dirty = false)
      (hf : t.frames.juiceApplyFull m data r.fd r.peerPID = (fs, some f)) :
      ReaderEffect t r .apply { t with frames := fs }
        { r with handled := r.handled ++ [(m, data)], pc := .applied m f }
  | dropped {m : JuiceMsg} {data : List UInt8} {f : ℕ} (hpc : r.pc = .merging m data f)
      (hf : ¬ (t.frames.heap f).Accepts m r.fd r.peerPID) :
      ReaderEffect t r .merge t
        { r with handled := r.handled ++ [(m, data)], pc := .releasing m false }
  | merged {m : JuiceMsg} {data : List UInt8} {f : ℕ} (hpc : r.pc = .merging m data f)
      (hf : (t.frames.heap f).Accepts m r.fd r.peerPID) :
      ReaderEffect t r .merge
        { t with frames := t.frames.modify f (fun fb => fb.merge m data r.fd r.peerPID) }
        { r with handled := r.handled ++ [(m, data)], pc := .applied m f }
  | schedule {m : JuiceMsg} {f : ℕ} (hpc : r.pc = .applied m f) :
      ReaderEffect t r .schedule (t.juiceScheduleFrame f r.firstFrame)
        { r with firstFrame := false, pc := .releasing m false }
  | release {m : JuiceMsg} {leave : Bool} (hpc : r.pc = .releasing m leave) :
      ReaderEffect t r .release { t with pending := t.pending - m.size.toUInt64 }
        { r with pc := if leave then .closing else .loop }
  | invalidate (hpc : r.pc = .closing) :
      ReaderEffect t r .invalidate { t with frames := t.frames.juiceInvalidateClient r.fd }
        { r with pc := .detaching }
  | close (hpc : r.pc = .detaching) : ReaderEffect t r .close t { r with pc := .closed }

/-- **What an action of a delivery does.** -/
inductive DeliveryEffect (t : Transport) (i : ℕ) : Delivery → DeliveryAction → Transport → Prop
  | stale {f : ℕ} {now : UInt64} {fps : UInt32} {copied : Bool}
      (hinv : (t.frames.heap f).invalidated = true) :
      DeliveryEffect t i (.queued f) (.deliver now fps copied) (t.unschedule i f)
  | delay {f : ℕ} {now : UInt64} {fps : UInt32} {copied : Bool}
      (hinv : (t.frames.heap f).invalidated = false) :
      DeliveryEffect t i (.queued f) (.deliver now fps copied) (t.redeliver i (.delayed f))
  | copy {f : ℕ} {now : UInt64} {fps : UInt32} (hinv : (t.frames.heap f).invalidated = false) :
      DeliveryEffect t i (.queued f) (.deliver now fps true)
        ({ t with
          frames := t.frames.modify f (fun fb => fb.taken now)
          snapshots := Function.update t.snapshots f (some (t.frames.heap f).generation)
        }.redeliver i (.block f (t.frames.heap f).snapshot))
  | fail {f : ℕ} {now : UInt64} {fps : UInt32} (hinv : (t.frames.heap f).invalidated = false) :
      DeliveryEffect t i (.queued f) (.deliver now fps false)
        ({ t with frames := t.frames.modify f (fun fb => fb.taken now) }.redeliver i (.failed f))
  | elapse {f : ℕ} : DeliveryEffect t i (.delayed f) .elapse (t.redeliver i (.queued f))
  | abandon {f : ℕ} : DeliveryEffect t i (.failed f) .abandon (t.unschedule i f)
  | present {f : ℕ} {s : Snapshot} (hs : (t.frames.heap f).Presents s) :
      DeliveryEffect t i (.block f s) .decide
        ({ t with
          frames := t.frames.modify f Framebuffer.render
          presented := t.presented ++ [Presented.mk f s (t.frames.heap f)]
        }.redeliver i (.presenting f s true))
  | discard {f : ℕ} {s : Snapshot} (hs : ¬ (t.frames.heap f).Presents s) :
      DeliveryEffect t i (.block f s) .decide (t.redeliver i (.presenting f s false))
  | again {f : ℕ} {s : Snapshot} {present : Bool} (hinv : (t.frames.heap f).invalidated = false)
      (hgen : (t.frames.heap f).generation ≠ s.generation) :
      DeliveryEffect t i (.presenting f s present) .finish (t.redeliver i (.queued f))
  | done {f : ℕ} {s : Snapshot} {present : Bool}
      (hgen : (t.frames.heap f).invalidated = true
        ∨ (t.frames.heap f).generation = s.generation) :
      DeliveryEffect t i (.presenting f s present) .finish (t.unschedule i f)

/-- **What an action does.** -/
inductive Effect (t : Transport) : Action → Transport → Prop
  | accept {fd : Fd} (hfd : 0 ≤ fd) (hfree : ¬ t.InUse fd) :
      Effect t (.accept fd) { t with readers := t.readers ++ [.new fd] }
  | reader {c : ℕ} {r r' : Reader} {a : ReaderAction} {u : Transport}
      (hr : t.readers[c]? = some r) (e : ReaderEffect t r a u r') :
      Effect t (.reader c a) { u with readers := t.readers.set c r' }
  | delivery {i : ℕ} {d : Delivery} {a : DeliveryAction} {u : Transport}
      (hd : t.deliveries[i]? = some d) (e : DeliveryEffect t i d a u) :
      Effect t (.delivery i a) u

variable {t t' : Transport}

theorem readerEffect_of_readerStep {c : ℕ} {r : Reader} {a : ReaderAction}
    (h : t.readerStep c r a = some t') :
    ∃ u r', ReaderEffect t r a u r' ∧ t' = { u with readers := t.readers.set c r' } := by
  revert h
  fun_cases readerStep t c r a <;> intro h <;> cases h
  case case1 m hpc =>
    cases hm : juiceCheckHeader m with
    | none => exact ⟨_, _, .pass hpc hm, rfl⟩
    | some => exact ⟨_, _, .reject hpc (by simp [hm]), rfl⟩
  case case2 hpc => exact ⟨_, _, .ended hpc, rfl⟩
  case case4 m hpc hframe =>
    fun_cases dispatch t c r m
    case case1 hm => exact ⟨_, _, .hello hpc hm, rfl⟩
    case case2 hm => exact ⟨_, _, .destroy hpc hm, rfl⟩
    case case3 hhello hdestroy => exact ⟨_, _, .window hpc hframe hhello hdestroy, rfl⟩
  case case6 m hpc hm hres => exact ⟨_, _, .refuse hpc (not_ne_iff.mp hm) hres, rfl⟩
  case case7 m hpc hm pending hres => exact ⟨_, _, .reserve hpc (not_ne_iff.mp hm) hres, rfl⟩
  case case8 m data hpc hlen => exact ⟨_, _, .payload hpc hlen, rfl⟩
  case case10 m hpc => exact ⟨_, _, .truncated hpc, rfl⟩
  case case11 m data hpc =>
    cases hm : m.dirty with
    | true =>
      cases hf : t.frames.juiceApplyDirty m data with
      | none => exact ⟨_, _, .missing hpc hm hf, by simp [apply, hm, hf, handle, goto]⟩
      | some f => exact ⟨_, _, .found hpc hm hf, by simp [apply, hm, hf, goto]⟩
    | false =>
      rcases hf : t.frames.juiceApplyFull m data r.fd r.peerPID with ⟨fs, _ | f⟩
      · obtain rfl := Frames.eq_of_juiceApplyFull_none hf
        exact ⟨_, _, .exceeded hpc hm hf, by simp [apply, hm, hf, goto]⟩
      · exact ⟨_, _, .full hpc hm hf, by simp [apply, hm, hf, handle, goto]⟩
  case case12 m data f hpc =>
    by_cases hf : (t.frames.heap f).Accepts m r.fd r.peerPID
    · exact ⟨_, _, .merged hpc hf, by simp [merge, Frames.mergeDirty, hf, handle, goto]⟩
    · exact ⟨_, _, .dropped hpc hf, by simp [merge, Frames.mergeDirty, hf, handle, goto]⟩
  case case13 m f hpc =>
    exact ⟨_, _, .schedule hpc, by simp only [goto, juiceScheduleFrame_readers]⟩
  case case14 m leave hpc => exact ⟨_, _, .release hpc, rfl⟩
  case case15 hpc => exact ⟨_, _, .invalidate hpc, rfl⟩
  case case16 hpc => exact ⟨_, _, .close hpc, rfl⟩

theorem deliveryEffect_of_deliveryStep {i : ℕ} (h : t.deliveryStep i d a = some t') :
    DeliveryEffect t i d a t' := by
  revert h
  fun_cases deliveryStep t i d a <;> intro h <;> cases h
  case case1 f now fps copied =>
    fun_cases juiceDeliverFrame t i f now fps copied
    case case1 hinv => exact .stale hinv
    case case2 hinv _ => exact .delay (Bool.eq_false_of_not_eq_true hinv)
    case case3 hinv _ _ hcopied =>
      obtain rfl := hcopied
      exact .copy (Bool.eq_false_of_not_eq_true hinv)
    case case4 hinv _ _ hcopied =>
      obtain rfl := Bool.eq_false_of_not_eq_true hcopied
      exact .fail (Bool.eq_false_of_not_eq_true hinv)
  case case2 => exact .elapse
  case case3 => exact .abandon
  case case4 hs => exact .present hs
  case case5 hs => exact .discard hs
  case case6 hinv => exact .done (.inl hinv)
  case case7 hinv hgen => exact .again (Bool.eq_false_of_not_eq_true hinv) hgen
  case case8 hinv hgen => exact .done (.inr (not_ne_iff.mp hgen))

/-- **Inversion of a step.** -/
theorem effect_of_step {a : Action} (h : t.step a = some t') : Effect t a t' := by
  revert h
  fun_cases step t a <;> intro h
  case case1 => cases h
  case case2 fd hfd =>
    cases h
    obtain ⟨hpos, hfree⟩ := not_or.mp hfd
    exact .accept (not_lt.mp hpos) hfree
  case case3 c a =>
    obtain ⟨r, hr, hstep⟩ := Option.bind_eq_some_iff.mp h
    obtain ⟨u, r', e, rfl⟩ := readerEffect_of_readerStep hstep
    exact .reader hr e
  case case4 i a =>
    obtain ⟨d, hd, hstep⟩ := Option.bind_eq_some_iff.mp h
    exact .delivery hd (deliveryEffect_of_deliveryStep hstep)

/-! ## What a step leaves alone -/

/-- Scheduling a frame leaves its content. -/
theorem sameContent_juiceScheduleFrame (t : Transport) (f : ℕ) (first : Bool) :
    t.frames.SameContent (t.juiceScheduleFrame f first).frames := by
  unfold juiceScheduleFrame
  split
  · exact .refl _
  · exact Frames.sameContent_modify _ f (Framebuffer.content_schedule first)

/-- **A delivery leaves the content of the frames, the readers and the
counter.** -/
theorem DeliveryEffect.frame {i : ℕ} (h : DeliveryEffect t i d a t') :
    t.frames.SameContent t'.frames ∧ t'.readers = t.readers ∧ t'.pending = t.pending := by
  cases h with
  | stale => exact ⟨Frames.sameContent_modify _ _ Framebuffer.content_unschedule, rfl, rfl⟩
  | delay => exact ⟨.refl _, rfl, rfl⟩
  | copy => exact ⟨Frames.sameContent_modify _ _ (Framebuffer.content_taken _), rfl, rfl⟩
  | fail => exact ⟨Frames.sameContent_modify _ _ (Framebuffer.content_taken _), rfl, rfl⟩
  | elapse => exact ⟨.refl _, rfl, rfl⟩
  | abandon => exact ⟨Frames.sameContent_modify _ _ Framebuffer.content_unschedule, rfl, rfl⟩
  | present => exact ⟨Frames.sameContent_modify _ _ Framebuffer.content_render, rfl, rfl⟩
  | discard => exact ⟨.refl _, rfl, rfl⟩
  | again => exact ⟨.refl _, rfl, rfl⟩
  | done => exact ⟨Frames.sameContent_modify _ _ Framebuffer.content_unschedule, rfl, rfl⟩

/-- A delivery changes into one of the same frame, or is over. -/
theorem DeliveryEffect.deliveries {i : ℕ} (h : DeliveryEffect t i d a t') :
    (∃ d', t'.deliveries = t.deliveries.set i d' ∧ d'.frame = d.frame)
      ∨ t'.deliveries = t.deliveries.eraseIdx i := by
  cases h with
  | stale => exact .inr rfl
  | delay => exact .inl ⟨_, rfl, rfl⟩
  | copy => exact .inl ⟨_, rfl, rfl⟩
  | fail => exact .inl ⟨_, rfl, rfl⟩
  | elapse => exact .inl ⟨_, rfl, rfl⟩
  | abandon => exact .inr rfl
  | present => exact .inl ⟨_, rfl, rfl⟩
  | discard => exact .inl ⟨_, rfl, rfl⟩
  | again => exact .inl ⟨_, rfl, rfl⟩
  | done => exact .inr rfl

end Transport

end Juice
