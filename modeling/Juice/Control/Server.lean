import Juice.Control.Message
import Juice.Lib.Machine

/-!
# The host's side of an import

The host accepts connections on the control socket and reads one message
from each of them, every connection in a block of its own. A request for
an import takes a slot, if it is free, and the main thread then presents a
document picker; if it is not free, the request is refused. What the picker
calls back, a file or that it was cancelled, is the response to the request
in the slot.

The slot has a descriptor, which is a number. Who has a number has the
connection that the table of descriptors has for it, and the number is free
for another connection once it is closed. `JuiceControlResponse` duplicates
the descriptor for a writer, closes it, and leaves the duplicate to the
writer, which closes it when it is done.

Every access to the slot is under one lock, and so is one step here. The
other steps are what a thread does between two accesses to something that it
shares with others. The main thread is not kept from going on while it
responds, which allows more than it does. What the clients write, what the
calls of the system return and what the picker calls back is part of the
actions.

`received`, `admitted`, `finished` and `answers` of a connection are for the
proofs, as is the connection that is noted with a task.
-/

namespace Juice.Control

/-! ## States -/

/-- **A connection** to the control socket. -/
structure Connection where
  /-- What the client has written. -/
  inbound : List UInt8
  /-- What the host has written. -/
  outbound : List UInt8
  accepted : Bool
  /-- The message that the host has read. -/
  received : Option Message
  /-- The request has been given the slot. -/
  admitted : Bool
  /-- The slot has been taken from the request. -/
  finished : Bool
  /-- The responses that were begun. -/
  answers : List Message

/-- A connection before it is made. -/
def Connection.new (bytes : List UInt8) : Connection := ⟨bytes, [], false, none, false, false, []⟩

/-- **A block at work**, for a connection. -/
inductive Task where
  /-- `JuiceReadControl` waits for the message. -/
  | read (fd : ℕ)
  /-- `JuiceControlResponse` is called. -/
  | respond (fd : ℕ) (message : Message)
  /-- It has a writer, or none. -/
  | close (fd : ℕ) (writer : Option ℕ) (message : Message)
  /-- It has closed the descriptor. -/
  | enqueue (writer : ℕ) (message : Message)
  /-- The writer has this much to write. -/
  | write (writer : ℕ) (rest : List UInt8)
  /-- The writer is let go. -/
  | release (writer : ℕ)

/-- The descriptors of a task. -/
def Task.fds : Task → List ℕ
  | .read fd => [fd]
  | .respond fd _ => [fd]
  | .close fd writer _ => fd :: writer.toList
  | .enqueue writer _ => [writer]
  | .write writer _ => [writer]
  | .release writer => [writer]

/-- **The state of the host.** -/
structure Server where
  /-- The connections of the descriptors. -/
  table : ℕ → Option ℕ
  conns : ℕ → Connection
  /-- How many connections there are. -/
  count : ℕ
  tasks : List (ℕ × Task)
  controlPickerFD : Option ℕ
  controlRequestID : UInt32
  controlFilters : UInt32
  controlPicker : Option ℕ
  /-- How many pickers there were. -/
  pickers : ℕ
  /-- Calls of `presentControlPicker` on the main queue. -/
  presents : ℕ

namespace Server

/-- A change of one connection. -/
def onConn (s : Server) (c : ℕ) (f : Connection → Connection) : Server :=
  { s with conns := Function.update s.conns c (f (s.conns c)) }

/-- A change of one descriptor. -/
def setFd (s : Server) (fd : ℕ) (c : Option ℕ) : Server :=
  { s with table := Function.update s.table fd c }

/-- A task moves on. -/
def setTask (s : Server) (i c : ℕ) (task : Task) : Server :=
  { s with tasks := s.tasks.set i (c, task) }

/-- A task is done. -/
def dropTask (s : Server) (i : ℕ) : Server := { s with tasks := s.tasks.eraseIdx i }

end Server

/-! ## Steps -/

/-- The response to a request that is refused. -/
def busy (unfit : List Char → List UInt8) (request : Message) : Message :=
  importResponse unfit request.requestId JUICE_CONTROL_STATUS_ERROR []
    "Another Juice import request is already active.".toList

/-- `JuiceReadControl` has not received a message. -/
def readFailed (s : Server) (i : ℕ) : Option Server :=
  match s.tasks[i]? with
  | some (_, .read fd) => some ((s.setFd fd none).dropTask i)
  | _ => none

/-- **`JuiceReadControl`** has received a message. Every message but a request
for an import ends with the connection closed. -/
def juiceReadControl (unfit : List Char → List UInt8) (s : Server) (i : ℕ) : Option Server :=
  match s.tasks[i]? with
  | some (c, .read fd) =>
    match s.table fd with
    | none => none
    | some k =>
      if (s.conns k).inbound.length < messageSize then none
      else
        let m := Message.of ((s.conns k).inbound.take messageSize)
        let s' := s.onConn k (fun conn => { conn with received := some m })
        if ¬ validMessage m JUICE_CONTROL_IMPORT_REQUEST then some ((s'.setFd fd none).dropTask i)
        else if s.controlPickerFD.isSome then some (s'.setTask i c (.respond fd (busy unfit m)))
        else
          let s' := s'.onConn k (fun conn => { conn with admitted := true })
          some { s'.dropTask i with
            controlPickerFD := some fd
            controlRequestID := m.requestId
            controlFilters := m.flags
            presents := s.presents + 1 }
  | _ => none

/-- `initWithFD:socket:limit:failure:` of the writer for a response. -/
def initWriter (s : Server) (i : ℕ) (writer : Option ℕ) : Option Server :=
  match s.tasks[i]? with
  | some (c, .respond fd m) =>
    match s.table fd with
    | none => none
    | some k =>
      let s' := s.onConn k (fun conn => { conn with answers := conn.answers ++ [m] })
      match writer with
      | none => some (s'.setTask i c (.close fd none m))
      | some w =>
        if s.table w = none then some ((s'.setFd w (some k)).setTask i c (.close fd (some w) m))
        else none
  | _ => none

/-- `close` of the descriptor in `JuiceControlResponse`. -/
def closeFd (s : Server) (i : ℕ) : Option Server :=
  match s.tasks[i]? with
  | some (c, .close fd (some w) m) => some ((s.setFd fd none).setTask i c (.enqueue w m))
  | some (_, .close fd none _) => some ((s.setFd fd none).dropTask i)
  | _ => none

/-- `enqueueData:` for the response. -/
def enqueueData (s : Server) (i : ℕ) (accepts : Bool) : Option Server :=
  match s.tasks[i]? with
  | some (c, .enqueue w m) =>
    some (s.setTask i c (if accepts then .write w m.wire else .release w))
  | _ => none

/-- A `send` of the writer; after one that fails there is no other. -/
def sendSome (s : Server) (i : ℕ) (sent : Option ℕ) : Option Server :=
  match s.tasks[i]? with
  | some (c, .write w rest) =>
    match sent, s.table w with
    | none, _ => some (s.setTask i c (.release w))
    | some _, none => none
    | some n, some k =>
      if 0 < n ∧ n ≤ rest.length then
        let s' := s.onConn k (fun conn => { conn with outbound := conn.outbound ++ rest.take n })
        some (s'.setTask i c (if rest.drop n = [] then .release w else .write w (rest.drop n)))
      else none
  | _ => none

/-- `dealloc` of the writer. -/
def releaseWriter (s : Server) (i : ℕ) : Option Server :=
  match s.tasks[i]? with
  | some (_, .release w) => some ((s.setFd w none).dropTask i)
  | _ => none

/-- **`finishControlImport:path:detail:`.** -/
def finishControlImport (unfit : List Char → List UInt8) (s : Server) (status : UInt32)
    (path detail : List Char) : Server :=
  let s' := { s with
    controlPickerFD := none
    controlRequestID := 0
    controlFilters := 0
    controlPicker := none }
  match s.controlPickerFD with
  | none => s'
  | some fd =>
    let k := (s.table fd).getD 0
    let m := importResponse unfit s.controlRequestID status path detail
    { s'.onConn k (fun conn => { conn with finished := true }) with
      tasks := s.tasks ++ [(k, .respond fd m)] }

/-- `presentControlPicker`. -/
def presentControlPicker (s : Server) : Option Server :=
  match s.presents with
  | 0 => none
  | n + 1 =>
    if s.controlPickerFD.isSome then
      some { s with presents := n, controlPicker := some s.pickers, pickers := s.pickers + 1 }
    else some { s with presents := n }

/-- How the copy of a file ends. -/
inductive Copied where
  | failed (description : Option (List Char))
  | done (destination : List Char)

/-- A file that was picked. -/
structure Picked where
  extension : List Char
  copied : Copied

/-- What `documentPicker:didPickDocumentsAtURLs:` says of a file. -/
def pickedResult (file : Picked) : UInt32 × List Char × List Char :=
  if ["msi".toList, "exe".toList, "zip".toList].contains file.extension = false then
    (JUICE_CONTROL_STATUS_ERROR, [],
      "Juice accepts .msi, .exe, and .zip files for installation.".toList)
  else match file.copied with
    | .failed description => (JUICE_CONTROL_STATUS_ERROR, [],
        description.getD "The selected file could not be copied.".toList)
    | .done destination => (JUICE_CONTROL_STATUS_COMPLETE,
        "Z:".toList ++ destination.map (fun c => if c = '/' then '\\' else c), "Imported.".toList)

/-- `documentPicker:didPickDocumentsAtURLs:`, of a picker for an import or of
another. -/
def didPickDocuments (unfit : List Char → List UInt8) (s : Server) (picker : ℕ)
    (file : Option Picked) : Server :=
  match file with
  | none => s
  | some file =>
    if s.controlPicker = some picker then
      finishControlImport unfit s (pickedResult file).1 (pickedResult file).2.1
        (pickedResult file).2.2
    else s

/-- `documentPickerWasCancelled:`. -/
def pickerWasCancelled (unfit : List Char → List UInt8) (s : Server) (picker : ℕ) : Server :=
  if s.controlPicker = some picker then
    finishControlImport unfit s JUICE_CONTROL_STATUS_CANCELLED []
      "The file picker was cancelled.".toList
  else s

/-- What can happen. -/
inductive ServerAction where
  /-- A client connects and writes. -/
  | connect (bytes : List UInt8)
  /-- A client writes more. -/
  | more (c : ℕ) (bytes : List UInt8)
  | accept (c fd : ℕ)
  | readFailed (i : ℕ)
  | read (i : ℕ)
  | initWriter (i : ℕ) (writer : Option ℕ)
  | close (i : ℕ)
  | enqueue (i : ℕ) (accepts : Bool)
  | send (i : ℕ) (sent : Option ℕ)
  | release (i : ℕ)
  | present
  | picked (picker : ℕ) (file : Option Picked)
  | cancelled (picker : ℕ)

/-- A client connects and writes. -/
def Server.connect (s : Server) (bytes : List UInt8) : Server :=
  { s with conns := Function.update s.conns s.count (.new bytes), count := s.count + 1 }

/-- `accept` returns, and a block is begun for the connection. -/
def acceptControl (s : Server) (c fd : ℕ) : Option Server :=
  if c < s.count ∧ (s.conns c).accepted = false ∧ s.table fd = none then
    some { (s.onConn c (fun conn => { conn with accepted := true })).setFd fd (some c) with
      tasks := s.tasks ++ [(c, .read fd)] }
  else none

/-- A step of the host. -/
def serverStep (unfit : List Char → List UInt8) (s : Server) : ServerAction → Option Server
  | .connect bytes => some (s.connect bytes)
  | .more c bytes =>
    if c < s.count then
      some (s.onConn c (fun conn => { conn with inbound := conn.inbound ++ bytes }))
    else none
  | .accept c fd => acceptControl s c fd
  | .readFailed i => readFailed s i
  | .read i => juiceReadControl unfit s i
  | .initWriter i writer => initWriter s i writer
  | .close i => closeFd s i
  | .enqueue i accepts => enqueueData s i accepts
  | .send i sent => sendSome s i sent
  | .release i => releaseWriter s i
  | .present => presentControlPicker s
  | .picked picker file => some (didPickDocuments unfit s picker file)
  | .cancelled picker => some (pickerWasCancelled unfit s picker)

/-- The host before it has started to listen. -/
def Server.start : Server :=
  ⟨fun _ => none, fun _ => .new [], 0, [], none, 0, 0, none, 0, 0⟩

/-- **The host**, on a platform that leaves `unfit` in a buffer that is too
small. -/
def server (unfit : List Char → List UInt8) : Machine Server ServerAction where
  start := .start
  step := serverStep unfit

end Juice.Control
