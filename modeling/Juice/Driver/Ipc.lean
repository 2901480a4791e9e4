import Juice.Display.HostGeometry
import Juice.Driver.Transfer

/-!
# The driver's side of the connection

`ipc.c` keeps one connection to the host for the whole process, opens it
again whenever something is to be sent and there is none, and numbers the
connections: `ipc_generation`. Everything here happens under `ipc_lock`.

A frame can be sent whole, or as the rectangle that changed. The second
is of use only to a host that has a first frame to merge it into, and a
host forgets its frames with the connection, so the driver remembers for
each window in which generation it last sent it a frame. That memory,
`surface_generations`, is all it knows of what the host holds.

The descriptor is modelled by the connection it names, connections being
numbered in the order `connect` made them, and the state keeps what was
written on each. The records of a `Wire` are for the proofs: the complete
records among its bytes, with the picture each frame was made from.
-/

namespace Juice

open Option ByteSeq JuiceMsg

/-- `RECT`. -/
structure Rect where
  left : Int32
  top : Int32
  right : Int32
  bottom : Int32
  deriving DecidableEq, Repr

/-- Which part of the driver made a picture: the GDI surface of a window, or
the readback of a Metal drawable. -/
inductive Producer where
  | gdi
  | readback
  deriving DecidableEq, Repr

/-- **A picture** handed to `ios_ipc_present`: `bits`, `width`, `height` and
`stride`. -/
structure Picture where
  bits : List UInt8
  width : UInt32
  height : UInt32
  stride : UInt32
  producer : Producer
  deriving DecidableEq, Repr

/-- A record on the wire. -/
structure Record where
  msg : JuiceMsg
  payload : List UInt8
  /-- The picture a frame was made from. -/
  shown : Option Picture
  deriving DecidableEq, Repr

/-- The bytes of a record. -/
def Record.bytes (r : Record) : List UInt8 := r.msg.encode ++ r.payload

/-- What was written on a connection. -/
structure Wire where
  bytes : List UInt8
  records : List Record
  deriving DecidableEq, Repr

/-- **The state `ipc_lock` protects.** -/
structure Ipc where
  /-- `ipc_fd`: the connection it names, `none` for `-1`. -/
  fd : Option ℕ
  /-- `ipc_generation`. -/
  generation : UInt32
  /-- `surface_generations`. -/
  surfaces : List (UInt64 × UInt32)
  /-- `ipc_path`, up to its terminator. -/
  path : List UInt8
  /-- `ipc_width`, `ipc_height` and `ipc_dpi`. -/
  width : UInt32
  height : UInt32
  dpi : UInt32
  /-- `getpid()`. -/
  pid : UInt32
  /-- The connections made so far. -/
  wires : List Wire
  deriving DecidableEq, Repr

/-- What the system calls of one locked section return. -/
structure Io where
  /-- `socket` and `connect` succeed. -/
  connects : Bool
  /-- What the calls of `write` and `writev` return, in order. -/
  results : List IoResult
  /-- `malloc` succeeds. -/
  alloc : Bool
  deriving DecidableEq, Repr

namespace Ipc

variable {ipc : Ipc} {hwnd h' : UInt64} {g : UInt32} {l l' : List (UInt64 × UInt32)}

/-! ## The baselines -/

/-- `surface_has_baseline_locked`. -/
def surfaceHasBaseline (ipc : Ipc) (hwnd : UInt64) : Bool :=
  ipc.surfaces.lookup hwnd = some ipc.generation

/-- The loop of `mark_surface_baseline_locked` over the entries, `none` where
it finds none for the window. -/
def remark (hwnd : UInt64) (generation : UInt32) :
    List (UInt64 × UInt32) → Option (List (UInt64 × UInt32))
  | [] => none
  | entry :: rest =>
    if entry.1 = hwnd then some ((hwnd, generation) :: rest)
    else (remark hwnd generation rest).map (entry :: ·)

/-- `mark_surface_baseline_locked`. -/
def markSurfaceBaseline (hwnd : UInt64) (alloc : Bool) (ipc : Ipc) : Ipc :=
  match remark hwnd ipc.generation ipc.surfaces with
  | some surfaces => { ipc with surfaces }
  | none => if alloc then { ipc with surfaces := (hwnd, ipc.generation) :: ipc.surfaces } else ipc

/-- `forget_surface_locked`. -/
def forgetSurface (hwnd : UInt64) (ipc : Ipc) : Ipc :=
  { ipc with surfaces := ipc.surfaces.eraseP (fun entry => entry.1 = hwnd) }

/-! ## Connecting and sending -/

/-- `disconnect_ipc_locked`. -/
def disconnect (ipc : Ipc) : Ipc := { ipc with fd := none }

/-- The `HELLO` record of `connect_ipc_locked`. -/
def hello (ipc : Ipc) : JuiceMsg :=
  { magic := MAGIC, type := HELLO, size := 0, hwnd := 0, x := 0, y := 0,
    width := ipc.width.toInt32, height := ipc.height.toInt32, stride := ipc.dpi,
    flags := ipc.pid }

/-- The number of the next connection: `if(++ipc_generation==0) ++ipc_generation`. -/
def nextGeneration (ipc : Ipc) : UInt32 :=
  if ipc.generation + 1 = 0 then ipc.generation + 1 + 1 else ipc.generation + 1

/-- `connect_ipc_locked`: the state it leaves, in which `ipc_fd` says what it
returned, and the results it did not use. -/
def connectIpc (io : Io) (ipc : Ipc) : Option (Ipc × List IoResult) :=
  if ipc.fd.isSome ∨ ipc.path = [] ∨ !io.connects then some (ipc, io.results)
  else (writeAll io.results ipc.hello.encode).map (fun t =>
    let records := if t.ok then [⟨ipc.hello, [], none⟩] else []
    let ipc := { ipc with wires := ipc.wires ++ [⟨t.sent, records⟩] }
    if t.ok then
      ({ ipc with fd := some (ipc.wires.length - 1), generation := ipc.nextGeneration }, t.rest)
    else (ipc, t.rest))

/-- Bytes written on a connection, and the record they complete if all of
them went out. -/
def transmit (c : ℕ) (r : Record) (t : Transfer) (ipc : Ipc) : Ipc :=
  { ipc with wires := ipc.wires.modify c (fun w =>
      ⟨w.bytes ++ t.sent, if t.ok then w.records ++ [r] else w.records⟩) }

/-- The header `send_msg` builds. The differences are taken in 32 bits. -/
def msgHeader (type : UInt32) (hwnd : UInt64) (rect : Option Rect) (size stride flags : UInt32) :
    JuiceMsg :=
  let m : JuiceMsg :=
    { magic := MAGIC, type, size, hwnd, x := 0, y := 0, width := 0, height := 0, stride, flags }
  match rect with
  | none => m
  | some r => { m with x := r.left, y := r.top, width := r.right - r.left,
                       height := r.bottom - r.top }

/-- Write a record on the connection, and drop the connection if that fails:
what is on the wire then is not a whole number of records. `mark` is what
the caller does with the state on success. -/
def attempt (write : List IoResult → Option Transfer) (r : Record) (mark : Ipc → Ipc) (c : ℕ)
    (p : Ipc × List IoResult) : Option Ipc :=
  (write p.2).map (fun t =>
    let ipc := p.1.transmit c r t
    if t.ok then mark ipc else ipc.disconnect)

/-- The locked section of `send_msg`. -/
def sendMsg (type : UInt32) (hwnd : UInt64) (rect : Option Rect) (payload : List UInt8)
    (stride flags : UInt32) (io : Io) (ipc : Ipc) : Option Ipc :=
  let msg := msgHeader type hwnd rect (UInt32.ofNat payload.length) stride flags
  (connectIpc io ipc).bind (fun p =>
    match p.1.fd with
    | none => some p.1
    | some c => attempt (fun results => (writeAll results msg.encode).bind
        (fun t => t.andThen (fun rest => writeAll rest payload))) ⟨msg, payload, none⟩ id c p)

/-- The flags of `ios_ipc_window`: its `visible` argument. -/
def visibleFlag (visible : Bool) : UInt32 := if visible then 1 else 0

/-- `ios_ipc_window`. -/
def window (hwnd : UInt64) (rect : Option Rect) (visible : Bool) : Io → Ipc → Option Ipc :=
  sendMsg WINDOW hwnd rect [] 0 (visibleFlag visible)

/-- The first locked section of `ios_ipc_destroy`; the second is
`forgetSurface`. -/
def destroy (hwnd : UInt64) : Io → Ipc → Option Ipc := sendMsg DESTROY hwnd none [] 0 0

/-- `sizeof(ipc_path)`. -/
def pathSize : ℕ := 104

/-- `ios_ipc_init`, given the value of `JUICE_IOS_SOCKET`. -/
def init (path : Option (List UInt8)) (width height dpi : UInt32) (io : Io) (ipc : Ipc) :
    Option Ipc :=
  match path with
  | none => some ipc
  | some path =>
    if path = [] ∨ path.length ≥ pathSize then some ipc
    else (connectIpc io { ipc with path, width, height, dpi }).map Prod.fst

/-- `disconnect_ipc_fd`: the input reader drops the connection it read from,
unless another one has taken its place. -/
def disconnectFd (c : ℕ) (generation : UInt32) (ipc : Ipc) : Ipc :=
  if ipc.fd = some c ∧ ipc.generation = generation then ipc.disconnect else ipc

/-! ## What a locked section does -/

/-- **What `connect_ipc_locked` does**: nothing, or a connection whose
`HELLO` did not go out, or the next connection. -/
theorem connectIpc_cases {io : Io} {ipc' : Ipc} {rest : List IoResult}
    (h : connectIpc io ipc = some (ipc', rest)) :
    ipc' = ipc
    ∨ (ipc.fd = none ∧ ∃ sent, sent <+: ipc.hello.encode ∧ sent ≠ ipc.hello.encode
        ∧ ipc' = { ipc with wires := ipc.wires ++ [⟨sent, []⟩] })
    ∨ (ipc.fd = none ∧ ipc' = { ipc with
        fd := some ipc.wires.length, generation := ipc.nextGeneration,
        wires := ipc.wires ++ [⟨ipc.hello.encode, [⟨ipc.hello, [], none⟩]⟩] }) := by
  unfold connectIpc at h
  split at h
  · cases h
    exact .inl rfl
  · rename_i hguard
    have hfd : ipc.fd = none := by
      simp only [not_or, Bool.not_eq_true, isSome_eq_false_iff] at hguard
      exact isNone_iff_eq_none.mp hguard.1
    rw [map_eq_some_iff] at h
    obtain ⟨t, ht, heq⟩ := h
    have hof := writeAll_of ht
    by_cases hok : t.ok = true
    · simp only [hok, if_true, Prod.mk.injEq, hof.of_ok hok] at heq
      refine .inr (.inr ⟨hfd, ?_⟩)
      rw [← heq.1]
      simp [nextGeneration]
    · simp only [hok, if_false, Prod.mk.injEq, Bool.false_eq_true] at heq
      exact .inr (.inl ⟨hfd, t.sent, hof.sent_isPrefix, fun he => hok (hof.ok_iff.mpr he),
        heq.1.symm⟩)

/-- **What sending a record does**: it goes out whole, or the connection is
dropped. -/
theorem attempt_cases {write : List IoResult → Option Transfer} {r : Record} {mark : Ipc → Ipc}
    {c : ℕ} {p : Ipc × List IoResult} {ipc' : Ipc}
    (hwrite : ∀ s t, write s = some t → Transfer.Of r.bytes t)
    (h : attempt write r mark c p = some ipc') :
    ∃ t, Transfer.Of r.bytes t
      ∧ ((t.ok = true ∧ ipc' = mark (p.1.transmit c r t))
        ∨ (t.ok = false ∧ ipc' = (p.1.transmit c r t).disconnect)) := by
  unfold attempt at h
  rw [map_eq_some_iff] at h
  obtain ⟨t, ht, heq⟩ := h
  refine ⟨t, hwrite _ t ht, ?_⟩
  by_cases hok : t.ok = true
  · simp only [hok, if_true] at heq
    exact .inl ⟨hok, heq.symm⟩
  · simp only [hok, if_false, Bool.false_eq_true] at heq
    exact .inr ⟨by simpa using hok, heq.symm⟩

/-- The writes of a header and its payload are a transfer of the record. -/
theorem write_record_of {m : JuiceMsg} {payload : List UInt8} {shown : Option Picture}
    {second : List IoResult → Option Transfer}
    (hsecond : ∀ s v, second s = some v → Transfer.Of payload v) (s : List IoResult) (t : Transfer)
    (h : ((writeAll s m.encode).bind (fun t => t.andThen second)) = some t) :
    Transfer.Of (Record.bytes ⟨m, payload, shown⟩) t := by
  rw [bind_eq_some_iff] at h
  obtain ⟨u, hu, ht⟩ := h
  exact (writeAll_of hu).andThen hsecond ht

/-! ## The memory of the baselines -/

/-- The entries of `surface_generations` are for different windows. -/
def Distinct (ipc : Ipc) : Prop := (ipc.surfaces.map Prod.fst).Nodup

theorem map_fst_remark (h : remark hwnd g l = some l') : l'.map Prod.fst = l.map Prod.fst := by
  induction l generalizing l' with
  | nil => cases h
  | cons e l ih =>
    unfold remark at h
    split at h
    · rename_i he
      cases h
      simp [he]
    · rw [map_eq_some_iff] at h
      obtain ⟨l'', hl, rfl⟩ := h
      simp [ih hl]

theorem not_mem_of_remark_none (h : remark hwnd g l = none) : hwnd ∉ l.map Prod.fst := by
  induction l with
  | nil => simp
  | cons e l ih =>
    unfold remark at h
    split at h
    · cases h
    · rename_i he
      rw [map_eq_none_iff] at h
      rw [List.map_cons, List.mem_cons, not_or]
      exact ⟨fun heq => he heq.symm, ih h⟩

theorem lookup_cons_of_ne {k : UInt64} {v : UInt32} (h : h' ≠ k) :
    ((k, v) :: l).lookup h' = l.lookup h' := by
  rw [List.lookup_cons, beq_eq_false_iff_ne.mpr h]

theorem lookup_remark (h : remark hwnd g l = some l') (hne : h' ≠ hwnd) :
    l'.lookup h' = l.lookup h' := by
  induction l generalizing l' with
  | nil => cases h
  | cons e l ih =>
    obtain ⟨k, v⟩ := e
    unfold remark at h
    split at h
    · rename_i he
      cases h
      subst he
      rw [lookup_cons_of_ne hne, lookup_cons_of_ne hne]
    · rw [map_eq_some_iff] at h
      obtain ⟨l'', hl, rfl⟩ := h
      simp only [List.lookup_cons, ih hl]

theorem mem_remark (h : remark hwnd g l = some l') {e : UInt64 × UInt32} (he : e ∈ l') :
    e ∈ l ∨ e.2 = g := by
  induction l generalizing l' with
  | nil => cases h
  | cons a l ih =>
    unfold remark at h
    split at h
    · cases h
      rcases List.mem_cons.mp he with rfl | he
      · exact .inr rfl
      · exact .inl (List.mem_cons_of_mem _ he)
    · rw [map_eq_some_iff] at h
      obtain ⟨l'', hl, rfl⟩ := h
      rcases List.mem_cons.mp he with rfl | he
      · exact .inl List.mem_cons_self
      · exact (ih hl he).imp_left (List.mem_cons_of_mem _)

theorem Distinct.mark (h : ipc.Distinct) (hwnd : UInt64) (alloc : Bool) :
    (ipc.markSurfaceBaseline hwnd alloc).Distinct := by
  unfold Distinct markSurfaceBaseline at *
  split
  · rename_i l hl
    rw [map_fst_remark hl]
    exact h
  · rename_i hl
    split
    · exact List.nodup_cons.mpr ⟨not_mem_of_remark_none hl, h⟩
    · exact h

/-- Marking a window gives no other window a baseline. -/
theorem baseline_of_mark {alloc : Bool} (hne : h' ≠ hwnd)
    (h : (ipc.markSurfaceBaseline hwnd alloc).surfaceHasBaseline h' = true) :
    ipc.surfaceHasBaseline h' = true := by
  unfold markSurfaceBaseline at h
  split at h
  · rename_i l hl
    simpa only [surfaceHasBaseline, lookup_remark hl hne] using h
  · split at h
    · simpa only [surfaceHasBaseline, lookup_cons_of_ne hne] using h
    · exact h

theorem Distinct.forget (h : ipc.Distinct) (hwnd : UInt64) : (ipc.forgetSurface hwnd).Distinct :=
  h.sublist (List.Sublist.map _ List.eraseP_sublist)

/-- A forgotten window has no baseline, and forgetting it gives none. -/
theorem baseline_of_forget (hd : ipc.Distinct)
    (h : (ipc.forgetSurface hwnd).surfaceHasBaseline h' = true) :
    h' ≠ hwnd ∧ ipc.surfaceHasBaseline h' = true := by
  unfold surfaceHasBaseline forgetSurface Distinct at *
  dsimp only at h
  generalize ipc.surfaces = l at h hd
  generalize ipc.generation = g at h
  induction l with
  | nil => simp at h
  | cons e l ih =>
    obtain ⟨k, v⟩ := e
    rw [List.map_cons, List.nodup_cons] at hd
    by_cases hk : k = hwnd
    · subst hk
      rw [List.eraseP_cons_of_pos (by simp)] at h
      have hne : h' ≠ k := by
        rintro rfl
        obtain ⟨l₁, l₂, rfl, -⟩ := List.lookup_eq_some_iff.mp (of_decide_eq_true h)
        exact hd.1 (by simp)
      exact ⟨hne, by rw [lookup_cons_of_ne hne]; exact h⟩
    · rw [List.eraseP_cons_of_neg (by simpa using hk)] at h
      by_cases hkh : h' = k
      · subst hkh
        exact ⟨hk, by simpa [List.lookup_cons] using h⟩
      · rw [lookup_cons_of_ne hkh] at h ⊢
        exact ih hd.2 h

end Ipc

end Juice
