import Juice.Driver.Surface
import Juice.Lib.Slots

/-!
# What is on the wires

The invariants of `ipc.c` alone, whatever the surfaces are. The bytes of a
connection are whole records, and after them at most the beginning of one
whose transfer failed; the connection in use is the last one made, and
holds whole records only; the generation counts the connections, so that
an entry of `surface_generations` that carries the current generation was
made on the current connection. The last holds as long as the counter has
not wrapped.
-/

namespace Juice

open JuiceMsg

/-- A record as the host sees it. -/
def Record.content (r : Record) : Content := (r.msg, r.payload)

/-- A record whose payload is as long as its header says. -/
def Record.Whole (r : Record) : Prop := r.payload.length = r.msg.size.toNat

/-- The stream of records of a wire. -/
def Wire.stream (w : Wire) : List Content := w.records.map Record.content

/-- A record added to a wire, with its bytes. -/
def Wire.push (w : Wire) (r : Record) : Wire := ⟨w.bytes ++ r.bytes, w.records ++ [r]⟩

/-- **What a connection carries**: a `HELLO` of the process, other records,
and at most the beginning of one more. -/
structure Wire.Ok (pid : UInt32) (w : Wire) : Prop where
  whole : ∀ r ∈ w.records, r.Whole
  hello : ∀ r rest, w.records = r :: rest
    → (r.msg.type = HELLO ∧ r.msg.flags = pid) ∧ ∀ r' ∈ rest, r'.msg.type ≠ HELLO
  bytes : ∃ tail, w.bytes = w.records.flatMap Record.bytes ++ tail
    ∧ (tail = [] ∨ ∃ r : Record, r.Whole ∧ tail <+: r.bytes ∧ tail ≠ r.bytes)

/-- A wire whose bytes are its records. -/
def Wire.Complete (w : Wire) : Prop :=
  w.records ≠ [] ∧ w.bytes = w.records.flatMap Record.bytes

section Wires

variable {pid : UInt32} {w : Wire} {r : Record}

theorem Wire.Complete.push (h : w.Complete) (r : Record) : (w.push r).Complete := by
  refine ⟨by simp [Wire.push], ?_⟩
  simp [Wire.push, h.2]

/-- A record of a kind other than `HELLO` continues a stream. -/
theorem Wire.Ok.push (hw : w.Ok pid) (hc : w.Complete) (hr : r.Whole) (ht : r.msg.type ≠ HELLO) :
    (w.push r).Ok pid where
  whole := Slots.forall_mem_concat hw.whole hr
  hello := by
    intro f rest hrest
    obtain ⟨g, l, hl⟩ := List.exists_cons_of_ne_nil hc.1
    rw [Wire.push, hl, List.cons_append, List.cons.injEq] at hrest
    obtain ⟨rfl, rfl⟩ := hrest
    obtain ⟨h₁, h₂⟩ := hw.hello g l hl
    exact ⟨h₁, Slots.forall_mem_concat h₂ ht⟩
  bytes := ⟨[], by rw [List.append_nil]; exact (hc.push r).2, .inl rfl⟩

/-- The beginning of a record leaves a wire that can only be abandoned. -/
theorem Wire.Ok.tear (hw : w.Ok pid) (hc : w.Complete) (hr : r.Whole) {sent : List UInt8}
    (hp : sent <+: r.bytes) (hne : sent ≠ r.bytes) : Wire.Ok pid ⟨w.bytes ++ sent, w.records⟩ where
  whole := hw.whole
  hello := hw.hello
  bytes := ⟨sent, by rw [hc.2], .inr ⟨r, hr, hp, hne⟩⟩

end Wires

namespace Ipc

/-- How many connections were made: those whose `HELLO` went out. -/
def connects (ipc : Ipc) : ℕ := ipc.wires.countP (fun w => w.records ≠ [])

/-- **The invariants of the connection.** -/
structure Ok (ipc : Ipc) : Prop where
  distinct : ipc.Distinct
  wire : ∀ w ∈ ipc.wires, w.Ok ipc.pid
  /-- The connection in use is the last one, and it is in order. -/
  current : ∀ c, ipc.fd = some c → ∃ l w, ipc.wires = l ++ [w] ∧ l.length = c ∧ w.Complete
  /-- The generation counts the connections, and no entry is ahead of it. -/
  counts : ipc.connects < 2 ^ 32 → ipc.generation.toNat = ipc.connects
    ∧ ∀ e ∈ ipc.surfaces, e.2.toNat ≤ ipc.connects

variable {ipc ipc' : Ipc} {io : Io} {rest : List IoResult}

theorem hello_whole (ipc : Ipc) : Record.Whole ⟨ipc.hello, [], none⟩ := rfl

/-- The counter steps to the next number, unless it wraps. -/
theorem toNat_nextGeneration (h : ipc.generation.toNat + 1 < 2 ^ 32) :
    ipc.nextGeneration.toNat = ipc.generation.toNat + 1 := by
  have hadd : (ipc.generation + 1).toNat = ipc.generation.toNat + 1 := by
    rw [UInt32.toNat_add]
    exact Nat.mod_eq_of_lt h
  have hne : ipc.generation + 1 ≠ 0 := by
    intro h0
    rw [h0] at hadd
    cases hadd
  rw [nextGeneration, if_neg hne, hadd]

theorem Ok.configure (h : ipc.Ok) (path : List UInt8) (width height dpi : UInt32) :
    Ok { ipc with path, width, height, dpi } := ⟨h.distinct, h.wire, h.current, h.counts⟩

theorem Ok.disconnect (h : ipc.Ok) : ipc.disconnect.Ok where
  distinct := h.distinct
  wire := h.wire
  current c hc := by cases hc
  counts := h.counts

/-- **Connecting keeps the invariants.** -/
theorem Ok.connectIpc (h : ipc.Ok) (hc : ipc.connectIpc io = some (ipc', rest)) : ipc'.Ok := by
  rcases connectIpc_cases hc with rfl | ⟨hfd, sent, hp, hne, rfl⟩ | ⟨hfd, rfl⟩
  · exact h
  · have hwire : Wire.Ok ipc.pid ⟨sent, []⟩ := by
      refine ⟨by simp, by simp, sent, by simp, .inr ⟨_, ipc.hello_whole, ?_, ?_⟩⟩
      · simpa [Record.bytes] using hp
      · simpa [Record.bytes] using hne
    have hcount : Ipc.connects { ipc with wires := ipc.wires ++ [⟨sent, []⟩] } = ipc.connects := by
      simp [connects]
    refine ⟨h.distinct, Slots.forall_mem_concat h.wire hwire, ?_, ?_⟩
    · intro c hcur
      rw [hfd] at hcur
      cases hcur
    · rw [hcount]
      exact h.counts
  · have hwire : Wire.Ok ipc.pid ⟨ipc.hello.encode, [⟨ipc.hello, [], none⟩]⟩ := by
      refine ⟨List.forall_mem_singleton.mpr ipc.hello_whole, fun r rest hr => ?_, [],
        by simp [Record.bytes], .inl rfl⟩
      rw [List.cons.injEq] at hr
      obtain ⟨rfl, rfl⟩ := hr
      exact ⟨⟨rfl, rfl⟩, by simp⟩
    refine ⟨h.distinct, Slots.forall_mem_concat h.wire hwire, ?_, ?_⟩
    · intro c hcur
      cases hcur
      exact ⟨ipc.wires, _, rfl, rfl, by simp, by simp [Record.bytes]⟩
    · have hcount : Ipc.connects { ipc with
          fd := some ipc.wires.length, generation := ipc.nextGeneration,
          wires := ipc.wires ++ [⟨ipc.hello.encode, [⟨ipc.hello, [], none⟩]⟩] }
          = ipc.connects + 1 := by
        simp [connects]
      rw [hcount]
      intro hlt
      obtain ⟨hgen, hent⟩ := h.counts (by omega)
      refine ⟨?_, fun e he => le_trans (hent e he) (Nat.le_succ _)⟩
      show ipc.nextGeneration.toNat = _
      rw [toNat_nextGeneration (by omega), hgen]

theorem connects_connectIpc (hc : ipc.connectIpc io = some (ipc', rest)) :
    ipc.connects ≤ ipc'.connects := by
  rcases connectIpc_cases hc with rfl | ⟨-, sent, -, -, rfl⟩ | ⟨-, rfl⟩
  · exact le_rfl
  all_goals simp [connects]

/-- After a connection was made no window has a baseline on it. -/
theorem Ok.no_baseline (h : ipc.Ok) (hc : ipc.connectIpc io = some (ipc', rest))
    (hfd : ipc.fd = none) (hlt : ipc'.connects < 2 ^ 32) {c : ℕ} (hfd' : ipc'.fd = some c)
    (hwnd : UInt64) : ipc'.surfaceHasBaseline hwnd = false := by
  rcases connectIpc_cases hc with rfl | ⟨-, sent, -, -, rfl⟩ | ⟨-, rfl⟩
  · rw [hfd] at hfd'
    cases hfd'
  · rw [hfd] at hfd'
    cases hfd'
  · rw [Bool.eq_false_iff]
    intro hb
    have hcount : ipc.connects + 1 < 2 ^ 32 := by simpa [connects] using hlt
    obtain ⟨hgen, hent⟩ := h.counts (by omega)
    obtain ⟨l₁, l₂, hl, -⟩ := List.lookup_eq_some_iff.mp (of_decide_eq_true hb)
    have hle := hent (hwnd, ipc.nextGeneration) (by rw [show ipc.surfaces = _ from hl]; simp)
    rw [toNat_nextGeneration (by omega), hgen] at hle
    omega

/-- Modifying the last element of a list. -/
theorem modify_concat {α : Type} (l : List α) (a : α) (f : α → α) :
    (l ++ [a]).modify l.length f = l ++ [f a] := by
  induction l with
  | nil => rfl
  | cons b l ih => simpa using ih

/-- The wires after a transfer on the connection in use. -/
theorem wires_transmit {l : List Wire} {w : Wire} (hw : ipc.wires = l ++ [w]) (r : Record)
    (t : Transfer) :
    (ipc.transmit l.length r t).wires
      = l ++ [⟨w.bytes ++ t.sent, if t.ok then w.records ++ [r] else w.records⟩] := by
  rw [transmit, hw, modify_concat]

/-- A transfer that succeeded adds its record to the wire. -/
theorem wires_transmit_ok {l : List Wire} {w : Wire} (hw : ipc.wires = l ++ [w]) {r : Record}
    {t : Transfer} (ht : t.Of r.bytes) (hok : t.ok = true) :
    (ipc.transmit l.length r t).wires = l ++ [w.push r] := by
  rw [wires_transmit hw, ht.of_ok hok, if_pos hok]
  rfl

/-- A transfer on the connection in use makes no connection. -/
theorem Ok.connects_transmit (h : ipc.Ok) {c : ℕ} (hfd : ipc.fd = some c) (r : Record)
    (t : Transfer) : (ipc.transmit c r t).connects = ipc.connects := by
  obtain ⟨l, w, hl, rfl, hw⟩ := h.current c hfd
  rw [connects, wires_transmit hl, connects, hl]
  cases t.ok <;> simp [hw.1]

/-- The records of the last connection made. -/
def sent (ipc : Ipc) : List Record := (ipc.wires.getLast?.map Wire.records).getD []

/-- A transfer that succeeded adds its record to the last connection. -/
theorem Ok.sent_transmit (h : ipc.Ok) {c : ℕ} (hfd : ipc.fd = some c) {r : Record} {t : Transfer}
    (ht : t.Of r.bytes) (hok : t.ok = true) : (ipc.transmit c r t).sent = ipc.sent ++ [r] := by
  obtain ⟨l, w, hl, rfl, hw⟩ := h.current c hfd
  rw [sent, wires_transmit_ok hl ht hok, sent, hl]
  simp [Wire.push]

theorem Ok.wire_left (h : ipc.Ok) {l l' : List Wire} (hl : ipc.wires = l ++ l') :
    ∀ w ∈ l, w.Ok ipc.pid :=
  fun w hw => h.wire w (by rw [hl]; exact List.mem_append_left _ hw)

section Transmit

variable (h : ipc.Ok) {c : ℕ} (hfd : ipc.fd = some c) {r : Record} (hr : r.Whole)
variable (hty : r.msg.type ≠ HELLO) {t : Transfer} (ht : t.Of r.bytes)
include h hfd hr ht

include hty in
/-- **A record that went out keeps the invariants.** -/
theorem Ok.transmit (hok : t.ok = true) : (ipc.transmit c r t).Ok := by
  obtain ⟨l, w, hl, rfl, hw⟩ := h.current c hfd
  have hwires := wires_transmit_ok hl ht hok
  refine ⟨h.distinct, ?_, ?_, ?_⟩
  · rw [hwires]
    exact Slots.forall_mem_concat (h.wire_left hl) ((h.wire w (by rw [hl]; simp)).push hw hr hty)
  · intro c' hc'
    obtain rfl : l.length = c' := Option.some.inj (hfd.symm.trans hc')
    exact ⟨l, _, hwires, rfl, hw.push r⟩
  · rw [h.connects_transmit hfd]
    exact h.counts

/-- **A record that did not go out whole costs the connection.** -/
theorem Ok.transmit_disconnect (hok : t.ok = false) : (ipc.transmit c r t).disconnect.Ok := by
  obtain ⟨l, w, hl, rfl, hw⟩ := h.current c hfd
  have hwires : (ipc.transmit l.length r t).disconnect.wires
      = l ++ [⟨w.bytes ++ t.sent, w.records⟩] := by
    show (ipc.transmit l.length r t).wires = _
    rw [wires_transmit hl, if_neg (by simp [hok])]
  have hne : t.sent ≠ r.bytes := fun he => by simp [ht.ok_iff.mpr he] at hok
  refine ⟨h.distinct, ?_, fun c' hc' => ?_, ?_⟩
  · rw [hwires]
    exact Slots.forall_mem_concat (h.wire_left hl)
      ((h.wire w (by rw [hl]; simp)).tear hw hr ht.sent_isPrefix hne)
  · cases hc'
  · rw [show (ipc.transmit l.length r t).disconnect.connects = ipc.connects from
      h.connects_transmit hfd r t]
    exact h.counts

end Transmit

/-- Marking a window changes the entries only. -/
theorem mark_frame (ipc : Ipc) (hwnd : UInt64) (alloc : Bool) :
    (ipc.markSurfaceBaseline hwnd alloc).wires = ipc.wires
      ∧ (ipc.markSurfaceBaseline hwnd alloc).fd = ipc.fd
      ∧ (ipc.markSurfaceBaseline hwnd alloc).pid = ipc.pid
      ∧ (ipc.markSurfaceBaseline hwnd alloc).generation = ipc.generation := by
  unfold markSurfaceBaseline
  split <;> try split
  all_goals exact ⟨rfl, rfl, rfl, rfl⟩

theorem connects_mark (ipc : Ipc) (hwnd : UInt64) (alloc : Bool) :
    (ipc.markSurfaceBaseline hwnd alloc).connects = ipc.connects := by
  rw [connects, (mark_frame ipc hwnd alloc).1, connects]

/-- Entries made now carry the current generation. -/
theorem Ok.mark (h : ipc.Ok) (hwnd : UInt64) (alloc : Bool) :
    (ipc.markSurfaceBaseline hwnd alloc).Ok := by
  obtain ⟨h₁, h₂, h₃, h₄⟩ := mark_frame ipc hwnd alloc
  have hentries : ∀ e ∈ (ipc.markSurfaceBaseline hwnd alloc).surfaces,
      e ∈ ipc.surfaces ∨ e.2 = ipc.generation := by
    unfold markSurfaceBaseline
    split
    · rename_i l hl
      exact fun e he => mem_remark hl he
    · split
      · intro e he
        rcases List.mem_cons.mp he with rfl | he
        · exact .inr rfl
        · exact .inl he
      · exact fun e he => .inl he
  refine ⟨h.distinct.mark hwnd alloc, ?_, ?_, ?_⟩
  · rw [h₁, h₃]
    exact h.wire
  · rw [h₁, h₂]
    exact h.current
  · rw [connects, h₁, h₄]
    intro hlt
    obtain ⟨hgen, hent⟩ := h.counts hlt
    refine ⟨hgen, fun e he => ?_⟩
    rcases hentries e he with he | he
    · exact hent e he
    · rw [he]
      exact hgen.le

theorem Ok.forget (h : ipc.Ok) (hwnd : UInt64) : (ipc.forgetSurface hwnd).Ok where
  distinct := h.distinct.forget hwnd
  wire := h.wire
  current := h.current
  counts hlt := ⟨(h.counts hlt).1,
    fun e he => (h.counts hlt).2 e (List.mem_of_mem_eraseP he)⟩

/-- **What sending a record without picture does.** -/
theorem sendMsg_cases {type : UInt32} {hwnd : UInt64} {rect : Option Rect} {payload : List UInt8}
    {stride flags : UInt32} (h : ipc.sendMsg type hwnd rect payload stride flags io = some ipc') :
    ∃ ipc₁ rest, ipc.connectIpc io = some (ipc₁, rest)
      ∧ ((ipc₁.fd = none ∧ ipc' = ipc₁)
        ∨ ∃ c t, ipc₁.fd = some c ∧ Transfer.Of (Record.bytes ⟨msgHeader type hwnd rect
              (UInt32.ofNat payload.length) stride flags, payload, none⟩) t
          ∧ ((t.ok = true ∧ ipc' = ipc₁.transmit c ⟨msgHeader type hwnd rect
                (UInt32.ofNat payload.length) stride flags, payload, none⟩ t)
            ∨ (t.ok = false ∧ ipc' = (ipc₁.transmit c ⟨msgHeader type hwnd rect
                (UInt32.ofNat payload.length) stride flags, payload, none⟩ t).disconnect))) := by
  unfold sendMsg at h
  dsimp only at h
  rw [Option.bind_eq_some_iff] at h
  obtain ⟨⟨ipc₁, rest⟩, hconn, h⟩ := h
  refine ⟨ipc₁, rest, hconn, ?_⟩
  dsimp only at h
  cases hfd : ipc₁.fd with
  | none =>
    rw [hfd] at h
    cases h
    exact .inl ⟨rfl, rfl⟩
  | some c =>
    rw [hfd] at h
    obtain ⟨t, ht, hcases⟩ := attempt_cases
      (write_record_of (fun s v hv => writeAll_of hv)) h
    exact .inr ⟨c, t, rfl, ht, hcases⟩

end Ipc

end Juice
