import Juice.Lib.Machine
import Juice.Lib.Slots
import Juice.Display.Mirror

/-!
# Reading the host's records

Every GUI thread of a process calls `ios_ipc_process_input`, and all of
them read the one connection. A thread takes the lock to learn the
descriptor, and releases it before it reads: it peeks for a header, reads
the header, and then as many payload bytes as the header says, in as many
calls of `read` as that takes. Nothing holds the three together. A thread
that reads while another is between the header and the end of the payload
takes bytes out of the middle of a record, and reads them as a header.

The machine has any number of threads and any stream of records of the
host. A read returns some of the bytes that have arrived, at least one. In
the runs in which no thread reads while another is inside a record, the
records are decoded one by one, whole, and in order.
-/

namespace Juice

open List JuiceMsg ByteSeq

/-- A record on the wire. -/
def Content.bytes (r : Content) : List UInt8 := r.1.encode ++ r.2

namespace Input

/-- The largest payload `ios_ipc_process_input` accepts. -/
def maxPayload : ℕ := 64 * 1024

/-- **A well-formed record of the host.** -/
structure WellFormed (r : Content) : Prop where
  magic : r.1.magic = MAGIC
  size_eq : r.2.length = r.1.size.toNat
  size_le : r.1.size.toNat ≤ maxPayload

/-- Where a thread is in `ios_ipc_process_input`. -/
inductive Pc where
  /-- Outside, or about to peek. -/
  | idle
  /-- In `read_all` of the header, with so many bytes of it. -/
  | header (got : List UInt8)
  /-- In `read_all` of the payload, with so many bytes of it. -/
  | payload (m : JuiceMsg) (got : List UInt8)
  deriving DecidableEq, Repr

/-- The bytes of a record a thread has taken off the stream, `none` where it
has not taken any. -/
def Pc.holding : Pc → Option (List UInt8)
  | idle => none
  | header got => if got = [] then none else some got
  | payload m got => some (m.encode ++ got)

/-- **The connection and its readers.** -/
structure State where
  /-- How many bytes have arrived. -/
  arrived : ℕ
  /-- How many have been read. -/
  pos : ℕ
  threads : List Pc
  /-- The connection was dropped over an oversized header. -/
  dropped : Bool
  /-- The records decoded, each with the thread that did. -/
  decoded : List (ℕ × Content)
  deriving DecidableEq, Repr

/-- What can happen. -/
inductive Action where
  | arrive (n : ℕ)
  /-- `recv` with `MSG_PEEK`. -/
  | peek (t : ℕ)
  /-- A `read` that returns so many bytes. -/
  | read (t n : ℕ)
  deriving DecidableEq, Repr

/-- A thread moves on. -/
def State.goto (s : State) (t : ℕ) (pc : Pc) : State := { s with threads := s.threads.set t pc }

/-- A thread has read a record: it decodes it, or ignores it if its magic is
wrong. -/
def State.complete (s : State) (t : ℕ) (m : JuiceMsg) (payload : List UInt8) : State :=
  if m.magic ≠ MAGIC then s.goto t .idle
  else { s.goto t .idle with decoded := s.decoded ++ [(t, (m, payload))] }

/-- A thread has read so many bytes of a header. -/
def State.gotHeader (s : State) (t : ℕ) (got : List UInt8) : State :=
  if got.length < headerSize then s.goto t (.header got)
  else
    let m := decode got
    if m.size.toNat > maxPayload then { s.goto t .idle with dropped := true }
    else if m.size = 0 then s.complete t m [] else s.goto t (.payload m [])

/-- A thread has read so many bytes of a payload. -/
def State.gotPayload (s : State) (t : ℕ) (m : JuiceMsg) (got : List UInt8) : State :=
  if got.length < m.size.toNat then s.goto t (.payload m got) else s.complete t m got

/-- **One step**, over the stream of the host. -/
def step (stream : List UInt8) (s : State) : Action → Option State
  | .arrive n =>
    if s.arrived + n ≤ stream.length then some { s with arrived := s.arrived + n } else none
  | .peek t =>
    if s.dropped then none
    else match s.threads[t]? with
      | some .idle =>
        if s.arrived - s.pos < headerSize then some s else some (s.goto t (.header []))
      | _ => none
  | .read t n =>
    if s.dropped ∨ n = 0 ∨ s.arrived < s.pos + n then none
    else
      let bytes := slice stream s.pos n
      let s' := { s with pos := s.pos + n }
      match s.threads[t]? with
      | some (.header got) =>
        if headerSize < got.length + n then none else some (s'.gotHeader t (got ++ bytes))
      | some (.payload m got) =>
        if m.size.toNat < got.length + n then none else some (s'.gotPayload t m (got ++ bytes))
      | _ => none

/-- `n` threads, and a connection on which nothing has arrived. -/
def start (n : ℕ) : State := ⟨0, 0, List.replicate n .idle, false, []⟩

/-- **The readers of a connection.** -/
def machine (n : ℕ) (records : List Content) : Machine State Action :=
  ⟨start n, step (records.flatMap Content.bytes)⟩

/-- **The condition on a step**: a thread does not read while another one
is inside a record. -/
def oneReader (s : State) : Action → Bool
  | .read t _ => (List.range s.threads.length).all (fun t' =>
      t' = t ∨ (s.threads[t']?.bind Pc.holding) = none)
  | _ => true

/-- How many bytes the first records of the stream take. -/
def offset (records : List Content) (k : ℕ) : ℕ :=
  ((records.take k).flatMap Content.bytes).length

/-- **The stream is framed as it was sent.** The records decoded are the
first ones of the stream, each once and whole; a thread inside a record
has read the beginning of the next one, from its first byte on, and no
other thread is inside one. -/
structure Framed (records : List Content) (s : State) : Prop where
  decoded : s.decoded.map Prod.snd = records.take s.decoded.length
  inside : ∀ (t : ℕ) pc b, s.threads[t]? = some pc → pc.holding = some b →
    (∃ r, records[s.decoded.length]? = some r ∧ b <+: r.bytes
      ∧ ∀ m got, pc = .payload m got → m = r.1)
    ∧ s.pos = offset records s.decoded.length + b.length
    ∧ ∀ (t' : ℕ) pc', s.threads[t']? = some pc' → t' ≠ t → pc'.holding = none
  between : (∀ (t : ℕ) pc, s.threads[t]? = some pc → pc.holding = none) →
    s.pos = offset records s.decoded.length

/-! ## The stream -/

section Stream

variable {records : List Content} {k : ℕ} {r : Content}

theorem offset_succ (hr : records[k]? = some r) :
    offset records (k + 1) = offset records k + r.bytes.length := by
  unfold offset
  rw [take_add_one, hr, flatMap_append, length_append]
  simp

/-- The stream from a record on. -/
theorem flatMap_bytes_eq (hr : records[k]? = some r) :
    records.flatMap Content.bytes = (records.take k).flatMap Content.bytes
      ++ (r.bytes ++ (records.drop (k + 1)).flatMap Content.bytes) := by
  conv_lhs => rw [← take_append_drop k records]
  rw [flatMap_append, drop_eq_getElem?_toList_append, hr, flatMap_append]
  simp

/-- A byte after the first records is a byte of the next one. -/
theorem exists_record_of_lt (h : offset records k < (records.flatMap Content.bytes).length) :
    ∃ r, records[k]? = some r := by
  cases hr : records[k]? with
  | some r => exact ⟨r, rfl⟩
  | none =>
    rw [List.getElem?_eq_none_iff] at hr
    rw [offset, take_of_length_le hr] at h
    omega

/-- **Reading on inside a record** extends what was read of it. -/
theorem append_slice_stream (hr : records[k]? = some r) {b : List UInt8} (hb : b <+: r.bytes)
    {n : ℕ} (hn : b.length + n ≤ r.bytes.length) :
    b ++ slice (records.flatMap Content.bytes) (offset records k + b.length) n <+: r.bytes
      ∧ (b ++ slice (records.flatMap Content.bytes) (offset records k + b.length) n).length
        = b.length + n := by
  have hslice : slice (records.flatMap Content.bytes) (offset records k + b.length) n
      = slice r.bytes b.length n := by
    rw [flatMap_bytes_eq hr, offset, slice_append _ _ (Nat.le_add_right _ _),
      Nat.add_sub_cancel_left, slice_append_left _ hn]
  rw [hslice]
  exact ⟨append_slice_isPrefixOf hb n, by rw [length_append, length_slice hn]⟩

end Stream

/-! ## One reader at a time keeps the framing -/

section Framing

variable {records : List Content} {s : State} {t : ℕ} {pc : Pc} {s' : State}

/-- No thread but one is inside a record. -/
def Quiet (s : State) (t : ℕ) : Prop :=
  ∀ (t' : ℕ) pc', s.threads[t']? = some pc' → t' ≠ t → pc'.holding = none

theorem quiet_of_oneReader {n : ℕ} (h : oneReader s (.read t n) = true) : Quiet s t := by
  intro t' pc' hpc hne
  have hlt : t' < s.threads.length := (List.getElem?_eq_some_iff.mp hpc).1
  have := all_eq_true.mp h t' (mem_range.mpr hlt)
  simpa [hne, hpc] using this

/-- What a thread holds when no other holds anything: the beginning of the
next record, and that is where the stream stands. -/
theorem Framed.holding_eq (h : Framed records s) (hq : Quiet s t) (ht : s.threads[t]? = some pc) :
    s.pos = offset records s.decoded.length + (pc.holding.getD []).length
      ∧ ∀ b, pc.holding = some b → ∃ r, records[s.decoded.length]? = some r ∧ b <+: r.bytes
        ∧ ∀ m got, pc = .payload m got → m = r.1 := by
  cases hb : pc.holding with
  | none =>
    refine ⟨h.between (fun t' pc' hpc' => ?_), fun b hb' => by cases hb'⟩
    by_cases he : t' = t
    · subst he
      rw [ht] at hpc'
      cases hpc'
      exact hb
    · exact hq t' pc' hpc' he
  | some b =>
    obtain ⟨hr, hpos, -⟩ := h.inside t pc b ht hb
    refine ⟨hpos, fun b' hb' => ?_⟩
    cases hb'
    exact hr

/-- A thread moves on, and what it holds then is the beginning of the next
record. -/
theorem framed_set (hq : Quiet s t) (hth : s'.threads = s.threads.set t pc)
    (hlt : t < s.threads.length) (hdec : s'.decoded.map Prod.snd = records.take s'.decoded.length)
    (hpos : s'.pos = offset records s'.decoded.length + (pc.holding.getD []).length)
    (hin : ∀ b, pc.holding = some b → ∃ r, records[s'.decoded.length]? = some r ∧ b <+: r.bytes
      ∧ ∀ m got, pc = .payload m got → m = r.1) : Framed records s' := by
  have hget : ∀ (t' : ℕ) pc', s'.threads[t']? = some pc' →
      (t' = t ∧ pc' = pc) ∨ (t' ≠ t ∧ s.threads[t']? = some pc') :=
    fun t' pc' hpc' => Slots.getElem?_set_cases (hth ▸ hpc')
  have hself : s'.threads[t]? = some pc := by
    rw [hth, List.getElem?_set_self hlt]
  refine ⟨hdec, ?_, ?_⟩
  · intro t' pc' b hpc' hb
    rcases hget t' pc' hpc' with ⟨rfl, rfl⟩ | ⟨hne, hold⟩
    · refine ⟨hin b hb, by rw [hpos, hb]; rfl, fun t'' pc'' hpc'' hne => ?_⟩
      rcases hget t'' pc'' hpc'' with ⟨rfl, -⟩ | ⟨-, hold⟩
      · exact absurd rfl hne
      · exact hq t'' pc'' hold hne
    · rw [hq t' pc' hold hne] at hb
      cases hb
  · intro hnone
    rw [hpos, hnone t pc hself]
    rfl

section Next

variable (hd : s.decoded.map Prod.snd = records.take s.decoded.length) (hq : Quiet s t)
  (hlt : t < s.threads.length) {r : Content} (hr : records[s.decoded.length]? = some r)
  (hw : WellFormed r) {got : List UInt8}
include hd hq hlt hr hw

/-- A record was read to its end. -/
theorem framed_complete (hpos : s.pos = offset records s.decoded.length + r.bytes.length) :
    Framed records (s.complete t r.1 r.2) := by
  have hmagic : ¬ r.1.magic ≠ MAGIC := not_not.mpr hw.magic
  unfold State.complete
  rw [if_neg hmagic]
  refine framed_set hq rfl hlt ?_ ?_ (fun b hb => by cases hb)
  · show (s.decoded ++ [(t, (r.1, r.2))]).map Prod.snd = _
    rw [map_append, hd, length_append, length_singleton, take_add_one, hr]
    rfl
  · show s.pos = offset records (s.decoded ++ [(t, (r.1, r.2))]).length + 0
    rw [length_append, length_singleton, offset_succ hr, hpos, Nat.add_zero]

/-- A thread has read on in a header. -/
theorem framed_gotHeader (hgot : got <+: r.bytes) (hne : got ≠ []) (hle : got.length ≤ headerSize)
    (hpos : s.pos = offset records s.decoded.length + got.length) :
    Framed records (s.gotHeader t got) := by
  unfold State.gotHeader
  split
  · refine framed_set hq rfl hlt hd ?_ ?_
    · simpa [Pc.holding, hne, State.goto] using hpos
    · intro b hb
      simp only [Pc.holding, if_neg hne, Option.some.injEq] at hb
      subst hb
      exact ⟨r, hr, hgot, fun m g h => by cases h⟩
  · rename_i hnlt
    have hlen : got.length = headerSize := by omega
    have hgot' : got = r.1.encode := by
      have hp : r.1.encode <+: r.bytes := prefix_append _ _
      exact (prefix_of_prefix_length_le hgot hp (by simp [hlen])).eq_of_length
        (by simp [hlen])
    have hdec : decode got = r.1 := by
      rw [hgot']
      simpa using decode_encode r.1 []
    have hsize : ¬ r.1.size.toNat > maxPayload := by have := hw.size_le; omega
    dsimp only
    rw [hdec, if_neg hsize]
    split
    · rename_i hzero
      have hpay : r.2 = [] := by
        rw [← length_eq_zero_iff, hw.size_eq, hzero]
        rfl
      have hbytes : r.bytes.length = got.length := by
        simp [Content.bytes, hpay, hlen]
      rw [← hpay]
      exact framed_complete hd hq hlt hr hw (by rw [hbytes, hpos])
    · refine framed_set hq rfl hlt hd ?_ ?_
      · rw [show (s.goto t (.payload r.1 [])).pos = s.pos from rfl, hpos, hgot']
        simp [Pc.holding, State.goto]
      · intro b hb
        simp only [Pc.holding, Option.some.injEq] at hb
        refine ⟨r, hr, ?_, fun m g h => by cases h; rfl⟩
        rw [← hb, append_nil]
        exact prefix_append _ _

/-- A thread has read on in a payload. -/
theorem framed_gotPayload (hgot : r.1.encode ++ got <+: r.bytes) (hle : got.length ≤ r.1.size.toNat)
    (hpos : s.pos = offset records s.decoded.length + (r.1.encode ++ got).length) :
    Framed records (s.gotPayload t r.1 got) := by
  unfold State.gotPayload
  split
  · refine framed_set hq rfl hlt hd hpos ?_
    intro b hb
    simp only [Pc.holding, Option.some.injEq] at hb
    subst hb
    exact ⟨r, hr, hgot, fun m g h => by cases h; rfl⟩
  · rename_i hnlt
    have hpay : got = r.2 := by
      have hp : got <+: r.2 := (prefix_append_right_inj _).mp hgot
      exact hp.eq_of_length (by rw [hw.size_eq]; omega)
    rw [hpay]
    exact framed_complete hd hq hlt hr hw (by rw [hpos, hpay]; rfl)

end Next

/-- A thread that has peeked holds nothing yet. -/
theorem Framed.peek (h : Framed records s) (hidle : s.threads[t]? = some .idle) :
    Framed records (s.goto t (.header [])) := by
  have hget : ∀ (t' : ℕ) pc', (s.goto t (.header [])).threads[t']? = some pc' →
      pc'.holding ≠ none → s.threads[t']? = some pc' := by
    intro t' pc' hpc' hne
    rcases Slots.getElem?_set_cases hpc' with ⟨-, rfl⟩ | ⟨-, hold⟩
    · exact absurd rfl hne
    · exact hold
  have hback : ∀ (t' : ℕ) pc', s.threads[t']? = some pc' → pc'.holding ≠ none →
      (s.goto t (.header [])).threads[t']? = some pc' := by
    intro t' pc' hpc' hne
    have hne' : t ≠ t' := by
      rintro rfl
      rw [hidle] at hpc'
      cases hpc'
      exact hne rfl
    rw [State.goto, List.getElem?_set_ne hne']
    exact hpc'
  refine ⟨h.decoded, ?_, ?_⟩
  · intro t' pc' b hpc' hb
    obtain ⟨h₁, h₂, h₃⟩ := h.inside t' pc' b (hget t' pc' hpc' (by simp [hb])) hb
    refine ⟨h₁, h₂, fun t'' pc'' hpc'' hne => ?_⟩
    by_contra hn
    exact hn (h₃ t'' pc'' (hget t'' pc'' hpc'' hn) hne)
  · intro hnone
    refine h.between (fun t' pc' hpc' => ?_)
    by_contra hn
    exact hn (hnone t' pc' (hback t' pc' hpc' hn))

section Read

variable (hrec : ∀ r ∈ records, WellFormed r) (h : Framed records s) (hq : Quiet s t) {n : ℕ}
include hrec h hq

/-- The only reader reads on in a header. -/
theorem Framed.readHeader (hn : n ≠ 0) (hend : s.pos + n ≤ (records.flatMap Content.bytes).length)
    {got : List UInt8} (hpc : s.threads[t]? = some (.header got))
    (hle : got.length + n ≤ headerSize) :
    Framed records (State.gotHeader { s with pos := s.pos + n } t
      (got ++ slice (records.flatMap Content.bytes) s.pos n)) := by
  obtain ⟨hpos, hin⟩ := h.holding_eq hq hpc
  have hlt := (List.getElem?_eq_some_iff.mp hpc).1
  have hgetD : (Pc.header got).holding.getD [] = got := by
    by_cases hg : got = [] <;> simp [Pc.holding, hg]
  rw [hgetD] at hpos
  obtain ⟨r, hr⟩ : ∃ r, records[s.decoded.length]? = some r := exists_record_of_lt (by omega)
  have hgot : got <+: r.bytes := by
    by_cases hg : got = []
    · rw [hg]
      exact nil_prefix
    · obtain ⟨r', hr', hp, -⟩ := hin got (by simp [Pc.holding, hg])
      rw [hr] at hr'
      cases hr'
      exact hp
  have hlen : got.length + n ≤ r.bytes.length := by
    simp only [Content.bytes, length_append, length_encode]
    omega
  obtain ⟨hp, hl⟩ := append_slice_stream hr hgot hlen
  rw [← hpos] at hp hl
  refine framed_gotHeader (s := { s with pos := s.pos + n }) h.decoded hq hlt hr
    (hrec r (mem_of_getElem? hr)) hp ?_ ?_ ?_
  · intro hnil
    rw [hnil, length_nil] at hl
    omega
  · rw [hl]
    exact hle
  · rw [hl]
    show s.pos + n = offset records s.decoded.length + _
    omega

/-- The only reader reads on in a payload. -/
theorem Framed.readPayload {m : JuiceMsg} {got : List UInt8}
    (hpc : s.threads[t]? = some (.payload m got)) (hle : got.length + n ≤ m.size.toNat) :
    Framed records (State.gotPayload { s with pos := s.pos + n } t m
      (got ++ slice (records.flatMap Content.bytes) s.pos n)) := by
  obtain ⟨hpos, hin⟩ := h.holding_eq hq hpc
  have hlt := (List.getElem?_eq_some_iff.mp hpc).1
  obtain ⟨r, hr, hgot, hm⟩ := hin (m.encode ++ got) rfl
  obtain rfl : m = r.1 := hm m got rfl
  have hw := hrec r (mem_of_getElem? hr)
  have hlen : (r.1.encode ++ got).length + n ≤ r.bytes.length := by
    have := hw.size_eq
    simp only [Content.bytes, length_append] at *
    omega
  obtain ⟨hp, hl⟩ := append_slice_stream hr hgot hlen
  replace hpos : s.pos = offset records s.decoded.length + (r.1.encode ++ got).length := hpos
  rw [← hpos, append_assoc] at hp hl
  have hbytes : (got ++ slice (records.flatMap Content.bytes) s.pos n).length
      = got.length + n := by
    simp only [length_append] at hl ⊢
    omega
  refine framed_gotPayload (s := { s with pos := s.pos + n }) h.decoded hq hlt hr hw hp ?_ ?_
  · rw [hbytes]
    exact hle
  · rw [hl]
    show s.pos + n = offset records s.decoded.length + _
    omega

end Read

/-- No more arrives than was sent. -/
theorem arrived_step {stream : List UInt8} {a : Action} (h : s.arrived ≤ stream.length)
    (hst : step stream s a = some s') : s'.arrived ≤ stream.length := by
  have hgoto : ∀ (s : State) t pc, (s.goto t pc).arrived = s.arrived := fun _ _ _ => rfl
  have hcomplete : ∀ (s : State) t m p, (s.complete t m p).arrived = s.arrived := by
    intro s t m p
    unfold State.complete
    split <;> rfl
  revert hst
  fun_cases Input.step stream s a <;> intro hst <;> cases hst
  case case1 hle => exact hle
  case case4 => exact h
  case case5 => exact h
  case case9 =>
    unfold State.gotHeader
    dsimp only
    split_ifs <;> simp only [hgoto, hcomplete] <;> exact h
  case case11 =>
    unfold State.gotPayload
    split_ifs <;> simp only [hgoto, hcomplete] <;> exact h

/-- **A step that meets the condition keeps the framing.** -/
theorem Framed.step (hrec : ∀ r ∈ records, WellFormed r) {a : Action} (h : Framed records s)
    (harr : s.arrived ≤ (records.flatMap Content.bytes).length) (hok : oneReader s a = true)
    (hst : step (records.flatMap Content.bytes) s a = some s') : Framed records s' := by
  have hquiet : ∀ {t n}, a = .read t n → Quiet s t := fun ha => quiet_of_oneReader (ha ▸ hok)
  revert hst
  fun_cases Input.step (records.flatMap Content.bytes) s a <;> intro hst <;> cases hst
  case case1 => exact ⟨h.decoded, h.inside, h.between⟩
  case case4 => exact h
  case case5 hidle _ => exact h.peek hidle
  case case9 hguard _ _ _ hpc hle =>
    obtain ⟨-, hn, havail⟩ := (not_or.mp hguard).imp id not_or.mp
    exact h.readHeader hrec (hquiet rfl) hn (by omega) hpc (by omega)
  case case11 hguard _ _ _ _ hpc hle =>
    exact h.readPayload hrec (hquiet rfl) hpc (by omega)

end Framing

theorem framed_start (n : ℕ) (records : List Content) : Framed records (start n) := by
  have hidle : ∀ (t : ℕ) pc, (start n).threads[t]? = some pc → pc.holding = none := by
    intro t pc hpc
    rw [eq_of_mem_replicate (mem_of_getElem? hpc)]
    rfl
  refine ⟨rfl, fun t pc b hpc hb => ?_, fun _ => rfl⟩
  rw [hidle t pc hpc] at hb
  cases hb

/-- **In every run in which no thread reads while another is inside a
record, the stream is framed as it was sent**: each record is decoded by
one thread, with its own header and payload, and no thread takes anything
but the beginning of a record for a header. -/
theorem framed_of_oneReader (n : ℕ) (records : List Content)
    (hrec : ∀ r ∈ records, WellFormed r) (s : State)
    (h : ((machine n records).restrict oneReader).Reachable s) : Framed records s := by
  suffices hinv : Framed records s ∧ s.arrived ≤ (records.flatMap Content.bytes).length from hinv.1
  refine h.invariant (I := fun s => Framed records s
      ∧ s.arrived ≤ (records.flatMap Content.bytes).length)
    ⟨framed_start n records, Nat.zero_le _⟩ ?_
  rintro s a s' - ⟨hf, harr⟩ hst
  obtain ⟨hok, hst⟩ := Machine.restrict_step.mp hst
  exact ⟨hf.step hrec harr hok hst, arrived_step harr hst⟩

/-- A button message of the host, without payload. -/
def inputRecord : Content :=
  (⟨MAGIC, 100, 0, 7, 3, 4, 0, 0, 0, 1⟩, [])

/-- A text message of the host whose payload is the bytes of a button
message. -/
def textRecord : Content :=
  (⟨MAGIC, 101, 48, 7, 0, 0, 0, 0, 0, 0⟩, inputRecord.1.encode)

theorem wellFormed_textRecord : ∀ r ∈ [textRecord, inputRecord], WellFormed r := by
  intro r hr
  simp only [mem_cons, not_mem_nil, or_false] at hr
  rcases hr with rfl | rfl
  · exact ⟨rfl, by decide, by decide⟩
  · exact ⟨rfl, by decide, by decide⟩

/-- Two threads, one after the other. -/
def inTurns : List Action :=
  [.arrive 144, .peek 0, .peek 1, .read 0 20, .read 0 28, .read 0 48, .read 1 48]

/-- The condition is met by a run in which two threads decode a record
each. -/
theorem framed_inTurns :
    ∃ s, ((machine 2 [textRecord, inputRecord]).restrict oneReader).run inTurns = some s
      ∧ s.decoded = [(0, textRecord), (1, inputRecord)]
      ∧ Framed [textRecord, inputRecord] s := by
  obtain ⟨s, hs, hp⟩ : ∃ s, ((machine 2 [textRecord, inputRecord]).restrict oneReader).run inTurns
      = some s ∧ s.decoded = [(0, textRecord), (1, inputRecord)] := by
    decide +kernel
  exact ⟨s, hs, hp, framed_of_oneReader 2 _ wellFormed_textRecord s (.of_run hs)⟩

/-- A thread reads a header, and another reads on before it does. -/
def inBetween : List Action :=
  [.arrive 96, .peek 0, .read 0 48, .peek 1, .read 1 48]

/-- **The text of a text message is decoded as a button message**, by a
thread that read between the header and the payload of another. -/
theorem payload_decoded_as_header :
    (∀ r ∈ [textRecord], WellFormed r)
      ∧ ∃ s, (machine 2 [textRecord]).run inBetween = some s
        ∧ s.decoded = [(1, inputRecord)] ∧ ¬ Framed [textRecord] s := by
  refine ⟨fun r hr => wellFormed_textRecord r (mem_of_mem_take (i := 1) hr), ?_⟩
  obtain ⟨s, hs, hdec⟩ : ∃ s, (machine 2 [textRecord]).run inBetween = some s
      ∧ s.decoded = [(1, inputRecord)] := by
    decide +kernel
  refine ⟨s, hs, hdec, fun hf => ?_⟩
  have h := hf.decoded
  rw [hdec] at h
  exact absurd h (by decide)

end Input

end Juice
