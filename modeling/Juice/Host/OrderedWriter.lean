import Mathlib.Algebra.Order.BigOperators.Group.List
import Mathlib.Algebra.Order.Group.Nat
import Juice.Host.AsyncWriter
import Juice.Lib.Slots

/-!
# What a writer writes, and what it holds

Three things are kept by everything that happens to a writer. Its *accounts*:
the bytes and packets it counts are those of the packets accepted and not
settled, within its limits. The *order*: as long as no packet has failed,
what is written and what is still owed are what was accepted; once one has
failed, `_cancelled` is set and no later packet gets past the head of the
loop. And the *closing*: the block of `cancel` comes after all packets, since
nothing is accepted once `_cancelled` is set under the lock.

The count of buffered bytes is the sum, over all writers, of what they hold;
a writer changes it by what it holds more or less.
-/

namespace Juice

open List

/-! ## Packets in a writer -/

def Job.data : Job → Option (List UInt8)
  | .packet data _ => some data
  | .close => none

/-- The packet that `enqueueData:` has found to be within the limits. -/
def Lock.admitted : Lock → Option (List UInt8)
  | .bounded data _ => some data
  | .reserving data _ _ => some data
  | .reserved data _ => some data
  | _ => none

/-- The packet whose bytes are counted already. -/
def Lock.reservation : Lock → List (List UInt8)
  | .reserved data _ => [data]
  | _ => []

/-- What the worker has still to write of its packet. -/
def Stage.rest (data : List UInt8) : Stage → List UInt8
  | .begin _ => data
  | .enter _ => data
  | .start _ => data
  | .loop rest _ => rest
  | .timed rest _ => rest
  | .send rest _ => rest
  | .again rest _ => rest
  | .poll rest _ => rest
  | .returned _ => []
  | .settle => []

/-- Past the test of `_cancelled`, in the loop. -/
def Stage.writing : Stage → Bool
  | .timed _ _ => true
  | .send _ _ => true
  | .again _ _ => true
  | .poll _ _ => true
  | _ => false

/-- **A step of the worker inside the block of a packet**: it writes from what
it has to write, or returns an error; and it does not get past the test once
`_cancelled` is set. -/
structure Stage.Advances (data : List UInt8) (cancelled : Bool) (stage : Stage)
    (input : WorkerInput) (stage' : Stage) : Prop where
  rest : stage' = .returned false ∨ stage.rest data = stage.takes input ++ stage'.rest data
  taken : stage.takes input <+: stage.rest data
  quiet : stage.writing = false → stage.takes input = []
  stopped : cancelled = true → stage.writing = false → stage'.writing = false
  before : stage ≠ .returned false

theorem Stage.advances {data : List UInt8} {isOpen cancelled : Bool} {stage stage' : Stage}
    {input : WorkerInput} (h : stage.advance data isOpen cancelled input = some stage') :
    stage.Advances data cancelled input stage' := by
  unfold Stage.advance at h
  split at h
  all_goals try split at h
  all_goals cases h
  all_goals constructor
  all_goals simp_all [Stage.rest, Stage.takes, Stage.writing, take_prefix]

theorem toNat_sizeOf64 {data : List UInt8} (h : data.length < 2 ^ 64) :
    (sizeOf64 data).toNat = data.length :=
  UInt64.toNat_ofNat_of_lt' h

namespace AsyncWriter

variable {w w' : AsyncWriter} {buffered buffered' : UInt64} {a : Action} {lock : Lock}

/-- The packets accepted and not settled, in order. -/
def unfinished (w : AsyncWriter) : List (List UInt8) :=
  w.worker.toList.map Prod.fst ++ w.queue.filterMap Job.data

/-- What is still to be written if no packet fails. -/
def owed (w : AsyncWriter) : List UInt8 :=
  w.worker.toList.flatMap (fun job => job.2.rest job.1) ++ (w.queue.filterMap Job.data).flatten

/-- The bytes a writer has in the count of buffered bytes. -/
def held (w : AsyncWriter) : ℕ := ((w.unfinished ++ w.lock.reservation).map List.length).sum

/-! ## What an action does -/

/-- **What an action does to a writer** and to the count of buffered bytes. -/
inductive Effect (w : AsyncWriter) (buffered : UInt64) : Action → AsyncWriter → UInt64 → Prop
  | enter {data : List UInt8} {now : ℤ} (hlock : w.lock = .free) (hne : data ≠ [])
      (hsize : data.length < 2 ^ 64) :
      Effect w buffered (.enter data now)
        { w with lock := .entered data (now + JUICE_IO_WRITE_TIMEOUT_MS) } buffered
  /-- `enqueueData:` returns `NO`, with nothing reserved. -/
  | refuse {a : Action} (hlock : w.lock.reservation = []) (hcancelling : w.lock ≠ .cancelling) :
      Effect w buffered a { w with lock := .free } buffered
  | bound {data : List UInt8} {deadline : ℤ} (hlock : w.lock = .entered data deadline)
      (hcancelled : w.cancelled = false) (hfull : w.full data = false) :
      Effect w buffered .check { w with lock := .bounded data deadline } buffered
  /-- The count is loaded, for the first time or again. -/
  | load {a : Action} {data : List UInt8} {deadline : ℤ} (hlock : w.lock.admitted = some data)
      (hreserved : w.lock.reservation = []) :
      Effect w buffered a { w with lock := .reserving data deadline buffered } buffered
  | reserve {data : List UInt8} {deadline : ℤ}
      (hlock : w.lock = .reserving data deadline buffered)
      (hsize : sizeOf64 data ≤ JUICE_IO_GLOBAL_BYTES)
      (htotal : buffered ≤ JUICE_IO_GLOBAL_BYTES - sizeOf64 data) :
      Effect w buffered (.exchange false) { w with lock := .reserved data deadline }
        (buffered + sizeOf64 data)
  | accept {data : List UInt8} {deadline : ℤ} (hlock : w.lock = .reserved data deadline) :
      Effect w buffered (.copy true)
        { w with
          lock := .free
          queuedBytes := w.queuedBytes + sizeOf64 data
          queuedPackets := w.queuedPackets + 1
          queue := w.queue ++ [.packet data deadline]
          accepted := w.accepted ++ [data] } buffered
  | giveUp {data : List UInt8} {deadline : ℤ} (hlock : w.lock = .reserved data deadline) :
      Effect w buffered (.copy false) { w with lock := .free } (buffered - sizeOf64 data)
  | cancel (hlock : w.lock = .free) :
      Effect w buffered .cancel { w with lock := .cancelling, cancelled := true } buffered
  | dispatchClose (hlock : w.lock = .cancelling) :
      Effect w buffered .dispatchClose { w with lock := .free, queue := w.queue ++ [.close] }
        buffered
  | takePacket {data : List UInt8} {deadline : ℤ} {rest : List Job} (hworker : w.worker = none)
      (hqueue : w.queue = .packet data deadline :: rest) :
      Effect w buffered .take { w with worker := some (data, .begin deadline), queue := rest }
        buffered
  | takeClose {rest : List Job} (hworker : w.worker = none) (hqueue : w.queue = .close :: rest) :
      Effect w buffered .take { w with isOpen := false, queue := rest } buffered
  | work {data : List UInt8} {stage stage' : Stage} {input : WorkerInput}
      (hworker : w.worker = some (data, stage))
      (hadvances : stage.Advances data w.cancelled input stage') :
      Effect w buffered (.work input)
        { w with worker := some (data, stage'), wire := w.wire ++ stage.takes input } buffered
  | finish {data : List UInt8} {ok : Bool} (hworker : w.worker = some (data, .returned ok)) :
      Effect w buffered .finish
        { w with
          worker := some (data, .settle)
          cancelled := w.cancelled || !ok
          shut := w.shut || (!ok && !w.cancelled && w.socket)
          failed := w.failed || !ok } buffered
  | settle {data : List UInt8} (hworker : w.worker = some (data, .settle)) (hlock : w.lock = .free) :
      Effect w buffered .settle
        { w with
          worker := none
          queuedBytes := w.queuedBytes - sizeOf64 data
          queuedPackets := w.queuedPackets - 1 } (buffered - sizeOf64 data)

/-- **Inversion of a step.** -/
theorem effect_of_step (hst : w.step buffered a = some (w', buffered')) :
    Effect w buffered a w' buffered' := by
  revert hst
  fun_cases step w buffered a <;> intro hst <;> try cases hst
  case case1 data now h => exact .enter h.1 h.2.1 h.2.2.1
  case case3 data deadline hlock _ => exact .refuse (by rw [hlock]; rfl) (by rw [hlock]; simp)
  case case4 data deadline hlock hok =>
    simp only [Bool.or_eq_true, not_or, Bool.not_eq_true] at hok
    exact .bound hlock hok.1 hok.2
  case case6 data deadline hlock => exact .load (by rw [hlock]; rfl) (by rw [hlock]; rfl)
  case case8 data deadline total hlock _ =>
    exact .refuse (by rw [hlock]; rfl) (by rw [hlock]; simp)
  case case9 spurious data deadline total hlock hfits hexchange =>
    obtain ⟨rfl, rfl⟩ : spurious = false ∧ buffered = total := by simpa using hexchange
    simp only [Bool.or_eq_true, decide_eq_true_eq, not_or] at hfits
    exact .reserve hlock (UInt64.not_lt.mp hfits.1) (UInt64.not_lt.mp hfits.2)
  case case10 data deadline total hlock _ _ =>
    exact .load (by rw [hlock]; rfl) (by rw [hlock]; rfl)
  case case12 data deadline hlock => exact .accept hlock
  case case13 copied data deadline hlock hfailed =>
    obtain rfl := Bool.eq_false_of_not_eq_true hfailed
    exact .giveUp hlock
  case case15 hlock => exact .cancel hlock
  case case17 hlock => exact .dispatchClose hlock
  case case19 data deadline rest hqueue hworker => exact .takePacket hworker hqueue
  case case20 rest hqueue hworker => exact .takeClose hworker hqueue
  case case22 data stage hworker =>
    obtain ⟨stage', hadvance, heq⟩ := Option.map_eq_some_iff.mp hst
    cases heq
    exact .work hworker (Stage.advances hadvance)
  case case24 data ok hworker => exact .finish hworker
  case case26 data hworker hlock => exact .settle hworker hlock

/-! ## The accounts -/

/-- **The accounts of a writer.** -/
structure Accounts (w : AsyncWriter) : Prop where
  bytes : w.queuedBytes.toNat = (w.unfinished.map List.length).sum
  packets : w.queuedPackets.toNat = w.unfinished.length
  bytes_le : w.queuedBytes.toNat ≤ w.limit.toNat
  packets_le : w.queuedPackets.toNat ≤ 512
  /-- A packet that is let in is still within the limits: nobody else is in
  the lock. -/
  admits : ∀ data, w.lock.admitted = some data →
    w.queuedBytes.toNat + data.length ≤ w.limit.toNat ∧ w.queuedPackets.toNat < 512
  entered : ∀ data deadline, w.lock = .entered data deadline → data.length < 2 ^ 64

theorem accounts_new (socket : Bool) (limit : UInt64) : (new socket limit).Accounts where
  bytes := rfl
  packets := rfl
  bytes_le := Nat.zero_le _
  packets_le := Nat.zero_le _
  admits _ h := by cases h
  entered _ _ h := by cases h

/-- A packet that fits is as long as its size says. -/
theorem toNat_size_of_le {data : List UInt8} {n : ℕ} {limit : UInt64}
    (h : n + data.length ≤ limit.toNat) : (sizeOf64 data).toNat = data.length :=
  toNat_sizeOf64 (lt_of_le_of_lt (Nat.le_of_add_left_le h) limit.toNat_lt)

/-- What the tests of `enqueueData:` say. -/
theorem fits_of_full {data : List UInt8} (hsize : data.length < 2 ^ 64) (h : w.full data = false) :
    w.queuedBytes.toNat + data.length ≤ w.limit.toNat ∧ w.queuedPackets.toNat < 512 := by
  simp only [full, Bool.or_eq_false_iff, decide_eq_false_iff_not] at h
  obtain ⟨⟨hlimit, hbytes⟩, hpackets⟩ := h
  rw [gt_iff_lt, UInt64.not_lt, UInt64.le_iff_toNat_le] at hlimit hbytes
  rw [ge_iff_le, UInt64.not_le, UInt64.lt_iff_toNat_lt] at hpackets
  rw [UInt64.toNat_sub_of_le _ _ (UInt64.le_iff_toNat_le.mpr hlimit)] at hbytes
  rw [toNat_sizeOf64 hsize] at hlimit hbytes
  exact ⟨by omega, hpackets⟩

/-- The length of a packet that is not settled is part of the count. -/
theorem Accounts.length_le (h : w.Accounts) {data : List UInt8} (hdata : data ∈ w.unfinished) :
    data.length ≤ w.queuedBytes.toNat := by
  rw [h.bytes]
  exact le_sum_of_mem (mem_map_of_mem hdata)

theorem Accounts.size_eq (h : w.Accounts) {data : List UInt8} (hdata : data ∈ w.unfinished) :
    (sizeOf64 data).toNat = data.length :=
  toNat_sizeOf64 (lt_of_le_of_lt (h.length_le hdata) w.queuedBytes.toNat_lt)

/-- Nothing but the lock has changed. -/
theorem Accounts.relock (h : w.Accounts) (hadmits : ∀ data, lock.admitted = some data →
      w.queuedBytes.toNat + data.length ≤ w.limit.toNat ∧ w.queuedPackets.toNat < 512)
    (hentered : ∀ data deadline, lock = .entered data deadline → data.length < 2 ^ 64) :
    Accounts { w with lock } :=
  ⟨h.bytes, h.packets, h.bytes_le, h.packets_le, hadmits, hentered⟩

/-- The lock is left, or taken by `cancel`. -/
theorem Accounts.unlock (h : w.Accounts) (hlock : lock = .free ∨ lock = .cancelling) :
    Accounts { w with lock } := by
  refine h.relock (fun data heq => ?_) (fun data deadline heq => ?_)
  · rcases hlock with rfl | rfl <;> cases heq
  · rcases hlock with rfl | rfl <;> cases heq

/-- The rest of a writer does not matter. -/
theorem Accounts.congr (h : w.Accounts) (hu : w'.unfinished = w.unfinished)
    (hb : w'.queuedBytes = w.queuedBytes) (hp : w'.queuedPackets = w.queuedPackets)
    (hl : w'.limit = w.limit) (hlock : w'.lock = w.lock) : w'.Accounts where
  bytes := by rw [hb, hu, h.bytes]
  packets := by rw [hp, hu, h.packets]
  bytes_le := by rw [hb, hl]; exact h.bytes_le
  packets_le := by rw [hp]; exact h.packets_le
  admits := by rw [hlock, hb, hl, hp]; exact h.admits
  entered := by rw [hlock]; exact h.entered

/-- A size that is added does not wrap around where there is room for it. -/
theorem toNat_add_size {data : List UInt8} {n limit : UInt64}
    (h : n.toNat + data.length ≤ limit.toNat) :
    (n + sizeOf64 data).toNat = n.toNat + data.length := by
  rw [UInt64.toNat_add, toNat_size_of_le h]
  exact Nat.mod_eq_of_lt (lt_of_le_of_lt h limit.toNat_lt)

/-- Subtracting what is part of the count. -/
theorem toNat_sub_size {data : List UInt8} {n : UInt64} (h : data.length ≤ n.toNat) :
    (n - sizeOf64 data).toNat + data.length = n.toNat := by
  have hsize : (sizeOf64 data).toNat = data.length :=
    toNat_sizeOf64 (lt_of_le_of_lt h n.toNat_lt)
  rw [UInt64.toNat_sub_of_le _ _ (UInt64.le_iff_toNat_le.mpr (hsize.trans_le h)), hsize]
  exact Nat.sub_add_cancel h

theorem Accounts.accept (h : w.Accounts) {data : List UInt8} {deadline : ℤ}
    (hlock : w.lock = .reserved data deadline) :
    Accounts { w with
      lock := .free
      queuedBytes := w.queuedBytes + sizeOf64 data
      queuedPackets := w.queuedPackets + 1
      queue := w.queue ++ [.packet data deadline]
      accepted := w.accepted ++ [data] } := by
  obtain ⟨hbytes, hpackets⟩ := h.admits data (by rw [hlock]; rfl)
  have hqueued := toNat_add_size hbytes
  have hcount : (w.queuedPackets + 1).toNat = w.queuedPackets.toNat + 1 := by
    rw [UInt64.toNat_add]
    exact Nat.mod_eq_of_lt (lt_of_le_of_lt (Nat.succ_le_of_lt hpackets) (by decide))
  refine ⟨hqueued.trans ?_, hcount.trans ?_, hqueued.trans_le hbytes, hcount.trans_le hpackets,
    nofun, nofun⟩
  · rw [h.bytes]
    simp [unfinished, Job.data, Nat.add_assoc]
  · rw [h.packets]
    simp [unfinished, Job.data, Nat.add_assoc]

/-- The accounts of a packet that is settled cover it. -/
theorem Accounts.settle (h : w.Accounts) {data : List UInt8}
    (hworker : w.worker = some (data, .settle)) (hlock : w.lock = .free) :
    Accounts { w with
      worker := none
      queuedBytes := w.queuedBytes - sizeOf64 data
      queuedPackets := w.queuedPackets - 1 } := by
  have hcons : w.unfinished = data :: w.queue.filterMap Job.data := by
    simp [unfinished, hworker]
  have hmem : data ∈ w.unfinished := by rw [hcons]; exact mem_cons_self
  have hqueued := toNat_sub_size (h.length_le hmem)
  have hbytes := h.bytes
  have hpackets := h.packets
  rw [hcons, map_cons, sum_cons] at hbytes
  rw [hcons, length_cons] at hpackets
  have hcount : (w.queuedPackets - 1).toNat = w.queuedPackets.toNat - 1 :=
    UInt64.toNat_sub_of_le _ _ (UInt64.le_iff_toNat_le.mpr
      (by rw [hpackets]; exact Nat.le_add_left ..))
  refine ⟨?_, hcount.trans ?_, (Nat.le_of_add_right_le hqueued.le).trans h.bytes_le,
    hcount.trans_le ((Nat.sub_le _ _).trans h.packets_le), fun data heq => ?_, fun _ _ heq => ?_⟩
  · show (w.queuedBytes - sizeOf64 data).toNat
      = ((w.queue.filterMap Job.data).map List.length).sum
    omega
  · rw [hpackets, Nat.add_sub_cancel]
    rfl
  · rw [show _ = Lock.free from hlock] at heq
    cases heq
  · rw [show _ = Lock.free from hlock] at heq
    cases heq

/-- **The accounts are kept.** -/
theorem Accounts.step (h : w.Accounts) (e : Effect w buffered a w' buffered') : w'.Accounts := by
  cases e with
  | enter hlock hne hsize =>
    exact h.relock (fun data heq => by cases heq) (fun data deadline heq => by cases heq; exact hsize)
  | refuse => exact h.unlock (.inl rfl)
  | bound hlock hcancelled hfull =>
    refine h.relock (fun data heq => ?_) (fun _ _ heq => by cases heq)
    cases heq
    exact fits_of_full (h.entered _ _ hlock) hfull
  | load hlock =>
    refine h.relock (fun data heq => ?_) (fun _ _ heq => by cases heq)
    cases heq
    exact h.admits _ hlock
  | reserve hlock =>
    refine h.relock (fun data heq => ?_) (fun _ _ heq => by cases heq)
    cases heq
    exact h.admits _ (by rw [hlock]; rfl)
  | accept hlock => exact h.accept hlock
  | giveUp => exact h.unlock (.inl rfl)
  | cancel =>
    have hlocked : Accounts { w with lock := .cancelling } := h.unlock (.inr rfl)
    exact hlocked.congr rfl rfl rfl rfl rfl
  | dispatchClose =>
    have hlocked : Accounts { w with lock := .free } := h.unlock (.inl rfl)
    exact hlocked.congr (by simp [unfinished, Job.data]) rfl rfl rfl rfl
  | takePacket hworker hqueue =>
    exact h.congr (by simp [unfinished, hworker, hqueue, Job.data]) rfl rfl rfl rfl
  | takeClose hworker hqueue =>
    refine h.congr ?_ rfl rfl rfl rfl
    simp only [unfinished, hqueue, filterMap_cons_none (show Job.data .close = none from rfl)]
  | work hworker => exact h.congr (by simp [unfinished, hworker]) rfl rfl rfl rfl
  | finish hworker => exact h.congr (by simp [unfinished, hworker]) rfl rfl rfl rfl
  | settle hworker hlock => exact h.settle hworker hlock

/-! ## The order -/

/-- **The order of what a writer writes.** -/
structure InOrder (w : AsyncWriter) : Prop where
  /-- Nothing is missing, as long as no packet has failed. -/
  whole : w.failed = false → (∀ data, w.worker ≠ some (data, .returned false)) →
    w.wire ++ w.owed = w.accepted.flatten
  sound : w.wire <+: w.accepted.flatten
  /-- Nothing is written any more once one has. -/
  stopped : w.failed = true →
    w.cancelled = true ∧ ∀ data stage, w.worker = some (data, stage) → stage.writing = false

theorem inOrder_new (socket : Bool) (limit : UInt64) : (new socket limit).InOrder where
  whole _ _ := rfl
  sound := List.nil_prefix
  stopped h := by cases h

/-- The rest of a writer does not matter. -/
theorem InOrder.congr (h : w.InOrder) (ho : w'.owed = w.owed) (hw : w'.wire = w.wire)
    (ha : w'.accepted = w.accepted) (hf : w'.failed = w.failed)
    (hc : w.cancelled = true → w'.cancelled = true)
    (hr : (∀ data, w'.worker ≠ some (data, .returned false)) →
      ∀ data, w.worker ≠ some (data, .returned false))
    (hs : (∀ data stage, w.worker = some (data, stage) → stage.writing = false) →
      ∀ data stage, w'.worker = some (data, stage) → stage.writing = false) : w'.InOrder where
  whole hfailed hok := by
    rw [hw, ho, ha]
    exact h.whole (hf ▸ hfailed) (hr hok)
  sound := by
    rw [hw, ha]
    exact h.sound
  stopped hfailed := by
    obtain ⟨hcancelled, hquiet⟩ := h.stopped (hf ▸ hfailed)
    exact ⟨hc hcancelled, hs hquiet⟩

/-- A packet is accepted: it is owed. -/
theorem InOrder.accept (h : w.InOrder) {data : List UInt8} {deadline : ℤ}
    {queuedBytes queuedPackets : UInt64} :
    InOrder { w with
      lock := .free
      queuedBytes
      queuedPackets
      queue := w.queue ++ [.packet data deadline]
      accepted := w.accepted ++ [data] } where
  whole hfailed hok := by
    show w.wire ++ owed { w with queue := w.queue ++ [.packet data deadline] }
      = (w.accepted ++ [data]).flatten
    have howed : owed { w with queue := w.queue ++ [.packet data deadline] } = w.owed ++ data := by
      simp [owed, Job.data]
    rw [howed, ← append_assoc, h.whole hfailed hok]
    simp
  sound := by
    show w.wire <+: (w.accepted ++ [data]).flatten
    rw [flatten_append]
    exact h.sound.trans (prefix_append _ _)
  stopped := h.stopped

/-- **The worker goes on**: it writes from what is owed, or its packet fails. -/
theorem InOrder.work (h : w.InOrder) {data : List UInt8} {stage stage' : Stage}
    {input : WorkerInput} (hworker : w.worker = some (data, stage))
    (ha : stage.Advances data w.cancelled input stage') :
    InOrder { w with worker := some (data, stage'), wire := w.wire ++ stage.takes input } := by
  have howed : w.owed = stage.rest data ++ (w.queue.filterMap Job.data).flatten := by
    simp [owed, hworker]
  have hwhole : w.failed = false → w.wire ++ (stage.rest data
      ++ (w.queue.filterMap Job.data).flatten) = w.accepted.flatten := by
    intro hfailed
    rw [← howed]
    refine h.whole hfailed (fun d heq => ha.before ?_)
    rw [hworker] at heq
    exact (Prod.mk.inj (Option.some.inj heq)).2
  refine ⟨fun hfailed hok => ?_, ?_, fun hfailed => ?_⟩
  · have hrest := ha.rest.resolve_left (fun heq => hok data (by rw [heq]))
    show w.wire ++ stage.takes input ++ owed { w with worker := some (data, stage') } = _
    rw [show owed { w with worker := some (data, stage') }
        = stage'.rest data ++ (w.queue.filterMap Job.data).flatten by simp [owed],
      append_assoc, ← append_assoc (stage.takes input), ← hrest]
    exact hwhole hfailed
  · show w.wire ++ stage.takes input <+: w.accepted.flatten
    cases hfailed : w.failed with
    | false =>
      rw [← hwhole hfailed]
      exact prefix_append_right_inj _ |>.mpr (ha.taken.trans (prefix_append _ _))
    | true =>
      rw [ha.quiet ((h.stopped hfailed).2 data stage hworker), append_nil]
      exact h.sound
  · obtain ⟨hcancelled, hquiet⟩ := h.stopped hfailed
    refine ⟨hcancelled, fun d s heq => ?_⟩
    obtain ⟨rfl, rfl⟩ := Prod.mk.inj (Option.some.inj heq)
    exact ha.stopped hcancelled (hquiet data stage hworker)

/-- The block of a packet ends: if it has failed, the writer is stopped. -/
theorem InOrder.finish (h : w.InOrder) {data : List UInt8} {ok : Bool}
    (hworker : w.worker = some (data, .returned ok)) {shut : Bool} :
    InOrder { w with
      worker := some (data, .settle)
      cancelled := w.cancelled || !ok
      shut
      failed := w.failed || !ok } where
  whole hfailed _ := by
    obtain ⟨hfailed, hok⟩ := Bool.or_eq_false_iff.mp hfailed
    have hreturned : ∀ d, w.worker ≠ some (d, .returned false) := by
      intro d heq
      rw [hworker] at heq
      cases heq
      cases hok
    show w.wire ++ owed { w with worker := some (data, .settle) } = w.accepted.flatten
    rw [← h.whole hfailed hreturned]
    simp [owed, hworker, Stage.rest]
  sound := h.sound
  stopped hfailed := by
    refine ⟨?_, fun d s heq => by cases heq; rfl⟩
    rcases Bool.or_eq_true_iff.mp hfailed with hfailed | hok
    · exact Bool.or_eq_true_iff.mpr (.inl (h.stopped hfailed).1)
    · exact Bool.or_eq_true_iff.mpr (.inr hok)

/-- **The order is kept.** -/
theorem InOrder.step (h : w.InOrder) (e : Effect w buffered a w' buffered') : w'.InOrder := by
  cases e with
  | accept => exact h.accept
  | cancel => exact h.congr rfl rfl rfl rfl (fun _ => rfl) id id
  | dispatchClose =>
    exact h.congr (by simp [owed, Job.data]) rfl rfl rfl id id id
  | takePacket hworker hqueue =>
    refine h.congr ?_ rfl rfl rfl id (fun _ d heq => by rw [hworker] at heq; cases heq) ?_
    · simp [owed, hworker, hqueue, Job.data, Stage.rest]
    · intro _ d s heq
      cases heq
      rfl
  | takeClose hworker hqueue =>
    refine h.congr ?_ rfl rfl rfl id id id
    simp only [owed, hqueue, filterMap_cons_none (show Job.data .close = none from rfl)]
  | work hworker ha => exact h.work hworker ha
  | finish hworker => exact h.finish hworker
  | settle hworker hlock =>
    refine h.congr ?_ rfl rfl rfl id (fun _ d heq => by rw [hworker] at heq; cases heq)
      (fun _ d s heq => by cases heq)
    simp [owed, hworker, Stage.rest]
  | _ => exact h.congr rfl rfl rfl rfl id id id

/-! ## The closing -/

/-- **How a writer closes its descriptor.** -/
structure Closing (w : AsyncWriter) : Prop where
  last : w.queue.Pairwise (fun a b => a = .close → b = .close)
  cancelling : w.lock = .cancelling → w.cancelled = true
  /-- Nothing is let in any more. -/
  closing : Job.close ∈ w.queue ∨ w.isOpen = false →
    w.cancelled = true ∧ w.lock.admitted = none
  closed : w.isOpen = false → w.worker = none ∧ ∀ job ∈ w.queue, job = .close

theorem closing_new (socket : Bool) (limit : UInt64) : (new socket limit).Closing where
  last := List.Pairwise.nil
  cancelling h := by cases h
  closing h := by rcases h with h | h <;> cases h
  closed h := by cases h

/-- The lock changes hands, and lets in nothing that it did not before. -/
theorem Closing.relock (h : w.Closing) (hcancelling : lock ≠ .cancelling)
    (hadmitted : w.lock.admitted = none → w.cancelled = true → lock.admitted = none) :
    Closing { w with lock } where
  last := h.last
  cancelling heq := absurd heq hcancelling
  closing hc := by
    obtain ⟨hcancelled, hnone⟩ := h.closing hc
    exact ⟨hcancelled, hadmitted hnone hcancelled⟩
  closed := h.closed

/-- **The closing is kept.** -/
theorem Closing.step (h : w.Closing) (e : Effect w buffered a w' buffered') : w'.Closing := by
  cases e with
  | enter => exact h.relock (by simp) (fun _ _ => rfl)
  | refuse => exact h.relock (by simp) (fun _ _ => rfl)
  | bound _ hcancelled =>
    refine h.relock (by simp) (fun _ hc => ?_)
    rw [hcancelled] at hc
    cases hc
  | load hlock =>
    refine h.relock (by simp) (fun hnone _ => ?_)
    rw [hlock] at hnone
    cases hnone
  | reserve hlock =>
    refine h.relock (by simp) (fun hnone _ => ?_)
    rw [hlock] at hnone
    cases hnone
  | @accept data deadline hlock =>
    have hopen : ¬ (Job.close ∈ w.queue ∨ w.isOpen = false) := by
      intro hc
      have hnone := (h.closing hc).2
      rw [hlock] at hnone
      cases hnone
    obtain ⟨hqueue, hisOpen⟩ := not_or.mp hopen
    refine ⟨?_, fun heq => (by cases heq), fun hc => ?_, fun hc => absurd hc hisOpen⟩
    · refine pairwise_append.mpr ⟨h.last, pairwise_singleton _ _, ?_⟩
      rintro job hjob - - rfl
      exact absurd hjob hqueue
    · rcases hc with hc | hc
      · simp [hqueue] at hc
      · exact absurd hc hisOpen
  | giveUp => exact h.relock (by simp) (fun _ _ => rfl)
  | cancel =>
    exact ⟨h.last, fun _ => rfl, fun _ => ⟨rfl, rfl⟩, h.closed⟩
  | dispatchClose hlock =>
    refine ⟨?_, fun heq => (by cases heq), fun _ => ⟨h.cancelling hlock, rfl⟩, fun hc => ?_⟩
    · refine pairwise_append.mpr ⟨h.last, pairwise_singleton _ _, ?_⟩
      intro _ _ job hjob _
      exact mem_singleton.mp hjob
    · obtain ⟨hworker, hqueue⟩ := h.closed hc
      exact ⟨hworker, Slots.forall_mem_concat hqueue rfl⟩
  | takePacket hworker hqueue =>
    have hlast := h.last
    rw [hqueue] at hlast
    refine ⟨(pairwise_cons.mp hlast).2, h.cancelling, fun hc => h.closing ?_, fun hc => ?_⟩
    · exact hc.imp_left (fun hmem => by rw [hqueue]; exact mem_cons_of_mem _ hmem)
    · cases (h.closed hc).2 _ (by rw [hqueue]; exact mem_cons_self)
  | takeClose hworker hqueue =>
    have hlast := h.last
    rw [hqueue] at hlast
    obtain ⟨hall, hrest⟩ := pairwise_cons.mp hlast
    exact ⟨hrest, h.cancelling, fun _ => h.closing (.inl (by rw [hqueue]; exact mem_cons_self)),
      fun _ => ⟨hworker, fun job hjob => hall job hjob rfl⟩⟩
  | work hworker =>
    refine ⟨h.last, h.cancelling, h.closing, fun hc => ?_⟩
    have hnone := (h.closed hc).1
    rw [hworker] at hnone
    cases hnone
  | finish hworker =>
    refine ⟨h.last, fun heq => Bool.or_eq_true_iff.mpr (.inl (h.cancelling heq)), fun hc => ?_,
      fun hc => ?_⟩
    · exact ⟨Bool.or_eq_true_iff.mpr (.inl (h.closing hc).1), (h.closing hc).2⟩
    · have hnone := (h.closed hc).1
      rw [hworker] at hnone
      cases hnone
  | settle => exact ⟨h.last, h.cancelling, h.closing, fun hc => ⟨rfl, (h.closed hc).2⟩⟩

/-! ## The count of buffered bytes -/

theorem held_congr (hu : w'.unfinished = w.unfinished)
    (hr : w'.lock.reservation = w.lock.reservation) : w'.held = w.held := by
  unfold held
  rw [hu, hr]

/-- A packet that is held is part of what is held. -/
theorem length_le_held {data : List UInt8} (h : data ∈ w.unfinished ++ w.lock.reservation) :
    data.length ≤ w.held :=
  le_sum_of_mem (mem_map_of_mem h)

/-- **A writer changes the count by what it holds more or less**, and it does
not exceed the limit. -/
theorem Accounts.count (h : w.Accounts) (hheld : w.held ≤ buffered.toNat)
    (hle : buffered ≤ JUICE_IO_GLOBAL_BYTES) (e : Effect w buffered a w' buffered') :
    buffered'.toNat + w.held = buffered.toNat + w'.held ∧ buffered' ≤ JUICE_IO_GLOBAL_BYTES := by
  have hsame : w'.held = w.held → buffered' = buffered →
      buffered'.toNat + w.held = buffered.toNat + w'.held ∧ buffered' ≤ JUICE_IO_GLOBAL_BYTES := by
    rintro heq rfl
    exact ⟨by rw [heq], hle⟩
  have hless : ∀ {data : List UInt8}, data.length ≤ w.held → w'.held + data.length = w.held →
      buffered' = buffered - sizeOf64 data →
      buffered'.toNat + w.held = buffered.toNat + w'.held ∧ buffered' ≤ JUICE_IO_GLOBAL_BYTES := by
    rintro data hdata heq rfl
    have hsub := toNat_sub_size (hdata.trans hheld)
    refine ⟨by omega, UInt64.le_iff_toNat_le.mpr ?_⟩
    exact (Nat.le_of_add_right_le hsub.le).trans (UInt64.le_iff_toNat_le.mp hle)
  cases e with
  | enter hlock => exact hsame (held_congr rfl (by rw [hlock]; rfl)) rfl
  | refuse hlock => exact hsame (held_congr rfl (by rw [hlock]; rfl)) rfl
  | bound hlock => exact hsame (held_congr rfl (by rw [hlock]; rfl)) rfl
  | load _ hlock => exact hsame (held_congr rfl (by rw [hlock]; rfl)) rfl
  | @reserve data deadline hlock hsize htotal =>
    have heq : (sizeOf64 data).toNat = data.length :=
      toNat_size_of_le (h.admits data (by rw [hlock]; rfl)).1
    rw [UInt64.le_iff_toNat_le, UInt64.toNat_sub_of_le _ _ hsize] at htotal
    have hle' : buffered.toNat + data.length ≤ JUICE_IO_GLOBAL_BYTES.toNat := by
      rw [UInt64.le_iff_toNat_le] at hsize
      omega
    have hadd := toNat_add_size hle'
    have hmore : held { w with lock := .reserved data deadline } = w.held + data.length := by
      simp [held, hlock, unfinished, Lock.reservation]
      omega
    refine ⟨?_, ?_⟩
    · rw [hadd, hmore]
      omega
    · rw [UInt64.le_iff_toNat_le, hadd]
      exact hle'
  | @accept data deadline hlock =>
    refine hsame ?_ rfl
    unfold held
    simp [hlock, unfinished, Job.data, Lock.reservation]
  | @giveUp data deadline hlock =>
    refine hless (length_le_held ?_) ?_ rfl
    · rw [hlock]
      exact mem_append_right _ (mem_singleton_self data)
    · simp [held, hlock, unfinished, Lock.reservation]
      omega
  | cancel hlock => exact hsame (held_congr rfl (by rw [hlock]; rfl)) rfl
  | dispatchClose hlock =>
    exact hsame (held_congr (by simp [unfinished, Job.data]) (by rw [hlock]; rfl)) rfl
  | takePacket hworker hqueue =>
    exact hsame (held_congr (by simp [unfinished, hworker, hqueue, Job.data]) rfl) rfl
  | takeClose hworker hqueue =>
    refine hsame (held_congr ?_ rfl) rfl
    simp only [unfinished, hqueue, filterMap_cons_none (show Job.data .close = none from rfl)]
  | work hworker => exact hsame (held_congr (by simp [unfinished, hworker]) rfl) rfl
  | finish hworker => exact hsame (held_congr (by simp [unfinished, hworker]) rfl) rfl
  | @settle data hworker hlock =>
    refine hless (length_le_held ?_) ?_ rfl
    · exact mem_append_left _ (by simp [unfinished, hworker])
    · simp [held, hlock, unfinished, hworker, Lock.reservation]
      omega

end AsyncWriter

/-! ## All writers -/

namespace Writers

variable {s s' : Writers}

/-- **What holds of the writers together.** -/
structure Inv (s : Writers) : Prop where
  accounts : ∀ w ∈ s.writers, w.Accounts
  inOrder : ∀ w ∈ s.writers, w.InOrder
  closing : ∀ w ∈ s.writers, w.Closing
  total : s.buffered.toNat = (s.writers.map AsyncWriter.held).sum
  total_le : s.buffered ≤ JUICE_IO_GLOBAL_BYTES

theorem inv_start : machine.start.Inv where
  accounts _ h := by cases h
  inOrder _ h := by cases h
  closing _ h := by cases h
  total := rfl
  total_le := by decide

/-- **What an action does.** -/
inductive Effect (s : Writers) : Action → Writers → Prop
  | new {socket : Bool} {limit : UInt64} :
      Effect s (.new socket limit) { s with writers := s.writers ++ [.new socket limit] }
  | writer {i : ℕ} {w w' : AsyncWriter} {buffered : UInt64} {a : AsyncWriter.Action}
      (hw : s.writers[i]? = some w) (e : AsyncWriter.Effect w s.buffered a w' buffered) :
      Effect s (.writer i a) ⟨buffered, s.writers.set i w'⟩

theorem effect_of_step {a : Action} (hst : s.step a = some s') : Effect s a s' := by
  cases a with
  | new socket limit =>
    simp only [step, Option.ite_none_right_eq_some, Option.some.injEq] at hst
    obtain ⟨-, rfl⟩ := hst
    exact .new
  | writer i a =>
    simp only [step] at hst
    split at hst
    · rename_i w hw
      obtain ⟨⟨w', buffered⟩, hstep, rfl⟩ := Option.map_eq_some_iff.mp hst
      exact .writer hw (AsyncWriter.effect_of_step hstep)
    · cases hst

theorem Inv.step (h : s.Inv) {a : Action} (e : Effect s a s') : s'.Inv := by
  cases e with
  | @new socket limit =>
    refine ⟨Slots.forall_mem_concat h.accounts (AsyncWriter.accounts_new socket limit),
      Slots.forall_mem_concat h.inOrder (AsyncWriter.inOrder_new socket limit),
      Slots.forall_mem_concat h.closing (AsyncWriter.closing_new socket limit), ?_, h.total_le⟩
    show s.buffered.toNat = ((s.writers ++ [AsyncWriter.new socket limit]).map AsyncWriter.held).sum
    rw [h.total, map_append, sum_append]
    rfl
  | @writer i w w' buffered a hw e =>
    have hmem := mem_of_getElem? hw
    have hheld : w.held ≤ s.buffered.toNat := by
      rw [h.total]
      exact Slots.le_sum_map hw AsyncWriter.held
    obtain ⟨hdelta, hle⟩ := (h.accounts w hmem).count hheld h.total_le e
    refine ⟨Slots.forall_mem_set h.accounts i ((h.accounts w hmem).step e),
      Slots.forall_mem_set h.inOrder i ((h.inOrder w hmem).step e),
      Slots.forall_mem_set h.closing i ((h.closing w hmem).step e), ?_, hle⟩
    have hsum := Slots.sum_map_set hw AsyncWriter.held w'
    have htotal := h.total
    show buffered.toNat = ((s.writers.set i w').map AsyncWriter.held).sum
    omega

theorem inv_of_reachable (h : machine.Reachable s) : s.Inv :=
  h.invariant (I := Inv) inv_start (fun _ _ _ _ hinv hst => hinv.step (effect_of_step hst))

/-- A writer that has failed writes nothing any more, whatever happens. -/
theorem stopped_of_failed (h : machine.Reachable s) {i : ℕ} {w : AsyncWriter}
    (hw : s.writers[i]? = some w) (hfailed : w.failed = true) (hfrom : machine.ReachableFrom s s') :
    ∃ w', s'.writers[i]? = some w' ∧ w'.failed = true ∧ w'.wire = w.wire := by
  refine hfrom.invariant (I := fun t => machine.Reachable t
    ∧ ∃ w', t.writers[i]? = some w' ∧ w'.failed = true ∧ w'.wire = w.wire)
    ⟨h, w, hw, hfailed, rfl⟩ ?_ |>.2
  rintro t a t' - ⟨hreach, w', hw', hfailed', hwire⟩ hst
  refine ⟨hreach.step hst, ?_⟩
  have heff : Effect t a t' := effect_of_step hst
  cases heff with
  | new =>
    refine ⟨w', ?_, hfailed', hwire⟩
    exact (List.getElem?_append_left (List.getElem?_eq_some_iff.mp hw').1).trans hw'
  | @writer j u u' buffered a hu e =>
    by_cases hij : j = i
    · subst hij
      obtain rfl := Option.some.inj (hw'.symm.trans hu)
      obtain ⟨-, hquiet⟩ := ((inv_of_reachable hreach).inOrder w' (mem_of_getElem? hw')).stopped
        hfailed'
      refine ⟨u', Slots.getElem?_set_self hw' u', ?_⟩
      cases e with
      | work hworker ha =>
        refine ⟨hfailed', ?_⟩
        rw [ha.quiet (hquiet _ _ hworker), append_nil]
        exact hwire
      | finish =>
        refine ⟨?_, hwire⟩
        show (w'.failed || _) = true
        rw [hfailed', Bool.true_or]
      | _ => exact ⟨hfailed', hwire⟩
    · exact ⟨w', (List.getElem?_set_ne hij).trans hw', hfailed', hwire⟩

/-- **Ordered, bounded writers.** -/
structure Orderly (s : Writers) : Prop where
  /-- What is written is a prefix of what was accepted. -/
  sound : ∀ w ∈ s.writers, w.wire <+: w.accepted.flatten
  /-- Nothing follows a packet that failed, timed out or was cancelled. -/
  stopped : ∀ (i : ℕ) (w : AsyncWriter), s.writers[i]? = some w → w.failed = true →
    ∀ s', machine.ReachableFrom s s' → ∃ w', s'.writers[i]? = some w' ∧ w'.wire = w.wire
  bounded : ∀ w ∈ s.writers, w.queuedBytes ≤ w.limit ∧ w.queuedPackets ≤ JUICE_IO_MAX_PACKETS
  /-- The count is that of the packets accepted and not settled, and of what
  is reserved for a packet about to be accepted. -/
  counted : s.buffered.toNat = (s.writers.map (fun w =>
    ((w.unfinished ++ w.lock.reservation).map List.length).sum)).sum
  count_le : s.buffered ≤ JUICE_IO_GLOBAL_BYTES
  /-- What is subtracted was added. -/
  covered : ∀ w ∈ s.writers,
    (∀ data ∈ w.unfinished, sizeOf64 data ≤ w.queuedBytes ∧ 1 ≤ w.queuedPackets)
      ∧ ∀ data ∈ w.unfinished ++ w.lock.reservation, sizeOf64 data ≤ s.buffered
  drained : (∀ w ∈ s.writers, w.unfinished = [] ∧ w.lock.reservation = []) → s.buffered = 0
  /-- Nothing is written once the descriptor is closed. -/
  openAtSend : ∀ w ∈ s.writers, ∀ data rest deadline,
    w.worker = some (data, .send rest deadline) → w.isOpen = true

/-- **The writers are orderly in every reachable state.** -/
theorem orderly_of_reachable (s : Writers) (h : machine.Reachable s) : s.Orderly := by
  have hinv := inv_of_reachable h
  refine ⟨fun w hw => (hinv.inOrder w hw).sound, ?_, fun w hw => ?_, hinv.total, hinv.total_le,
    fun w hw => ⟨fun data hdata => ?_, fun data hdata => ?_⟩, fun hdrained => ?_, ?_⟩
  · intro i w hw hfailed s' hfrom
    obtain ⟨w', hw', -, hwire⟩ := stopped_of_failed h hw hfailed hfrom
    exact ⟨w', hw', hwire⟩
  · have hacc := hinv.accounts w hw
    exact ⟨UInt64.le_iff_toNat_le.mpr hacc.bytes_le, UInt64.le_iff_toNat_le.mpr hacc.packets_le⟩
  · have hacc := hinv.accounts w hw
    refine ⟨UInt64.le_iff_toNat_le.mpr ?_, UInt64.le_iff_toNat_le.mpr ?_⟩
    · rw [hacc.size_eq hdata]
      exact hacc.length_le hdata
    · rw [hacc.packets]
      exact length_pos_of_mem hdata
  · obtain ⟨i, hi⟩ := List.getElem?_of_mem hw
    have hle : data.length ≤ s.buffered.toNat := by
      rw [hinv.total]
      exact (AsyncWriter.length_le_held hdata).trans (Slots.le_sum_map hi AsyncWriter.held)
    rw [UInt64.le_iff_toNat_le, toNat_sizeOf64 (lt_of_le_of_lt hle s.buffered.toNat_lt)]
    exact hle
  · apply UInt64.toNat_inj.mp
    rw [hinv.total]
    refine sum_eq_zero (fun n hn => ?_)
    obtain ⟨w, hw, rfl⟩ := mem_map.mp hn
    obtain ⟨hunfinished, hreservation⟩ := hdrained w hw
    unfold AsyncWriter.held
    rw [hunfinished, hreservation]
    rfl
  · intro w hw data rest deadline hworker
    by_contra hclosed
    have hnone := ((hinv.closing w hw).closed (by simpa using hclosed)).1
    rw [hworker] at hnone
    cases hnone

/-- What a thread does that has a packet accepted. -/
def enqueues (i : ℕ) (data : List UInt8) : List Action :=
  [.enter data 0, .check, .load, .exchange false, .copy true].map (.writer i)

/-- The worker has begun with a packet, and is about to write. -/
def begins (i : ℕ) : List Action :=
  [.take, .work (.clock 5), .work (.flags true), .work (.clock 5), .work .test,
    .work (.clock 5)].map (.writer i)

/-- A writer has two packets, writes a part of the first, and is cancelled;
another one has a packet too. -/
def cancelled : List Action :=
  [.new true 4, .new false 8] ++ enqueues 0 [1, 2] ++ enqueues 0 [3, 4] ++ enqueues 1 [5]
    ++ begins 0 ++ [.work (.sent (.wrote 1)), .cancel, .dispatchClose, .work .test, .finish,
      .settle, .take, .work (.clock 5), .work (.flags true), .work (.clock 5), .work .test,
      .finish].map (.writer 0)

/-- The second packet of the first writer is not written. -/
theorem orderly_cancelled : ∃ s, machine.run cancelled = some s
    ∧ s.buffered = 3 ∧ s.writers.map AsyncWriter.wire = [[1], []]
    ∧ s.writers.map AsyncWriter.accepted = [[[1, 2], [3, 4]], [[5]]] ∧ s.Orderly := by
  obtain ⟨s, hs, hbuffered, hwire, haccepted⟩ : ∃ s, machine.run cancelled = some s
      ∧ s.buffered = 3 ∧ s.writers.map AsyncWriter.wire = [[1], []]
      ∧ s.writers.map AsyncWriter.accepted = [[[1, 2], [3, 4]], [[5]]] := by
    decide +kernel
  exact ⟨s, hs, hbuffered, hwire, haccepted, orderly_of_reachable s (.of_run hs)⟩

end Writers

end Juice
