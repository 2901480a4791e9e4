import Juice.Host.MainQueue
import Juice.Host.Routes
import Juice.Host.Serving

/-!
# Descriptors name the connections they were stored for

A descriptor in a route of the controller is a number, and the number of a
connection that was closed is soon that of another one. What keeps the
routes right is the order in which a connection ends: its frames are taken
down, so that none is presented for it any more; the blocks it has queued
run, and then its last block, which takes the number out of the routes; and
only then is it closed.

This holds of the routes, and fails of the one copy that is no route:
`lastLegacyClient` keeps the number of the connection that had the last
frame presented, and switching multi-window mode off makes it the active
one, whatever connection the number is of by then.
-/

namespace Juice

open Function List JuiceMsg

/-! ## Frames belong to readers -/

namespace Frames

variable {fs fs' : Frames} {fd : Fd}

/-- The frame was there before, with the same owner. -/
def OwnerKept (fs fs' : Frames) (f : ℕ) : Prop :=
  f < fs.next ∧ (fs.heap f).invalidated = false ∧ (fs.heap f).clientFD = (fs'.heap f).clientFD

/-- The owner of a frame is who it was before, or a given descriptor. -/
def OwnersFrom (fs fs' : Frames) (fd : Fd) : Prop :=
  ∀ f, f < fs'.next → (fs'.heap f).invalidated = false → (fs'.heap f).clientFD = fd
    ∨ fs.OwnerKept fs' f

theorem OwnersFrom.refl (fs : Frames) (fd : Fd) : fs.OwnersFrom fs fd :=
  fun _ hf hlive => .inr ⟨hf, hlive, rfl⟩

theorem SameContent.ownerKept (h : fs.SameContent fs') {f : ℕ} (hf : f < fs'.next)
    (hlive : (fs'.heap f).invalidated = false) : fs.OwnerKept fs' f := by
  have hcontent := h.content_eq f
  refine ⟨h.next_eq ▸ hf, ?_, ?_⟩
  · exact (Framebuffer.congr_content (fun _ => rfl) hcontent).symm.trans hlive
  · exact (Framebuffer.congr_content (fun _ => rfl) hcontent).symm

theorem TakenDown.ownerKept (h : fs.TakenDown fs') {f : ℕ} (hf : f < fs'.next)
    (hlive : (fs'.heap f).invalidated = false) : fs.OwnerKept fs' f := by
  rcases h.heap_eq f with heq | heq
  · exact ⟨h.next_eq ▸ hf, heq ▸ hlive, by rw [heq]⟩
  · rw [heq] at hlive
    cases hlive

/-- One object has changed, and is owned by the descriptor or taken down. -/
theorem ownersFrom_modify (fs : Frames) (f : ℕ) {g : Framebuffer → Framebuffer}
    (hg : (g (fs.heap f)).clientFD = fd ∨ (g (fs.heap f)).invalidated = true) :
    fs.OwnersFrom (fs.modify f g) fd := by
  intro f' hf hlive
  by_cases h : f' = f
  · subst h
    rw [modify_heap_self] at hlive ⊢
    exact .inl (hg.resolve_right (by rw [hlive]; simp))
  · have hheap := modify_heap_of_ne fs g h
    exact .inr ⟨hf, hheap ▸ hlive, by rw [hheap]⟩

theorem ownersFrom_insertNew {fs₀ : Frames} (h : fs₀.OwnersFrom fs fd) (hwnd : UInt64)
    {fb : Framebuffer} (hfb : fb.clientFD = fd) : fs₀.OwnersFrom (fs.insertNew hwnd fb) fd := by
  intro f hf hlive
  change (Function.update fs.heap fs.next fb f).invalidated = false at hlive
  show (Function.update fs.heap fs.next fb f).clientFD = fd
    ∨ _ ∧ _ ∧ _ = (Function.update fs.heap fs.next fb f).clientFD
  by_cases hnew : f = fs.next
  · rw [hnew, update_self]
    exact .inl hfb
  · rw [update_of_ne hnew] at hlive ⊢
    exact h f (lt_of_le_of_ne (Nat.le_of_lt_succ hf) hnew) hlive

theorem ownersFrom_juiceApplyFull {m : JuiceMsg} {data : List UInt8} {pid : Int32} {o : Option ℕ}
    (happly : fs.juiceApplyFull m data fd pid = (fs', o)) : fs.OwnersFrom fs' fd := by
  rcases juiceApplyFull_cases fs m data fd pid with
    heq | ⟨-, ⟨-, -, heq⟩ | ⟨f, -, -, heq⟩ | ⟨f, -, -, heq⟩⟩ <;>
    cases heq.symm.trans happly
  · exact .refl fs fd
  · exact ownersFrom_insertNew (.refl fs fd) m.hwnd rfl
  · exact ownersFrom_modify fs f (.inl rfl)
  · exact ownersFrom_insertNew (ownersFrom_modify fs f (.inr rfl)) m.hwnd rfl

end Frames

namespace Transport

variable {t t' u : Transport} {r r' : Reader} {a : ReaderAction}

/-- A reader leaves frames to their owners, or takes them while it is in its
loop. -/
theorem ReaderEffect.owner (e : ReaderEffect t r a u r') {f : ℕ} (hf : f < u.frames.next)
    (hlive : (u.frames.heap f).invalidated = false) :
    ((u.frames.heap f).clientFD = r.fd ∧ r'.pc ≠ .detaching ∧ r'.pc ≠ .closed)
      ∨ t.frames.OwnerKept u.frames f := by
  cases e with
  | destroy => exact .inr ((Frames.takenDown_juiceInvalidateHWND ..).ownerKept hf hlive)
  | full hpc hm happly =>
    exact (Frames.ownersFrom_juiceApplyFull happly f hf hlive).imp_left (fun h => ⟨h, by simp⟩)
  | merged =>
    exact (Frames.ownersFrom_modify _ _ (.inl rfl) f hf hlive).imp_left (fun h => ⟨h, by simp⟩)
  | schedule => exact .inr ((sameContent_juiceScheduleFrame ..).ownerKept hf hlive)
  | invalidate => exact .inr ((Frames.takenDown_juiceInvalidateClient ..).ownerKept hf hlive)
  | _ => exact .inr ⟨hf, hlive, rfl⟩

/-- **A frame that was not taken down belongs to a reader** that has not taken
its frames down. -/
def Owned (t : Transport) : Prop :=
  ∀ f, f < t.frames.next → (t.frames.heap f).invalidated = false →
    ∃ (c : ℕ) (r : Reader), t.readers[c]? = some r ∧ r.fd = (t.frames.heap f).clientFD
      ∧ r.pc ≠ .detaching ∧ r.pc ≠ .closed

theorem owned_start : start.Owned := fun f hf => absurd hf (Nat.not_lt_zero f)

/-- A reader that takes its frames down leaves none. -/
theorem ReaderEffect.leaves_detaching (e : ReaderEffect t r a u r') (hinv : t.Inv)
    (hr' : r'.pc = .detaching ∨ r'.pc = .closed) (hr : r.pc ≠ .detaching ∧ r.pc ≠ .closed) {f : ℕ}
    (hf : f < u.frames.next) (hlive : (u.frames.heap f).invalidated = false) :
    (u.frames.heap f).clientFD ≠ r.fd := by
  cases e with
  | invalidate =>
    obtain ⟨hlt, hlive₀, hfd⟩ := (Frames.takenDown_juiceInvalidateClient ..).ownerKept hf hlive
    have hany : t.frames.table.entries.any (fun e => e.2 = f) = true :=
      Frames.any_entries_iff.mpr ⟨_, hinv.frames.live hlt hlive₀⟩
    -- what is still there, and has this owner, would have been taken down
    intro hown
    change (if _ then _ else _ : Framebuffer).invalidated = false at hlive
    rw [if_pos ⟨hany, hfd.trans hown⟩] at hlive
    cases hlive
  | close hpc => exact absurd hpc hr.1
  | @release m leave => cases leave <;> simp at hr'
  | _ => simp at hr'

theorem Owned.step (h : t.Owned) (hinv : t.Inv) {a : Action} (hst : t.step a = some t') :
    t'.Owned := by
  cases effect_of_step hst with
  | accept =>
    intro f hf hlive
    obtain ⟨c, r, hr, hrest⟩ := h f hf hlive
    exact ⟨c, r, Slots.getElem?_concat_of_some hr _, hrest⟩
  | @reader c₀ r₀ r₀' a u hr₀ e =>
    obtain ⟨hfd, hopen⟩ := e.fd_eq
    intro f hf hlive
    rcases e.owner hf hlive with ⟨heq, hpc⟩ | ⟨hlt, hlive₀, heq⟩
    · exact ⟨c₀, r₀', Slots.getElem?_set_self hr₀ r₀', hfd.trans heq.symm, hpc⟩
    obtain ⟨c, r, hr, hrfd, hpc⟩ := h f hlt hlive₀
    by_cases hc : c₀ = c
    · -- the reader that moved has not taken its frames down, or this one would be
      subst hc
      obtain rfl : r₀ = r := Option.some.inj (hr₀.symm.trans hr)
      refine ⟨c₀, r₀', Slots.getElem?_set_self hr₀ r₀', hfd.trans (hrfd.trans heq), ?_⟩
      by_contra hleft
      rw [← not_or, not_not] at hleft
      exact e.leaves_detaching hinv hleft hpc hf hlive (hrfd.trans heq).symm
    · exact ⟨c, r, (List.getElem?_set_ne hc).trans hr, hrfd.trans heq, hpc⟩
  | delivery hd e =>
    obtain ⟨hsame, hreaders, -⟩ := e.frame
    intro f hf hlive
    obtain ⟨hlt, hlive₀, heq⟩ := hsame.ownerKept hf hlive
    obtain ⟨c, r, hr, hrfd, hrest⟩ := h f hlt hlive₀
    exact ⟨c, r, by rw [hreaders]; exact hr, hrfd.trans heq, hrest⟩

theorem owned_of_reachable (h : machine.Reachable t) : t.Owned := by
  suffices hboth : t.Inv ∧ t.Owned from hboth.2
  refine h.invariant (I := fun t => t.Inv ∧ t.Owned) ⟨inv_start, owned_start⟩ ?_
  rintro t a t' - ⟨hinv, howned⟩ hst
  exact ⟨hinv.step hst, howned.step hinv hst⟩

/-! ## Readers come and go -/

/-- A reader after an action: it keeps its descriptor, it does not come back
from its end, and it closes with an action of its own. -/
structure Later (c : ℕ) (a : Action) (r r' : Reader) : Prop where
  fd_eq : r'.fd = r.fd
  detaching : r.pc = .detaching ∨ r.pc = .closed → r'.pc = .detaching ∨ r'.pc = .closed
  closed : r'.pc = .closed → r.pc = .closed ∨ a = .reader c .close

theorem Later.refl (c : ℕ) (a : Action) (r : Reader) : Later c a r r := ⟨rfl, id, .inl⟩

theorem ReaderEffect.later (e : ReaderEffect t r a u r') (c : ℕ) : Later c (.reader c a) r r' where
  fd_eq := e.fd_eq.1
  detaching h := by
    cases e with
    | close => exact .inr rfl
    | _ hpc => simp [hpc] at h
  closed h := by
    cases e with
    | close => exact .inr rfl
    | @release m leave => cases leave <;> simp at h
    | _ => simp at h

/-- **The readers after an action** are those before it, and one more if a
connection was accepted. -/
theorem reader_of_step {a : Action} (hst : t.step a = some t') {c : ℕ} {r' : Reader}
    (hr' : t'.readers[c]? = some r') :
    (∃ r, t.readers[c]? = some r ∧ Later c a r r')
      ∨ (t.readers.length ≤ c ∧ r'.pc = .loop ∧ a = .accept r'.fd) := by
  cases effect_of_step hst with
  | accept =>
    rcases Slots.getElem?_concat_cases hr' with ⟨rfl, rfl⟩ | hold
    · exact .inr ⟨Nat.le_refl _, rfl, rfl⟩
    · exact .inl ⟨r', hold, .refl c _ r'⟩
  | @reader c₀ r₀ r₀' a u hr₀ e =>
    rcases Slots.getElem?_set_cases hr' with ⟨rfl, rfl⟩ | ⟨-, hold⟩
    · exact .inl ⟨r₀, hr₀, e.later c⟩
    · exact .inl ⟨r', hold, .refl c _ r'⟩
  | delivery hd e =>
    obtain ⟨-, hreaders, -⟩ := e.frame
    exact .inl ⟨r', hreaders ▸ hr', .refl c _ r'⟩

/-- A reader is still there after an action. -/
theorem reader_stays {a : Action} (hst : t.step a = some t') {c : ℕ} {r : Reader}
    (hr : t.readers[c]? = some r) : ∃ r', t'.readers[c]? = some r' ∧ r'.fd = r.fd := by
  have hlt : c < t'.readers.length := by
    refine lt_of_lt_of_le (List.getElem?_eq_some_iff.mp hr).1 ?_
    cases effect_of_step hst with
    | accept => simp
    | reader => simp
    | delivery hd e => rw [e.frame.2.1]
  have hr' := List.getElem?_eq_getElem hlt
  refine ⟨_, hr', ?_⟩
  rcases reader_of_step hst hr' with ⟨r₁, hr₁, hlater⟩ | ⟨hge, -⟩
  · obtain rfl : r₁ = r := Option.some.inj (hr₁.symm.trans hr)
    exact hlater.fd_eq
  · exact absurd (List.getElem?_eq_some_iff.mp hr).1 (Nat.not_lt.mpr hge)

/-- Descriptors are not negative. -/
theorem fd_nonneg_of_reachable (h : machine.Reachable t) : ∀ r ∈ t.readers, 0 ≤ r.fd := by
  refine h.invariant (I := fun t => ∀ r ∈ t.readers, 0 ≤ r.fd) (fun r hr => by cases hr) ?_
  intro t a t' _ ht hst
  have heff : Effect t a t' := effect_of_step hst
  cases heff with
  | accept hfd => exact forall_mem_append.mpr ⟨ht, forall_mem_singleton.mpr hfd⟩
  | reader hr₀ e =>
    refine Slots.forall_mem_set ht _ ?_
    rw [e.fd_eq.1]
    exact ht _ (mem_of_getElem? hr₀)
  | delivery hd e =>
    rw [e.frame.2.1]
    exact ht

end Transport

/-! ## Routes and connections -/

/-- The connection a block is about, if it stores or removes its
descriptor. -/
def Block.conn : Block → Option ℕ
  | .window conn _ _ => some conn
  | .teardown conn _ => some conn
  | _ => none

/-- Nothing of a connection comes after its last block. -/
def Block.Precedes (a b : Block) : Prop := ∀ conn fd, a = .teardown conn fd → b.conn ≠ some conn

namespace Host

variable {h h' : Host} {conn : ℕ} {fd : Fd} {r : Reader}

/-- A connection has a descriptor, and its last block has not run. -/
def Running (h : Host) (conn : ℕ) (fd : Fd) : Prop :=
  ∃ r, h.transport.readers[conn]? = some r ∧ r.fd = fd ∧ h.ending conn ≠ .done

/-- A descriptor that is stored is none, or that of a connection whose last
block has not run. -/
def Attached (h : Host) (client : Client) : Prop :=
  client.fd = -1 ∨ ∃ conn, client.conn = some conn ∧ h.Running conn client.fd

/-- What is known of a block that is queued. -/
def Pending (h : Host) : Block → Prop
  | .window conn fd _ => h.Running conn fd
  | .teardown conn fd => h.Running conn fd ∧ h.ending conn = .queued
  | _ => True

/-- **Routes name connections whose last block has not run**, and a
connection is closed after its last block. -/
structure Identity (h : Host) : Prop where
  ended : ∀ {c r}, h.transport.readers[c]? = some r → h.ending c ≠ .none →
    r.pc = .detaching ∨ r.pc = .closed
  closed : ∀ {c r}, h.transport.readers[c]? = some r → r.pc = .closed → h.ending c = .done
  unborn : ∀ c, h.transport.readers.length ≤ c → h.ending c = .none
  blocks : ∀ b ∈ h.main, h.Pending b
  fifo : h.main.Pairwise Block.Precedes
  presenting : ∀ s, h.presenting = some s → ∃ conn, h.Running conn s.clientFD
  routes : h.controller.Holds h.Attached

theorem attached_nobody (h : Host) : h.Attached .nobody := .inl rfl

theorem identity_start (multi : Bool) : (start multi).Identity where
  ended hr := by cases hr
  closed hr := by cases hr
  unborn _ _ := rfl
  blocks _ hb := by cases hb
  fifo := .nil
  presenting _ hs := by cases hs
  routes := Controller.holds_start (attached_nobody _) multi

/-- The readers are still there, and no more last blocks have run. -/
structure Persists (h h' : Host) : Prop where
  reader : ∀ {c : ℕ} {r : Reader}, h.transport.readers[c]? = some r →
    ∃ r' : Reader, h'.transport.readers[c]? = some r' ∧ r'.fd = r.fd
  ending : ∀ {c}, h'.ending c = .done → h.ending c = .done

theorem Persists.running (hp : h.Persists h') (hrun : h.Running conn fd) : h'.Running conn fd := by
  obtain ⟨r, hr, hfd, hending⟩ := hrun
  obtain ⟨r', hr', heq⟩ := hp.reader hr
  exact ⟨r', hr', heq.trans hfd, fun hdone => hending (hp.ending hdone)⟩

theorem Persists.attached (hp : h.Persists h') {client : Client} (ha : h.Attached client) :
    h'.Attached client :=
  ha.imp_right (fun ⟨conn, hconn, hrun⟩ => ⟨conn, hconn, hp.running hrun⟩)

/-- **An action of the transport** keeps the identity of connections, if a
descriptor is closed after the last block. -/
theorem Identity.transport (hi : h.Identity) {a : Transport.Action} {transport : Transport}
    (hst : h.transport.step a = some transport)
    (hclose : ∀ c, a = .reader c .close → h.ending c = .done) : Identity { h with transport } := by
  have hp : h.Persists { h with transport } := ⟨Transport.reader_stays hst, id⟩
  refine {
    ended := fun {c r'} hr' hending => ?_
    closed := fun {c r'} hr' hpc => ?_
    unborn := fun c hc => ?_
    blocks := fun b hb => ?_
    fifo := hi.fifo
    presenting := fun s hs => (hi.presenting s hs).imp (fun _ => hp.running)
    routes := hi.routes.imp (fun _ => hp.attached) }
  · rcases Transport.reader_of_step hst hr' with ⟨r, hr, hlater⟩ | ⟨hge, -⟩
    · exact hlater.detaching (hi.ended hr hending)
    · exact absurd (hi.unborn c hge) hending
  · rcases Transport.reader_of_step hst hr' with ⟨r, hr, hlater⟩ | ⟨-, hloop, -⟩
    · rcases hlater.closed hpc with hold | rfl
      · exact hi.closed hr hold
      · exact hclose c rfl
    · rw [hloop] at hpc
      cases hpc
  · refine hi.unborn c ?_
    by_contra hlt
    obtain ⟨r', hr', -⟩ := Transport.reader_stays hst (List.getElem?_eq_getElem (Nat.lt_of_not_le hlt))
    exact absurd (List.getElem?_eq_some_iff.mp hr').1 (Nat.not_lt.mpr hc)
  · have hb' := hi.blocks b hb
    cases b with
    | window => exact hp.running hb'
    | teardown => exact ⟨hp.running hb'.1, hb'.2⟩
    | _ => trivial

/-- A block is queued by a connection that has not queued its last one. -/
theorem Identity.push (hi : h.Identity) {b : Block} (hpending : h.Pending b)
    (hnone : ∀ conn, b.conn = some conn → h.ending conn = .none) :
    Identity { h with main := h.main ++ [b] } := by
  refine { hi with
    blocks := forall_mem_append.mpr ⟨hi.blocks, forall_mem_singleton.mpr hpending⟩
    fifo := ?_ }
  refine pairwise_append.mpr ⟨hi.fifo, pairwise_singleton _ _, ?_⟩
  rintro a ha x hx conn fd rfl hconn
  rw [mem_singleton.mp hx] at hconn
  have hqueued : h.ending conn = .queued := (hi.blocks _ ha).2
  rw [hnone conn hconn] at hqueued
  cases hqueued

/-- What a reader queues with a record: nothing, or a block that does not
store its descriptor, or that of a `WINDOW`. -/
theorem dispatched_cases (h : Host) (conn : ℕ) :
    h.dispatched conn = [] ∨ (∃ b, h.dispatched conn = [b] ∧ b.conn = none ∧ h.Pending b)
      ∨ ∃ r m, h.transport.readers[conn]? = some r ∧ r.pc = .admitted m
        ∧ h.dispatched conn = [.window conn r.fd m] := by
  cases hr : h.transport.readers[conn]? with
  | none => exact .inl (by rw [dispatched, hr])
  | some r =>
    rw [dispatched, hr]
    dsimp only
    split
    · rename_i m hpc
      unfold blockOf
      split
      · exact .inr (.inl ⟨_, rfl, rfl, trivial⟩)
      split
      · exact .inr (.inr ⟨r, m, rfl, hpc, rfl⟩)
      split
      · exact .inr (.inl ⟨_, rfl, rfl, trivial⟩)
      · exact .inl rfl
    · exact .inl rfl

theorem Identity.dispatch (hi : h.Identity) {transport : Transport}
    (hst : h.transport.step (.reader conn .dispatch) = some transport) :
    Identity { h with transport, main := h.main ++ h.dispatched conn } := by
  have ht : Identity { h with transport } :=
    hi.transport hst (fun c heq => by cases heq)
  rcases h.dispatched_cases conn with hnil | ⟨b, hb, hconn, hpending⟩ | ⟨r, m, hr, hpc, hb⟩
  · rw [hnil, append_nil]
    exact ht
  · rw [hb]
    refine ht.push (b := b) ?_ (fun c hc => by rw [hconn] at hc; cases hc)
    cases b with
    | window => cases hconn
    | teardown => cases hconn
    | _ => trivial
  · have hnone : h.ending conn = .none := by
      by_contra hne
      rcases hi.ended hr hne with h' | h' <;> rw [hpc] at h' <;> cases h'
    rw [hb]
    refine ht.push (b := .window conn r.fd m) ?_ (fun c hc => Option.some.inj hc ▸ hnone)
    obtain ⟨r', hr', hfd⟩ := Transport.reader_stays hst hr
    have hrunning : ({ h with transport } : Host).ending conn ≠ .done := by
      rw [show ({ h with transport } : Host).ending conn = .none from hnone]
      simp
    exact ⟨r', hr', hfd, hrunning⟩

/-- A last block that is queued is of another connection than one that has not
queued its own. -/
theorem Identity.ne_of_teardown (hi : h.Identity) {c : ℕ} (hb : .teardown c fd ∈ h.main)
    (hending : h.ending conn = .none) : c ≠ conn := by
  rintro rfl
  have hqueued : h.ending c = .queued := (hi.blocks _ hb).2
  rw [hending] at hqueued
  cases hqueued

/-- How far a connection has ended is marked, once its reader is out of its
loop. -/
theorem Identity.marked (hi : h.Identity) (hr : h.transport.readers[conn]? = some r)
    (hpc : r.pc = .detaching ∨ r.pc = .closed) {e : Ending} (he : r.pc = .closed → e = .done) :
    (∀ {c r'}, h.transport.readers[c]? = some r' → Function.update h.ending conn e c ≠ .none →
        r'.pc = .detaching ∨ r'.pc = .closed)
      ∧ (∀ {c r'}, h.transport.readers[c]? = some r' → r'.pc = .closed →
        Function.update h.ending conn e c = .done)
      ∧ ∀ c, h.transport.readers.length ≤ c → Function.update h.ending conn e c = .none := by
  refine ⟨fun {c r'} hr' hne => ?_, fun {c r'} hr' hclosed => ?_, fun c hc => ?_⟩
  · by_cases hc : c = conn
    · cases hr.symm.trans (hc ▸ hr')
      exact hpc
    · exact hi.ended hr' (fun heq => hne ((update_of_ne hc ..).trans heq))
  · by_cases hc : c = conn
    · cases hr.symm.trans (hc ▸ hr')
      rw [hc, update_self, he hclosed]
    · rw [update_of_ne hc]
      exact hi.closed hr' hclosed
  · have hne : c ≠ conn := fun heq =>
      absurd (List.getElem?_eq_some_iff.mp hr).1 (Nat.not_lt.mpr (heq ▸ hc))
    rw [update_of_ne hne]
    exact hi.unborn c hc

theorem Identity.detach (hi : h.Identity) (hr : h.transport.readers[conn]? = some r)
    (hpc : r.pc = .detaching) (hending : h.ending conn = .none) (clients : List Fd) :
    Identity { h with
      clients
      main := h.main ++ [.teardown conn r.fd]
      ending := Function.update h.ending conn .queued } := by
  have hself : Function.update h.ending conn .queued conn = .queued := update_self ..
  have hother : ∀ {c}, c ≠ conn → Function.update h.ending conn .queued c = h.ending c :=
    fun hc => update_of_ne hc _ _
  have hdone : ∀ {c}, Function.update h.ending conn .queued c = .done → h.ending c = .done := by
    intro c hd
    by_cases hc : c = conn
    · rw [hc, hself] at hd
      cases hd
    · exact (hother hc).symm.trans hd
  have hp : h.Persists { h with
      clients
      main := h.main ++ [.teardown conn r.fd]
      ending := Function.update h.ending conn .queued } :=
    ⟨fun hr => ⟨_, hr, rfl⟩, hdone⟩
  obtain ⟨hended, hclosed, hunborn⟩ := hi.marked hr (.inl hpc) (e := .queued)
    (fun heq => by rw [hpc] at heq; cases heq)
  refine {
    ended := hended
    closed := hclosed
    unborn := hunborn
    blocks := forall_mem_append.mpr ⟨fun b hb => ?_, forall_mem_singleton.mpr ?_⟩
    fifo := ?_
    presenting := fun s hs => (hi.presenting s hs).imp (fun _ => hp.running)
    routes := hi.routes.imp (fun _ => hp.attached) }
  · have hb' := hi.blocks b hb
    cases b with
    | window => exact hp.running hb'
    | teardown c fd =>
      exact ⟨hp.running hb'.1, (hother (hi.ne_of_teardown hb hending)).trans hb'.2⟩
    | _ => trivial
  · have hrunning : Function.update h.ending conn .queued conn ≠ .done := by
      rw [hself]
      simp
    exact ⟨⟨r, hr, rfl, hrunning⟩, hself⟩
  · refine pairwise_append.mpr ⟨hi.fifo, pairwise_singleton _ _, ?_⟩
    rintro a ha x hx c fd rfl hconn
    rw [mem_singleton.mp hx] at hconn
    exact hi.ne_of_teardown ha hending (Option.some.inj hconn).symm

/-- **The last block of a connection runs**: no route names it any more. -/
theorem Identity.teardown (hi : h.Identity) (hfd : 0 ≤ fd) {rest : List Block}
    (hmain : h.main = .teardown conn fd :: rest) (hidle : h.presenting = none) :
    Identity ({ h with main := rest }.runBlock (.teardown conn fd)) := by
  obtain ⟨⟨r, hr, hrfd, -⟩, hqueued⟩ : h.Pending (.teardown conn fd) :=
    hi.blocks _ (by rw [hmain]; exact mem_cons_self)
  have hfifo := hi.fifo
  rw [hmain, pairwise_cons] at hfifo
  have hother : ∀ {c}, c ≠ conn → Function.update h.ending conn .done c = h.ending c :=
    fun hc => update_of_ne hc _ _
  have hrunning : ∀ {c fd'}, c ≠ conn → h.Running c fd' →
      Running ({ h with main := rest }.runBlock (.teardown conn fd)) c fd' :=
    fun hc ⟨r, hr, hrfd, hne⟩ => ⟨r, hr, hrfd, fun hd => hne ((hother hc).symm.trans hd)⟩
  obtain ⟨hended, hclosed, hunborn⟩ :=
    hi.marked hr (hi.ended hr (by rw [hqueued]; simp)) (e := .done) (fun _ => rfl)
  refine {
    ended := hended
    closed := hclosed
    unborn := hunborn
    blocks := fun b hb => ?_
    fifo := hfifo.2
    presenting := fun s hs => ?_
    routes := (hi.routes.invalidateWindowTransport (attached_nobody h) hfd).imp ?_ }
  · -- no block of the connection comes after its last one
    have hconn : b.conn ≠ some conn := hfifo.1 b hb conn fd rfl
    have hb' := hi.blocks b (by rw [hmain]; exact mem_cons_of_mem _ hb)
    cases b with
    | window c fd' m => exact hrunning (fun heq => hconn (congrArg some heq)) hb'
    | teardown c fd' =>
      have hne : c ≠ conn := fun heq => hconn (congrArg some heq)
      exact ⟨hrunning hne hb'.1, (hother hne).trans hb'.2⟩
    | _ => trivial
  · rw [show Host.presenting _ = h.presenting from rfl, hidle] at hs
    cases hs
  · -- a descriptor that is left is of another connection
    rintro client ⟨hattached, hne⟩
    refine hattached.imp_right (fun ⟨c, hc, hrun⟩ => ⟨c, hc, hrunning ?_ hrun⟩)
    rintro rfl
    obtain ⟨r', hr', hr'fd, -⟩ := hrun
    obtain rfl : r = r' := Option.some.inj (hr.symm.trans hr')
    exact hne (hr'fd.symm.trans hrfd)

/-- **A block runs.** -/
theorem Identity.runBlock (hi : h.Identity) (hfds : ∀ r ∈ h.transport.readers, 0 ≤ r.fd)
    {b : Block} {rest : List Block} (hmain : h.main = b :: rest) (hidle : h.presenting = none) :
    Identity ({ h with main := rest }.runBlock b) := by
  have hpending : h.Pending b := hi.blocks b (by rw [hmain]; exact mem_cons_self)
  have hrest : Identity { h with main := rest } := { hi with
    blocks := fun x hx => hi.blocks x (by rw [hmain]; exact mem_cons_of_mem _ hx)
    fifo := (pairwise_cons.mp (hmain ▸ hi.fifo)).2 }
  have hroutes := hi.routes
  have hn := attached_nobody h
  cases b with
  | desktop m => exact { hrest with routes := hroutes.congr rfl rfl rfl }
  | window conn fd m =>
    exact { hrest with
      routes := hroutes.updateWindowMessage hn m (.inr ⟨conn, rfl, hpending⟩) }
  | destroy fd hwnd =>
    exact { hrest with routes := .ite (hroutes.destroyWindowHwnd hn hwnd) hroutes }
  | teardown conn fd =>
    obtain ⟨⟨r, hr, rfl, -⟩, -⟩ := hpending
    exact hi.teardown (hfds r (mem_of_getElem? hr)) hmain hidle

/-- The connection that is open under a descriptor is the one that has not
ended. -/
theorem connection_eq (hread : h.transport.Reading) (hr : h.transport.readers[conn]? = some r)
    (hopen : r.pc ≠ .closed) : h.connection r.fd = some conn := by
  obtain ⟨hlt, hget⟩ := List.getElem?_eq_some_iff.mp hr
  refine List.findIdx?_eq_some_iff_getElem.mpr ⟨hlt, ?_, fun j hj hother => ?_⟩
  · rw [hget]
    exact decide_eq_true ⟨rfl, hopen⟩
  · obtain ⟨hfd, hpc⟩ := of_decide_eq_true hother
    exact hread.distinct j conn _ r (List.getElem?_eq_getElem (hj.trans hlt)) hr (Nat.ne_of_lt hj)
      hpc hopen hfd

theorem Identity.ne_closed (hi : h.Identity) {c : ℕ} (hr : h.transport.readers[c]? = some r)
    (hending : h.ending c ≠ .done) : r.pc ≠ .closed :=
  fun hclosed => hending (hi.closed hr hclosed)

theorem Identity.connection (hi : h.Identity) (hread : h.transport.Reading)
    (hrun : h.Running conn fd) : h.connection fd = some conn := by
  obtain ⟨r, hr, rfl, hending⟩ := hrun
  exact connection_eq hread hr (hi.ne_closed hr hending)

/-- **A frame is presented** for a connection that has not ended. -/
theorem Identity.present (hi : h.Identity) (hread : h.transport.Reading) {s : Snapshot}
    (hs : h.presenting = some s) (imaged : Bool) : (h.presentSnapshot s imaged).Identity := by
  obtain ⟨conn, hrun⟩ := hi.presenting s hs
  refine { hi with
    presenting := fun s hs => nomatch hs
    routes := ?_ }
  refine hi.routes.presentFrameMessage s.hwnd s.width s.height imaged ?_ s.peerPID
  exact .inr ⟨conn, hi.connection hread hrun, hrun⟩

/-- **The main queue decides to present a frame** of a reader that has not
taken its frames down. -/
theorem Identity.decide (hi : h.Identity) (hinv : h.transport.Inv) (howned : h.transport.Owned)
    {i : ℕ} {transport : Transport}
    (hst : h.transport.step (.delivery i .decide) = some transport) :
    Identity { h with transport, presenting := h.decided i } := by
  have ht : Identity { h with transport } := hi.transport hst (fun c heq => by cases heq)
  refine { ht with presenting := fun s hs => ?_ }
  change h.decided i = some s at hs
  unfold decided at hs
  split at hs
  · rename_i f snapshot hd
    rw [Option.ite_none_right_eq_some, Option.some.injEq] at hs
    obtain ⟨⟨hlive, hfd, -⟩, rfl⟩ := hs
    have hf : f < h.transport.frames.next := hinv.deliveries _ (mem_of_getElem? hd)
    obtain ⟨c, r, hr, hrfd, hdetaching, hclosed⟩ := howned f hf hlive
    obtain ⟨r', hr', heq⟩ := Transport.reader_stays hst hr
    refine ⟨c, r', hr', heq.trans (hrfd.trans hfd), fun hdone => ?_⟩
    rcases hi.ended hr (by rw [show h.ending c = .done from hdone]; simp) with hpc | hpc
    · exact hdetaching hpc
    · exact hclosed hpc
  · cases hs

/-- **The condition**: multi-window mode is switched off while the connection
of the frame presented last has not ended. -/
def legacyOpen (h : Host) : Action → Bool
  | .ui (.multiWindow false) => h.controller.lastLegacyClient.fd < 0
    || h.controller.lastLegacyClient.conn.any (fun conn => h.ending conn ≠ .done
      ∧ (h.transport.readers[conn]?).any (fun r => r.fd = h.controller.lastLegacyClient.fd))
  | _ => true

theorem Identity.ui (hi : h.Identity) {a : Ui} (hok : h.legacyOpen (.ui a) = true)
    {controller : Controller} (hst : h.controller.step a.action = some controller) :
    Identity ({ h with controller }.send (a.sends h.controller)) := by
  have hroutes := hi.routes
  have hn := attached_nobody h
  suffices hc : controller.Holds h.Attached by
    have hsend : ∀ {g : Host} (o : Option Controller.Sent), g.Identity → (g.send o).Identity := by
      intro g o hg
      unfold send
      split
      · exact hg
      · split
        · exact { hg with }
        · exact hg
    exact hsend _ { hi with routes := hc }
  cases a with
  | prune i alive =>
    obtain ⟨p, -, rfl⟩ := Option.map_eq_some_iff.mp hst
    exact hroutes.prune i p alive
  | composite =>
    cases hst
    exact hroutes.compositeWineDesktop
  | render =>
    simp only [Ui.action, Controller.step, Option.ite_none_right_eq_some, Option.some.injEq] at hst
    obtain ⟨-, rfl⟩ := hst
    exact hroutes.juiceRenderCompositeWineDesktop hn
  | input m =>
    cases hst
    exact hroutes.handleCanvasInput hn (Controller.inputEffect h.controller m)
  | multiWindow enabled =>
    cases hst
    refine hroutes.applyExperimentalMultiWindowEnabled hn ?_
    rintro rfl hfd
    simp only [legacyOpen, Bool.or_eq_true, decide_eq_true_eq] at hok
    rcases hok with hneg | hany
    · exact absurd hfd (not_le.mpr hneg)
    · obtain ⟨conn, hconn, hany⟩ := (Option.any_eq_true _ _).mp hany
      obtain ⟨hending, hany⟩ := of_decide_eq_true hany
      obtain ⟨r, hr, hrfd⟩ := (Option.any_eq_true _ _).mp hany
      exact .inr ⟨conn, hconn, r, hr, of_decide_eq_true hrfd, hending⟩
  | background =>
    cases hst
    exact hroutes.release hn

/-- **The invariant holds in every run that meets the condition.** -/
theorem identity_of_reachable {multi : Bool}
    (hr : ((machine multi).restrict legacyOpen).Reachable h) : h.Identity := by
  refine hr.invariant (I := Identity) (identity_start multi) ?_
  intro h a h' hreach hi hst
  obtain ⟨hok, hst⟩ := Machine.restrict_step.mp hst
  have ht := (simulates_transport multi).reachable hreach.of_restrict
  have heff : Effect h a h' := effect_of_step hst
  cases heff with
  | accept htr =>
    have hid := hi.transport htr (fun c heq => by cases heq)
    exact { hid with }
  | dispatch htr => exact hi.dispatch htr
  | close htr hdone =>
    exact hi.transport htr (fun c heq => by cases heq; exact hdone)
  | decide htr hidle =>
    exact hi.decide (Transport.inv_of_reachable ht) (Transport.owned_of_reachable ht) htr
  | inner ha htr => exact hi.transport htr (fun c heq => by subst heq; cases ha)
  | detach hr hpc hending => exact hi.detach hr hpc hending _
  | main hidle hmain => exact hi.runBlock (Transport.fd_nonneg_of_reachable ht) hmain hidle
  | present hs => exact hi.present (Transport.reading_of_reachable ht) hs _
  | ui hidle hc => exact hi.ui hok hc

/-! ## The routes name open connections -/

/-- A stored descriptor is nobody's, or the connection that is open under its
number is the one it was stored for. -/
def Names (h : Host) (client : Client) : Prop :=
  client.fd = -1 ∨ (client.conn.isSome = true ∧ h.connection client.fd = client.conn)

instance (h : Host) (client : Client) : Decidable (h.Names client) :=
  inferInstanceAs (Decidable (_ ∨ _))

/-- Every stored descriptor names the connection it was stored for. -/
structure Identified (h : Host) : Prop where
  active : h.Names h.controller.activeClient
  input : h.Names h.controller.inputClient
  windows : ∀ hwnd w, h.controller.wineWindows.lookup hwnd = some w → h.Names w.clientFD

theorem Identity.names (hi : h.Identity) (hread : h.transport.Reading) {client : Client}
    (ha : h.Attached client) : h.Names client := by
  rcases ha with hnobody | ⟨conn, hconn, hrun⟩
  · exact .inl hnobody
  · exact .inr ⟨by rw [hconn]; rfl, (hi.connection hread hrun).trans hconn.symm⟩

/-- **Every stored descriptor names the connection it was stored for**, in
every state of every run in which multi-window mode is switched off only
while the connection of the frame presented last has not ended. -/
theorem identified_of_legacyOpen (multi : Bool) (h : Host)
    (hr : ((machine multi).restrict legacyOpen).Reachable h) : h.Identified := by
  have hi := identity_of_reachable hr
  have hread : h.transport.Reading :=
    Transport.reading_of_reachable ((simulates_transport multi).reachable hr.of_restrict)
  exact ⟨hi.names hread hi.routes.active, hi.names hread hi.routes.input,
    fun hwnd w hw => hi.names hread (hi.routes.window hw)⟩

/-- A reader gets a pixel of a window, and the main queue presents it. -/
def paints (conn : ℕ) (hwnd : UInt64) : List Action :=
  [.transport (.reader conn (.header (Transport.pixel hwnd 0))),
    .transport (.reader conn .reserve), .transport (.reader conn (.payload [1, 2, 3, 4])),
    .transport (.reader conn .apply), .transport (.reader conn .schedule),
    .transport (.reader conn .release), .transport (.delivery 0 (.deliver 0 60 true)),
    .transport (.delivery 0 .decide), .present true, .transport (.delivery 0 .finish)]

/-- A connection ends. -/
def ends (conn : ℕ) : List Action :=
  [.transport (.reader conn .readFail), .transport (.reader conn .invalidate), .detach conn, .main,
    .transport (.reader conn .close)]

/-- A connection has a frame presented and ends, and its number is that of
the next one. -/
def reused : List Action := [.transport (.accept 3)] ++ paints 0 7 ++ ends 0
  ++ [.transport (.accept 3)]

/-- The new connection has a frame presented, and then multi-window mode is
switched off. -/
theorem identified_reused : ∃ h,
    ((machine true).restrict legacyOpen).run
      (reused ++ paints 1 8 ++ [.ui (.multiWindow false)]) = some h
      ∧ h.controller.activeClient = ⟨3, some 1⟩ ∧ h.Identified := by
  obtain ⟨h, hs, hp⟩ : ∃ h, ((machine true).restrict legacyOpen).run
      (reused ++ paints 1 8 ++ [.ui (.multiWindow false)]) = some h
        ∧ h.controller.activeClient = ⟨3, some 1⟩ := by
    decide +kernel
  exact ⟨h, hs, hp, identified_of_legacyOpen true h (.of_run hs)⟩

/-- **Switching multi-window mode off makes a connection active that never
showed anything**: it has the number of one that has ended. -/
theorem legacy_client_reused : ∃ h, (machine true).Reachable h ∧ h.main = [] ∧ h.presenting = none
    ∧ h.controller.activeClient = ⟨3, some 0⟩ ∧ h.connection 3 = some 1 ∧ ¬ h.Identified := by
  obtain ⟨h, hs, hmain, hidle, hactive, hconn, hnot⟩ : ∃ h,
      (machine true).run (reused ++ [.ui (.multiWindow false)]) = some h ∧ h.main = []
        ∧ h.presenting = none ∧ h.controller.activeClient = ⟨3, some 0⟩
        ∧ h.connection 3 = some 1 ∧ ¬ h.Names h.controller.activeClient := by
    decide +kernel
  exact ⟨h, .of_run hs, hmain, hidle, hactive, hconn, fun hid => hnot hid.active⟩

end Host

end Juice
