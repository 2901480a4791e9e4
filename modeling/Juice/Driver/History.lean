import Juice.Driver.Tracking

/-!
# Properties of every record ever sent

A property of a record and of the records that went out before it on its
connection, once true, stays true: wires only grow at their end. So a
property holds of all records ever sent as soon as it holds of each record
at the moment it is sent. `History.step` is that induction, carried out
for the driver: what is left to show of a property is that it holds of a
frame at the time of the call that presents its picture.
-/

namespace Juice

open JuiceMsg

/-- A property of every record of a list and of those before it. -/
def Throughout (H : List Record → Record → Prop) (l : List Record) : Prop :=
  ∀ i r, l[i]? = some r → H (l.take i) r

theorem throughout_nil (H : List Record → Record → Prop) : Throughout H [] := by
  intro i r h
  simp at h

theorem Throughout.concat {H : List Record → Record → Prop} {l : List Record}
    (h : Throughout H l) {r : Record} (hr : H l r) : Throughout H (l ++ [r]) := by
  intro i r' hi
  rcases Nat.lt_trichotomy i l.length with hlt | rfl | hgt
  · rw [List.getElem?_append_left hlt] at hi
    rw [List.take_append_of_le_length hlt.le]
    exact h i r' hi
  · rw [List.getElem?_concat_length] at hi
    cases hi
    rw [List.take_left']
    · exact hr
    · rfl
  · rw [List.getElem?_eq_none (by simp; omega)] at hi
    cases hi

/-- **A property of every record ever sent.** -/
def History (H : List Record → Record → Prop) (ipc : Ipc) : Prop :=
  ∀ w ∈ ipc.wires, Throughout H w.records

namespace History

variable {H : List Record → Record → Prop} {ipc ipc' : Ipc}

theorem of_wires (h : History H ipc) (hw : ipc'.wires = ipc.wires) : History H ipc' := by
  intro w hm
  rw [hw] at hm
  exact h w hm

/-- The property holds of a record that is not a frame. -/
def Plain (H : List Record → Record → Prop) : Prop :=
  ∀ l (r : Record), r.msg.type ≠ FRAME → H l r

theorem connectIpc (h : History H ipc) (hH : Plain H) {io : Io} {rest : List IoResult}
    (hc : ipc.connectIpc io = some (ipc', rest)) : History H ipc' := by
  rcases Ipc.connectIpc_cases hc with rfl | ⟨-, sent, -, -, rfl⟩ | ⟨-, rfl⟩
  · exact h
  · exact Slots.forall_mem_concat h (throughout_nil H)
  · exact Slots.forall_mem_concat h ((throughout_nil H).concat
      (hH [] ⟨ipc.hello, [], none⟩ (show HELLO ≠ FRAME by decide)))

/-- A transfer, whether it succeeds or not. -/
theorem transmit (h : History H ipc) (hok : ipc.Ok) {c : ℕ} (hfd : ipc.fd = some c) {r : Record}
    {t : Transfer} (hr : t.ok = true → H ipc.sent r) : History H (ipc.transmit c r t) := by
  obtain ⟨l, w, hl, rfl, -⟩ := hok.current c hfd
  have hsent : ipc.sent = w.records := by simp [Ipc.sent, hl]
  have hlast : Throughout H w.records := h w (by rw [hl]; simp)
  unfold History
  rw [Ipc.wires_transmit hl]
  refine Slots.forall_mem_concat (fun w' hw' => h w' ?_) ?_
  · rw [hl]
    exact List.mem_append_left _ hw'
  show Throughout H (if t.ok = true then w.records ++ [r] else w.records)
  split
  · rename_i htok
    exact hlast.concat (by rw [← hsent]; exact hr htok)
  · exact hlast

theorem sendMsg (h : History H ipc) (hok : ipc.Ok) (hH : Plain H) {type : UInt32} {hwnd : UInt64}
    {rect : Option Rect} {payload : List UInt8} {stride flags : UInt32} {io : Io}
    (hs : ipc.sendMsg type hwnd rect payload stride flags io = some ipc') (hne : type ≠ FRAME) :
    History H ipc' := by
  obtain ⟨ipc₁, rest, hconn, hcases⟩ := Ipc.sendMsg_cases hs
  have h₁ := h.connectIpc hH hconn
  have hok₁ := hok.connectIpc hconn
  have hty : (Ipc.msgHeader type hwnd rect (UInt32.ofNat payload.length) stride flags).type
      ≠ FRAME := by
    cases rect <;> exact hne
  rcases hcases with ⟨-, rfl⟩ | ⟨c, t, hfd, ht, ⟨-, rfl⟩ | ⟨-, rfl⟩⟩
  · exact h₁
  · exact h₁.transmit hok₁ hfd (fun _ => hH _ _ hty)
  · exact h₁.transmit hok₁ hfd (fun _ => hH _ _ hty)

/-- **Presenting a picture.** The property has to hold of the frame after the
records of the connection it goes out on. -/
theorem present (h : History H ipc) (hok : ipc.Ok) (hH : Plain H) {hwnd : UInt64} {pic : Picture}
    (hsz : pic.Sized) {dirty : Option Rect} {io : Io}
    (hp : ipc.present hwnd pic dirty io = some ipc')
    (hframe : ∀ c ipc₁ rest conn t, clipFrame pic dirty = some c
      → ipc.connectIpc io = some (ipc₁, rest) → ipc₁.fd = some conn
      → ipc' = (ipc₁.transmit conn (frameRecord hwnd pic c (ipc₁.surfaceHasBaseline hwnd))
          t).markSurfaceBaseline hwnd io.alloc
      → Transfer.Of (frameRecord hwnd pic c (ipc₁.surfaceHasBaseline hwnd)).bytes t → t.ok = true
      → H ipc₁.sent (frameRecord hwnd pic c (ipc₁.surfaceHasBaseline hwnd))) :
    History H ipc' := by
  rcases Ipc.present_cases hsz hp with ⟨-, rfl⟩ | ⟨c, ipc₁, rest, hclip, hconn, hcases⟩
  · exact h
  · have h₁ := h.connectIpc hH hconn
    have hok₁ := hok.connectIpc hconn
    rcases hcases with ⟨-, rfl⟩ | ⟨conn, t, hfd, ht, ⟨htok, he⟩ | ⟨htok, rfl⟩⟩
    · exact h₁
    · have hr := hframe c ipc₁ rest conn t hclip hconn hfd he ht htok
      subst he
      exact (h₁.transmit (t := t) hok₁ hfd (fun _ => hr)).of_wires (Ipc.mark_frame _ _ _).1
    · exact h₁.transmit hok₁ hfd (fun htok' => by rw [htok] at htok'; cases htok')

end History

/-! ## Connections are never taken back -/

namespace Ipc.Ok

variable {ipc ipc' : Ipc} (h : ipc.Ok)
include h

theorem connects_sendMsg {type : UInt32} {hwnd : UInt64} {rect : Option Rect}
    {payload : List UInt8} {stride flags : UInt32} {io : Io}
    (hs : ipc.sendMsg type hwnd rect payload stride flags io = some ipc') :
    ipc.connects ≤ ipc'.connects := by
  obtain ⟨ipc₁, rest, hconn, hcases⟩ := Ipc.sendMsg_cases hs
  refine le_trans (Ipc.connects_connectIpc hconn) ?_
  rcases hcases with ⟨-, rfl⟩ | ⟨c, t, hfd, -, ⟨-, rfl⟩ | ⟨-, rfl⟩⟩
  · exact le_rfl
  all_goals exact ((h.connectIpc hconn).connects_transmit hfd _ t).ge

theorem connects_present {hwnd : UInt64} {pic : Picture} (hsz : pic.Sized) {dirty : Option Rect}
    {io : Io} (hp : ipc.present hwnd pic dirty io = some ipc') : ipc.connects ≤ ipc'.connects := by
  rcases Ipc.present_cases hsz hp with ⟨-, rfl⟩ | ⟨c, ipc₁, rest, -, hconn, hcases⟩
  · exact le_rfl
  · refine le_trans (Ipc.connects_connectIpc hconn) ?_
    rcases hcases with ⟨-, rfl⟩ | ⟨conn, t, hfd, -, ⟨-, rfl⟩ | ⟨-, rfl⟩⟩
    · exact le_rfl
    · rw [Ipc.connects_mark]
      exact ((h.connectIpc hconn).connects_transmit hfd _ t).ge
    · exact ((h.connectIpc hconn).connects_transmit hfd _ t).ge

end Ipc.Ok

namespace Driver

/-- The number of connections made does not decrease. -/
theorem connects_step {s t : Driver} {a : Action} (h : s.Inv) (hst : s.step a = some t) :
    s.ipc.connects ≤ t.ipc.connects := by
  have hsound : Sound s.ipc s.surfaces s.destroying := h
  cases effect_of_step hst with
  | connect _ path width height dpi io p hp =>
    have hle : Ipc.connects { s.ipc with path, width, height, dpi } ≤ p.1.connects :=
      Ipc.connects_connectIpc hp
    exact hle
  | flush _ _ _ x _ _ _ hp => exact hsound.ok.connects_present x.sized hp
  | presentNow _ _ x _ _ _ hp => exact hsound.ok.connects_present x.sized hp
  | readback _ _ _ _ _ _ _ _ _ hsz hp => exact hsound.ok.connects_present hsz hp
  | window _ _ _ _ _ hw => exact hsound.ok.connects_sendMsg hw
  | destroy _ _ _ hd => exact hsound.ok.connects_sendMsg hd
  | nothing => exact le_rfl
  | drop => exact le_rfl
  | renew => exact le_rfl
  | paint => exact le_rfl
  | forget => exact le_rfl

/-- **A property of every record ever sent is kept by an action** if it holds
of the frame the action sends. -/
theorem history_step {H : List Record → Record → Prop} (hH : History.Plain H) {s t : Driver}
    {a : Action} (hinv : s.Inv) (h : History H s.ipc) (hst : s.step a = some t)
    (hframe : ∀ hwnd pic dirty io c ipc₁ rest conn, s.Presents a hwnd pic dirty io
      → hwnd ∉ s.destroying → clipFrame pic dirty = some c
      → s.ipc.connectIpc io = some (ipc₁, rest) → ipc₁.fd = some conn
      → ipc₁.connects ≤ t.ipc.connects
      → H ipc₁.sent (frameRecord hwnd pic c (ipc₁.surfaceHasBaseline hwnd))) :
    History H t.ipc := by
  have hsound : Sound s.ipc s.surfaces s.destroying := hinv
  -- a picture handed over by the action, whose state afterwards is `ipc'`
  have hpresent : ∀ hwnd pic dirty io ipc', pic.Sized → s.Presents a hwnd pic dirty io
      → hwnd ∉ s.destroying → s.ipc.present hwnd pic dirty io = some ipc' → ipc' = t.ipc
      → History H ipc' := by
    intro hwnd pic dirty io ipc' hsz hpres hbusy hp hipc
    refine h.present hsound.ok hH hsz hp ?_
    intro c ipc₁ rest conn tr hclip hconn hfd he _ _
    refine hframe hwnd pic dirty io c ipc₁ rest conn hpres hbusy hclip hconn hfd ?_
    rw [← hipc, he, Ipc.connects_mark, (hsound.ok.connectIpc hconn).connects_transmit hfd]
  cases effect_of_step hst with
  | connect _ path width height dpi io p hp =>
    have hconf : History H { s.ipc with path, width, height, dpi } := h
    exact hconf.connectIpc hH hp
  | flush hwnd dirty io x ipc hbusy hx hp =>
    exact hpresent hwnd _ _ io ipc x.sized (.flush hwnd dirty io x hx) hbusy hp rfl
  | presentNow hwnd io x ipc hbusy hx hp =>
    exact hpresent hwnd _ _ io ipc x.sized (.presentNow hwnd io x hx) hbusy hp rfl
  | readback hwnd width height bits io pic ipc hbusy hpic hsz hp =>
    exact hpresent hwnd _ _ io ipc hsz (.readback hwnd width height bits io pic hpic hsz) hbusy hp
      rfl
  | window _ _ _ _ _ hw => exact h.sendMsg hsound.ok hH hw (by decide)
  | destroy _ _ _ hd => exact h.sendMsg hsound.ok hH hd (by decide)
  | nothing => exact h
  | drop => exact h
  | renew => exact h
  | paint => exact h
  | forget => exact h

end Driver

end Juice
