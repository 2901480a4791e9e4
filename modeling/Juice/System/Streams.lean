import Juice.Driver.Faithful
import Juice.Host.Serving

/-!
# The driver and the host, connected

The two processes as one machine. The connections the driver makes are
accepted in order, each by a reader of its own, and what a reader reads is
what the driver has written: the next forty-eight bytes are a header, and
as many as it says are a payload. A read that fails may do so at any time,
and does when the driver has dropped the connection and nothing is left.

The first thing to show is that the two agree on where records begin
(`Framed`). A record whose transfer failed leaves a part of itself at the
end of its connection, and a reader may take a header from there; it never
gets hold of a payload, nor of a record that has none, for then the record
would have been complete.
-/

namespace Juice

open Option List JuiceMsg ByteSeq Transport

variable {l : List Record} {r : Record}

/-! ## Wires grow at their end -/

/-- What was written before, and more. -/
structure Wire.Extends (w w' : Wire) : Prop where
  records : w.records <+: w'.records
  bytes : w.bytes <+: w'.bytes

theorem Wire.Extends.refl (w : Wire) : w.Extends w := ⟨prefix_refl _, prefix_refl _⟩

/-- **Every connection has what it had, and more.** -/
def Ipc.Grows (ipc ipc' : Ipc) : Prop :=
  ∀ (c : ℕ) (w : Wire), ipc.wires[c]? = some w → ∃ w', ipc'.wires[c]? = some w' ∧ w.Extends w'

namespace Ipc

variable {ipc ipc' ipc'' : Ipc}

theorem Grows.of_wires (h : ipc'.wires = ipc.wires) : ipc.Grows ipc' :=
  fun _ w hw => ⟨w, h ▸ hw, .refl w⟩

theorem Grows.trans (h : ipc.Grows ipc') (h' : ipc'.Grows ipc'') : ipc.Grows ipc'' := by
  intro c w hw
  obtain ⟨w', hw', he⟩ := h c w hw
  obtain ⟨w'', hw'', he'⟩ := h' c w' hw'
  exact ⟨w'', hw'', he.records.trans he'.records, he.bytes.trans he'.bytes⟩

theorem Grows.length_le (h : ipc.Grows ipc') : ipc.wires.length ≤ ipc'.wires.length := by
  by_contra hlt
  obtain ⟨w, hw, -⟩ := h ipc'.wires.length _ (List.getElem?_eq_getElem (by omega))
  simp at hw

theorem grows_append (l : List Wire) (h : ipc'.wires = ipc.wires ++ l) : ipc.Grows ipc' := by
  intro c w hw
  refine ⟨w, ?_, .refl w⟩
  rw [h, List.getElem?_append_left (List.getElem?_eq_some_iff.mp hw).1, hw]

theorem grows_connectIpc {io : Io} {rest : List IoResult}
    (h : ipc.connectIpc io = some (ipc', rest)) : ipc.Grows ipc' := by
  rcases connectIpc_cases h with rfl | ⟨-, sent, -, -, rfl⟩ | ⟨-, rfl⟩
  · exact .of_wires rfl
  · exact grows_append [⟨sent, []⟩] rfl
  · exact grows_append [⟨ipc.hello.encode, [⟨ipc.hello, [], none⟩]⟩] rfl

theorem grows_transmit (ipc : Ipc) (c : ℕ) (r : Record) (t : Transfer) :
    ipc.Grows (ipc.transmit c r t) := by
  intro c' w hw
  show ∃ w', (ipc.wires.modify c _)[c']? = some w' ∧ _
  rw [List.getElem?_modify, hw]
  by_cases hc : c = c'
  · refine ⟨_, rfl, ?_⟩
    dsimp only
    rw [if_pos hc]
    refine ⟨?_, prefix_append ..⟩
    show w.records <+: if t.ok then w.records ++ [r] else w.records
    split
    · exact prefix_append ..
    · exact prefix_refl _
  · refine ⟨_, rfl, ?_⟩
    dsimp only
    rw [if_neg hc]
    exact .refl w

theorem grows_sendMsg {type : UInt32} {hwnd : UInt64} {rect : Option Rect}
    {payload : List UInt8} {stride flags : UInt32} {io : Io}
    (h : ipc.sendMsg type hwnd rect payload stride flags io = some ipc') : ipc.Grows ipc' := by
  obtain ⟨ipc₁, rest, hconn, hcases⟩ := sendMsg_cases h
  refine (grows_connectIpc hconn).trans ?_
  rcases hcases with ⟨-, rfl⟩ | ⟨c, t, -, -, ⟨-, rfl⟩ | ⟨-, rfl⟩⟩
  · exact .of_wires rfl
  · exact grows_transmit _ _ _ _
  · exact grows_transmit _ _ _ _

theorem grows_present {hwnd : UInt64} {pic : Picture} (hs : pic.Sized) {dirty : Option Rect}
    {io : Io} (h : ipc.present hwnd pic dirty io = some ipc') : ipc.Grows ipc' := by
  rcases present_cases hs h with ⟨-, rfl⟩ | ⟨c, ipc₁, rest, -, hconn, hcases⟩
  · exact .of_wires rfl
  refine (grows_connectIpc hconn).trans ?_
  rcases hcases with ⟨-, rfl⟩ | ⟨conn, t, -, -, ⟨-, rfl⟩ | ⟨-, rfl⟩⟩
  · exact .of_wires rfl
  · exact (grows_transmit _ _ _ _).trans (.of_wires (mark_frame _ _ _).1)
  · exact grows_transmit _ _ _ _

end Ipc

/-- An action of the driver takes nothing back. -/
theorem Driver.grows_step {s t : Driver} {a : Driver.Action} (hst : s.step a = some t) :
    s.ipc.Grows t.ipc := by
  cases effect_of_step hst with
  | connect _ path width height dpi io p hp =>
    have hgrows : Ipc.Grows { s.ipc with path, width, height, dpi } p.1 := Ipc.grows_connectIpc hp
    exact hgrows
  | flush _ _ _ x _ _ _ hp => exact Ipc.grows_present x.sized hp
  | presentNow _ _ x _ _ _ hp => exact Ipc.grows_present x.sized hp
  | readback _ _ _ _ _ _ _ _ _ hsz hp => exact Ipc.grows_present hsz hp
  | window _ _ _ _ _ hw => exact Ipc.grows_sendMsg hw
  | destroy _ _ _ hd => exact Ipc.grows_sendMsg hd
  | nothing => exact .of_wires rfl
  | drop => exact .of_wires rfl
  | renew => exact .of_wires rfl
  | paint => exact .of_wires rfl
  | forget => exact .of_wires rfl

/-! ## Finding a record in the bytes -/

/-- The number of bytes of some records. -/
def bytesOf (l : List Record) : ℕ := (l.flatMap Record.bytes).length

theorem length_bytes (r : Record) : r.bytes.length = headerSize + r.payload.length := by
  rw [Record.bytes, length_append, length_encode]

theorem bytesOf_take_succ {k : ℕ} (h : l[k]? = some r) :
    bytesOf (l.take (k + 1)) = bytesOf (l.take k) + headerSize + r.payload.length := by
  rw [bytesOf, take_add_one, h, toList_some, flatMap_append, length_append,
    flatMap_singleton, length_bytes, bytesOf, ← Nat.add_assoc]

/-- Different numbers of records have different numbers of bytes. -/
theorem bytesOf_take_lt {i j : ℕ} (hij : i < j) (hj : j ≤ l.length) :
    bytesOf (l.take i) < bytesOf (l.take j) := by
  induction j with
  | zero => omega
  | succ j ih =>
    have hget : l[j]? = some l[j] := List.getElem?_eq_getElem (by omega)
    rw [bytesOf_take_succ hget]
    have hpos : 0 < headerSize := by decide
    rcases Nat.lt_or_eq_of_le (Nat.le_of_lt_succ hij) with hlt | rfl
    · have := ih hlt (by omega)
      omega
    · omega

theorem bytesOf_take_inj {i j : ℕ} (hi : i ≤ l.length) (hj : j ≤ l.length)
    (h : bytesOf (l.take i) = bytesOf (l.take j)) : i = j := by
  rcases Nat.lt_trichotomy i j with hlt | heq | hgt
  · exact absurd h (Nat.ne_of_lt (bytesOf_take_lt hlt hj))
  · exact heq
  · exact absurd h.symm (Nat.ne_of_lt (bytesOf_take_lt hgt hi))

/-- A record, or a part of one, follows the first records of a wire. -/
theorem Wire.Ok.split {pid : UInt32} {w : Wire} (h : w.Ok pid) (k : ℕ) :
    ∃ rest, w.bytes = (w.records.take k).flatMap Record.bytes ++ rest
      ∧ (rest = [] ∨ ∃ r : Record, r.Whole ∧ ((w.records[k]? = some r ∧ r.bytes <+: rest)
        ∨ (rest <+: r.bytes ∧ rest ≠ r.bytes))) := by
  obtain ⟨tail, hbytes, htail⟩ := h.bytes
  have hsplit : w.records.flatMap Record.bytes = (w.records.take k).flatMap Record.bytes
      ++ (w.records.drop k).flatMap Record.bytes := by
    rw [← flatMap_append, take_append_drop]
  refine ⟨(w.records.drop k).flatMap Record.bytes ++ tail, ?_, ?_⟩
  · rw [hbytes, hsplit, append_assoc]
  · cases hdrop : w.records.drop k with
    | nil =>
      rw [flatMap_nil, nil_append]
      exact htail.imp_right (fun ⟨r, hr, hpre, hne⟩ => ⟨r, hr, .inr ⟨hpre, hne⟩⟩)
    | cons r l =>
      have hget : w.records[k]? = some r := by
        rw [← List.head?_drop, hdrop, List.head?_cons]
      refine .inr ⟨r, h.whole r (mem_of_getElem? hget), .inl ⟨hget, ?_⟩⟩
      rw [flatMap_cons, append_assoc]
      exact prefix_append ..

/-- The header of the record that comes next. -/
theorem slice_header {rest : List UInt8} (h : r.bytes <+: rest ∨ rest <+: r.bytes)
    (hlen : (slice rest 0 headerSize).length = headerSize) :
    decode (slice rest 0 headerSize) = r.msg := by
  have hle : headerSize ≤ rest.length := by
    rw [← hlen]
    simp [slice]
  have hslice : slice rest 0 headerSize = slice r.bytes 0 headerSize := by
    rcases h with ⟨z, rfl⟩ | ⟨z, hz⟩
    · exact slice_append_left z (by rw [length_bytes]; omega)
    · rw [← hz]
      exact (slice_append_left z (by omega)).symm
  have hencode : slice r.bytes 0 headerSize = r.msg.encode := by
    rw [Record.bytes, ← length_encode r.msg]
    exact slice_zero_append ..
  rw [hslice, hencode, ← append_nil r.msg.encode, decode_encode]

/-- **The payload of the record that comes next** is there only if the record
is complete. -/
theorem slice_payload (hr : r.Whole) {rest data : List UInt8}
    (hlen : data.length = r.msg.size.toNat) (hdata : slice rest headerSize data.length = data)
    (h : r.bytes <+: rest ∨ (rest <+: r.bytes ∧ rest ≠ r.bytes ∧ headerSize ≤ rest.length)) :
    r.bytes <+: rest ∧ data = r.payload := by
  have hsize : data.length = r.payload.length := hlen.trans hr.symm
  rcases h with hpre | ⟨hpre, hne, hle⟩
  · refine ⟨hpre, ?_⟩
    obtain ⟨z, rfl⟩ := hpre
    rw [Record.bytes, append_assoc, slice_append _ _ (length_encode r.msg).le,
      length_encode, Nat.sub_self, hsize, slice_zero_append] at hdata
    exact hdata.symm
  · refine absurd ?_ hne
    have hrest : headerSize + data.length ≤ rest.length := by
      have hl := congrArg List.length hdata
      simp only [slice, length_take, length_drop] at hl
      omega
    exact hpre.eq_of_length_le (by rw [length_bytes]; omega)

/-! ## Where a reader is -/

/-- The forty-eight bytes after the first records of a wire are there, and
are a header. -/
def Wire.HeaderAt (w : Wire) (k : ℕ) (m : JuiceMsg) : Prop :=
  (slice w.bytes (bytesOf (w.records.take k)) headerSize).length = headerSize
    ∧ decode (slice w.bytes (bytesOf (w.records.take k)) headerSize) = m

/-- **A header and its payload are a record of the wire.** -/
theorem Wire.Ok.record {pid : UInt32} {w : Wire} (h : w.Ok pid) {k : ℕ} {m : JuiceMsg}
    (hm : w.HeaderAt k m) {data : List UInt8} (hlen : data.length = m.size.toNat)
    (hdata : slice w.bytes (bytesOf (w.records.take k) + headerSize) data.length = data) :
    ∃ r, w.records[k]? = some r ∧ r.content = (m, data) := by
  obtain ⟨rest, hbytes, hrest⟩ := h.split k
  have hskip : ∀ i n, slice w.bytes (bytesOf (w.records.take k) + i) n = slice rest i n := by
    intro i n
    rw [hbytes, slice_append rest n (show _ ≤ bytesOf (w.records.take k) + i from Nat.le_add_right ..)]
    congr 1
    exact Nat.add_sub_cancel_left ..
  obtain ⟨hlen48, hdec⟩ := hm
  rw [← Nat.add_zero (bytesOf _), hskip] at hlen48 hdec
  rw [hskip] at hdata
  rcases hrest with rfl | ⟨r, hr, hcase⟩
  · simp [slice, headerSize] at hlen48
  · have hle : headerSize ≤ rest.length := by
      rw [← hlen48]
      simp [slice]
    have hmsg : r.msg = m := by
      rw [← hdec]
      exact (slice_header (hcase.imp And.right And.left) hlen48).symm
    subst hmsg
    obtain ⟨hpre, rfl⟩ := slice_payload hr hlen hdata
      (hcase.imp And.right (fun h => ⟨h.1, h.2, hle⟩))
    rcases hcase with ⟨hget, -⟩ | ⟨hpre', hne⟩
    · exact ⟨r, hget, rfl⟩
    · exact absurd (List.IsPrefix.eq_of_length_le hpre' hpre.length_le) hne

/-- Where a reader that has handled the first records of a wire is in its
bytes. Of a reader that is leaving nothing is said. -/
def Wire.At (w : Wire) (k consumed : ℕ) : ReaderPc → Prop
  | .loop => consumed = bytesOf (w.records.take k)
  | .admitted m => consumed = bytesOf (w.records.take k) + headerSize ∧ w.HeaderAt k m
  | .reserved m => consumed = bytesOf (w.records.take k) + headerSize ∧ w.HeaderAt k m
  | .loaded m data => consumed = bytesOf (w.records.take (k + 1))
    ∧ ∃ r, w.records[k]? = some r ∧ r.content = (m, data)
  | .merging m data _ => consumed = bytesOf (w.records.take (k + 1))
    ∧ ∃ r, w.records[k]? = some r ∧ r.content = (m, data)
  | .applied _ _ => consumed = bytesOf (w.records.take k)
  | .releasing _ false => consumed = bytesOf (w.records.take k)
  | _ => True

/-- **A reader agrees with the driver on where records begin**: it has
handled the first records of its wire, and is at the next one. -/
def Framed (w : Wire) (r : Reader) (consumed : ℕ) : Prop :=
  ∃ k ≤ w.records.length, r.handled = (w.records.take k).map Record.content
    ∧ w.At k consumed r.pc

theorem framed_new (w : Wire) (fd : Fd) : Framed w (.new fd) 0 :=
  ⟨0, Nat.zero_le _, rfl, rfl⟩

section Extends

variable {w w' : Wire} (he : w.Extends w') {k : ℕ}
include he

theorem Wire.Extends.take_eq (hk : k ≤ w.records.length) :
    w'.records.take k = w.records.take k := by
  obtain ⟨z, hz⟩ := he.records
  rw [← hz, take_append_of_le_length hk]

theorem Wire.Extends.getElem?_eq {x : Record} (hx : w.records[k]? = some x) :
    w'.records[k]? = some x := by
  obtain ⟨z, hz⟩ := he.records
  rw [← hz, List.getElem?_append_left (List.getElem?_eq_some_iff.mp hx).1, hx]

theorem Wire.HeaderAt.extends (hk : k ≤ w.records.length) {m : JuiceMsg} (h : w.HeaderAt k m) :
    w'.HeaderAt k m := by
  obtain ⟨hlen, hdec⟩ := h
  obtain ⟨b, hb⟩ := he.bytes
  have hslice : slice w'.bytes (bytesOf (w.records.take k)) headerSize
      = slice w.bytes (bytesOf (w.records.take k)) headerSize := by
    rw [← hb]
    refine slice_append_left b ?_
    simp only [slice, length_take, length_drop] at hlen
    have : 0 < headerSize := by decide
    omega
  rw [Wire.HeaderAt, he.take_eq hk, hslice]
  exact ⟨hlen, hdec⟩

/-- More on the wire does not move a reader. -/
theorem Wire.At.extends (hk : k ≤ w.records.length) {consumed : ℕ} {pc : ReaderPc}
    (h : w.At k consumed pc) : w'.At k consumed pc := by
  have hrecord : ∀ {m data}, (consumed = bytesOf (w.records.take (k + 1))
      ∧ ∃ r, w.records[k]? = some r ∧ r.content = (m, data)) →
      consumed = bytesOf (w'.records.take (k + 1))
        ∧ ∃ r, w'.records[k]? = some r ∧ r.content = (m, data) := by
    rintro m data ⟨hc, r, hr, hcontent⟩
    rw [he.take_eq (List.getElem?_eq_some_iff.mp hr).1]
    exact ⟨hc, r, he.getElem?_eq hr, hcontent⟩
  have hstart : consumed = bytesOf (w.records.take k) →
      consumed = bytesOf (w'.records.take k) := fun hc => by rw [he.take_eq hk]; exact hc
  have hheader : ∀ {m}, (consumed = bytesOf (w.records.take k) + headerSize ∧ w.HeaderAt k m) →
      consumed = bytesOf (w'.records.take k) + headerSize ∧ w'.HeaderAt k m := by
    rintro m ⟨hc, hm⟩
    rw [he.take_eq hk]
    exact ⟨hc, hm.extends he hk⟩
  cases pc with
  | loop => exact hstart h
  | admitted => exact hheader h
  | reserved => exact hheader h
  | loaded => exact hrecord h
  | merging => exact hrecord h
  | applied => exact hstart h
  | releasing m leave =>
    cases leave with
    | true => trivial
    | false => exact hstart h
  | _ => trivial

theorem Framed.extends {r : Reader} {consumed : ℕ} (h : Framed w r consumed) :
    Framed w' r consumed := by
  obtain ⟨k, hk, hhandled, hat⟩ := h
  refine ⟨k, hk.trans he.records.length_le, ?_, hat.extends he hk⟩
  rw [he.take_eq hk]
  exact hhandled

end Extends

/-! ## Reading -/

/-- How far a reader has read after an action; `none` where there is nothing
to read. -/
def Wire.read (w : Wire) (consumed : ℕ) : ReaderAction → Option ℕ
  | .header m =>
    if (slice w.bytes consumed headerSize).length = headerSize
        ∧ decode (slice w.bytes consumed headerSize) = m then some (consumed + headerSize)
    else none
  | .payload data =>
    if slice w.bytes consumed data.length = data then some (consumed + data.length) else none
  | _ => some consumed

section Reading

variable {pid : UInt32} {w : Wire} {t u : Transport} {r r' : Reader} {a : ReaderAction}
  {consumed consumed' : ℕ} {m : JuiceMsg}

/-- The record a reader has dealt with is the next one of the wire. -/
theorem framed_handle {k : ℕ} (hhandled : r.handled = (w.records.take k).map Record.content)
    {data : List UInt8} (hrec : ∃ x, w.records[k]? = some x ∧ x.content = (m, data))
    (hr' : r'.handled = r.handled ++ [(m, data)]) (hat : w.At (k + 1) consumed r'.pc) :
    Framed w r' consumed := by
  obtain ⟨x, hx, hcontent⟩ := hrec
  refine ⟨k + 1, (List.getElem?_eq_some_iff.mp hx).1, ?_, hat⟩
  rw [hr', hhandled, take_add_one, hx, toList_some, map_append,
    map_singleton, hcontent]

/-- **A record without payload**, of which the header was read, is there. -/
theorem Wire.Ok.bare (hw : w.Ok pid) {k : ℕ} (hm : w.HeaderAt k m)
    (hcheck : juiceCheckHeader m = none) (ht : m.type ≠ FRAME) :
    (∃ x, w.records[k]? = some x ∧ x.content = (m, []))
      ∧ bytesOf (w.records.take (k + 1)) = bytesOf (w.records.take k) + headerSize := by
  have hlen : ([] : List UInt8).length = m.size.toNat := by
    rw [size_of_juiceCheckHeader hcheck ht]
    rfl
  obtain ⟨x, hx, hcontent⟩ := hw.record hm hlen (by simp [slice])
  refine ⟨⟨x, hx, hcontent⟩, ?_⟩
  rw [bytesOf_take_succ hx, show x.payload = [] from congrArg Prod.snd hcontent, length_nil,
    Nat.add_zero]

/-- **A reader stays in step with its wire.** -/
theorem Framed.step (h : Framed w r consumed) (hw : w.Ok pid) (hpc : r.pc.Checked t.frames)
    (e : ReaderEffect t r a u r') (hread : w.read consumed a = some consumed') :
    Framed w r' consumed' := by
  obtain ⟨k, hk, hhandled, hat⟩ := h
  cases e with
  | reject => exact ⟨k, hk, hhandled, trivial⟩
  | pass hr hm =>
    rw [hr] at hat
    simp only [Wire.read, ite_none_right_eq_some, Option.some.injEq] at hread
    obtain ⟨⟨hlen, hdec⟩, rfl⟩ := hread
    have hat : consumed = bytesOf (w.records.take k) := hat
    subst hat
    exact ⟨k, hk, hhandled, rfl, hlen, hdec⟩
  | ended => exact ⟨k, hk, hhandled, trivial⟩
  | hello hr hm =>
    cases hread
    rw [hr] at hat hpc
    obtain ⟨hrec, hbytes⟩ := hw.bare hat.2 hpc (by rw [hm]; decide)
    exact framed_handle hhandled hrec rfl (hat.1.trans hbytes.symm)
  | destroy hr hm =>
    cases hread
    rw [hr] at hat hpc
    obtain ⟨hrec, hbytes⟩ := hw.bare hat.2 hpc (by rw [hm]; decide)
    exact framed_handle hhandled hrec rfl (hat.1.trans hbytes.symm)
  | window hr hframe =>
    cases hread
    rw [hr] at hat hpc
    obtain ⟨hrec, hbytes⟩ := hw.bare hat.2 hpc hframe
    exact framed_handle hhandled hrec rfl (hat.1.trans hbytes.symm)
  | refuse => exact ⟨k, hk, hhandled, trivial⟩
  | reserve hr =>
    cases hread
    rw [hr] at hat
    exact ⟨k, hk, hhandled, hat⟩
  | @payload m data hr hlen =>
    rw [hr] at hat
    obtain ⟨rfl, hm⟩ := hat
    simp only [Wire.read, ite_none_right_eq_some, Option.some.injEq] at hread
    obtain ⟨hdata, rfl⟩ := hread
    obtain ⟨x, hx, hcontent⟩ := hw.record hm hlen hdata
    refine ⟨k, hk, hhandled, ?_, x, hx, hcontent⟩
    rw [bytesOf_take_succ hx, show x.payload = data from congrArg Prod.snd hcontent]
  | truncated => exact ⟨k, hk, hhandled, trivial⟩
  | missing hr =>
    cases hread
    rw [hr] at hat
    exact framed_handle hhandled hat.2 rfl hat.1
  | found hr =>
    cases hread
    rw [hr] at hat
    exact ⟨k, hk, hhandled, hat⟩
  | exceeded => exact ⟨k, hk, hhandled, trivial⟩
  | full hr =>
    cases hread
    rw [hr] at hat
    exact framed_handle hhandled hat.2 rfl hat.1
  | dropped hr =>
    cases hread
    rw [hr] at hat
    exact framed_handle hhandled hat.2 rfl hat.1
  | merged hr =>
    cases hread
    rw [hr] at hat
    exact framed_handle hhandled hat.2 rfl hat.1
  | schedule hr =>
    cases hread
    rw [hr] at hat
    exact ⟨k, hk, hhandled, hat⟩
  | @release m leave hr =>
    cases hread
    rw [hr] at hat
    cases leave with
    | true => exact ⟨k, hk, hhandled, trivial⟩
    | false => exact ⟨k, hk, hhandled, hat⟩
  | invalidate => exact ⟨k, hk, hhandled, trivial⟩
  | close => exact ⟨k, hk, hhandled, trivial⟩

/-- **A reader meets its `HELLO` before any other record.** -/
theorem Framed.hello_first (h : Framed w r consumed) (hw : w.Ok pid) (hpc : r.pc = .admitted m)
    (hcheck : juiceCheckHeader m = none) (hm : m.type = HELLO) : r.handled = [] := by
  obtain ⟨k, hk, hhandled, hat⟩ := h
  rw [hpc] at hat
  obtain ⟨⟨x, hx, hcontent⟩, -⟩ := hw.bare hat.2 hcheck (by rw [hm]; decide)
  have hmsg : x.msg = m := congrArg Prod.fst hcontent
  cases k with
  | zero => rw [hhandled, take_zero, map_nil]
  | succ k =>
    obtain ⟨y, rest, hrecords⟩ := exists_cons_of_length_pos
      (Nat.zero_lt_of_lt (List.getElem?_eq_some_iff.mp hx).1)
    rw [hrecords, List.getElem?_cons_succ] at hx
    refine absurd ?_ ((hw.hello y rest hrecords).2 x (mem_of_getElem? hx))
    rw [hmsg, hm]

end Reading

/-! ## The machine -/

/-- **The driver and the host.** -/
structure System where
  driver : Driver
  host : Transport
  /-- How many bytes each reader has read. -/
  consumed : ℕ → ℕ

namespace System

/-- An action of one of them. -/
inductive Action where
  | driver (a : Driver.Action)
  | host (a : Transport.Action)

/-- **One action of the system.** A connection is accepted once it was made,
and a reader reads what was written. -/
def step (s : System) : Action → Option System
  | .driver a => (s.driver.step a).map (fun driver => { s with driver })
  | .host (.accept fd) =>
    if s.host.readers.length < s.driver.ipc.wires.length then
      (s.host.step (.accept fd)).map (fun host => { s with host })
    else none
  | .host (.reader c a) =>
    (s.driver.ipc.wires[c]?).bind (fun w => (w.read (s.consumed c) a).bind (fun n =>
      (s.host.step (.reader c a)).map (fun host =>
        { s with host, consumed := Function.update s.consumed c n })))
  | .host (.delivery i a) => (s.host.step (.delivery i a)).map (fun host => { s with host })

/-- A driver as it is loaded, and a host without connections. -/
def start (pid : UInt32) : System := ⟨Driver.start pid, Transport.start, fun _ => 0⟩

/-- **The system of a driver process and a host.** -/
def machine (pid : UInt32) : Machine System Action := ⟨start pid, step⟩

/-- **What an action of the system does.** -/
inductive Effect (s : System) : Action → System → Prop
  | driver {a : Driver.Action} {driver : Driver} (hst : s.driver.step a = some driver) :
      Effect s (.driver a) { s with driver }
  | accept {fd : Fd} {host : Transport}
      (hlt : s.host.readers.length < s.driver.ipc.wires.length)
      (hst : s.host.step (.accept fd) = some host) :
      Effect s (.host (.accept fd)) { s with host }
  | reader {c n : ℕ} {a : ReaderAction} {w : Wire} {host : Transport}
      (hw : s.driver.ipc.wires[c]? = some w) (hread : w.read (s.consumed c) a = some n)
      (hst : s.host.step (.reader c a) = some host) :
      Effect s (.host (.reader c a)) { s with host, consumed := Function.update s.consumed c n }
  | delivery {i : ℕ} {a : DeliveryAction} {host : Transport}
      (hst : s.host.step (.delivery i a) = some host) :
      Effect s (.host (.delivery i a)) { s with host }

theorem effect_of_step {s s' : System} {a : Action} (h : s.step a = some s') : Effect s a s' := by
  cases a with
  | driver a =>
    obtain ⟨driver, hst, rfl⟩ := map_eq_some_iff.mp h
    exact .driver hst
  | host a =>
    cases a with
    | accept fd =>
      simp only [step, ite_none_right_eq_some] at h
      obtain ⟨hlt, h⟩ := h
      obtain ⟨host, hst, rfl⟩ := map_eq_some_iff.mp h
      exact .accept hlt hst
    | reader c a =>
      obtain ⟨w, hw, h⟩ := bind_eq_some_iff.mp h
      obtain ⟨n, hread, h⟩ := bind_eq_some_iff.mp h
      obtain ⟨host, hst, rfl⟩ := map_eq_some_iff.mp h
      exact .reader hw hread hst
    | delivery i a =>
      obtain ⟨host, hst, rfl⟩ := map_eq_some_iff.mp h
      exact .delivery hst

end System

end Juice
