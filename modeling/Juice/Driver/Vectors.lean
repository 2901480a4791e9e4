import Juice.Driver.Present

/-!
# The vectors of a write, in place

`writev_all` works on the array of its caller: it moves a pointer past the
vectors that are finished, and shortens the one that is not. `advance` says
what that does to the bytes; here it is the pointer and the count that are
followed, with an access beyond the array as an outcome of its own.

A vector is an address and a length, and the memory a function of addresses.
-/

namespace Juice

open List ByteSeq

/-- `struct iovec`. -/
structure Iovec where
  base : ℕ
  len : ℕ
  deriving DecidableEq, Repr

namespace Iovec

/-- The bytes of a vector. -/
def bytes (mem : ℕ → UInt8) (v : Iovec) : List UInt8 := (List.range' v.base v.len).map mem

/-- Why a loop has not returned. -/
inductive Pending where
  /-- A vector beyond the array was accessed. -/
  | beyond
  /-- The results ran out, or one is not a result of the call. -/
  | waiting
  deriving DecidableEq, Repr

/-- The inner loop: the vectors that are finished are passed. -/
def pass (iov : List Iovec) (i : ℕ) : ℕ → ℕ → Except Pending (ℕ × ℕ × ℕ)
  | 0, written => .ok (i, 0, written)
  | count + 1, written =>
    match iov[i]? with
    | none => .error .beyond
    | some v =>
      if v.len ≤ written then pass iov (i + 1) count (written - v.len)
      else .ok (i, count + 1, written)

/-- `if(count&&written)`: the vector it stopped at is shortened. -/
def shorten (iov : List Iovec) (i count written : ℕ) : Except Pending (List Iovec) :=
  if count ≠ 0 ∧ written ≠ 0 then
    match iov[i]? with
    | none => .error .beyond
    | some v => .ok (iov.set i ⟨v.base + written, v.len - written⟩)
  else .ok iov

/-- What the pointer and the count select of the array. -/
def selected (mem : ℕ → UInt8) (iov : List Iovec) (i count : ℕ) : List (List UInt8) :=
  ((iov.drop i).take count).map (bytes mem)

/-- **`writev_all`** with its array. The call of `writev` accesses all vectors
that are left. -/
def writevAll (mem : ℕ → UInt8) (results : List IoResult) (iov : List Iovec) (i count : ℕ) :
    Except Pending Transfer :=
  if count = 0 then .ok ⟨[], true, results⟩
  else if iov.length < i + count then .error .beyond
  else match results with
    | [] => .error .waiting
    | .eintr :: rest => writevAll mem rest iov i count
    | .error :: rest => .ok ⟨[], false, rest⟩
    | .count n :: rest =>
      if n = 0 then .ok ⟨[], false, rest⟩
      else if (selected mem iov i count).flatten.length < n then .error .waiting
      else do
        let (i', count', written) ← pass iov i count n
        let iov' ← shorten iov i' count' written
        let t ← writevAll mem rest iov' i' count'
        return t.after ((selected mem iov i count).flatten.take n)

/-- What the loop over bytes gives, as an outcome. -/
def outcome (t : Option Transfer) : Except Pending Transfer := t.elim (.error .waiting) .ok

section Advance

variable {mem : ℕ → UInt8} {iov : List Iovec} {i count : ℕ} {v : Iovec}

theorem length_bytes (mem : ℕ → UInt8) (v : Iovec) : (v.bytes mem).length = v.len := by
  rw [bytes, length_map, length_range']

/-- A vector that is shortened has the bytes that are left. -/
theorem bytes_drop (mem : ℕ → UInt8) (v : Iovec) (n : ℕ) :
    (v.bytes mem).drop n = bytes mem ⟨v.base + n, v.len - n⟩ := by
  rw [bytes, ← map_drop, drop_range', Nat.mul_one]
  rfl

theorem selected_zero : selected mem iov i 0 = [] := by
  rw [selected, take_zero, map_nil]

theorem selected_succ (h : iov[i]? = some v) :
    selected mem iov i (count + 1) = v.bytes mem :: selected mem iov (i + 1) count := by
  obtain ⟨hi, rfl⟩ := List.getElem?_eq_some_iff.mp h
  rw [selected, drop_eq_getElem_cons hi, take_succ_cons, map_cons]
  rfl

theorem selected_set (h : iov[i]? = some v) (w : Iovec) :
    selected mem (iov.set i w) i (count + 1) = w.bytes mem :: selected mem iov (i + 1) count := by
  have hset : (iov.set i w)[i]? = some w :=
    List.getElem?_set_self (List.getElem?_eq_some_iff.mp h).1
  rw [selected_succ hset, selected, drop_set_of_lt (Nat.lt_succ_self i)]
  rfl

theorem selected_eq_nil_iff (hlen : i + count ≤ iov.length) :
    selected mem iov i count = [] ↔ count = 0 := by
  rw [selected, map_eq_nil_iff, ← length_eq_zero_iff, length_take, length_drop]
  omega

/-- **Passing and shortening vectors advances over their bytes**, within the
array. -/
theorem pass_shorten (hlen : i + count ≤ iov.length) (n : ℕ) :
    ∃ i' count' written iov', pass iov i count n = .ok (i', count', written)
      ∧ shorten iov i' count' written = .ok iov' ∧ i' + count' ≤ iov'.length
      ∧ selected mem iov' i' count' = advance n (selected mem iov i count) := by
  induction count generalizing i n with
  | zero =>
    refine ⟨i, 0, n, iov, rfl, if_neg (fun h => h.1 rfl), hlen, ?_⟩
    rw [selected_zero]
    rfl
  | succ count ih =>
    have hi : i < iov.length := by omega
    have hv := List.getElem?_eq_getElem hi
    rw [selected_succ hv, pass, hv]
    dsimp only
    unfold advance
    rw [length_bytes]
    by_cases hle : iov[i].len ≤ n
    · rw [if_pos hle, if_pos hle]
      exact ih (by omega) _
    · rw [if_neg hle, if_neg hle, bytes_drop]
      by_cases hn : n = 0
      · refine ⟨i, count + 1, n, iov, rfl, if_neg (fun h => h.2 hn), hlen, ?_⟩
        rw [selected_succ hv, hn]
        rfl
      · refine ⟨i, count + 1, n, iov.set i ⟨iov[i].base + n, iov[i].len - n⟩, rfl, ?_, ?_,
          selected_set hv _⟩
        · rw [shorten, if_pos ⟨Nat.succ_ne_zero _, hn⟩, hv]
        · rw [length_set]
          exact hlen

/-- **The loop over the array is the loop over the bytes.** -/
theorem writevAll_eq (results : List IoResult) (hlen : i + count ≤ iov.length) :
    writevAll mem results iov i count
      = outcome (Juice.writevAll results (selected mem iov i count)) := by
  induction results generalizing iov i count with
  | nil =>
    unfold writevAll Juice.writevAll
    by_cases hcount : count = 0
    · rw [if_pos hcount, if_pos ((selected_eq_nil_iff hlen).mpr hcount)]
      rfl
    · rw [if_neg hcount, if_neg (Nat.not_lt.mpr hlen),
        if_neg (fun h => hcount ((selected_eq_nil_iff hlen).mp h))]
      rfl
  | cons r rest ih =>
    unfold writevAll Juice.writevAll
    by_cases hcount : count = 0
    · rw [if_pos hcount, if_pos ((selected_eq_nil_iff hlen).mpr hcount)]
      rfl
    rw [if_neg hcount, if_neg (Nat.not_lt.mpr hlen),
      if_neg (fun h => hcount ((selected_eq_nil_iff hlen).mp h))]
    cases r with
    | eintr => exact ih hlen
    | error => rfl
    | count n =>
      dsimp only
      by_cases hn : n = 0
      · rw [if_pos hn, if_pos hn]
        rfl
      rw [if_neg hn, if_neg hn]
      split
      · rfl
      obtain ⟨i', count', written, iov', hpass, hshorten, hlen', hsel⟩ :=
        @pass_shorten mem iov i count hlen n
      simp only [hpass, hshorten, ih hlen', hsel, Bind.bind, Except.bind]
      cases Juice.writevAll rest (advance n (selected mem iov i count)) <;> rfl

end Advance

/-! ## The loop returns -/

/-- **The results that calls of `writev` can give** while so many bytes are
left. After an error, or once nothing is left, there is no further call. -/
def Possible : List IoResult → ℕ → Prop
  | .eintr :: rest, total => Possible rest total
  | .count n :: rest, total => total = 0 ∨ n ≤ total ∧ (n = 0 ∨ Possible rest (total - n))
  | _, _ => True

/-- A loop that has had as many results besides `EINTR` as there are bytes has
returned. -/
theorem writeAll_returns {results : List IoResult} {data : List UInt8}
    (hpossible : Possible results data.length)
    (hcount : data.length ≤ results.countP (· ≠ .eintr)) :
    ∃ t, writeAll results data = some t := by
  fun_induction writeAll results data with
  | case1 => exact ⟨_, rfl⟩
  | case2 data hne => exact absurd (length_eq_zero_iff.mp (Nat.le_zero.mp hcount)) hne
  | case3 data hne rest ih => exact ih hpossible (by simpa using hcount)
  | case4 => exact ⟨_, rfl⟩
  | case5 => exact ⟨_, rfl⟩
  | case6 data hne n rest hn hlt =>
    rcases hpossible with hzero | ⟨hle, -⟩
    · exact absurd (length_eq_zero_iff.mp hzero) hne
    · omega
  | case7 data hne n rest hn hlen ih =>
    have hlength : (data.drop n).length = data.length - n := length_drop
    have hrest : Possible rest (data.length - n) := by
      rcases hpossible with hzero | ⟨-, hzero | hrest⟩
      · exact absurd (length_eq_zero_iff.mp hzero) hne
      · exact absurd hzero hn
      · exact hrest
    obtain ⟨t, ht⟩ := ih (hlength ▸ hrest) (by
      rw [countP_cons_of_pos (by simp)] at hcount
      omega)
    exact ⟨_, by rw [ht]; rfl⟩

/-- If `EINTR` does not recur forever there are as many other results as one
likes. -/
theorem exists_countP {results : ℕ → IoResult} (h : ∀ n, ∃ m ≥ n, results m ≠ .eintr) (k : ℕ) :
    ∃ n, k ≤ ((List.range n).map results).countP (· ≠ .eintr) := by
  induction k with
  | zero => exact ⟨0, Nat.zero_le _⟩
  | succ k ih =>
    obtain ⟨n, hn⟩ := ih
    obtain ⟨m, hm, hne⟩ := h n
    refine ⟨m + 1, ?_⟩
    have hmono : ((List.range n).map results).countP (· ≠ .eintr)
        ≤ ((List.range m).map results).countP (· ≠ .eintr) :=
      ((range_sublist.mpr hm).map results).countP_le
    rw [range_succ, map_append, countP_append, map_singleton,
      countP_singleton, if_pos (decide_eq_true hne)]
    omega

/-! ## The rows of a dirty rectangle -/

/-- The loop that fills `rows` from the row `start` on. -/
def fill (row : ℕ → Iovec) (start : ℕ) : ℕ → List Iovec → List Iovec
  | 0, rows => rows
  | count + 1, rows => (fill row start count rows).set count (row (start + count))

/-- **The batches of the dirty branch.** `rows` is what the array holds before
a batch: what a call of `writev_all` leaves in it is not used again. -/
def writeBatches (mem : ℕ → UInt8) (row : ℕ → Iovec) (rows : ℕ → List Iovec) (height : ℕ) :
    ℕ → List IoResult → ℕ → Except Pending Transfer
  | 0, results, _ => .ok ⟨[], true, results⟩
  | fuel + 1, results, start =>
    if height ≤ start then .ok ⟨[], true, results⟩
    else do
      let count := if height - start > 64 then 64 else height - start
      let t ← writevAll mem results (fill row start count (rows start)) 0 count
      if t.ok then
        return (← writeBatches mem row rows height fuel t.rest (start + count)).after t.sent
      else return t

theorem length_fill (row : ℕ → Iovec) (start count : ℕ) (rows : List Iovec) :
    (fill row start count rows).length = rows.length := by
  induction count with
  | zero => rfl
  | succ count ih => rw [fill, length_set, ih]

theorem take_fill (row : ℕ → Iovec) (start : ℕ) {count : ℕ} {rows : List Iovec}
    (h : count ≤ rows.length) :
    (fill row start count rows).take count = (List.range' start count).map row := by
  induction count with
  | zero => rfl
  | succ count ih =>
    have hlt : count < (fill row start count rows).length := by
      rw [length_fill]
      exact h
    rw [fill, take_add_one, take_set_of_le (Nat.le_refl _), ih (Nat.le_of_succ_le h),
      List.getElem?_set_self hlt, List.range'_concat, map_append]
    simp

section Batches

variable {mem : ℕ → UInt8} {row : ℕ → Iovec} {rows : ℕ → List Iovec}
  (hrows : ∀ start, (rows start).length = 64)
include hrows

theorem selected_fill {start count : ℕ} (h : count ≤ 64) :
    selected mem (fill row start count (rows start)) 0 count
      = (List.range' start count).map (fun k => (row k).bytes mem) := by
  rw [selected, drop_zero, take_fill row start (by rw [hrows]; exact h), map_map]
  rfl

/-- **The batches are the rows that are left**, sixty-four at a time. -/
theorem writeBatches_eq (height fuel : ℕ) (results : List IoResult) (start : ℕ) :
    writeBatches mem row rows height fuel results start
      = outcome (writeRows fuel results
        ((List.range' start (height - start)).map (fun k => (row k).bytes mem))) := by
  induction fuel generalizing results start with
  | zero => rfl
  | succ fuel ih =>
    unfold writeBatches writeRows
    by_cases hend : height ≤ start
    · rw [if_pos hend, Nat.sub_eq_zero_of_le hend]
      rfl
    rw [if_neg hend]
    generalize hcount : (if height - start > 64 then 64 else height - start) = count
    have hle : count ≤ 64 := by
      rw [← hcount]
      split <;> omega
    -- the batch, and what is left after it: nothing, unless the batch is full
    obtain ⟨batch, hbatch⟩ : ∃ batch, batch
      = (List.range' start count).map (fun k => (row k).bytes mem) := ⟨_, rfl⟩
    obtain ⟨later, hlater⟩ : ∃ later, later
      = (List.range' (start + count) (height - (start + count))).map
        (fun k => (row k).bytes mem) := ⟨_, rfl⟩
    have hsplit : (List.range' start (height - start)).map (fun k => (row k).bytes mem)
        = batch ++ later := by
      rw [hbatch, hlater, ← map_append, List.range'_append_1]
      congr 2
      rw [← hcount]
      split <;> omega
    have hlength : batch.length = count := by
      rw [hbatch, length_map, length_range']
    have hfull : count = 64 ∨ later = [] := by
      rw [hlater, map_eq_nil_iff, List.range'_eq_nil_iff, ← hcount]
      split <;> omega
    have htake : (batch ++ later).take 64 = batch := by
      rcases hfull with hfull | hnil
      · exact take_left' (hlength.trans hfull)
      · rw [hnil, append_nil]
        exact take_of_length_le (hlength.trans_le hle)
    have hdrop : (batch ++ later).drop 64 = later := by
      rcases hfull with hfull | hnil
      · exact drop_left' (hlength.trans hfull)
      · rw [hnil, append_nil]
        exact drop_of_length_le (hlength.trans_le hle)
    have hne : batch ++ later ≠ [] := by
      rw [← hsplit]
      simp
      omega
    rw [hsplit, if_neg hne, htake, hdrop, hbatch, ← selected_fill hrows hle]
    dsimp only
    rw [writevAll_eq results (by rw [length_fill, hrows]; omega)]
    cases Juice.writevAll results (selected mem (fill row start count (rows start)) 0 count) with
    | none => rfl
    | some t =>
      rw [show outcome (some t) = .ok t from rfl, Option.bind_some]
      simp only [Bind.bind, Except.bind, Transfer.andThen]
      by_cases hok : t.ok = true
      · rw [if_pos hok, if_pos hok, ih, ← hlater]
        cases writeRows fuel t.rest later <;> rfl
      · rw [if_neg hok, if_neg hok]
        rfl

end Batches

/-- The vector of a row of a dirty rectangle. -/
def ofRow (source : ℕ) (pic : Picture) (c : Rect) (row : ℕ) : Iovec :=
  ⟨source + ((c.top.toUInt32.toNat + row) * pic.stride.toNat + c.left.toUInt32.toNat * 4),
    c.rowBytes⟩

/-- A rectangle that is sent has columns. -/
theorem rowBytes_pos {pic : Picture} {dirty : Option Rect} {c : Rect}
    (h : clipFrame pic dirty = some c) : 0 < c.rowBytes := by
  have hlt : ¬ c.right ≤ c.left := by
    unfold clipFrame at h
    simp only [Option.ite_none_left_eq_some, not_or, Option.some.injEq] at h
    obtain ⟨-, ⟨hlt, -⟩, rfl⟩ := h
    exact hlt
  refine Nat.mul_pos (Nat.pos_of_ne_zero (fun hzero => hlt ?_)) (by decide)
  have hsub : c.right - c.left = 0 := congrArg Int32.ofUInt32 (UInt32.toNat_inj.mp hzero)
  rw [Int32.sub_eq_iff_eq_add.mp hsub]
  simp

/-- In a picture that is in memory the vectors are its rows. -/
theorem bytes_ofRow {mem : ℕ → UInt8} {source : ℕ} {pic : Picture} {c : Rect} (hs : pic.Sized)
    (hc : c.Within pic) (hmem : ∀ i (h : i < pic.bits.length), mem (source + i) = pic.bits[i]) :
    (List.range c.rows.toNat).map (fun row => (ofRow source pic c row).bytes mem)
      = dirtyRows pic c := by
  refine map_congr_left (fun row hrow => ?_)
  have hend := hc.row_end_le_bits hs (mem_range.mp hrow)
  refine ext_getElem ?_ (fun k hk hk' => ?_)
  · rw [length_bytes, length_slice hend]
    rfl
  · have hk : k < c.rowBytes := by rw [length_bytes] at hk; exact hk
    simp only [bytes, ofRow, slice, getElem_map, getElem_range', getElem_take,
      getElem_drop, Nat.one_mul, Nat.add_assoc]
    exact hmem _ (by omega)

/-- **The vectored write.** `writev_all` sends a beginning of its buffers, and
returns true exactly if it sent all of them. It accesses no vector beyond the
array, and it returns unless `EINTR` recurs forever. So the batches of a dirty
rectangle send its rows in order, which for a picture in memory are the rows
of the frame's record. -/
theorem vectored_write (mem : ℕ → UInt8) :
    (∀ (iov : List Iovec) (count : ℕ), count ≤ iov.length → (∀ v ∈ iov.take count, 0 < v.len) →
      (∀ results, writevAll mem results iov 0 count ≠ .error .beyond
        ∧ ∀ t, writevAll mem results iov 0 count = .ok t →
          Transfer.Of (selected mem iov 0 count).flatten t)
      ∧ ∀ results : ℕ → IoResult, (∀ n, ∃ m ≥ n, results m ≠ .eintr) →
        (∀ n, Possible ((List.range n).map results) (selected mem iov 0 count).flatten.length) →
        ∃ n t, writevAll mem ((List.range n).map results) iov 0 count = .ok t)
    ∧ (∀ (pic : Picture) (dirty : Option Rect) (c : Rect) (source : ℕ) (rows : ℕ → List Iovec),
      clipFrame pic dirty = some c → (∀ start, (rows start).length = 64) →
      ∀ results, writeBatches mem (ofRow source pic c) rows c.rows.toNat c.rows.toNat results 0
          ≠ .error .beyond
        ∧ ∀ t, writeBatches mem (ofRow source pic c) rows c.rows.toNat c.rows.toNat results 0
            = .ok t →
          Transfer.Of ((List.range c.rows.toNat).map
            (fun row => (ofRow source pic c row).bytes mem)).flatten t)
    ∧ ∀ (pic : Picture) (c : Rect) (source : ℕ), pic.Sized → c.Within pic →
      (∀ i (h : i < pic.bits.length), mem (source + i) = pic.bits[i]) →
      (List.range c.rows.toNat).map (fun row => (ofRow source pic c row).bytes mem)
        = dirtyRows pic c := by
  have houtcome : ∀ {o : Option Transfer} {t : Transfer}, outcome o = .ok t → o = some t := by
    intro o t h
    cases o with
    | none => cases h
    | some u => rw [Except.ok.inj h]
  have hnot : ∀ o : Option Transfer, outcome o ≠ .error .beyond := by
    rintro (_ | t) h <;> cases h
  refine ⟨fun iov count hlen hpos => ?_, fun pic dirty c source rows hclip hrows results => ?_,
    fun pic c source hs hc hmem => bytes_ofRow hs hc hmem⟩
  · have hne : ∀ v ∈ selected mem iov 0 count, v ≠ [] := by
      intro v hv hnil
      obtain ⟨w, hw, rfl⟩ := mem_map.mp hv
      have hlength := length_bytes mem w
      rw [hnil, length_nil] at hlength
      exact Nat.ne_of_lt (hpos w hw) hlength
    have heq : ∀ results, writevAll mem results iov 0 count
        = outcome (writeAll results (selected mem iov 0 count).flatten) := by
      intro results
      rw [writevAll_eq results (by omega), writevAll_eq_writeAll results hne]
    refine ⟨fun results => ⟨?_, fun t ht => ?_⟩, fun results hforever hpossible => ?_⟩
    · rw [heq]
      exact hnot _
    · exact writeAll_of (houtcome ((heq results).symm.trans ht))
    · obtain ⟨n, hn⟩ := exists_countP hforever (selected mem iov 0 count).flatten.length
      obtain ⟨t, ht⟩ := writeAll_returns (hpossible n) hn
      exact ⟨n, t, by rw [heq, ht]; rfl⟩
  · have heq := @writeBatches_eq mem (ofRow source pic c) rows hrows c.rows.toNat c.rows.toNat
      results 0
    rw [heq, Nat.sub_zero, ← range_eq_range']
    refine ⟨hnot _, fun t ht => writeRows_of (by simp) (fun v hv hnil => ?_) (houtcome ht)⟩
    obtain ⟨k, -, rfl⟩ := mem_map.mp hv
    have hlength := length_bytes mem (ofRow source pic c k)
    rw [hnil, length_nil] at hlength
    exact Nat.ne_of_lt (rowBytes_pos hclip) hlength

end Iovec

end Juice
