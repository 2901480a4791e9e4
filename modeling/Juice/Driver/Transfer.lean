import Mathlib.Data.List.Basic

/-!
# Writing to the socket

`write` and `writev` may be interrupted, may fail, and may accept only part
of what they are given. The loops of `ipc.c` turn them into calls that
either send everything or fail, and a failure leaves an unknown part of
the data on the wire: the stream can then only be abandoned.

What the system calls return is data here. A loop consumes one result per
call, and `none` stands for a loop that has not returned: the results ran
out, or one is not a result the call could have given. `Transfer.Of` is
what every caller needs to know of a loop that returned.
-/

namespace Juice

open List

/-- What one `write` or `writev` returned. -/
inductive IoResult where
  /-- Interrupted by a signal before anything was written, `EINTR`. -/
  | eintr
  /-- Any other error. -/
  | error
  /-- So many bytes were accepted. -/
  | count (n : ℕ)
  deriving DecidableEq, Repr

/-- How a write loop ended. -/
structure Transfer where
  /-- The bytes that went out on the wire. -/
  sent : List UInt8
  /-- The value the loop returned. -/
  ok : Bool
  /-- The results the loop did not use. -/
  rest : List IoResult
  deriving DecidableEq, Repr

namespace Transfer

variable {t : Transfer}

/-- A transfer whose bytes follow bytes sent before. -/
def after (sent : List UInt8) (t : Transfer) : Transfer := { t with sent := sent ++ t.sent }

/-- `first && second`: the second loop runs if the first returned true. -/
def andThen (t : Transfer) (second : List IoResult → Option Transfer) : Option Transfer :=
  if t.ok then (second t.rest).map (after t.sent) else some t

/-- **What a write loop did with its data**: it sent a beginning of it, and
returned true exactly when it sent all of it. -/
structure Of (data : List UInt8) (t : Transfer) : Prop where
  sent_isPrefix : t.sent <+: data
  ok_iff : t.ok = true ↔ t.sent = data

theorem Of.of_ok {data : List UInt8} (h : Of data t) (hok : t.ok = true) :
    t.sent = data := h.ok_iff.mp hok

theorem of_done (s : List IoResult) : Of [] ⟨[], true, s⟩ := ⟨prefix_rfl, by simp⟩

theorem of_failed {data : List UInt8} (h : data ≠ []) (s : List IoResult) :
    Of data ⟨[], false, s⟩ := ⟨ nil_prefix, by simp [h.symm]⟩

theorem Of.after {a b : List UInt8} (h : Of b t) : Of (a ++ b) (t.after a) := by
  refine ⟨(prefix_append_right_inj a).mpr h.sent_isPrefix, ?_⟩
  show t.ok = true ↔ a ++ t.sent = a ++ b
  rw [append_cancel_left_eq]
  exact h.ok_iff

/-- **Two loops in sequence** are a loop over both pieces of data. -/
theorem Of.andThen {a b : List UInt8} {u : Transfer} {second : List IoResult → Option Transfer}
    (h : Of a t) (hsecond : ∀ s v, second s = some v → Of b v) (hu : t.andThen second = some u) :
    Of (a ++ b) u := by
  unfold Transfer.andThen at hu
  by_cases hok : t.ok = true
  · rw [if_pos hok, Option.map_eq_some_iff] at hu
    obtain ⟨v, hv, rfl⟩ := hu
    rw [h.of_ok hok]
    exact (hsecond _ v hv).after
  · rw [if_neg hok, Option.some.injEq] at hu
    subst hu
    refine ⟨h.sent_isPrefix.trans (prefix_append a b), iff_of_false hok ?_⟩
    intro hsent
    -- a loop that failed sent less than the first piece
    have hlen := h.sent_isPrefix.length_le
    rw [hsent, length_append] at hlen
    have hnil : b = [] := length_eq_zero_iff.mp (by omega)
    rw [hnil, append_nil] at hsent
    exact hok (h.ok_iff.mpr hsent)

end Transfer

/-! ## `write_all` -/

/-- `write_all`. -/
def writeAll (results : List IoResult) (data : List UInt8) : Option Transfer :=
  if data = [] then some ⟨[], true, results⟩
  else match results with
    | [] => none
    | .eintr :: rest => writeAll rest data
    | .error :: rest => some ⟨[], false, rest⟩
    | .count n :: rest =>
      if n = 0 then some ⟨[], false, rest⟩
      else if data.length < n then none
      else (writeAll rest (data.drop n)).map (Transfer.after (data.take n))

/-- **`write_all` sends all of its data or fails having sent less.** -/
theorem writeAll_of {results : List IoResult} {data : List UInt8} {t : Transfer}
    (h : writeAll results data = some t) : Transfer.Of data t := by
  fun_induction writeAll results data generalizing t with
  | case1 results =>
    cases h
    exact Transfer.of_done _
  | case2 => cases h
  | case3 data hne rest ih => exact ih h
  | case4 data hne rest =>
    cases h
    exact Transfer.of_failed hne rest
  | case5 data hne rest =>
    cases h
    exact Transfer.of_failed hne rest
  | case6 => cases h
  | case7 data hne n rest hn hlen ih =>
    rw [Option.map_eq_some_iff] at h
    obtain ⟨u, hu, rfl⟩ := h
    have := (ih hu).after (a := data.take n)
    rwa [take_append_drop] at this

/-! ## `writev_all` -/

/-- The inner loop of `writev_all`: drop the vectors that are finished and
advance the one that is not. -/
def advance : ℕ → List (List UInt8) → List (List UInt8)
  | _, [] => []
  | written, iov :: rest =>
    if iov.length ≤ written then advance (written - iov.length) rest
    else iov.drop written :: rest

/-- Advancing over vectors is dropping bytes. -/
theorem flatten_advance (written : ℕ) (iov : List (List UInt8)) :
    (advance written iov).flatten = iov.flatten.drop written := by
  fun_induction advance written iov with
  | case1 => simp
  | case2 written iov rest hle ih =>
    rw [ih, flatten_cons, drop_append, drop_eq_nil_of_le hle, nil_append]
  | case3 written iov rest hlt =>
    rw [flatten_cons, flatten_cons, drop_append,
      Nat.sub_eq_zero_of_le (by omega), drop_zero]

/-- Advancing leaves no empty vector behind. -/
theorem ne_nil_of_mem_advance {written : ℕ} {iov : List (List UInt8)}
    (h : ∀ v ∈ iov, v ≠ []) : ∀ v ∈ advance written iov, v ≠ [] := by
  fun_induction advance written iov with
  | case1 => simp
  | case2 written iov rest hle ih => exact ih (fun v hv => h v (mem_cons_of_mem _ hv))
  | case3 written iov rest hlt =>
    intro v hv
    rcases mem_cons.mp hv with rfl | hv
    · intro hnil
      rw [drop_eq_nil_iff] at hnil
      omega
    · exact h v (mem_cons_of_mem _ hv)

/-- `writev_all`. -/
def writevAll (results : List IoResult) (iov : List (List UInt8)) : Option Transfer :=
  if iov = [] then some ⟨[], true, results⟩
  else match results with
    | [] => none
    | .eintr :: rest => writevAll rest iov
    | .error :: rest => some ⟨[], false, rest⟩
    | .count n :: rest =>
      if n = 0 then some ⟨[], false, rest⟩
      else if iov.flatten.length < n then none
      else (writevAll rest (advance n iov)).map (Transfer.after (iov.flatten.take n))

/-- **`writev_all` is `write_all` of the concatenation**, call by call. -/
theorem writevAll_eq_writeAll (results : List IoResult) {iov : List (List UInt8)}
    (h : ∀ v ∈ iov, v ≠ []) : writevAll results iov = writeAll results iov.flatten := by
  have hflat : ∀ l : List (List UInt8), (∀ v ∈ l, v ≠ []) → l ≠ [] → l.flatten ≠ [] := by
    intro l hl hne hnil
    obtain ⟨v, rest, rfl⟩ := exists_cons_of_ne_nil hne
    exact hl v mem_cons_self (flatten_eq_nil_iff.mp hnil v mem_cons_self)
  induction results generalizing iov with
  | nil =>
    unfold writevAll writeAll
    by_cases hnil : iov = []
    · simp [hnil]
    · simp [hnil, hflat iov h hnil]
  | cons r rest ih =>
    unfold writevAll writeAll
    by_cases hnil : iov = []
    · simp [hnil]
    · rw [if_neg hnil, if_neg (hflat iov h hnil)]
      cases r with
      | eintr => exact ih h
      | error => rfl
      | count n =>
        dsimp only
        rw [ih (ne_nil_of_mem_advance h), flatten_advance]

/-- The dirty branch of `ios_ipc_present` hands `writev_all` sixty-four rows
at a time. The fuel is the number of rows, which the loop cannot
exhaust. -/
def writeRows : ℕ → List IoResult → List (List UInt8) → Option Transfer
  | 0, results, _ => some ⟨[], true, results⟩
  | fuel + 1, results, rows =>
    if rows = [] then some ⟨[], true, results⟩
    else (writevAll results (rows.take 64)).bind
      (fun t => t.andThen (fun rest => writeRows fuel rest (rows.drop 64)))

/-- **The loop over batches of rows sends the rows**, or fails having sent
less. -/
theorem writeRows_of {fuel : ℕ} {results : List IoResult} {rows : List (List UInt8)}
    {t : Transfer} (hfuel : rows.length ≤ fuel) (hne : ∀ v ∈ rows, v ≠ [])
    (h : writeRows fuel results rows = some t) : Transfer.Of rows.flatten t := by
  induction fuel generalizing results rows t with
  | zero =>
    cases h
    obtain rfl : rows = [] := length_eq_zero_iff.mp (by omega)
    exact Transfer.of_done _
  | succ fuel ih =>
    unfold writeRows at h
    split at h
    · rename_i hnil
      cases h
      rw [hnil, flatten_nil]
      exact Transfer.of_done _
    · rename_i hnil
      rw [Option.bind_eq_some_iff] at h
      obtain ⟨u, hu, ht⟩ := h
      rw [writevAll_eq_writeAll _ (fun v hv => hne v (mem_of_mem_take hv))] at hu
      have hlater : ∀ s v, writeRows fuel s (rows.drop 64) = some v
          → Transfer.Of (rows.drop 64).flatten v := by
        intro s v hv
        refine ih ?_ (fun w hw => hne w (mem_of_mem_drop hw)) hv
        have := length_pos_iff.mpr hnil
        rw [length_drop]
        omega
      have hsplit : rows.flatten = (rows.take 64).flatten ++ (rows.drop 64).flatten := by
        rw [← flatten_append, take_append_drop]
      rw [hsplit]
      exact (writeAll_of hu).andThen hlater ht

end Juice
