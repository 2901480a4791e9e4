import Juice.Driver.Input

/-!
# Pasting text

Text for a Windows program goes to the driver as UTF-16, in TEXT records.
The driver drops a connection over a record of more than 64 KiB, so that
`JuiceSendTextPayload` cuts a long paste into chunks of at most 60 KiB. A
character beyond the basic plane takes two code units, a high surrogate and
a low one, and a chunk that would end between the two is made one unit
shorter (`JuiceUTF16ChunkLength`). The driver posts one `WM_CHAR` for every
unit.

The text need not be well-formed UTF-16. A chunk is shortened only if the
unit it gives up is a high surrogate, and what then comes first in the next
chunk is no low one, so that one step back is enough whatever the units are
(`chunkLength_spec`).
-/

namespace Juice.Text

open List JuiceMsg

variable {bytes : List UInt8}

/-! ## Code units -/

/-- A code unit from its two bytes. -/
def unit (lo hi : UInt8) : UInt16 := lo.toUInt16 ||| (hi.toUInt16 <<< 8)

/-- The code unit at a byte offset. -/
def unitAt (bytes : List UInt8) (i : ℕ) : UInt16 := unit (bytes.getD i 0) (bytes.getD (i + 1) 0)

/-- **The code units of UTF-16LE.** -/
def units : List UInt8 → List UInt16
  | [] => []
  | [_] => []
  | lo :: hi :: rest => unit lo hi :: units rest

/-- A high surrogate. -/
def IsHigh (u : UInt16) : Prop := 0xd800 ≤ u ∧ u ≤ 0xdbff

/-- A low surrogate. -/
def IsLow (u : UInt16) : Prop := 0xdc00 ≤ u ∧ u ≤ 0xdfff

instance (u : UInt16) : Decidable (IsHigh u) := inferInstanceAs (Decidable (_ ∧ _))

instance (u : UInt16) : Decidable (IsLow u) := inferInstanceAs (Decidable (_ ∧ _))

theorem not_isLow_of_isHigh {u : UInt16} (h : IsHigh u) : ¬ IsLow u := by
  have hle := UInt16.le_iff_toNat_le.mp h.2
  intro hlow
  have hge := UInt16.le_iff_toNat_le.mp hlow.1
  exact absurd (Nat.le_trans hge hle) (by decide)

/-! ## Sending -/

/-- `JUICE_TEXT_CHUNK_BYTES` -/
def textChunkBytes : ℕ := 60 * 1024

theorem four_le_textChunkBytes : 4 ≤ textChunkBytes := by decide

/-- **`JuiceUTF16ChunkLength`**, for the bytes that remain. -/
def chunkLength (bytes : List UInt8) (limit : ℕ) : ℕ :=
  if bytes.length = 0 ∨ bytes.length % 2 = 1 then 0
  else
    -- the smaller of the two with its lowest bit cleared
    let length := 2 * ((if bytes.length < limit then bytes.length else limit) / 2)
    if length = 0 then 0
    else if length < bytes.length ∧ IsHigh (unitAt bytes (length - 2))
        ∧ IsLow (unitAt bytes length) then length - 2
    else length

/-- The loop of `JuiceSendTextPayload`, over the bytes from `offset` on:
the chunks it passes to `sendMessage` with what that returns, and what it
returns itself. The sends are numbered. -/
def sendLoop (send : ℕ → Bool) (bytes : List UInt8) (chunks : ℕ) :
    List (List UInt8 × Bool) × Bool :=
  if bytes = [] then ([], true)
  else
    if chunkLength bytes textChunkBytes = 0 then ([], false)
    else if send chunks then
      let r := sendLoop send (bytes.drop (chunkLength bytes textChunkBytes)) (chunks + 1)
      ((bytes.take (chunkLength bytes textChunkBytes), true) :: r.1, r.2)
    else ([(bytes.take (chunkLength bytes textChunkBytes), false)], false)
termination_by bytes.length
decreasing_by
  rename_i hne hpos _
  have := List.length_pos_of_ne_nil hne
  rw [List.length_drop]
  omega

/-- **`JuiceSendTextPayload`** -/
def sendTextPayload (send : ℕ → Bool) (payload : List UInt8) (hwnd : UInt64) (client : Int32) :
    List (List UInt8 × Bool) × Bool :=
  if payload = [] ∨ hwnd = 0 ∨ client < 0 then ([], false) else sendLoop send payload 0

/-- The chunks that were sent. -/
def sent (attempts : List (List UInt8 × Bool)) : List (List UInt8) :=
  (attempts.filter Prod.snd).map Prod.fst

/-! ## Receiving -/

/-- `JUICE_IOS_TEXT`, `JUICE_TEXT_MESSAGE` -/
def TEXT : UInt32 := 101

/-- The record of a chunk; `sendMessage` fills in the size. -/
def textRecord (hwnd : UInt64) (chunk : List UInt8) : Content :=
  (⟨MAGIC, TEXT, .ofNat chunk.length, hwnd, 0, 0, 0, 0, 0, 0⟩, chunk)

/-- **The `WM_CHAR` loop** of `ios_ipc_process_input` for a record. -/
def wmChars (record : Content) : List UInt16 :=
  if record.1.type = TEXT ∧ record.1.size ≠ 0 ∧ record.1.size % 2 = 0 then
    (List.range (record.1.size.toNat / 2)).map (fun i => unitAt record.2 (2 * i))
  else []

/-! ## Units and bytes -/

theorem units_append {a : List UInt8} (h : a.length % 2 = 0) (b : List UInt8) :
    units (a ++ b) = units a ++ units b := by
  fun_induction units a with
  | case1 => rfl
  | case2 x => exact absurd h Nat.one_ne_zero
  | case3 lo hi rest ih =>
    rw [length_cons, length_cons] at h
    show unit lo hi :: units (rest ++ b) = _
    rw [ih (by omega)]
    rfl

theorem units_flatten {chunks : List (List UInt8)} (h : ∀ c ∈ chunks, c.length % 2 = 0) :
    units chunks.flatten = chunks.flatMap units := by
  induction chunks with
  | nil => rfl
  | cons c chunks ih =>
    rw [flatten_cons, units_append (h c mem_cons_self), flatMap_cons,
      ih fun d hd => h d (mem_cons_of_mem _ hd)]

/-- The units of a buffer, one after the other. -/
theorem units_eq_map (bytes : List UInt8) :
    units bytes = (List.range (bytes.length / 2)).map (fun i => unitAt bytes (2 * i)) := by
  fun_induction units bytes with
  | case1 => rfl
  | case2 x =>
    have hlen : [x].length / 2 = 0 := by simp
    rw [hlen]
    rfl
  | case3 lo hi rest ih =>
    have hlen : (lo :: hi :: rest).length / 2 = rest.length / 2 + 1 := by
      rw [length_cons, length_cons]
      omega
    rw [hlen, range_succ_eq_map, map_cons, map_map, ih]
    rfl

theorem units_getElem? {i : ℕ} (h : 2 * i + 1 < bytes.length) :
    (units bytes)[i]? = some (unitAt bytes (2 * i)) := by
  rw [units_eq_map, List.getElem?_map, List.getElem?_range (by omega)]
  rfl

theorem unitAt_drop (bytes : List UInt8) (n : ℕ) : unitAt (bytes.drop n) 0 = unitAt bytes n := by
  unfold unitAt
  rw [getD_eq_getElem?_getD, getD_eq_getElem?_getD, List.getElem?_drop,
    List.getElem?_drop, ← getD_eq_getElem?_getD, ← getD_eq_getElem?_getD]
  rfl

theorem unitAt_take {n i : ℕ} (h : i + 1 < n) : unitAt (bytes.take n) i = unitAt bytes i := by
  unfold unitAt
  rw [getD_eq_getElem?_getD, getD_eq_getElem?_getD, List.getElem?_take_of_lt (by omega),
    List.getElem?_take_of_lt h, ← getD_eq_getElem?_getD, ← getD_eq_getElem?_getD]

/-! ## One chunk -/

/-- **A cut that separates a pair of surrogates.** -/
def Splits (a b : List UInt8) : Prop :=
  ∃ high low, (units a).getLast? = some high ∧ IsHigh high ∧ (units b).head? = some low ∧ IsLow low

/-- **What `JuiceUTF16ChunkLength` returns** for a limit that has room for a
pair: some whole units within the limit, and no pair is cut behind them. -/
theorem chunkLength_spec {limit : ℕ} (hlimit : 4 ≤ limit) (hne : bytes ≠ [])
    (heven : bytes.length % 2 = 0) :
    0 < chunkLength bytes limit ∧ chunkLength bytes limit % 2 = 0
      ∧ chunkLength bytes limit ≤ limit ∧ chunkLength bytes limit ≤ bytes.length
      ∧ (chunkLength bytes limit < bytes.length →
          ¬ (IsHigh (unitAt bytes (chunkLength bytes limit - 2))
            ∧ IsLow (unitAt bytes (chunkLength bytes limit)))) := by
  have hpos := length_pos_of_ne_nil hne
  unfold chunkLength
  rw [if_neg (by omega)]
  dsimp only
  generalize hl : 2 * ((if bytes.length < limit then bytes.length else limit) / 2) = length
  have hbounds : 0 < length ∧ length % 2 = 0 ∧ length ≤ limit ∧ length ≤ bytes.length
      ∧ (length < bytes.length → 4 ≤ length) := by
    split at hl
    · omega
    · omega
  rw [if_neg (by omega)]
  split
  next hpair =>
    -- The unit given up is a high surrogate, so it does not end a pair itself.
    refine ⟨by omega, by omega, by omega, by omega, fun _ hbad => ?_⟩
    exact not_isLow_of_isHigh hpair.2.1 hbad.2
  next hpair =>
    exact ⟨by omega, by omega, by omega, by omega, fun hlt hbad => hpair ⟨hlt, hbad⟩⟩

/-- The chunks on both sides of a cut, in terms of the buffer. -/
theorem not_splits_of_unitAt {next : List UInt8} {n : ℕ} (hpos : 0 < n) (heven : n % 2 = 0)
    (hle : n ≤ bytes.length) (hnext : next <+: bytes.drop n)
    (h : n < bytes.length → ¬ (IsHigh (unitAt bytes (n - 2)) ∧ IsLow (unitAt bytes n))) :
    ¬ Splits (bytes.take n) next := by
  rintro ⟨high, low, hlast, hhigh, hfirst, hlow⟩
  obtain ⟨m, rfl⟩ : ∃ m, n = 2 * (m + 1) := ⟨n / 2 - 1, by omega⟩
  have hlen : (bytes.take (2 * (m + 1))).length = 2 * (m + 1) := by
    rw [length_take]
    omega
  have hhigh' : high = unitAt bytes (2 * m) := by
    have hcount : (units (bytes.take (2 * (m + 1)))).length = m + 1 := by
      rw [units_eq_map, length_map, length_range, hlen]
      omega
    rw [List.getLast?_eq_getElem?, hcount, Nat.add_sub_cancel, units_getElem? (by omega),
      Option.some_inj, unitAt_take (by omega)] at hlast
    exact hlast.symm
  have htwo : 2 ≤ next.length := by
    rcases next with _ | ⟨x, _ | ⟨y, next⟩⟩
    · cases hfirst
    · cases hfirst
    · exact Nat.le_add_left 2 next.length
  have hlow' : low = unitAt bytes (2 * (m + 1)) := by
    rw [List.head?_eq_getElem?, units_getElem? (by omega), Option.some_inj] at hfirst
    rw [← hfirst, prefix_iff_eq_take.mp hnext, unitAt_take (by omega), Nat.mul_zero, unitAt_drop]
  have hrest := hnext.length_le
  rw [length_drop] at hrest
  refine h (by omega) ⟨?_, ?_⟩
  · rwa [show 2 * (m + 1) - 2 = 2 * m by omega, ← hhigh']
  · rwa [← hlow']

/-! ## The whole payload -/

/-- **A chunk as the driver wants it.** -/
def GoodChunk (chunk : List UInt8) : Prop :=
  chunk ≠ [] ∧ chunk.length % 2 = 0 ∧ chunk.length ≤ textChunkBytes

theorem goodChunk_take (hne : bytes ≠ []) (heven : bytes.length % 2 = 0) :
    GoodChunk (bytes.take (chunkLength bytes textChunkBytes)) := by
  obtain ⟨hlt, hmod, hlimit, hle, -⟩ := chunkLength_spec four_le_textChunkBytes hne heven
  have hlen : (bytes.take (chunkLength bytes textChunkBytes)).length
      = chunkLength bytes textChunkBytes := by
    rw [length_take]
    exact Nat.min_eq_left hle
  unfold GoodChunk
  rw [hlen]
  exact ⟨ne_nil_of_length_pos (by rw [hlen]; exact hlt), hmod, hlimit⟩

/-- What the loop has done with the bytes it was given. -/
structure Done (bytes : List UInt8) (r : List (List UInt8 × Bool) × Bool) : Prop where
  good : ∀ a ∈ r.1, GoodChunk a.1
  chain : (r.1.map Prod.fst).IsChain (fun a b => ¬ Splits a b)
  first : ∀ a ∈ r.1.head?, a.1 <+: bytes
  sent_prefix : (sent r.1).flatten <+: bytes
  sent_iff : (sent r.1).flatten = bytes ↔ r.2 = true

/-- **The loop**: one chunk is cut off that does not end inside a pair, and
the rest is sent the same way. -/
theorem done_sendLoop (send : ℕ → Bool) (heven : bytes.length % 2 = 0) (chunks : ℕ) :
    Done bytes (sendLoop send bytes chunks) := by
  fun_induction sendLoop send bytes chunks with
  | case1 chunks =>
    exact ⟨fun a ha => absurd ha not_mem_nil, .nil, fun a ha => absurd ha (by simp),
      prefix_rfl, iff_of_true rfl rfl⟩
  | case2 bytes chunks hne hzero =>
    exact absurd hzero (Nat.ne_of_gt (chunkLength_spec four_le_textChunkBytes hne heven).1)
  | case3 bytes chunks hne hpos hsend r ih =>
    have hgood := goodChunk_take hne heven
    obtain ⟨hlt, hmod, hlimit, hle, hpair⟩ := chunkLength_spec four_le_textChunkBytes hne heven
    have hdone : Done (bytes.drop (chunkLength bytes textChunkBytes)) r :=
      ih (by rw [length_drop]; omega)
    clear_value r
    generalize chunkLength bytes textChunkBytes = n at *
    have hsent : (sent ((bytes.take n, true) :: r.1)).flatten
        = bytes.take n ++ (sent r.1).flatten := rfl
    have hbytes : bytes = bytes.take n ++ bytes.drop n := (take_append_drop n bytes).symm
    refine ⟨?_, ?_, ?_, ?_, ?_⟩
    · intro a ha
      rcases mem_cons.mp ha with rfl | ha
      · exact hgood
      · exact hdone.good a ha
    · have hfirst := hdone.first
      have hchain := hdone.chain
      cases hr : r.1 with
      | nil => exact .singleton _
      | cons a attempts =>
        rw [hr] at hfirst hchain
        exact .cons_cons (not_splits_of_unitAt hlt hmod hle (hfirst a rfl) hpair) hchain
    · rintro a ⟨⟩
      exact take_prefix n bytes
    · rw [hsent]
      nth_rewrite 2 [hbytes]
      exact (prefix_append_right_inj _).mpr hdone.sent_prefix
    · rw [hsent, ← hdone.sent_iff]
      nth_rewrite 2 [hbytes]
      exact append_right_inj _
  | case4 bytes chunks hne hpos hsend =>
    refine ⟨?_, .singleton _, ?_, nil_prefix, iff_of_false (Ne.symm hne) Bool.false_ne_true⟩
    · intro a ha
      rw [mem_singleton.mp ha]
      exact goodChunk_take hne heven
    · rintro a ⟨⟩
      exact take_prefix _ bytes

/-! ## What the driver makes of it -/

variable {chunk : List UInt8}

theorem toNat_size (h : GoodChunk chunk) (hwnd : UInt64) :
    (textRecord hwnd chunk).1.size.toNat = chunk.length := by
  refine UInt32.toNat_ofNat_of_lt' (Nat.lt_of_le_of_lt h.2.2 (by decide))

/-- The driver accepts a record of a chunk. -/
theorem wellFormed_textRecord (h : GoodChunk chunk) (hwnd : UInt64) :
    Input.WellFormed (textRecord hwnd chunk) where
  magic := rfl
  size_eq := (toNat_size h hwnd).symm
  size_le := by
    rw [toNat_size h hwnd]
    exact Nat.le_trans h.2.2 (by decide)

/-- **It posts the units of the chunk.** -/
theorem wmChars_textRecord (h : GoodChunk chunk) (hwnd : UInt64) :
    wmChars (textRecord hwnd chunk) = units chunk := by
  have hsize := toNat_size h hwnd
  have hpos := length_pos_of_ne_nil h.1
  have hnonzero : (textRecord hwnd chunk).1.size ≠ 0 := by
    intro hzero
    rw [hzero] at hsize
    exact absurd hsize (Nat.ne_of_lt hpos)
  have hmod : (textRecord hwnd chunk).1.size % 2 = 0 := by
    rw [← UInt32.toNat_inj, UInt32.toNat_mod, hsize]
    exact h.2.1
  unfold wmChars
  rw [if_pos ⟨rfl, hnonzero, hmod⟩, hsize]
  exact (units_eq_map chunk).symm

/-- **Pasting text.** Whatever the sends return, `JuiceSendTextPayload`
returns; every chunk it tries to send is not empty, of whole units and at
most 60 KiB, and the driver accepts its record; no two chunks in a row
separate a pair of surrogates. What is sent is the start of the payload, and
all of it exactly if the answer is YES. The `WM_CHAR` messages for the
records that were sent are the units of what was sent, in order – in the
case of YES those of the payload. -/
theorem sendTextPayload_sound (send : ℕ → Bool) {payload : List UInt8} (hne : payload ≠ [])
    (heven : payload.length % 2 = 0) (hwnd : UInt64) (client : Int32) :
    (∀ a ∈ (sendTextPayload send payload hwnd client).1,
        GoodChunk a.1 ∧ Input.WellFormed (textRecord hwnd a.1))
    ∧ ((sendTextPayload send payload hwnd client).1.map Prod.fst).IsChain (fun a b => ¬ Splits a b)
    ∧ (sent (sendTextPayload send payload hwnd client).1).flatten <+: payload
    ∧ ((sent (sendTextPayload send payload hwnd client).1).flatten = payload
        ↔ (sendTextPayload send payload hwnd client).2 = true)
    ∧ ((sent (sendTextPayload send payload hwnd client).1).map (textRecord hwnd)).flatMap wmChars
        = units (sent (sendTextPayload send payload hwnd client).1).flatten := by
  have hdone : Done payload (sendTextPayload send payload hwnd client) := by
    unfold sendTextPayload
    split
    · exact ⟨fun a ha => absurd ha not_mem_nil, .nil, fun a ha => absurd ha (by simp),
        nil_prefix, iff_of_false (Ne.symm hne) Bool.false_ne_true⟩
    · exact done_sendLoop send heven 0
  generalize sendTextPayload send payload hwnd client = r at hdone
  have hsent : ∀ c ∈ sent r.1, GoodChunk c := by
    intro c hc
    obtain ⟨a, ha, rfl⟩ := mem_map.mp hc
    exact hdone.good a (mem_filter.mp ha).1
  refine ⟨fun a ha => ⟨hdone.good a ha, wellFormed_textRecord (hdone.good a ha) hwnd⟩, hdone.chain,
    hdone.sent_prefix, hdone.sent_iff, ?_⟩
  rw [units_flatten fun c hc => (hsent c hc).2.1, flatMap_map]
  exact flatMap_congr fun c hc => wmChars_textRecord (hsent c hc) hwnd

/-- A letter and a character of two units. -/
def smile : List UInt8 := [0x61, 0x00, 0x3d, 0xd8, 0x00, 0xde]

/-- The letter and the pair arrive as three messages. -/
theorem sendTextPayload_smile :
    (sendTextPayload (fun _ => true) smile 7 3).2 = true
      ∧ ((sent (sendTextPayload (fun _ => true) smile 7 3).1).map (textRecord 7)).flatMap wmChars
        = [0x61, 0xd83d, 0xde00] := by
  have hyes : (sendTextPayload (fun _ => true) smile 7 3).2 = true := by
    simp [sendTextPayload, sendLoop, smile, chunkLength, textChunkBytes]
  have hne : smile ≠ [] := by decide
  obtain ⟨-, -, -, hall, hchars⟩ := sendTextPayload_sound (fun _ => true) hne (by decide) 7 3
  refine ⟨hyes, ?_⟩
  rw [hchars, hall.mpr hyes]
  decide

end Juice.Text
