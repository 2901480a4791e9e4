import Mathlib.Data.List.Nodup
import Mathlib.Data.List.Perm.Subperm
import Mathlib.Data.Nat.Digits.Defs

/-!
# Numerals and numbered names

`text b n` is the number `n` as it is printed to a base of at most ten. A
numeral can be read back (`text_injective`), and its characters are digits
(`mem_text`), so that it cannot be confused with what stands around it.

A program that needs a name nobody has yet often tries numbered names one
after the other. `next` is that search. It is a search among finitely many
names, since all but finitely many of infinitely many names are free, and
it ends at a free one (`next_notMem`).
-/

namespace Numeral

/-! ## Numerals -/

/-- A number as it is printed to the base `b`. -/
def text (b n : ℕ) : List UInt8 :=
  if n = 0 then [0x30] else (Nat.digits b n).reverse.map fun d => UInt8.ofNat (0x30 + d)

theorem toNat_digit {d : ℕ} (hd : d < 10) : (UInt8.ofNat (0x30 + d)).toNat = 0x30 + d := by
  rw [UInt8.toNat_ofNat']
  exact Nat.mod_eq_of_lt (by omega)

section Base

variable {b : ℕ} (hb : 1 < b) (hb' : b ≤ 10)
include hb hb'

/-- **A numeral is made of digits.** -/
theorem mem_text {n : ℕ} {c : UInt8} (h : c ∈ text b n) : 0x30 ≤ c.toNat ∧ c.toNat ≤ 0x39 := by
  unfold text at h
  split at h
  · rw [List.mem_singleton.mp h]
    exact ⟨le_rfl, by decide⟩
  · obtain ⟨d, hd, rfl⟩ := List.mem_map.mp h
    have hlt : d < 10 := (Nat.digits_lt_base hb (List.mem_reverse.mp hd)).trans_le hb'
    rw [toNat_digit hlt]
    omega

/-- **A numeral can be read back.** -/
theorem text_injective : Function.Injective (text b) := by
  -- the value of the digits, from the last one on
  have hback : ∀ n, Nat.ofDigits b ((text b n).reverse.map fun c => c.toNat - 0x30) = n := by
    intro n
    unfold text
    split
    next h => rw [h]; rfl
    next h =>
      rw [← List.map_reverse, List.reverse_reverse, List.map_map]
      have hdigits : (Nat.digits b n).map ((fun c => c.toNat - 0x30) ∘ fun d =>
          UInt8.ofNat (0x30 + d)) = Nat.digits b n := by
        refine (List.map_congr_left fun d hd => ?_).trans (List.map_id _)
        show (UInt8.ofNat (0x30 + d)).toNat - 0x30 = d
        rw [toNat_digit ((Nat.digits_lt_base hb hd).trans_le hb'), Nat.add_sub_cancel_left]
      rw [hdigits, Nat.ofDigits_digits]
  intro m n h
  rw [← hback m, h, hback n]

end Base

/-! ## Names that are free -/

section Free

variable {α : Type} [DecidableEq α] (name : ℕ → α) (taken : List α)

/-- The first number from `i` on whose name is not taken, if it is one of
the next `k`. -/
def search : ℕ → ℕ → ℕ
  | 0, i => i
  | k + 1, i => if name i ∈ taken then search k (i + 1) else i

/-- The first number from `i` on whose name is not taken. -/
def next (i : ℕ) : ℕ := search name taken taken.length i

variable {name taken}

/-- What the search has passed is taken, and it stops early only at a name
that is not. -/
theorem search_spec (k i : ℕ) :
    (∀ j, i ≤ j → j < search name taken k i → name j ∈ taken)
      ∧ (name (search name taken k i) ∈ taken → search name taken k i = i + k) := by
  induction k generalizing i with
  | zero => exact ⟨fun j hi hj => absurd hj (Nat.not_lt.mpr hi), fun _ => rfl⟩
  | succ k ih =>
    rw [search]
    split
    next hmem =>
      refine ⟨fun j hi hj => ?_, fun h => ?_⟩
      · rcases Nat.eq_or_lt_of_le hi with rfl | hlt
        · exact hmem
        · exact (ih (i + 1)).1 j hlt hj
      · rw [(ih (i + 1)).2 h, Nat.add_right_comm, Nat.add_assoc]
    next hmem =>
      exact ⟨fun j hi hj => absurd hj (Nat.not_lt.mpr hi), fun h => absurd h hmem⟩

/-- **The search ends at a free name**: were it to pass as many names as
are taken and stop at one more that is, there would be too many of them. -/
theorem next_notMem (hname : Function.Injective name) (i : ℕ) :
    name (next name taken i) ∉ taken := by
  intro hmem
  obtain ⟨hpassed, hstop⟩ := @search_spec α _ name taken taken.length i
  have hend := hstop hmem
  rw [next, hend] at hmem
  rw [hend] at hpassed
  have hsub : (List.range' i (taken.length + 1)).map name ⊆ taken := by
    intro x hx
    obtain ⟨j, hj, rfl⟩ := List.mem_map.mp hx
    obtain ⟨hle, hlt⟩ := List.mem_range'_1.mp hj
    rcases Nat.eq_or_lt_of_le (Nat.lt_succ_iff.mp hlt) with rfl | hlt'
    · exact hmem
    · exact hpassed j hle hlt'
  have hnodup : ((List.range' i (taken.length + 1)).map name).Nodup :=
    (List.nodup_range' 1).map hname
  have hlen := (hnodup.subperm hsub).length_le
  rw [List.length_map, List.length_range'] at hlen
  exact absurd hlen (Nat.not_succ_le_self _)

end Free

end Numeral
