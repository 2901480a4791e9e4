import Mathlib.Data.Nat.Bits
import Mathlib.Order.Bounds.Basic
import Mathlib.Tactic.Ring

/-!
# Rounding a 64-bit word to a power of two

Systems code rounds a size up to an alignment by adding `a - 1` and
masking the low bits away, `(n + a - 1) & ~(a - 1)`, having checked with
`a & (a - 1)` that `a` is a power of two. Here is what the two idioms
compute.
-/

namespace Align

variable {a : UInt64}

/-- Masking the low `k` bits away rounds down to a multiple of `2 ^ k`. -/
theorem and_mask_eq {x k : ℕ} (hx : x < 2 ^ 64) (hk : k < 64) :
    x &&& (2 ^ 64 - 1 - (2 ^ k - 1)) = x / 2 ^ k * 2 ^ k := by
  have hlt : 2 ^ k - 1 < 2 ^ 64 := by
    have := Nat.pow_lt_pow_right (a := 2) (by omega) hk
    omega
  apply Nat.eq_of_testBit_eq
  intro i
  rw [Nat.testBit_and, Nat.sub_sub, Nat.add_comm 1,
    Nat.testBit_two_pow_sub_succ hlt, Nat.testBit_two_pow_sub_one,
    Nat.testBit_mul_two_pow, Nat.testBit_div_two_pow]
  by_cases hi : i < 64
  · by_cases hik : k ≤ i
    · simp [hi, hik, show ¬ i < k by omega]
    · simp [hik, show i < k by omega]
  · have : x.testBit i = false :=
      Nat.testBit_lt_two_pow (lt_of_lt_of_le hx (Nat.pow_le_pow_right (by omega) (by omega)))
    by_cases hik : k ≤ i
    · simp [this, hik]
    · simp [this, hik]

/-- **The mask `x & ~m`** of a word. -/
theorem toNat_and_not {x m : UInt64} {k : ℕ} (hk : k < 64) (hm : m.toNat = 2 ^ k - 1) :
    (x &&& ~~~m).toNat = x.toNat / 2 ^ k * 2 ^ k := by
  rw [UInt64.toNat_and, UInt64.toNat_not, hm]
  exact and_mask_eq x.toNat_lt hk

/-- **The check `a & (a - 1)`** accepts exactly the powers of two. -/
theorem exists_pow_of_and_pred (h₀ : a ≠ 0) (h : a &&& (a - 1) = 0) :
    ∃ k < 64, a.toNat = 2 ^ k := by
  have hne : a.toNat ≠ 0 := fun h' => h₀ (UInt64.toNat_inj.mp (by simpa using h'))
  have hle : (1 : UInt64) ≤ a := by
    rw [UInt64.le_iff_toNat_le]
    show 1 ≤ a.toNat
    omega
  have hsub : (a - 1).toNat = a.toNat - 1 := UInt64.toNat_sub_of_le _ _ hle
  have hand : a.toNat &&& (a.toNat - 1) = 0 := by
    have := congrArg UInt64.toNat h
    rwa [UInt64.toNat_and, hsub] at this
  obtain ⟨k, hk⟩ := (Nat.and_sub_one_eq_zero_iff_isPowerOfTwo hne).mp hand
  refine ⟨k, ?_, hk⟩
  by_contra hge
  have := a.toNat_lt
  have : 2 ^ 64 ≤ 2 ^ k := Nat.pow_le_pow_right (by omega) (by omega)
  omega

/-- The check `a & (a - 1)` passes for a power of two. -/
theorem and_pred_of_pow {k : ℕ} (h : a.toNat = 2 ^ k) : a &&& (a - 1) = 0 := by
  have hpos : 0 < a.toNat := by
    rw [h]
    exact Nat.two_pow_pos k
  have hle : (1 : UInt64) ≤ a := UInt64.le_iff_toNat_le.mpr hpos
  refine UInt64.toNat_inj.mp ?_
  rw [UInt64.toNat_and, UInt64.toNat_sub_of_le _ _ hle]
  exact (Nat.and_sub_one_eq_zero_iff_isPowerOfTwo (Nat.ne_of_gt hpos)).mpr ⟨k, h⟩

/-- **The mask `(n + a - 1) & ~(a - 1)`** is the least multiple of `a`
that is at least `n`, where the sum does not wrap. -/
theorem toNat_round_up {n : UInt64} {k : ℕ} (hk : k < 64) (ha : a.toNat = 2 ^ k)
    (h : n.toNat + (a.toNat - 1) < 2 ^ 64) :
    ((n + a - 1) &&& ~~~(a - 1)).toNat
      = (n.toNat + (a.toNat - 1)) / a.toNat * a.toNat := by
  have hpos : 0 < a.toNat := by
    rw [ha]
    exact Nat.two_pow_pos k
  have hle : (1 : UInt64) ≤ a := by
    rw [UInt64.le_iff_toNat_le]
    exact hpos
  have hsub : (a - 1).toNat = a.toNat - 1 := UInt64.toNat_sub_of_le _ _ hle
  have hsum : (n + a - 1).toNat = n.toNat + (a.toNat - 1) := by
    rw [show n + a - 1 = n + (a - 1) by grind, UInt64.toNat_add, hsub, Nat.mod_eq_of_lt h]
  rw [toNat_and_not hk (hsub.trans (congrArg (· - 1) ha)), hsum, ha]

/-- A number rounded up is at least the number, and less than a multiple
above it. -/
theorem le_round_up {n a : ℕ} (ha : 0 < a) :
    n ≤ (n + (a - 1)) / a * a ∧ (n + (a - 1)) / a * a ≤ n + (a - 1) := by
  refine ⟨?_, Nat.div_mul_le_self _ _⟩
  have := Nat.div_add_mod (n + (a - 1)) a
  have := Nat.mod_lt (n + (a - 1)) ha
  rw [mul_comm a] at *
  omega

/-- **A number rounded up is the least multiple** that is not below it. -/
theorem isLeast_round_up {a : ℕ} (ha : 0 < a) (n : ℕ) :
    IsLeast {x | a ∣ x ∧ n ≤ x} ((n + (a - 1)) / a * a) := by
  refine ⟨⟨Nat.dvd_mul_left _ _, (le_round_up ha).1⟩, ?_⟩
  rintro _ ⟨⟨q, rfl⟩, hle⟩
  rw [Nat.mul_comm a q]
  refine Nat.mul_le_mul_right a (Nat.le_of_lt_succ ?_)
  rw [Nat.div_lt_iff_lt_mul ha, Nat.succ_mul, Nat.mul_comm q]
  omega

end Align
