import Mathlib.Data.List.Basic

/-!
# Scanning a stream for tokens

A scanner says of a list how long the token at its head is, 0 where there is
none. Whether there is a token is a matter of the elements of the token
alone: what follows neither makes a token nor unmakes one.

Scanning a list keeps its tokens and puts a substitute in the place of every
element that is in none. A list may be cut in two and the parts scanned on
their own wherever no token is severed – `Scanner.scan_append`.
-/

/-- **A scanner**: the width of the token at the head of a list. -/
structure Scanner (α : Type) where
  /-- The width of the token at the head, 0 where there is none. -/
  width : List α → ℕ
  width_le : ∀ s, width s ≤ s.length
  /-- What follows does not unmake a token … -/
  width_append : ∀ s t, 0 < width s → width (s ++ t) = width s
  /-- … and a token does not depend on what follows it. -/
  width_of_append : ∀ s t, width (s ++ t) ≤ s.length → width s = width (s ++ t)

namespace Scanner

open List

variable {α : Type} (S : Scanner α) (subst : List α) {s t : List α}

/-- Keep the tokens and substitute for what is in none. -/
def scan (s : List α) : List α :=
  match s with
  | [] => []
  | x :: xs =>
    if 0 < S.width (x :: xs) then
      (x :: xs).take (S.width (x :: xs)) ++ scan ((x :: xs).drop (S.width (x :: xs)))
    else subst ++ scan xs
termination_by s.length
decreasing_by
  · rw [List.length_drop]
    have := S.width_le (x :: xs)
    omega
  · exact Nat.lt_succ_self _

@[simp] theorem scan_nil : S.scan subst [] = [] := by
  rw [scan]

theorem scan_token (h : 0 < S.width s) :
    S.scan subst s = s.take (S.width s) ++ S.scan subst (s.drop (S.width s)) := by
  cases s with
  | nil => exact absurd (S.width_le []) (Nat.not_le_of_gt h)
  | cons x xs =>
    rw [scan, if_pos h]

theorem scan_other {x : α} {xs : List α} (h : S.width (x :: xs) = 0) :
    S.scan subst (x :: xs) = subst ++ S.scan subst xs := by
  rw [scan, if_neg (by omega)]

/-- **A cut that severs no token**: every token that begins before it ends
before it. -/
def Cut (s t : List α) : Prop :=
  ∀ i, i < s.length → i + S.width (s.drop i ++ t) ≤ s.length

variable {S}

theorem Cut.tail {x : α} {xs : List α} (h : S.Cut (x :: xs) t) : S.Cut xs t := by
  intro i hi
  have := h (i + 1) (Nat.succ_lt_succ hi)
  rw [drop_succ_cons, length_cons] at this
  omega

theorem Cut.drop (h : S.Cut s t) (n : ℕ) : S.Cut (s.drop n) t := by
  induction n generalizing s with
  | zero => exact h
  | succ n ih =>
    cases s with
    | nil => exact fun i hi => absurd hi (by simp)
    | cons x xs => exact ih h.tail

/-- Cuts compose. -/
theorem Cut.append {r : List α} (h : S.Cut r (s ++ t)) (h' : S.Cut s t) : S.Cut (r ++ s) t := by
  intro i hi
  rw [length_append] at hi ⊢
  rcases Nat.lt_or_ge i r.length with hlt | hge
  · have := h i hlt
    rw [drop_append_of_le_length (Nat.le_of_lt hlt), append_assoc]
    omega
  · obtain ⟨k, rfl⟩ := Nat.exists_eq_add_of_le hge
    have := h' k (by omega)
    rw [drop_append, drop_eq_nil_of_le (by omega), nil_append,
      Nat.add_sub_cancel_left]
    omega

/-- **Scanning distributes over a cut.** -/
theorem scan_append (h : S.Cut s t) : S.scan subst (s ++ t) = S.scan subst s ++ S.scan subst t := by
  -- by induction on the length: a token takes several elements at once
  induction hn : s.length using Nat.strongRecOn generalizing s with
  | _ n ih =>
  cases s with
  | nil => simp
  | cons x xs =>
    have hle : S.width (x :: xs ++ t) ≤ (x :: xs).length := by
      have := h 0 (Nat.succ_pos _)
      simpa using this
    have hwidth := S.width_of_append (x :: xs) t hle
    rcases Nat.eq_zero_or_pos (S.width (x :: xs)) with hzero | hpos
    · have hlt : xs.length < n := by
        rw [← hn]
        exact Nat.lt_succ_self _
      rw [scan_other _ _ hzero, cons_append, scan_other _ _ (by
        rw [← cons_append, ← hwidth, hzero]), ih xs.length hlt h.tail rfl, append_assoc]
    · have hlt : ((x :: xs).drop (S.width (x :: xs))).length < n := by
        rw [length_drop, hn]
        have := S.width_le (x :: xs)
        omega
      rw [scan_token _ _ hpos, scan_token _ _ (hwidth ▸ hpos), ← hwidth,
        take_append_of_le_length (S.width_le _), drop_append_of_le_length (S.width_le _),
        ih _ hlt (h.drop _) rfl, append_assoc]

/-- Scanning adds only substitutes. -/
theorem mem_of_mem_scan {x : α} (h : x ∈ S.scan subst s) : x ∈ s ∨ x ∈ subst := by
  induction hn : s.length using Nat.strongRecOn generalizing s with
  | _ n ih =>
  cases s with
  | nil => simp at h
  | cons y ys =>
    rcases Nat.eq_zero_or_pos (S.width (y :: ys)) with hzero | hpos
    · rw [scan_other _ _ hzero, mem_append] at h
      have hlt : ys.length < n := by
        rw [← hn]
        exact Nat.lt_succ_self _
      rcases h with h | h
      · exact .inr h
      · exact (ih _ hlt h rfl).imp (mem_cons_of_mem _) id
    · rw [scan_token _ _ hpos, mem_append] at h
      have hlt : ((y :: ys).drop (S.width (y :: ys))).length < n := by
        rw [length_drop, hn]
        have := S.width_le (y :: ys)
        omega
      rcases h with h | h
      · exact .inl (mem_of_mem_take h)
      · exact (ih _ hlt h rfl).imp mem_of_mem_drop id

/-- **Where no substitute shows, nothing was substituted.** -/
theorem scan_eq_self (hsub : subst ≠ []) (h : ∀ x ∈ S.scan subst s, x ∉ subst) :
    S.scan subst s = s := by
  induction hn : s.length using Nat.strongRecOn generalizing s with
  | _ n ih =>
  cases s with
  | nil => exact scan_nil _ _
  | cons y ys =>
    rcases Nat.eq_zero_or_pos (S.width (y :: ys)) with hzero | hpos
    · rw [scan_other _ _ hzero] at h
      obtain ⟨x, hx⟩ := exists_mem_of_ne_nil subst hsub
      exact absurd hx (h x (mem_append_left _ hx))
    · have hlt : ((y :: ys).drop (S.width (y :: ys))).length < n := by
        rw [length_drop, hn]
        have := S.width_le (y :: ys)
        omega
      rw [scan_token _ _ hpos] at h ⊢
      rw [ih _ hlt (fun x hx => h x (mem_append_right _ hx)) rfl, take_append_drop]

end Scanner
