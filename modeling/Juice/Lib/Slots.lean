import Mathlib.Algebra.BigOperators.Group.List.Basic
import Mathlib.Algebra.Ring.Nat
import Mathlib.Data.List.Nodup

/-!
# Lists as slots

A list of processes, or of tasks in flight, is changed one place at a time:
the process at a place moves on, or the task there is done. Sums and counts
over the list then change by what that place contributes, before and after.
-/

namespace Slots

open List

variable {α : Type} {l : List α} {i : ℕ} {a b : α}

/-- A list around one of its places. -/
theorem exists_split (h : l[i]? = some a) :
    ∃ l₁ l₂, l = l₁ ++ a :: l₂ ∧ l₁.length = i
      ∧ (∀ b, l.set i b = l₁ ++ b :: l₂) ∧ l.eraseIdx i = l₁ ++ l₂ := by
  obtain ⟨hi, ha⟩ := List.getElem?_eq_some_iff.mp h
  refine ⟨l.take i, l.drop (i + 1), ?_, length_take_of_le (Nat.le_of_lt hi), ?_, ?_⟩
  · rw [← ha, getElem_cons_drop, take_append_drop]
  · intro b
    exact set_eq_take_append_cons_drop.trans (if_pos hi)
  · exact eraseIdx_eq_take_drop_succ l i

/-- A list around the first place that passes a test. -/
theorem exists_split_findIdx (p : α → Bool) (l : List α) :
    ∃ l₁ l₂, l = l₁ ++ l₂ ∧ l.findIdx p = l₁.length ∧ (∀ a ∈ l₁, p a = false)
      ∧ ∀ a rest, l₂ = a :: rest → p a = true := by
  induction l with
  | nil => exact ⟨[], [], rfl, rfl, fun _ h => absurd h not_mem_nil, nofun⟩
  | cons a l ih =>
    rw [findIdx_cons]
    cases ha : p a with
    | true =>
      refine ⟨[], a :: l, rfl, rfl, fun _ h => absurd h not_mem_nil, fun b rest h => ?_⟩
      rw [← (List.cons.inj h).1]
      exact ha
    | false =>
      obtain ⟨l₁, l₂, hl, hlen, hfirst, hthen⟩ := ih
      refine ⟨a :: l₁, l₂, by rw [hl]; rfl, ?_, forall_mem_cons.mpr ⟨ha, hfirst⟩, hthen⟩
      rw [hlen]
      rfl

/-- A new place between two parts of a list. -/
theorem insertIdx_length (l₁ l₂ : List α) (a : α) :
    (l₁ ++ l₂).insertIdx l₁.length a = l₁ ++ a :: l₂ := by
  induction l₁ with
  | nil => rfl
  | cons b l₁ ih =>
    show b :: (l₁ ++ l₂).insertIdx l₁.length a = _
    rw [ih]
    rfl

/-- A sum over the places, when one of them changes. -/
theorem sum_map_set (h : l[i]? = some a) (g : α → ℕ) (b : α) :
    ((l.set i b).map g).sum + g a = (l.map g).sum + g b := by
  obtain ⟨l₁, l₂, hl, -, hset, -⟩ := exists_split h
  rw [hset, hl]
  simp only [map_append, map_cons, sum_append, sum_cons]
  omega

/-- What a place contributes is part of the sum. -/
theorem le_sum_map (h : l[i]? = some a) (g : α → ℕ) : g a ≤ (l.map g).sum := by
  obtain ⟨l₁, l₂, hl, -, -, -⟩ := exists_split h
  rw [hl]
  simp only [map_append, map_cons, sum_append, sum_cons]
  omega

/-- A count over the places, when one of them changes. -/
theorem countP_set (h : l[i]? = some a) (p : α → Bool) (b : α) :
    (l.set i b).countP p + (if p a then 1 else 0) = l.countP p + (if p b then 1 else 0) := by
  obtain ⟨l₁, l₂, hl, -, hset, -⟩ := exists_split h
  rw [hset, hl]
  simp only [countP_append, countP_cons]
  omega

/-- A count over the places, when one of them goes. -/
theorem countP_eraseIdx (h : l[i]? = some a) (p : α → Bool) :
    (l.eraseIdx i).countP p + (if p a then 1 else 0) = l.countP p := by
  obtain ⟨l₁, l₂, hl, -, -, herase⟩ := exists_split h
  rw [herase, hl]
  simp only [countP_append, countP_cons]
  omega

/-- What holds at every place still does when one of them changes, if it
holds of what is put there. -/
theorem forall_mem_set {P : α → Prop} (h : ∀ x ∈ l, P x) (i : ℕ) (hb : P b) :
    ∀ x ∈ l.set i b, P x := by
  intro x hx
  rcases mem_or_eq_of_mem_set hx with hx | rfl
  · exact h x hx
  · exact hb

/-- What holds at every place still does when one is added. -/
theorem forall_mem_concat {P : α → Prop} (h : ∀ x ∈ l, P x) (hb : P b) : ∀ x ∈ l ++ [b], P x :=
  forall_mem_append.mpr ⟨h, forall_mem_singleton.mpr hb⟩

/-- A new place has a new label. -/
theorem nodup_map_concat {β : Type} {f : α → β} (h : (l.map f).Nodup)
    (hb : ∀ x ∈ l, f x ≠ f b) : ((l ++ [b]).map f).Nodup := by
  rw [map_append, map_singleton, nodup_append_comm, singleton_append,
    nodup_cons]
  refine ⟨fun hmem => ?_, h⟩
  obtain ⟨x, hx, heq⟩ := mem_map.mp hmem
  exact hb x hx heq

/-- Two places with one label are one. -/
theorem eq_of_nodup_map {β : Type} {f : α → β} {j : ℕ} (h : (l.map f).Nodup) (hi : l[i]? = some a)
    (hj : l[j]? = some b) (hf : f a = f b) : i = j := by
  have hlt : i < (l.map f).length := by
    rw [length_map]
    exact (List.getElem?_eq_some_iff.mp hi).1
  refine (List.getElem?_inj hlt h).mp ?_
  rw [List.getElem?_map, List.getElem?_map, hi, hj, Option.map_some, Option.map_some, hf]

/-- What is at one of the places is still there, or was at the place that
changed. -/
theorem mem_set_or_eq (h : l[i]? = some a) (b : α) {x : α} (hx : x ∈ l) :
    x ∈ l.set i b ∨ x = a := by
  obtain ⟨l₁, l₂, hl, -, hset, -⟩ := exists_split h
  rw [hset]
  rw [hl] at hx
  simp only [mem_append, mem_cons] at hx ⊢
  tauto

/-- Where at most one place passes a test, two that do are one. -/
theorem eq_of_countP_le_one {p : α → Bool} (h : l.countP p ≤ 1) (ha : a ∈ l) (hb : b ∈ l)
    (hpa : p a = true) (hpb : p b = true) : a = b := by
  obtain ⟨l₁, l₂, rfl⟩ := append_of_mem ha
  simp only [countP_append, countP_cons, hpa, if_true] at h
  have h₁ : l₁.countP p = 0 := by omega
  have h₂ : l₂.countP p = 0 := by omega
  simp only [mem_append, mem_cons] at hb
  rcases hb with hb | rfl | hb
  · exact absurd hpb (countP_eq_zero.mp h₁ b hb)
  · rfl
  · exact absurd hpb (countP_eq_zero.mp h₂ b hb)

/-- What is put at a place is there. -/
theorem getElem?_set_self (h : l[i]? = some a) (b : α) : (l.set i b)[i]? = some b := by
  rw [List.getElem?_set_self]
  exact (List.getElem?_eq_some_iff.mp h).1

/-- What is at a place once one has changed. -/
theorem getElem?_set_cases {j : ℕ} {x : α} (h : (l.set i b)[j]? = some x) :
    (j = i ∧ x = b) ∨ (j ≠ i ∧ l[j]? = some x) := by
  by_cases hij : j = i
  · subst hij
    have hlt : j < l.length := by
      have hlen := (List.getElem?_eq_some_iff.mp h).1
      rwa [length_set] at hlen
    rw [List.getElem?_set_self hlt] at h
    exact .inl ⟨rfl, (Option.some.inj h).symm⟩
  · rw [List.getElem?_set_ne (Ne.symm hij)] at h
    exact .inr ⟨hij, h⟩

/-- What is at a place stays there when one is added. -/
theorem getElem?_concat_of_some {j : ℕ} {x : α} (h : l[j]? = some x) (b : α) :
    (l ++ [b])[j]? = some x := by
  rw [List.getElem?_append_left (List.getElem?_eq_some_iff.mp h).1]
  exact h

/-- What is at a place once one was added. -/
theorem getElem?_concat_cases {j : ℕ} {x : α} (h : (l ++ [b])[j]? = some x) :
    (j = l.length ∧ x = b) ∨ l[j]? = some x := by
  rcases Nat.lt_or_ge j l.length with hlt | hge
  · rw [List.getElem?_append_left hlt] at h
    exact .inr h
  · rw [List.getElem?_append_right hge] at h
    obtain ⟨hlen, hx⟩ := List.getElem?_eq_some_iff.mp h
    rw [length_singleton] at hlen
    refine .inl ⟨by omega, ?_⟩
    rw [← hx]
    exact getElem_singleton _

/-- An element changes in what a function does not see. -/
theorem map_set {β : Type} {f : α → β} (h : l[i]? = some a) (hf : f b = f a) :
    (l.set i b).map f = l.map f := by
  obtain ⟨l₁, l₂, hl, -, hset, -⟩ := exists_split h
  rw [hset, hl, map_append, map_append, map_cons, map_cons, hf]

/-! ## Places with labels of their own -/

section Labels

variable {κ : Type} {l : List (κ × α)} {i : ℕ} {c : κ} {a : α}

theorem labels_eq (h : (l.map Prod.fst).Nodup) (hi : l[i]? = some (c, a)) :
    ∃ l₁ l₂, l = l₁ ++ (c, a) :: l₂ ∧ (∀ b, l.set i b = l₁ ++ b :: l₂) ∧ l.eraseIdx i = l₁ ++ l₂
      ∧ ∀ p, p ∈ l ∧ p.1 ≠ c ↔ p ∈ l₁ ++ l₂ := by
  obtain ⟨l₁, l₂, hl, -, hset, herase⟩ := exists_split hi
  refine ⟨l₁, l₂, hl, hset, herase, fun p => ?_⟩
  rw [hl, map_append, map_cons, nodup_middle, nodup_cons,
    ← map_append] at h
  rw [hl, mem_append, mem_cons, mem_append]
  constructor
  · rintro ⟨hp | rfl | hp, hne⟩
    · exact .inl hp
    · exact absurd rfl hne
    · exact .inr hp
  · intro hp
    refine ⟨hp.imp_right .inr, ?_⟩
    rintro rfl
    exact h.1 (mem_map.mpr ⟨p, mem_append.mpr hp, rfl⟩)

/-- The place with a label has changed. -/
theorem mem_set_iff (h : (l.map Prod.fst).Nodup) (hi : l[i]? = some (c, a)) {b : α} {p : κ × α} :
    p ∈ l.set i (c, b) ↔ p ∈ l ∧ p.1 ≠ c ∨ p = (c, b) := by
  obtain ⟨l₁, l₂, -, hset, -, hmem⟩ := labels_eq h hi
  rw [hset, hmem, mem_append, mem_cons, mem_append]
  tauto

/-- The place with a label is gone. -/
theorem mem_eraseIdx_iff (h : (l.map Prod.fst).Nodup) (hi : l[i]? = some (c, a)) {p : κ × α} :
    p ∈ l.eraseIdx i ↔ p ∈ l ∧ p.1 ≠ c := by
  obtain ⟨l₁, l₂, -, -, herase, hmem⟩ := labels_eq h hi
  rw [herase, hmem]

end Labels

/-- What is at a place is among the first elements past it. -/
theorem mem_take {n : ℕ} (h : l[i]? = some a) (hlt : i < n) : a ∈ l.take n :=
  mem_of_getElem? ((List.getElem?_take_of_lt hlt).trans h)

end Slots
