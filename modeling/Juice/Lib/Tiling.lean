import Mathlib.Data.List.Pairwise
import Mathlib.Data.List.Perm.Basic

/-!
# Spans that tile an interval

An allocator cuts an interval into spans, some free and some in use, and
moves them between its lists. `Tiles` is what it relies on: the spans are
nonempty and apart, and together they are the interval. It does not depend
on the order of the spans, and a span can be cut in two or two spans that
touch can be joined.

A list of free spans is kept in order and joined as far as possible, which
is `Separated`. Such a list is determined by what it covers; the case of it
that is used is that a separated list which tiles an interval by itself is
one span.
-/

namespace Tiling

open List

variable {s t : Span}

/-- **A span** of numbers. -/
structure Span where
  offset : ℕ
  size : ℕ
  deriving DecidableEq, Repr

/-- The first number behind a span. -/
def Span.stop (s : Span) : ℕ := s.offset + s.size

/-- The numbers of a span. -/
def Span.Has (s : Span) (x : ℕ) : Prop := s.offset ≤ x ∧ x < s.stop

/-- **Two spans are apart** if one of them is before the other. -/
def Span.Apart (s t : Span) : Prop := s.stop ≤ t.offset ∨ t.stop ≤ s.offset

instance (s t : Span) : Decidable (s.Apart t) := inferInstanceAs (Decidable (_ ∨ _))

theorem Span.Apart.symm (h : s.Apart t) : t.Apart s := Or.symm h

/-- **A span within another.** -/
def Span.Within (s t : Span) : Prop := t.offset ≤ s.offset ∧ s.stop ≤ t.stop

instance (s t : Span) : Decidable (s.Within t) := inferInstanceAs (Decidable (_ ∧ _))

/-- A span that is not empty is not apart from what it is within. -/
theorem Span.Within.not_apart (h : s.Within t) (hpos : 0 < s.size) : ¬ s.Apart t := by
  unfold Span.Apart Span.Within Span.stop at *
  omega

/-- Spans that are apart have no number in common. -/
theorem Span.Apart.not_has (h : s.Apart t) {x : ℕ} (hs : s.Has x) : ¬ t.Has x := by
  intro ht
  rcases h with h | h
  · exact Nat.lt_irrefl x (Nat.lt_of_lt_of_le hs.2 (Nat.le_trans h ht.1))
  · exact Nat.lt_irrefl x (Nat.lt_of_lt_of_le ht.2 (Nat.le_trans h hs.1))

/-- **Spans tile the numbers below `n`.** -/
structure Tiles (l : List Span) (n : ℕ) : Prop where
  nonempty : ∀ s ∈ l, 0 < s.size
  apart : l.Pairwise Span.Apart
  covers : ∀ x, (∃ s ∈ l, s.Has x) ↔ x < n

namespace Tiles

variable {l l' : List Span} {n : ℕ} {s : Span}

/-- The order of the spans does not matter. -/
theorem perm (h : Tiles l n) (hperm : l.Perm l') : Tiles l' n where
  nonempty t ht := h.nonempty t (hperm.mem_iff.mpr ht)
  apart := (hperm.pairwise_iff (fun h => Span.Apart.symm h)).mp h.apart
  covers x := by
    rw [← h.covers x]
    exact exists_congr (fun t => and_congr_left (fun _ => hperm.mem_iff.symm))

theorem stop_le (h : Tiles l n) (hs : s ∈ l) : s.stop ≤ n := by
  have hpos := h.nonempty s hs
  have hlast : s.stop - 1 < n := by
    refine (h.covers _).mp ⟨s, hs, ?_, ?_⟩
    · show s.offset ≤ s.offset + s.size - 1
      omega
    · show s.offset + s.size - 1 < s.offset + s.size
      omega
  have hstop : 0 < s.stop := Nat.lt_of_lt_of_le hpos (Nat.le_add_left _ _)
  omega

/-- **A span is cut in two.** -/
theorem cut {o a b : ℕ} (h : Tiles (⟨o, a + b⟩ :: l) n) (ha : 0 < a) (hb : 0 < b) :
    Tiles (⟨o, a⟩ :: ⟨o + a, b⟩ :: l) n := by
  obtain ⟨hhead, htail⟩ := pairwise_cons.mp h.apart
  refine ⟨?_, ?_, fun x => ?_⟩
  · exact forall_mem_cons.mpr ⟨ha, forall_mem_cons.mpr
      ⟨hb, fun t ht => h.nonempty t (mem_cons_of_mem _ ht)⟩⟩
  · refine pairwise_cons.mpr ⟨forall_mem_cons.mpr ⟨.inl (Nat.le_refl _), ?_⟩,
      pairwise_cons.mpr ⟨?_, htail⟩⟩
    · intro t ht
      have hapart := hhead t ht
      unfold Span.Apart Span.stop at hapart ⊢
      dsimp only at hapart ⊢
      omega
    · intro t ht
      have hapart := hhead t ht
      unfold Span.Apart Span.stop at hapart ⊢
      dsimp only at hapart ⊢
      omega
  · rw [← h.covers x, exists_mem_cons_iff, exists_mem_cons_iff, exists_mem_cons_iff,
      ← or_assoc]
    refine or_congr_left ?_
    unfold Span.Has Span.stop
    dsimp only
    omega

/-- **Two spans that touch are joined.** -/
theorem join {o a b : ℕ} (h : Tiles (⟨o, a⟩ :: ⟨o + a, b⟩ :: l) n) : Tiles (⟨o, a + b⟩ :: l) n := by
  obtain ⟨hfirst, hrest⟩ := pairwise_cons.mp h.apart
  obtain ⟨hsecond, htail⟩ := pairwise_cons.mp hrest
  have hpos := forall_mem_cons.mp h.nonempty
  have hpos' := forall_mem_cons.mp hpos.2
  refine ⟨?_, pairwise_cons.mpr ⟨?_, htail⟩, fun x => ?_⟩
  · exact forall_mem_cons.mpr ⟨Nat.lt_of_lt_of_le hpos.1 (Nat.le_add_right _ _), hpos'.2⟩
  · intro t ht
    have hbefore := hfirst t (mem_cons_of_mem _ ht)
    have hbehind := hsecond t ht
    -- A span between the two would be empty.
    have hsize := hpos'.2 t ht
    unfold Span.Apart Span.stop at hbefore hbehind ⊢
    dsimp only at hbefore hbehind ⊢
    omega
  · rw [← h.covers x, exists_mem_cons_iff, exists_mem_cons_iff, exists_mem_cons_iff,
      ← or_assoc]
    refine or_congr_left ?_
    unfold Span.Has Span.stop
    dsimp only
    omega

/-- Two spans that touch are joined where they are. -/
theorem join_middle {a b : Span} (h : Tiles (l ++ a :: b :: l') n) (htouch : a.stop = b.offset) :
    Tiles (l ++ ⟨a.offset, a.size + b.size⟩ :: l') n := by
  have hfront : Tiles (a :: b :: (l ++ l')) n :=
    h.perm (perm_middle.trans (List.Perm.cons a perm_middle))
  have hb : b = ⟨a.offset + a.size, b.size⟩ := by
    show b = ⟨a.stop, b.size⟩
    rw [htouch]
  rw [hb] at hfront
  exact hfront.join.perm perm_middle.symm

/-- The whole interval as one span. -/
theorem single (hn : 0 < n) : Tiles [⟨0, n⟩] n where
  nonempty := List.forall_mem_singleton.mpr hn
  apart := List.pairwise_singleton _ _
  covers x := by
    simp only [mem_singleton, exists_eq_left]
    unfold Span.Has Span.stop
    dsimp only
    omega

end Tiles

/-! ## Lists in order -/

/-- **A list of spans in order**, of which no two touch. -/
def Separated (l : List Span) : Prop := l.Pairwise (fun s t => s.stop < t.offset)

/-- The beginning of a span is taken away. -/
theorem Separated.shrink {l₁ l₂ : List Span} (h : Separated (l₁ ++ s :: l₂))
    (hle : s.offset ≤ t.offset) (hstop : t.stop = s.stop) : Separated (l₁ ++ t :: l₂) := by
  obtain ⟨hl₁, hsl₂, hcross⟩ := pairwise_append.mp h
  obtain ⟨hs, hl₂⟩ := pairwise_cons.mp hsl₂
  refine pairwise_append.mpr ⟨hl₁, pairwise_cons.mpr ⟨?_, hl₂⟩, fun a ha => ?_⟩
  · intro b hb
    rw [hstop]
    exact hs b hb
  · refine forall_mem_cons.mpr ⟨?_, fun b hb => hcross a ha b (mem_cons_of_mem _ hb)⟩
    exact Nat.lt_of_lt_of_le (hcross a ha s mem_cons_self) hle

/-- A separated list that tiles an interval is one span. -/
theorem Separated.eq_single {l : List Span} {n : ℕ} (h : Separated l) (htiles : Tiles l n)
    (hn : 0 < n) : l = [⟨0, n⟩] := by
  cases l with
  | nil =>
    obtain ⟨s, hs, -⟩ := (htiles.covers 0).mpr hn
    exact absurd hs not_mem_nil
  | cons s rest =>
    obtain ⟨hhead, -⟩ := pairwise_cons.mp h
    have hrest : rest = [] := by
      by_contra hne
      obtain ⟨t, ht⟩ := exists_mem_of_ne_nil rest hne
      have hgap := hhead t ht
      have hstop := htiles.stop_le (mem_cons_of_mem s ht)
      unfold Span.stop at hstop
      -- The number behind the first span is not covered.
      obtain ⟨u, hu, hhas⟩ := (htiles.covers s.stop).mpr (by omega)
      rcases mem_cons.mp hu with rfl | hu
      · exact Nat.lt_irrefl _ hhas.2
      · exact Nat.lt_irrefl _ (Nat.lt_of_lt_of_le (hhead u hu) hhas.1)
    subst hrest
    have hall : ∀ x, x < n → s.Has x := by
      intro x hx
      obtain ⟨u, hu, hhas⟩ := (htiles.covers x).mpr hx
      rw [mem_singleton.mp hu] at hhas
      exact hhas
    have hoffset : s.offset = 0 := Nat.le_zero.mp (hall 0 hn).1
    have hbehind : ¬ s.stop < n := fun hlt => Nat.lt_irrefl _ (hall s.stop hlt).2
    have hstop := htiles.stop_le (mem_singleton_self s)
    unfold Span.stop at hbehind hstop
    have hsize : s.size = n := by omega
    rw [← hsize, ← hoffset]

end Tiling
