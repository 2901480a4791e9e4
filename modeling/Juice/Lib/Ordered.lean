import Mathlib.Data.List.AList

/-!
# Tables kept with an order of their keys

A dictionary has no order, so a program that needs one keeps a list of the
keys beside it, and changes both together: a key that is new goes to the
end, a key may be moved to the end, and keys that are removed are removed
from both. `Ordered` is what such a program relies on, that the list holds
every key of the table once and nothing else; the rules are the operations
that keep it.
-/

variable {α : Type} {β : α → Type} [DecidableEq α]

/-- A table without some keys. -/
def AList.eraseAll (t : AList β) (keys : List α) : AList β := keys.foldl (fun t a => t.erase a) t

/-- A table with the entry of a key changed, if there is one. -/
def AList.modify (t : AList β) (a : α) (f : β a → β a) : AList β :=
  match t.lookup a with
  | none => t
  | some b => t.insert a (f b)

/-- A table with the entries of some keys changed. -/
def AList.modifyAll (t : AList β) (keys : List α) (f : ∀ a, β a → β a) : AList β :=
  keys.foldl (fun t a => t.modify a (f a)) t

namespace AList

variable {t : AList β}

theorem lookup_eraseAll (t : AList β) (keys : List α) (a : α) :
    (t.eraseAll keys).lookup a = if a ∈ keys then none else t.lookup a := by
  induction keys generalizing t with
  | nil => simp [eraseAll]
  | cons k keys ih =>
    rw [show t.eraseAll (k :: keys) = (t.erase k).eraseAll keys from rfl, ih]
    by_cases ha : a ∈ keys
    · simp [ha]
    by_cases hk : a = k
    · subst hk
      simp
    · simp [ha, hk, lookup_erase_ne hk]

theorem lookup_modify_self (t : AList β) (a : α) (f : β a → β a) :
    (t.modify a f).lookup a = (t.lookup a).map f := by
  unfold modify
  split
  · rename_i h
    rw [h, Option.map_none]
  · rename_i b h
    rw [h, lookup_insert, Option.map_some]

theorem lookup_modify_of_ne {a a' : α} (h : a' ≠ a) (f : β a → β a) :
    (t.modify a f).lookup a' = t.lookup a' := by
  unfold modify
  split
  · rfl
  · exact lookup_insert_ne h

/-- The keys of a table are those with an entry. -/
theorem mem_iff_lookup {a : α} : a ∈ t ↔ (t.lookup a).isSome := lookup_isSome.symm

theorem mem_modify {a a' : α} {f : β a → β a} : a' ∈ t.modify a f ↔ a' ∈ t := by
  rw [mem_iff_lookup, mem_iff_lookup]
  by_cases h : a' = a
  · subst h
    rw [lookup_modify_self, Option.isSome_map]
  · rw [lookup_modify_of_ne h]

/-- Changing entries twice is the same as changing them once, if the change
is. -/
theorem lookup_modifyAll (t : AList β) (keys : List α) {f : ∀ a, β a → β a}
    (hf : ∀ a b, f a (f a b) = f a b) (a : α) :
    (t.modifyAll keys f).lookup a = if a ∈ keys then (t.lookup a).map (f a) else t.lookup a := by
  induction keys generalizing t with
  | nil => simp [modifyAll]
  | cons k keys ih =>
    rw [show t.modifyAll (k :: keys) f = (t.modify k (f k)).modifyAll keys f from rfl, ih]
    by_cases hk : a = k
    · subst hk
      have hcomp : f a ∘ f a = f a := funext (hf a)
      simp [lookup_modify_self, hcomp]
    · simp [hk, lookup_modify_of_ne hk]

theorem mem_modifyAll {keys : List α} {f : ∀ a, β a → β a} {a : α} :
    a ∈ t.modifyAll keys f ↔ a ∈ t := by
  induction keys generalizing t with
  | nil => exact Iff.rfl
  | cons k keys ih => exact (ih (t := t.modify k (f k))).trans mem_modify

end AList

/-- **A list is an order of a table**: it has each of its keys once. -/
structure Ordered (t : AList β) (order : List α) : Prop where
  nodup : order.Nodup
  mem_iff : ∀ a, a ∈ order ↔ a ∈ t

namespace Ordered

variable {t t' : AList β} {order : List α} {a : α}

omit [DecidableEq α] in
theorem perm (h : Ordered t order) : order.Perm t.keys :=
  (List.perm_ext_iff_of_nodup h.nodup t.keys_nodup).mpr h.mem_iff

omit [DecidableEq α] in
theorem empty : Ordered (∅ : AList β) [] := ⟨List.nodup_nil, fun a => by simp⟩

omit [DecidableEq α] in
/-- The order depends on the keys only. -/
theorem congr (h : Ordered t order) (hk : ∀ a, a ∈ t' ↔ a ∈ t) : Ordered t' order :=
  ⟨h.nodup, fun a => (h.mem_iff a).trans (hk a).symm⟩

theorem modify (h : Ordered t order) (a : α) (f : β a → β a) : Ordered (t.modify a f) order :=
  h.congr (fun _ => AList.mem_modify)

theorem modifyAll (h : Ordered t order) (keys : List α) (f : ∀ a, β a → β a) :
    Ordered (t.modifyAll keys f) order :=
  h.congr (fun _ => AList.mem_modifyAll)

/-- A new key goes to the end. -/
theorem insert (h : Ordered t order) (ha : a ∉ t) (b : β a) :
    Ordered (t.insert a b) (order ++ [a]) where
  nodup := by
    have hnot : a ∉ order := fun hmem => ha ((h.mem_iff a).mp hmem)
    simpa [List.nodup_append] using ⟨h.nodup, fun c hc heq => hnot (heq ▸ hc)⟩
  mem_iff c := by simp [h.mem_iff c, or_comm]

/-- A key may be moved to the end. -/
theorem moveToEnd (h : Ordered t order) (ha : a ∈ t) : Ordered t (order.filter (· ≠ a) ++ [a]) where
  nodup := by
    simpa [List.nodup_append] using h.nodup.filter _
  mem_iff c := by
    by_cases hc : c = a
    · simp [hc, ha]
    · simp [hc, h.mem_iff c]

/-- Keys are removed from both. -/
theorem eraseAll (h : Ordered t order) (keys : List α) :
    Ordered (t.eraseAll keys) (order.filter (· ∉ keys)) where
  nodup := h.nodup.filter _
  mem_iff c := by
    rw [List.mem_filter, h.mem_iff, AList.mem_iff_lookup, AList.mem_iff_lookup, AList.lookup_eraseAll]
    by_cases hc : c ∈ keys <;> simp [hc]

end Ordered
