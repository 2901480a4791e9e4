import Mathlib.Algebra.Group.Nat.Defs

/-!
# Arithmetic on words, with a record of it

A program on 64-bit words computes modulo `2 ^ 64`, and whether a sum or a
difference was exact cannot be seen from its result. `Arith` keeps a list of
the operations that were carried out beside what is computed, so that a
statement can be about each of them.

`Arith.Meets` is the rule for such programs: every operation that is carried
out is one of a given kind, and the result has a given property.
-/

/-- An operation on words. -/
inductive Operation where
  | add (x y : UInt64)
  | sub (x y : UInt64)
  deriving DecidableEq, Repr

/-- **The exact result is not a word.** -/
def Operation.Wraps : Operation → Prop
  | .add x y => 2 ^ 64 ≤ x.toNat + y.toNat
  | .sub x y => x.toNat < y.toNat

/-- A computation, with the operations that were carried out before it. -/
abbrev Arith := StateM (List Operation)

namespace Arith

variable {α β : Type}

def add (x y : UInt64) : Arith UInt64 := fun ops => (x + y, .add x y :: ops)

def sub (x y : UInt64) : Arith UInt64 := fun ops => (x - y, .sub x y :: ops)

/-- What is computed. -/
def value (m : Arith α) : α := (m.run []).1

/-- The operations that are carried out. -/
def operations (m : Arith α) : List Operation := (m.run []).2

/-- **The rule for computations.** -/
def Meets (kind : Operation → Prop) (m : Arith α) (post : α → Prop) : Prop :=
  ∀ ops, (∀ op ∈ ops, kind op) → (∀ op ∈ (m.run ops).2, kind op) ∧ post (m.run ops).1

variable {kind : Operation → Prop} {post : α → Prop} {m : Arith α}

theorem Meets.pure {a : α} (h : post a) : Meets kind (pure a) post :=
  fun _ hops => ⟨hops, h⟩

theorem Meets.bind {f : α → Arith β} {mid : α → Prop} {post : β → Prop} (hm : Meets kind m mid)
    (hf : ∀ a, mid a → Meets kind (f a) post) : Meets kind (m >>= f) post := by
  intro ops hops
  obtain ⟨hafter, hmid⟩ := hm ops hops
  exact hf _ hmid _ hafter

theorem Meets.add {x y : UInt64} (h : kind (.add x y)) : Meets kind (add x y) (· = x + y) :=
  fun _ hops => ⟨List.forall_mem_cons.mpr ⟨h, hops⟩, rfl⟩

theorem Meets.sub {x y : UInt64} (h : kind (.sub x y)) : Meets kind (sub x y) (· = x - y) :=
  fun _ hops => ⟨List.forall_mem_cons.mpr ⟨h, hops⟩, rfl⟩

/-- What holds of a computation on its own. -/
theorem Meets.operations (h : Meets kind m post) :
    ∀ op ∈ m.operations, kind op := (h [] (List.forall_mem_nil _)).1

theorem Meets.value (h : Meets kind m post) : post m.value :=
  (h [] (List.forall_mem_nil _)).2

end Arith
