import Juice.Lib.Machine
import Juice.Lib.Slots

/-!
# The range of a retired code buffer

A fault may come from code in a buffer that was just replaced, and whoever
handles the fault asks whether an address is in such a buffer.
`RetiredCodeRange` holds one range for it, in three atomic words: `Publish`
replaces the range and `Contains` asks for an address, and neither waits for
the other. The sequence number is odd while a range is being replaced.

Every load, store and exchange is one step here, with what is computed from
it up to the next, and the steps of any number of calls are interleaved in
any order. A call that is suspended forever is one that has no more steps.
-/

namespace Juice.Jit

/-- The three words. -/
structure RetiredCodeRange where
  sequence : UInt64
  first : UInt64
  stop : UInt64
  deriving DecidableEq, Repr

/-- How far a call of `Publish` is: before each of its operations on the
words, with the sequence number that it has read. -/
inductive PublishStage where
  | load
  | exchange (sequence : UInt64)
  | storeBegin (sequence : UInt64)
  | storeEnd (sequence : UInt64)
  | storeSequence (sequence : UInt64)
  | returned (result : Bool)
  deriving DecidableEq, Repr

/-- How far a call of `Contains` is, with what it has read. -/
inductive ContainsStage where
  | load
  | loadBegin (before : UInt64)
  | loadEnd (before first : UInt64)
  | reload (before first stop : UInt64)
  | returned (result : Bool)
  deriving DecidableEq, Repr

/-- A call, with its arguments. -/
inductive RangeCall where
  | publish (first bytes : UInt64) (stage : PublishStage)
  | contains (address : UInt64) (stage : ContainsStage)
  deriving DecidableEq, Repr

/-- The arguments that `Publish` accepts. -/
def ValidRange (first bytes : UInt64) : Prop :=
  first ≠ 0 ∧ bytes ≠ 0 ∧ bytes ≤ 0xffffffffffffffff - first

instance (first bytes : UInt64) : Decidable (ValidRange first bytes) :=
  inferInstanceAs (Decidable (_ ∧ _ ∧ _))

/-- The sequence numbers that `Publish` replaces. -/
def OpenSequence (sequence : UInt64) : Prop :=
  sequence &&& 1 = 0 ∧ sequence < 0xffffffffffffffff - 1

instance (sequence : UInt64) : Decidable (OpenSequence sequence) :=
  inferInstanceAs (Decidable (_ ∧ _))

/-- **A step of `Publish`.** -/
def publishStep (range : RetiredCodeRange) (first bytes : UInt64) :
    PublishStage → Option (RetiredCodeRange × PublishStage)
  | .load =>
    if ¬ ValidRange first bytes then some (range, .returned false)
    else if ¬ OpenSequence range.sequence then some (range, .returned false)
    else some (range, .exchange range.sequence)
  | .exchange sequence =>
    if range.sequence = sequence then
      some ({ range with sequence := sequence + 1 }, .storeBegin sequence)
    else some (range, .returned false)
  | .storeBegin sequence => some ({ range with first := first }, .storeEnd sequence)
  | .storeEnd sequence => some ({ range with stop := first + bytes }, .storeSequence sequence)
  | .storeSequence sequence => some ({ range with sequence := sequence + 2 }, .returned true)
  | .returned _ => none

/-- **A step of `Contains`**, which only reads. -/
def containsStep (range : RetiredCodeRange) (address : UInt64) :
    ContainsStage → Option ContainsStage
  | .load =>
    if range.sequence = 0 ∨ range.sequence &&& 1 ≠ 0 then some (.returned false)
    else some (.loadBegin range.sequence)
  | .loadBegin before => some (.loadEnd before range.first)
  | .loadEnd before first => some (.reload before first range.stop)
  | .reload before first stop =>
    some (.returned (before = range.sequence ∧ first ≠ 0 ∧ first ≤ address ∧ address < stop))
  | .returned _ => none

/-! ## Interleavings -/

/-- The words and the calls. What the code cannot see is the list of the
calls that have published, in their order. -/
structure RangeSystem where
  range : RetiredCodeRange
  calls : List RangeCall
  published : List ℕ

inductive RangeAction where
  | publish (first bytes : UInt64)
  | contains (address : UInt64)
  | step (i : ℕ)
  deriving DecidableEq, Repr

/-- The call `i` takes a step. -/
def callStep (s : RangeSystem) (i : ℕ) : RangeCall → Option RangeSystem
  | .publish first bytes stage =>
    (publishStep s.range first bytes stage).map (fun next =>
      { range := next.1
        calls := s.calls.set i (.publish first bytes next.2)
        published := if next.2 = .returned true then s.published ++ [i] else s.published })
  | .contains address stage =>
    (containsStep s.range address stage).map (fun next =>
      { s with calls := s.calls.set i (.contains address next) })

/-- **One action**: a call begins, or one takes a step. -/
def rangeStep (s : RangeSystem) : RangeAction → Option RangeSystem
  | .publish first bytes => some { s with calls := s.calls ++ [.publish first bytes .load] }
  | .contains address => some { s with calls := s.calls ++ [.contains address .load] }
  | .step i =>
    match s.calls[i]? with
    | none => none
    | some call => callStep s i call

/-- **All interleavings** on a range that begins with zeros. -/
def rangeMachine : Machine RangeSystem RangeAction where
  start := ⟨⟨0, 0, 0⟩, [], []⟩
  step := rangeStep

/-- The range of an address in a call of `Publish` that succeeded. -/
def PublishedBy (s : RangeSystem) (j : ℕ) (address : UInt64) : Prop :=
  ∃ first bytes, s.calls[j]? = some (.publish first bytes (.returned true))
    ∧ first.toNat ≤ address.toNat ∧ address.toNat < first.toNat + bytes.toNat

/-- **The current record**: the last call that has published, while none is
at work. -/
def Current (s : RangeSystem) (j : ℕ) : Prop :=
  s.range.sequence.toNat % 2 = 0 ∧ s.published.getLast? = some j

end Juice.Jit
