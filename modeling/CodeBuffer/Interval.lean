import CodeBuffer.Fault

namespace CodeBuffer

/-- Half-open range of character offsets. With `stop ≤ start` it holds no offset. -/
structure Interval where
  start : Nat
  stop : Nat
  deriving DecidableEq, Repr

namespace Interval

/-- The interval from `start` to `stop`, which must not lie before it. -/
def between (start stop : Nat) : Except Fault Interval :=
  if start ≤ stop then .ok ⟨start, stop⟩ else .error (.reversedInterval start stop)

def length (i : Interval) : Nat := i.stop - i.start

def isEmpty (i : Interval) : Bool := decide (i.stop ≤ i.start)

def contains (i : Interval) (p : Nat) : Bool := decide (i.start ≤ p) && decide (p < i.stop)

def overlaps (i j : Interval) : Bool := decide (i.start < j.stop) && decide (j.start < i.stop)

/-- The common part, empty or reversed when there is none. -/
def clip (i : Interval) (start stop : Nat) : Interval := ⟨max i.start start, min i.stop stop⟩

theorem contains_iff {i : Interval} {p : Nat} :
    i.contains p = true ↔ i.start ≤ p ∧ p < i.stop := by
  simp [contains]

end Interval
end CodeBuffer
