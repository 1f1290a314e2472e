import CodeBuffer.Interval

namespace CodeBuffer

/-- A set of offsets, held as its maximal runs in order. -/
structure Region where
  intervals : List Interval
  deriving DecidableEq, Repr

namespace Region

def empty : Region := ⟨[]⟩

instance : Inhabited Region := ⟨empty⟩

def size (r : Region) : Nat := r.intervals.length

def isEmpty (r : Region) : Bool := r.intervals.isEmpty

def nth? (r : Region) (n : Nat) : Option Interval := r.intervals[n]?

/-- The smallest interval around the whole region. -/
def bounds? (r : Region) : Option Interval :=
  match r.intervals.head?, r.intervals.getLast? with
  | some first, some last => some ⟨first.start, last.stop⟩
  | _, _ => none

def contains (r : Region) (p : Nat) : Bool := r.intervals.any (·.contains p)

/-- Whether one run of the region holds all of `[start, stop)`. -/
def covers (r : Region) (start stop : Nat) : Bool :=
  decide (stop ≤ start) ||
    r.intervals.any fun i => decide (i.start ≤ start) && decide (stop ≤ i.stop)

/-- Puts an interval among ordered runs and fuses it with every run that it touches. -/
def fuse (i : Interval) : List Interval → List Interval
  | [] => [i]
  | j :: rest =>
    if j.stop < i.start then j :: fuse i rest
    else if i.stop < j.start then i :: j :: rest
    else fuse ⟨min i.start j.start, max i.stop j.stop⟩ rest

def add (r : Region) (start stop : Nat) : Region :=
  if stop ≤ start then r else ⟨fuse ⟨start, stop⟩ r.intervals⟩

def ofList (is : List Interval) : Region :=
  is.foldr (fun i r => r.add i.start i.stop) empty

/-- Adds several intervals at once. In the order of their starts, each of them fuses with no more
than the first of those behind it. -/
def addAll (r : Region) (is : List Interval) : Region :=
  if is.isEmpty then r
  else ofList ((r.intervals ++ is).mergeSort fun i j => decide (i.start ≤ j.start))

/-- What an interval keeps on the left and on the right of a removed range. -/
def remnants (start stop : Nat) (i : Interval) : List Interval :=
  [⟨i.start, min i.stop start⟩, ⟨max i.start stop, i.stop⟩].filter (!·.isEmpty)

def subtract (r : Region) (start stop : Nat) : Region :=
  if stop ≤ start then r else ⟨r.intervals.flatMap (remnants start stop)⟩

def intersect (r : Region) (start stop : Nat) : Region :=
  ⟨(r.intervals.map (·.clip start stop)).filter (!·.isEmpty)⟩

/-- Where an interval lies once `len` characters are inserted at `pos`: what starts at `pos` moves,
what holds `pos` inside grows, and what ends at `pos` stays. -/
def afterInsertion (pos len : Nat) (i : Interval) : Interval :=
  if i.stop ≤ pos then i
  else if pos ≤ i.start then ⟨i.start + len, i.stop + len⟩
  else ⟨i.start, i.stop + len⟩

def shiftForInsertion (r : Region) (pos len : Nat) : Region :=
  if len = 0 then r else ⟨r.intervals.map (afterInsertion pos len)⟩

/-- Like `shiftForInsertion`, but refused when a run would end beyond the last position. -/
def shiftForInsertion? (r : Region) (pos len : Nat) : Except Fault Region :=
  if (r.shiftForInsertion pos len).intervals.all (fun i => decide (i.stop ≤ offsetLimit)) then
    .ok (r.shiftForInsertion pos len)
  else .error .offsetOverflow

/-- Where an offset lies once `[start, stop)` is deleted; offsets inside collapse to `start`. -/
def afterDeletion (start stop p : Nat) : Nat :=
  if p ≤ start then p else if stop ≤ p then p - (stop - start) else start

def shiftForDeletion (r : Region) (start stop : Nat) : Region :=
  if stop ≤ start then r
  else ofList (r.intervals.map fun i =>
    ⟨afterDeletion start stop i.start, afterDeletion start stop i.stop⟩)

/-- Ordered, not empty, and with a gap between neighbours. -/
def Separated (is : List Interval) : Prop :=
  (∀ i ∈ is, i.start < i.stop) ∧ is.Pairwise (fun i j => i.stop < j.start)

def WellFormed (r : Region) : Prop := Separated r.intervals

theorem wellFormed_empty : empty.WellFormed := by simp [WellFormed, Separated, empty]

theorem contains_iff {r : Region} {p : Nat} :
    r.contains p = true ↔ ∃ i ∈ r.intervals, i.start ≤ p ∧ p < i.stop := by
  simp [contains, Interval.contains]

end Region
end CodeBuffer
