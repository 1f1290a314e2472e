import CodeBuffer.Pattern.Basic
import CodeBuffer.Pattern.Lookahead

namespace CodeBuffer

/-- A match of a simple pattern. -/
structure SimpleMatch where
  start : Nat
  stop : Nat
  pattern : SimplePattern

namespace SimpleMatch

/-- Whether `j` goes before `i`: it is nearer, or in the same place and longer. -/
def goesBefore (j i : Interval) : Bool :=
  decide (j.start < i.start) || (j.start == i.start && decide (i.stop < j.stop))

/-- The match that goes before all others; of equal ones the first pattern's. -/
def best : List (SimplePattern × Lookahead) → Option (Interval × SimplePattern)
  | [] => none
  | (s, known) :: rest =>
    match known.match?, best rest with
    | none, later => later
    | some i, none => some (i, s)
    | some i, some (j, q) => if goesBefore j i then some (j, q) else some (i, s)

/-- The next match of a pattern that is not empty. -/
def next? (s : SimplePattern) (p : Place) : Option Interval := s.matcher.find (fun _ => true) p

/-- The matches behind a place, each behind the end of the one before it. `fuel` bounds their
number. -/
def collectFrom (ps : List SimplePattern) : Nat → List Lookahead → Place → List SimpleMatch
  | 0, _, _ => []
  | fuel + 1, known, p =>
    let known := List.zipWith (fun s l => l.refresh (next? s) p) ps known
    match best (ps.zip known) with
    | none => []
    | some (i, s) =>
      ⟨i.start, i.stop, s⟩ :: collectFrom ps fuel known (p.forward (i.stop - p.offset))

/-- The matches between a place and `stop`. They see the text before the place, but none from
`stop` on. -/
def collect (ps : List SimplePattern) (p : Place) (stop : Nat) : List SimpleMatch :=
  let p := p.endingAt stop
  collectFrom ps (p.after.length + 1) (ps.map fun _ => .unknown) p

end SimpleMatch
end CodeBuffer
