import CodeBuffer.Delimiter.Edit

namespace CodeBuffer

/-- Delimiters behind a cut, found before an edit. They may still hold: the first delimiter found
anew that equals one of them shows that the rest does. -/
structure Leftovers where
  entries : List Delimiter
  passed : Nat
  deriving DecidableEq, Repr

/-- The delimiters of a text in order, as far as it is analysed. -/
structure DelimiterTable where
  entries : List Delimiter
  old : Option Leftovers
  frontier : Frontier
  deriving DecidableEq, Repr

namespace DelimiterTable

def empty : DelimiterTable := ⟨[], none, .pending 0⟩

/-- A table that knows nothing; without delimited patterns there is nothing to know. -/
def reset (complete : Bool) : DelimiterTable :=
  ⟨[], none, if complete then .complete else .pending 0⟩

def isComplete (t : DelimiterTable) : Bool := t.frontier == .complete

/-- The state behind a list of delimiters. -/
def stateAfter (ds : List Delimiter) : Option PatternKey := ds.getLast?.bind (·.key)

/-- The enclosure that holds an offset. -/
def stateAt (t : DelimiterTable) (o : Nat) : Option PatternKey :=
  stateAfter (t.entries.takeWhile fun d => decide (d.offset ≤ o))

/-- Cuts `[pos, stop)`, which begins in state `inside`, at the delimiters. -/
def cut (pos stop : Nat) (inside : Option PatternKey) : List Delimiter → List Span
  | [] => if pos < stop then [⟨pos, stop, inside⟩] else []
  | d :: rest =>
    if stop ≤ pos then []
    else if stop ≤ d.offset then [⟨pos, stop, inside⟩]
    else if pos < d.offset then ⟨pos, d.offset, inside⟩ :: cut d.offset stop d.key rest
    else cut d.offset stop d.key rest

/-- The runs of `[start, stop)` in one state each. -/
def spans (t : DelimiterTable) (start stop : Nat) : List Span :=
  cut start stop (t.stateAt start) (t.entries.dropWhile fun d => decide (d.offset ≤ start))

/-- The state in which the analysis goes on. -/
def lastState (t : DelimiterTable) : Option PatternKey := stateAfter t.entries

/-- Whether a delimiter is out of reach of a change from the line start `head` on. A closer there
belongs to the line before. -/
def beforeLine (head : Nat) (d : Delimiter) : Bool :=
  decide (d.offset < head) || (d.offset == head && !d.opens)

def keptBefore (t : DelimiterTable) (head : Nat) : List Delimiter :=
  t.entries.takeWhile (beforeLine head)

def stateBefore (t : DelimiterTable) (head : Nat) : Option PatternKey :=
  stateAfter (t.keptBefore head)

def isBeyondFrontier (t : DelimiterTable) (e : Edit) : Bool :=
  match t.frontier with
  | .complete => false
  | .pending f => decide (f ≤ e.offset)

/-- Drops the old delimiters from `head` on. -/
def truncateOld (t : DelimiterTable) (head : Nat) : DelimiterTable :=
  { t with old := t.old.bind fun old =>
      let entries := old.entries.takeWhile fun d => decide (d.offset < head)
      if entries.isEmpty then none else some { old with entries } }

/-- Whether a delimiter belongs to lines that end at `stop`. -/
def withinLines (stop : Nat) (d : Delimiter) : Bool :=
  if d.opens then decide (d.offset < stop) else decide (d.offset ≤ stop)

/-- Takes an edit into account, given the delimiters found anew in the lines `[head, scanStop)`
that it touched. If these are what the table has there, all else moves along and the table
survives. Otherwise the table is cut at `head` and what lies behind the lines becomes old. -/
def applyEdit (t : DelimiterTable) (e : Edit) (head scanStop : Nat) (fresh : List Delimiter) :
    Bool × DelimiterTable :=
  let kept := t.keptBefore head
  let behind := t.entries.drop kept.length
  let tail := behind.filterMap e.map?
  let lost := behind.any fun d => (e.map? d).isNone
  let frontier := match t.frontier with
    | .complete => .complete
    | .pending f => Frontier.pending (e.mapOffset f)
  let touched := tail.takeWhile (withinLines scanStop)
  if !lost && frontier.covers scanStop && touched == fresh then
    (true,
      { entries := kept ++ tail
        old := t.old.map fun old => { old with entries := old.entries.filterMap e.map? }
        frontier })
  else
    let rest := tail.drop touched.length
    (false,
      { entries := kept
        old := if rest.isEmpty then none else some ⟨rest, 0⟩
        frontier := .pending head })

/-- Takes in a delimiter found by a batch that began at `start`. If the old table has it, the rest
of the old table is taken in too, the frontier moves to its last entry and the batch is over;
an opener in last place is left for the next batch to find. Two old entries passed over without
being found show that the old table is of no use. -/
def push (t : DelimiterTable) (d : Delimiter) (start : Nat) : Bool × DelimiterTable :=
  let t := { t with entries := t.entries ++ [d] }
  match t.old with
  | none => (false, t)
  | some old =>
    let isPassed (e : Delimiter) : Bool :=
      decide (e.offset < d.offset) || (e.offset == d.offset && e != d)
    let skipped := (old.entries.takeWhile isPassed).length
    let passed := old.passed + skipped
    match old.entries.drop skipped with
    | e :: rest =>
      if e = d then
        let last := (rest.getLast?.getD d).offset
        if last ≤ start then (false, { t with old := none })
        else
          let entries := t.entries ++ rest
          (true,
            { entries := if entries.getLast?.any (·.opens) then entries.dropLast else entries
              old := none
              frontier := .pending last })
      else (false, { t with old := if 1 < passed then none else some ⟨e :: rest, passed⟩ })
    | [] => (false, { t with old := if 1 < passed then none else some ⟨[], passed⟩ })

/-- Takes in what a batch found, up to the point where the old table takes over, if there is one. -/
def pushAll (t : DelimiterTable) (start : Nat) : List Delimiter → Bool × DelimiterTable
  | [] => (false, t)
  | d :: rest =>
    if t.old.isNone then (false, { t with entries := t.entries ++ d :: rest })
    else
      match t.push d start with
      | (true, t) => (true, t)
      | (false, t) => t.pushAll start rest

/-- Ends a batch at `stop`, with the old delimiters up to there passed over. -/
def finishBatch (t : DelimiterTable) (stop : Nat) (complete : Bool) : DelimiterTable :=
  { t with
    frontier := if complete then .complete else .pending stop
    old := t.old.bind fun old =>
      let skipped := (old.entries.takeWhile (beforeLine stop)).length
      let entries := old.entries.drop skipped
      let passed := old.passed + skipped
      if complete || decide (1 < passed) || entries.isEmpty then none
      else some ⟨entries, passed⟩ }

end DelimiterTable
end CodeBuffer
