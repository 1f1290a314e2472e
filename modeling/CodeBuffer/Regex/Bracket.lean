import CodeBuffer.Regex.Escape

namespace CodeBuffer.Regex

open Read

/-- The operators that join two sets inside a bracket. -/
inductive SetOp where
  | inter
  | diff
  | symmDiff

def SetOp.apply : SetOp → CharSet → CharSet → CharSet
  | inter => Unicode.Ranges.inter
  | diff => Unicode.Ranges.diff
  | symmDiff => Unicode.Ranges.symmDiff

def readSetOp : Read (Option SetOp) := do
  if ← accept "&&" then return some .inter
  else if ← accept "--" then return some .diff
  else if ← accept "~~" then return some .symmDiff
  else return none

/-- A set by name, `[:name:]` or `[:^name:]`. Where there is no known name, nothing is consumed. -/
def readNamedSet : Read (Option CharSet) := do
  let start ← get
  let giveUp : Read (Option CharSet) := do set start; return none
  if !(← accept "[:") then return none
  let negate ← accept "^"
  let name ← takeWhile (· != ':')
  if !(← accept ":]") then giveUp
  else match CharSet.named (String.ofList name) with
    | some s =>
      let fl ← flags
      some <$> if negate then negated fl (fl.fold s) else return fl.fold s
    | none => giveUp

def readSetItem : Read Atom := do
  let some c ← peek | failure
  bump
  if c = '\\' then readEscape else return .literal c

/-- The code point of a character that a set may hold; without Unicode those are ASCII only. -/
def memberPoint (c : Char) : Read Nat := do
  if (← flags).unicode || decide (c.toNat < 128) then return c.toNat else failure

def Atom.toSet : Atom → Read CharSet
  | literal c => do
    let n ← memberPoint c
    return [(n, n)]
  | chars s => return s
  | anchor _ => failure

/-- The character that decides whether a hyphen in front of `more` makes a range. In verbose
sources blanks do not count, nor does one `#`; the comment behind it does. -/
def lookPast (verbose : Bool) (more : List Char) : Option Char :=
  if !verbose then more.head?
  else
    let rest := match more.dropWhile Unicode.isBlank with
      | '#' :: comment => comment.dropWhile Unicode.isBlank
      | rest => rest
    rest.head?.or more.head?

/-- A single element or a range. A hyphen before the closing bracket or before another hyphen
makes no range. -/
def readSetRange : Read CharSet := do
  let first ← readSetItem
  skip
  let r ← get
  match r.rest with
  | [] => failure
  | '-' :: more =>
    match lookPast r.flags.verbose more with
    | some ']' | some '-' => first.toSet
    | _ =>
      bumpSkip
      if (← peek).isNone then failure
      let last ← readSetItem
      match first, last with
      | .literal a, .literal b =>
        if a ≤ b then return [(← memberPoint a, ← memberPoint b)] else failure
      | _, _ => failure
  | _ => first.toSet

/-- What was read of a bracket or of one side of an operator in it: the ranges, how many items they
came from, and how deeply the items nest. -/
structure Operand where
  ranges : List (Nat × Nat) := []
  items : Nat := 0
  depth : Nat := 0

namespace Operand

def add (o : Operand) (s : CharSet) (depth : Nat) : Operand :=
  ⟨s ++ o.ranges, o.items + 1, max o.depth depth⟩

def toSet (o : Operand) : CharSet := .ofList o.ranges

/-- Several items are nested in their union, a single one is not. -/
def nesting (o : Operand) : Nat := if o.items ≤ 1 then o.depth else o.depth + 1

end Operand

/-- An operator that waits for its right side, with its left side and how deeply that nests. -/
structure Pending where
  op : SetOp
  left : CharSet
  depth : Nat

/-- The set that is complete with an operand, and how deeply it nests. Operators fold case on both
sides first. -/
def closeOperand (fl : Flags) (pending : Option Pending) (o : Operand) : CharSet × Nat :=
  match pending with
  | none => (o.toSet, o.nesting)
  | some p => (p.op.apply (fl.fold p.left) (fl.fold o.toSet), max p.depth o.nesting + 1)

/-- The hyphens that a bracket may begin with. -/
def readHyphens : Nat → Operand → Read Operand
  | 0, o => return o
  | fuel + 1, o => do
    if (← peek) = some '-' then
      bumpSkip
      readHyphens fuel (o.add (.single '-') 0)
    else return o

mutual

/-- A bracket, from behind its opening character, and how deeply it nests. Operators join from left
to right, and case is folded before the set is negated. -/
def readSet : Nat → Read (CharSet × Nat)
  | 0 => failure
  | fuel + 1 => do
    skip
    let negate ← accept "^"
    skip
    let o ← readHyphens fuel {}
    let bracket := o.items = 0 && (← peek) = some ']'
    if bracket then bumpSkip
    let (s, depth) ← readUnion fuel none (if bracket then o.add (.single ']') 0 else o)
    let fl ← flags
    let s ← if negate then negated fl (fl.fold s) else pure (fl.fold s)
    return (s, depth + 1)

def readUnion : Nat → Option Pending → Operand → Read (CharSet × Nat)
  | 0, _, _ => failure
  | fuel + 1, pending, o => do
    skip
    match ← peek with
    | none => failure
    | some ']' =>
      bump
      return closeOperand (← flags) pending o
    | some '[' =>
      match ← readNamedSet with
      | some named => readUnion fuel pending (o.add named 0)
      | none =>
        bump
        let (inner, depth) ← readSet fuel
        readUnion fuel pending (o.add inner depth)
    | some _ =>
      match ← readSetOp with
      | some op =>
        let (left, depth) := closeOperand (← flags) pending o
        readUnion fuel (some ⟨op, left, depth⟩) {}
      | none =>
        let item ← readSetRange
        readUnion fuel pending (o.add item 0)

end

end CodeBuffer.Regex
