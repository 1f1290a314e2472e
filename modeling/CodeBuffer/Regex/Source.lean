import CodeBuffer.Regex.Bracket

namespace CodeBuffer.Regex

open Read

/-- Decimal digits, with trivia dropped behind each; `fuel` bounds their number. -/
def readDigits : Nat → Read (List Char)
  | 0 => return []
  | fuel + 1 => do
    match ← peek with
    | some c =>
      if c.isDigit then
        bumpSkip
        return c :: (← readDigits fuel)
      else return []
    | none => return []

/-- A number of at most 32 bits; blanks around it do not count. -/
def readCount : Read (Option Nat) := do
  let _ ← takeWhile Unicode.isBlank
  let ds ← readDigits ((← get).rest.length)
  let _ ← takeWhile Unicode.isBlank
  skip
  if ds.isEmpty then return none
  else
    let n := ds.foldl (fun n c => n * 10 + (c.toNat - '0'.toNat)) 0
    if n < Nat.pow 2 32 then return some n else failure

/-- The bounds of a counted repetition, from behind the opening brace. -/
def readBounds : Read (Nat × Option Nat) := do
  skip
  if (← peek).isNone then failure
  let least ← readCount
  match ← peek with
  | some ',' =>
    bumpSkip
    if (← peek) = some '\x7D' then
      bumpSkip
      let some n := least | failure
      return (n, none)
    else
      let some n := least | failure
      let some m ← readCount | failure
      expect '\x7D'
      skip
      if n ≤ m then return (n, some m) else failure
  | _ =>
    let some n := least | failure
    expect '\x7D'
    skip
    return (n, some n)

/-- A question mark behind a repetition turns its preference round. -/
def readGreed : Read Bool := do
  let lazy ← accept "?"
  return lazy == (← flags).swapGreed

/-- The characters of a group's name. Numbers count from the second place on. -/
def isNameStart (c : Char) : Bool := c == '_' || Unicode.alphabetic.holds c.toNat

def isNamePart (c : Char) : Bool :=
  isNameStart c || c == '.' || c == '[' || c == ']' ||
    (Unicode.Category.unionOf Unicode.Category.numbers).holds c.toNat

/-- A name up to `>`; two groups may not share one. -/
def readGroupName : Read Unit := do
  let name ← takeWhile (· != '>')
  expect '>'
  let r ← get
  match name with
  | [] => failure
  | c :: cs =>
    if isNameStart c && cs.all isNamePart && !r.names.contains name then
      set { r with names := name :: r.names }
    else failure

/-- The letters of a group of switches, up to `:` or `)`. No letter comes twice, and a minus,
which may come once, is not the last of them. -/
def readSwitches : List Char → Bool → List Char → Flags → Option (Flags × List Char)
  | [], _, _, _ => none
  | c :: rest, on, seen, fl =>
    if c = ':' ∨ c = ')' then
      if seen.head? = some '-' then none else some (fl, c :: rest)
    else if seen.contains c then none
    else if c = '-' then readSwitches rest false (c :: seen) fl
    else do readSwitches rest on (c :: seen) (← fl.set c on)

/-- An expression and how deeply the source nests it. -/
structure Piece where
  expr : Expr
  depth : Nat := 0

def Atom.toPiece (fl : Flags) : Atom → Piece
  | literal c => ⟨fl.ofChar c, 0⟩
  | chars s => ⟨.ofSet s, 0⟩
  | anchor a => ⟨.anchor a, 0⟩

/-- The elements of a sequence so far, last first. A group of switches is an element that cannot
be repeated. -/
abbrev Items := List (Option Piece)

/-- How deeply several pieces nest in what joins them; a single one is not joined. -/
def joinedDepth (depths : List Nat) : Nat :=
  match depths with
  | [] => 0
  | [d] => d
  | d :: ds => ds.foldl max d + 1

def Items.toPiece (items : Items) : Piece :=
  ⟨.concat (items.reverse.filterMap (·.map Piece.expr)),
   joinedDepth (items.map fun i => (i.map Piece.depth).getD 0)⟩

def Piece.ofBranches (ps : List Piece) : Piece :=
  ⟨.alternation (ps.map Piece.expr), joinedDepth (ps.map Piece.depth)⟩

/-- Replaces the last element by repetitions of it. -/
def Items.repeatLast (items : Items) (least : Nat) (most : Option Nat) (greedy : Bool) :
    Option Items :=
  match items with
  | some p :: more => some (some ⟨p.expr.repeated least most greedy, p.depth + 1⟩ :: more)
  | _ => none

mutual

/-- Branches up to the end of the group or of the source. -/
def readBranches : Nat → Read (List Piece)
  | 0 => failure
  | fuel + 1 => do
    let p ← readSequence fuel []
    if (← peek) = some '|' then
      bump
      return p :: (← readBranches fuel)
    else return [p]

def readSequence : Nat → Items → Read Piece
  | 0, _ => failure
  | fuel + 1, items => do
    skip
    let repeated (least : Nat) (most : Option Nat) : Read Piece := do
      let items ← items.repeatLast least most (← readGreed)
      readSequence fuel items
    match ← peek with
    | none | some ')' | some '|' => return items.toPiece
    | some '(' =>
      bumpSkip
      let item ← readGroup fuel
      readSequence fuel (item :: items)
    | some '[' =>
      bump
      let (s, depth) ← readSet fuel
      readSequence fuel (some ⟨.ofSet s, depth⟩ :: items)
    | some '?' => bump; repeated 0 (some 1)
    | some '*' => bump; repeated 0 none
    | some '+' => bump; repeated 1 none
    | some '\x7B' =>
      bump
      let (least, most) ← readBounds
      repeated least most
    | some c =>
      let fl ← flags
      bump
      let atom ← match c with
        | '\\' => readEscape
        | '.' => if fl.unicode then pure (.chars fl.dot) else failure
        | '^' => pure (.anchor fl.lineStart)
        | '$' => pure (.anchor fl.lineEnd)
        | _ => pure (.literal c)
      readSequence fuel (some (atom.toPiece fl) :: items)

/-- A group, from behind its opening parenthesis. Switches that it sets end with it; switches set
by a group that holds nothing else stay on to the end of the group around it. -/
def readGroup : Nat → Read (Option Piece)
  | 0 => failure
  | fuel + 1 => do
    let outer ← flags
    let inside (wrap : Expr → Expr) : Read (Option Piece) := do
      let p := Piece.ofBranches (← readBranches fuel)
      expect ')'
      setFlags outer
      return some ⟨wrap p.expr, p.depth + 1⟩
    let numbered : Read (Option Piece) := do
      let r ← get
      set { r with groups := r.groups + 1 }
      inside (.group r.groups)
    if ["?=", "?!", "?<=", "?<!"].any (·.toList.isPrefixOf (← get).rest) then failure
    else if ← accept "?P<" then
      readGroupName
      numbered
    else if ← accept "?<" then
      readGroupName
      numbered
    else if ← accept "?" then
      let r ← get
      let some (fl, rest) := readSwitches r.rest true [] outer | failure
      set { r with rest, flags := fl }
      if (← peek) = some ')' then
        if r.rest.head? = some ')' then failure
        bump
        return none
      else
        bump
        inside id
    else numbered

end

/-- How deeply groups, repetitions, sequences, branches and brackets may nest in each other. -/
def depthLimit : Nat := 250

/-- The expression that a source denotes; `none` if the source is malformed or nests too deeply.
References back to a group and looks around are not part of the notation. -/
def read? (source : String) : Option Expr := do
  let cs := source.toList
  let (ps, r) ← (readBranches (4 * (cs.length + 1))).run { rest := cs }
  let p := Piece.ofBranches ps
  if r.rest.isEmpty && decide (p.depth ≤ depthLimit) then some p.expr else none

end CodeBuffer.Regex
