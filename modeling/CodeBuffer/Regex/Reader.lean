import CodeBuffer.Regex.Flags

namespace CodeBuffer.Regex

/-- What is left of the source, with the switches, the number of groups and their names so far. -/
structure Reader where
  rest : List Char
  flags : Flags := {}
  groups : Nat := 0
  names : List (List Char) := []

/-- Reading either yields a value and goes on behind it, or finds the source malformed. -/
abbrev Read := StateT Reader Option

/-- Drops blanks and comments; a comment runs from `#` to the end of its line. -/
def dropTrivia : Bool → List Char → List Char
  | _, [] => []
  | true, c :: rest => dropTrivia (c != '\n') rest
  | false, c :: rest =>
    if c = '#' then dropTrivia true rest
    else if Unicode.isBlank c then dropTrivia false rest
    else c :: rest

namespace Read

def peek : Read (Option Char) := return (← get).rest.head?

def flags : Read Flags := return (← get).flags

def setFlags (fl : Flags) : Read Unit := modify fun r => { r with flags := fl }

def bump : Read Unit := modify fun r => { r with rest := r.rest.tail }

/-- Drops blanks and comments where the switch for them is on. -/
def skip : Read Unit := modify fun r =>
  if r.flags.verbose then { r with rest := dropTrivia false r.rest } else r

def bumpSkip : Read Unit := do bump; skip

/-- Consumes the text if the source goes on with it. -/
def accept (s : String) : Read Bool := do
  let r ← get
  if s.toList.isPrefixOf r.rest then
    set { r with rest := r.rest.drop s.length }
    return true
  else return false

def expect (c : Char) : Read Unit := do
  if (← peek) = some c then bump else failure

/-- Consumes characters while the predicate holds. -/
def takeWhile (f : Char → Bool) : Read (List Char) := do
  let r ← get
  set { r with rest := r.rest.dropWhile f }
  return r.rest.takeWhile f

end Read

end CodeBuffer.Regex
