import CodeBuffer.Regex.Reader
import CodeBuffer.Text.Hex
import CodeBuffer.Unicode.Named

namespace CodeBuffer.Regex

open Read

/-- One element of an expression or of a bracket. -/
inductive Atom where
  | literal (c : Char)
  | chars (s : CharSet)
  | anchor (a : Anchor)

/-- The character of a hexadecimal code, if there is one. -/
def ofHex (digits : List Char) : Read Char :=
  match Hex.value? digits with
  | some n => if n.isValidChar then return Char.ofNat n else failure
  | none => failure

/-- Exactly `n` characters, with trivia dropped between them. -/
def readChars : Nat → Read (List Char)
  | 0 => return []
  | n + 1 => do
    let some c ← peek | failure
    bumpSkip
    return c :: (← readChars n)

/-- The characters up to a closing brace, which is consumed; `fuel` bounds their number. -/
def readBraced : Nat → Read (List Char)
  | 0 => failure
  | fuel + 1 => do
    let some c ← peek | failure
    bumpSkip
    if c = '\x7D' then return [] else return c :: (← readBraced fuel)

/-- What braces hold, from their opening one. -/
def readBraces : Read (List Char) := do
  bumpSkip
  readBraced ((← get).rest.length)

/-- A hexadecimal code of a fixed number of digits, or of any number of them in braces. Without
Unicode a code of two digits names a byte, and a byte beyond ASCII is no character. -/
def readHex (digits : Nat) : Read Char := do
  bumpSkip
  if (← peek) = some '\x7B' then ofHex (← readBraces)
  else
    let c ← ofHex (← readChars digits)
    if digits = 2 && !(← flags).unicode && decide (127 < c.toNat) then failure else return c

/-- The characters that mean something unless they are escaped. -/
def isMeta (c : Char) : Bool := "\\.+*?()|[]\x7B\x7D^$#&-~".contains c

/-- The anchor that `\b` and the braces behind it denote. Braces that hold no letters count
repetitions of a plain word edge and are left alone. -/
def readEdgeKind (fl : Flags) : Read Anchor := do
  let start ← get
  bumpSkip
  let some c ← peek | failure
  if !(c.isAlpha || c = '-') then
    set start
    return .wordEdge fl.words
  else
    let name ← readBraced start.rest.length
    match String.ofList name with
    | "start" => return .wordStart fl.words
    | "end" => return .wordEnd fl.words
    | "start-half" => return .wordStartHalf fl.words
    | "end-half" => return .wordEndHalf fl.words
    | _ => failure

/-- The complement of a set; without Unicode it would hold parts of characters. -/
def negated (fl : Flags) (s : CharSet) : Read CharSet :=
  if fl.unicode then return s.compl else failure

/-- The text before and behind the first occurrence of a separator. -/
def cutAt (separator : List Char) : List Char → Option (List Char × List Char)
  | [] => none
  | c :: rest =>
    if separator.isPrefixOf (c :: rest) then some ([], (c :: rest).drop separator.length)
    else (cutAt separator rest).map fun r => (c :: r.1, r.2)

/-- The set of a property by its name, or by a name and a value. The sign between the two does not
matter. -/
def propertySet? (cs : List Char) : Option CharSet :=
  match (cutAt ['!', '='] cs).or ((cutAt [':'] cs).or (cutAt ['='] cs)) with
  | some (property, value) => Unicode.valued? property value
  | none => Unicode.named? cs

/-- A property, from behind its `p` or `P`: one letter, or a name in braces. -/
def readProperty (negate : Bool) : Read CharSet := do
  let fl ← flags
  let some c ← peek | failure
  let name ←
    if c = '\x7B' then readBraces
    else if c = '\\' then failure
    else do
      bumpSkip
      pure [c]
  let some s := propertySet? name | failure
  if !fl.unicode then failure
  if negate then negated fl (fl.fold s) else return fl.fold s

/-- What follows a backslash. -/
def readEscape : Read Atom := do
  let fl ← flags
  let some c ← peek | failure
  let byFlags (s : CharSet) : CharSet := if fl.unicode then s else s.inter CharSet.ascii
  match c with
  | 'x' => .literal <$> readHex 2
  | 'u' => .literal <$> readHex 4
  | 'U' => .literal <$> readHex 8
  | 'p' => bumpSkip; .chars <$> readProperty false
  | 'P' => bumpSkip; .chars <$> readProperty true
  | 'd' => bump; return .chars (byFlags Unicode.digitRanges)
  | 's' => bump; return .chars (byFlags Unicode.blankRanges)
  | 'w' => bump; return .chars fl.words
  | 'D' => bump; .chars <$> negated fl Unicode.digitRanges
  | 'S' => bump; .chars <$> negated fl Unicode.blankRanges
  | 'W' => bump; .chars <$> negated fl Unicode.wordRanges
  | 'a' => bump; return .literal '\x07'
  | 'f' => bump; return .literal '\x0C'
  | 't' => bump; return .literal '\t'
  | 'n' => bump; return .literal '\n'
  | 'r' => bump; return .literal '\r'
  | 'v' => bump; return .literal '\x0B'
  | 'A' => bump; return .anchor .textStart
  | 'z' => bump; return .anchor .textEnd
  | 'B' => bump; return .anchor (.noWordEdge fl.words)
  | '<' => bump; return .anchor (.wordStart fl.words)
  | '>' => bump; return .anchor (.wordEnd fl.words)
  | 'b' =>
    bump
    if (← peek) = some '\x7B' then .anchor <$> readEdgeKind fl
    else return .anchor (.wordEdge fl.words)
  | _ =>
    if isMeta c || (decide (c.toNat < 128) && !c.isAlphanum) then
      bump
      return .literal c
    else failure

end CodeBuffer.Regex
