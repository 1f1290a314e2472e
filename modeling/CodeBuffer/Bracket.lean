import CodeBuffer.Document.Tagging

namespace CodeBuffer

/-- The outcome of a search for a bracket's partner. -/
inductive BracketResult where
  | found (bracket partner : Nat)
  | notFound
  | outOfRange
  | notABracket
  deriving DecidableEq, Repr

/-- Which of the kinds of text that brackets keep apart an offset belongs to. -/
structure BracketContext where
  comment : Bool
  string : Bool
  deriving DecidableEq, Repr

namespace BracketContext

/-- Whether `d` has every class that `c` has. -/
def within (c d : BracketContext) : Bool := (!c.comment || d.comment) && (!c.string || d.string)

end BracketContext

namespace Document

/-- The ranges of a context class. -/
def classRegion (d : Document) (c : String) : Region :=
  ((d.tags.lookup? (classTagName c)).bind d.tags.ranges?).getD .empty

def bracketContext (d : Document) : Nat → BracketContext :=
  let comments := d.classRegion "comment"
  let strings := d.classRegion "string"
  fun o => ⟨comments.contains o, strings.contains o⟩

end Document

/-- The partner of a bracket, and whether it comes later. -/
def bracketPair? (c : Char) : Option (Char × Bool) :=
  if c = '(' then some (')', true)
  else if c = ')' then some ('(', false)
  else if c = '\x7B' then some ('\x7D', true)
  else if c = '\x7D' then some ('\x7B', false)
  else if c = '[' then some (']', true)
  else if c = ']' then some ('[', false)
  else if c = '<' then some ('>', true)
  else if c = '>' then some ('<', false)
  else none

/-- Searches at most `maxChars` characters far, but always one. -/
structure BracketMatcher where
  maxChars : Nat := 10000
  deriving DecidableEq, Repr

namespace BracketMatcher

/-- The places that a search visits: all those behind the bracket, the end of the text included,
or all those before it. -/
def path (t : Text) (o : Nat) (forward : Bool) : List (Nat × Option Char) :=
  if forward then
    let later := (t.drop (o + 1)).map some ++ [none]
    (List.range' (o + 1) later.length).zip later
  else ((List.range o).zip ((t.take o).map some)).reverse

def verdict (limit steps : Nat) : BracketResult :=
  if limit ≤ steps then .outOfRange else .notFound

/-- Walks along a path with `depth` brackets open. Brackets in another context do not count, and
a place that lacks a class of the start ends the search. -/
def walk (bracket : Nat) (own partner : Char) (start : BracketContext) (limit : Nat)
    (context : Nat → BracketContext) : List (Nat × Option Char) → Nat → Nat → BracketResult
  | [], _, steps => verdict limit steps
  | (o, c) :: rest, depth, steps =>
    let here := context o
    if !start.within here then verdict limit (steps + 1)
    else if here = start ∧ c = some partner ∧ depth = 0 then .found bracket o
    else
      let depth :=
        if here = start then
          if c = some partner then depth - 1 else if c = some own then depth + 1 else depth
        else depth
      if limit ≤ steps + 1 then .outOfRange
      else walk bracket own partner start limit context rest depth (steps + 1)

/-- The partner of the bracket at an offset. -/
def findAt (m : BracketMatcher) (d : Document) (o : Nat) : BracketResult :=
  match d.charAt? o with
  | none => .notABracket
  | some c =>
    match bracketPair? c with
    | none => .notABracket
    | some (partner, forward) =>
      let context := d.bracketContext
      walk o c partner (context o) m.maxChars context (path d.text o forward) 0 0

/-- The partner of the bracket at the cursor, or else of the one on its left in the same line. -/
def findMatch (m : BracketMatcher) (d : Document) (position : Nat) : BracketResult :=
  let right := m.findAt d position
  match right with
  | .found .. => right
  | _ =>
    let left :=
      if 0 < position ∧ !d.text.startsLine position then m.findAt d (position - 1)
      else .notABracket
    match left with
    | .found .. => left
    | _ => if right = .notABracket then left else right

end BracketMatcher
end CodeBuffer
