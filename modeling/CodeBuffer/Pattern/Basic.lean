import CodeBuffer.Pattern.Engine

namespace CodeBuffer

/-- Stands for a delimited pattern in the delimiter table. It is never given to another one. -/
abbrev PatternKey := Nat

/-- Every match outside the enclosures gets the style. -/
structure SimplePattern where
  id : String
  style : String
  matcher : Matcher

/-- A match of `opener`, the next match of `closer` and what lies between them are an enclosure,
which gets the style as a whole and belongs to the context class. -/
structure DelimitedPattern where
  id : String
  style : String
  key : PatternKey
  opener : Matcher
  closer : Matcher
  contextClass : Option String

inductive Pattern where
  | simple (p : SimplePattern)
  | delimited (p : DelimitedPattern)

namespace Pattern

def id : Pattern → String
  | simple p => p.id
  | delimited p => p.id

def style : Pattern → String
  | simple p => p.style
  | delimited p => p.style

def delimited? : Pattern → Option DelimitedPattern
  | simple _ => none
  | delimited p => some p

def simple? : Pattern → Option SimplePattern
  | simple p => some p
  | delimited _ => none

def key? (p : Pattern) : Option PatternKey := p.delimited?.map (·.key)

def isDelimited (p : Pattern) : Bool := p.delimited?.isSome

end Pattern

/-- The delimited patterns of a list, in its order. -/
def delimitedOf (ps : List Pattern) : List DelimitedPattern := ps.filterMap (·.delimited?)

/-- Why patterns are refused. -/
inductive PatternError where
  | duplicateId (id : String)
  | invalidSource (source : String)
  | unknownLanguage (id : String)
  deriving DecidableEq, Repr

def PatternError.message : PatternError → String
  | duplicateId id => "a pattern with id '" ++ id ++ "' is already registered"
  | invalidSource source => "invalid regex '" ++ source ++ "'"
  | unknownLanguage id => "unknown language '" ++ id ++ "'"

/-- The matcher of a source, in which line anchors hold at every line. -/
def compileMatcher [PatternEngine] (source : String) : Except PatternError Matcher :=
  match PatternEngine.compile? source with
  | some m => .ok m
  | none => .error (.invalidSource source)

end CodeBuffer
