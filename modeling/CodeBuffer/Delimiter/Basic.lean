import CodeBuffer.Pattern.Basic

namespace CodeBuffer

/-- Where an enclosure begins, or where one ends. An opener sits at the start of its match and a
closer at the end of its match, so that the enclosure is what lies between the two. -/
structure Delimiter where
  offset : Nat
  key : Option PatternKey
  depth : Nat
  deriving DecidableEq, Repr

namespace Delimiter

def opener (offset : Nat) (key : PatternKey) : Delimiter := ⟨offset, some key, 1⟩

def closer (offset : Nat) : Delimiter := ⟨offset, none, 0⟩

def opens (d : Delimiter) : Bool := d.key.isSome

end Delimiter

/-- How much of a text is analysed: all of it, or what lies before an offset. -/
inductive Frontier where
  | complete
  | pending (offset : Nat)
  deriving DecidableEq, Repr

def Frontier.covers : Frontier → Nat → Bool
  | complete, _ => true
  | pending f, o => decide (o ≤ f)

/-- A stretch of text within one enclosure, or outside all of them. -/
structure Span where
  start : Nat
  stop : Nat
  key : Option PatternKey
  deriving DecidableEq, Repr

end CodeBuffer
