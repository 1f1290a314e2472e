import CodeBuffer.Regex.CharSet
import CodeBuffer.Text.Place

namespace CodeBuffer

/-- Whether the character before a place is one of a set. -/
def Place.follows (p : Place) (s : Regex.CharSet) : Bool :=
  p.before.head?.any fun c => s.holds c.toNat

def Place.precedes (p : Place) (s : Regex.CharSet) : Bool :=
  p.after.head?.any fun c => s.holds c.toNat

namespace Regex

/-- What an expression may ask of the characters around a place. -/
inductive Anchor where
  | textStart
  | textEnd
  | lineStart
  | lineEnd
  | crlfLineStart
  | crlfLineEnd
  | wordEdge (words : CharSet)
  | noWordEdge (words : CharSet)
  | wordStart (words : CharSet)
  | wordEnd (words : CharSet)
  | wordStartHalf (words : CharSet)
  | wordEndHalf (words : CharSet)
  deriving DecidableEq

/-- Plain line anchors know only the line feed; with carriage returns, a place inside a pair of
return and feed is at no line's end and at no line's start. -/
def Anchor.holds : Anchor → Place → Bool
  | textStart, p => p.before.isEmpty
  | textEnd, p => p.after.isEmpty
  | lineStart, p => p.before.head?.all (· == '\n')
  | lineEnd, p => p.after.head?.all (· == '\n')
  | crlfLineStart, p =>
    p.before.head?.all fun c => c == '\n' || (c == '\r' && p.after.head? != some '\n')
  | crlfLineEnd, p =>
    p.after.head?.all fun c => c == '\r' || (c == '\n' && p.before.head? != some '\r')
  | wordEdge words, p => p.follows words != p.precedes words
  | noWordEdge words, p => p.follows words == p.precedes words
  | wordStart words, p => !p.follows words && p.precedes words
  | wordEnd words, p => p.follows words && !p.precedes words
  | wordStartHalf words, p => !p.follows words
  | wordEndHalf words, p => !p.precedes words

end Regex
end CodeBuffer
