import CodeBuffer.Pattern.Matcher

namespace CodeBuffer

/-- What is known of the next match of a pattern. -/
inductive Lookahead where
  | unknown
  | found (i : Interval)
  | exhausted
  deriving DecidableEq, Repr

namespace Lookahead

def ofSearch : Option Interval → Lookahead
  | some i => found i
  | none => exhausted

def match? : Lookahead → Option Interval
  | found i => some i
  | _ => none

/-- Brings what is known up to date for a place. A match that still lies ahead is still the next
one, and where there was none there is none. -/
def refresh (find : Place → Option Interval) (p : Place) : Lookahead → Lookahead
  | unknown => ofSearch (find p)
  | found i => if p.offset ≤ i.start then found i else ofSearch (find p)
  | exhausted => exhausted

@[simp] theorem match?_ofSearch (r : Option Interval) : (ofSearch r).match? = r := by
  cases r <;> rfl

end Lookahead
end CodeBuffer
