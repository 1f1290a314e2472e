import CodeBuffer.Text.Hex
import CodeBuffer.Unicode.Ranges

namespace CodeBuffer.Unicode

/-- How far a listing has been read: the ranges so far, last first, the start of a range whose end
is to come, and the number under way. -/
structure Listing where
  ranges : List (Nat × Nat) := []
  start : Option Nat := none
  number : Option Nat := none

namespace Listing

/-- Ends the number under way, and with it a range. -/
def close (l : Listing) : Listing :=
  match l.number with
  | none => l
  | some n => ⟨(l.start.getD n, n) :: l.ranges, none, none⟩

def step (l : Listing) (c : Char) : Listing :=
  match Hex.digit? c with
  | some d => { l with number := some (l.number.getD 0 * 16 + d) }
  | none => if c = '-' then ⟨l.ranges, l.number, none⟩ else l.close

end Listing

/-- The set that a text lists by hexadecimal code points and ranges of them, as in `41-5A 5F`. -/
def Ranges.ofListing (text : String) : Ranges :=
  (text.toList.foldl Listing.step {}).close.ranges.reverse

end CodeBuffer.Unicode
