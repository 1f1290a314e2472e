import CodeBuffer.Text.Place

namespace CodeBuffer

/-- Finds pieces of text. `lengthAt` tells what it matches at a place; `search` tells at once what
trying one place after the other would find. -/
structure Matcher where
  source : String
  lengthAt : Place → Option Nat
  lengthAt_le : ∀ p n, lengthAt p = some n → n ≤ p.after.length
  search : Place → Option Interval
  search_eq : ∀ p, search p = Place.leastMatch lengthAt p.offset p.before p.after

namespace Matcher

/-- A matcher that tries one place after the other. -/
def ofLengthAt (source : String) (lengthAt : Place → Option Nat)
    (lengthAt_le : ∀ p n, lengthAt p = some n → n ≤ p.after.length) : Matcher :=
  ⟨source, lengthAt, lengthAt_le, fun p => Place.leastMatch lengthAt p.offset p.before p.after,
    fun _ => rfl⟩

/-- Goes to the match that was found and takes it, or searches on one character behind its start if
it is empty or not accepted. At the end of the text every match is empty. -/
def settle (m : Matcher) (accept : Place → Bool) (found : Option Interval) (offset : Nat)
    (before : Text) : Text → Option Interval
  | [] => none
  | c :: after =>
    match found with
    | none => none
    | some i =>
      if offset < i.start then m.settle accept (some i) (offset + 1) (c :: before) after
      else if i.isEmpty || !accept ⟨offset, before, c :: after⟩ then
        m.settle accept (m.search ⟨offset + 1, c :: before, after⟩) (offset + 1) (c :: before) after
      else some i

/-- The first match at or behind a place that is not empty and whose start is accepted. -/
def find (m : Matcher) (accept : Place → Bool) (p : Place) : Option Interval :=
  m.settle accept (m.search p) p.offset p.before p.after

end Matcher
end CodeBuffer
