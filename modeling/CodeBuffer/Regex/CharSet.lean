import CodeBuffer.Unicode.Blank
import CodeBuffer.Unicode.CaseFold
import CodeBuffer.Unicode.Digit
import CodeBuffer.Unicode.Word

namespace CodeBuffer.Regex

/-- The characters that one step of an expression may consume. -/
abbrev CharSet := Unicode.Ranges

namespace CharSet

def single (c : Char) : CharSet := [(c.toNat, c.toNat)]

def ofRanges (rs : List (Char × Char)) : CharSet :=
  .ofList (rs.map fun r => (r.1.toNat, r.2.toNat))

def ascii : CharSet := [(0, 127)]

def all : CharSet := [(0, Unicode.Ranges.lastPoint)]

/-- No character lies beyond `n`. -/
def isUpTo (n : Nat) (s : CharSet) : Bool := List.all s fun r => decide (r.2 ≤ n)

/-- The sets that a bracket may name between `[:` and `:]`. They hold ASCII characters only. -/
def named : String → Option CharSet
  | "alnum" => some (ofRanges [('0', '9'), ('A', 'Z'), ('a', 'z')])
  | "alpha" => some (ofRanges [('A', 'Z'), ('a', 'z')])
  | "ascii" => some ascii
  | "blank" => some (ofRanges [('\t', '\t'), (' ', ' ')])
  | "cntrl" => some (ofRanges [('\x00', '\x1F'), ('\x7F', '\x7F')])
  | "digit" => some (ofRanges [('0', '9')])
  | "graph" => some (ofRanges [('!', '~')])
  | "lower" => some (ofRanges [('a', 'z')])
  | "print" => some (ofRanges [(' ', '~')])
  | "punct" => some (ofRanges [('!', '/'), (':', '@'), ('[', '\x60'), ('\x7B', '~')])
  | "space" => some (ofRanges [('\t', '\r'), (' ', ' ')])
  | "upper" => some (ofRanges [('A', 'Z')])
  | "word" => some (ofRanges [('0', '9'), ('A', 'Z'), ('_', '_'), ('a', 'z')])
  | "xdigit" => some (ofRanges [('0', '9'), ('A', 'F'), ('a', 'f')])
  | _ => none

theorem holds_single {c d : Char} : (single c).holds d.toNat = true ↔ d = c := by
  simp only [single, Unicode.Ranges.holds, Bool.or_false, Bool.and_eq_true, decide_eq_true_eq]
  constructor
  · intro h
    exact Char.toNat_inj.1 (by omega)
  · rintro rfl
    omega

end CharSet
end CodeBuffer.Regex
