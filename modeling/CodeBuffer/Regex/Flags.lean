import CodeBuffer.Regex.Expr

namespace CodeBuffer.Regex

/-- The switches that `(?imsUuRx)` sets. -/
structure Flags where
  ignoreCase : Bool := false
  multiLine : Bool := true
  dotAll : Bool := false
  swapGreed : Bool := false
  unicode : Bool := true
  crlf : Bool := false
  verbose : Bool := false

namespace Flags

/-- Sets one switch; `none` for a letter that names no switch. -/
def set (fl : Flags) (c : Char) (on : Bool) : Option Flags :=
  match c with
  | 'i' => some { fl with ignoreCase := on }
  | 'm' => some { fl with multiLine := on }
  | 's' => some { fl with dotAll := on }
  | 'U' => some { fl with swapGreed := on }
  | 'u' => some { fl with unicode := on }
  | 'R' => some { fl with crlf := on }
  | 'x' => some { fl with verbose := on }
  | _ => none

def words (fl : Flags) : CharSet :=
  if fl.unicode then Unicode.wordRanges else Unicode.wordRanges.inter CharSet.ascii

/-- The set as it stands under the switch for case. Without Unicode only ASCII letters have case. -/
def fold (fl : Flags) (s : CharSet) : CharSet :=
  if !fl.ignoreCase then s
  else if fl.unicode then s.closeCase
  else s.closeCase.inter CharSet.ascii

/-- A character that stands for itself. -/
def ofChar (fl : Flags) (c : Char) : Expr :=
  if fl.unicode || decide (c.toNat < 128) then .ofSet (fl.fold (.single c)) else .literal [c]

def lineStart (fl : Flags) : Anchor :=
  if !fl.multiLine then .textStart else if fl.crlf then .crlfLineStart else .lineStart

def lineEnd (fl : Flags) : Anchor :=
  if !fl.multiLine then .textEnd else if fl.crlf then .crlfLineEnd else .lineEnd

/-- What a dot consumes. -/
def dot (fl : Flags) : CharSet :=
  if fl.dotAll then .all
  else if fl.crlf then Unicode.Ranges.compl (CharSet.ofRanges [('\n', '\n'), ('\r', '\r')])
  else Unicode.Ranges.compl (CharSet.single '\n')

end Flags

end CodeBuffer.Regex
