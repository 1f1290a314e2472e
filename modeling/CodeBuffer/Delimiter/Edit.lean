import CodeBuffer.Delimiter.Basic

namespace CodeBuffer

/-- An edit that has been made. -/
inductive Edit where
  | insertion (offset length : Nat)
  | deletion (offset length : Nat)
  deriving DecidableEq, Repr

namespace Edit

def offset : Edit → Nat
  | insertion o _ => o
  | deletion o _ => o

/-- Where the edited text ends after the edit. -/
def stop : Edit → Nat
  | insertion o n => o + n
  | deletion o _ => o

/-- Like `stop`, but refused when that is no position any more. -/
def stop? : Edit → Except Fault Nat
  | insertion o n => addOffset o n
  | deletion o _ => .ok o

/-- Where a delimiter is after the edit; `none` if text of its match is gone. An opener's match
lies behind its offset, a closer's before it. -/
def map? (e : Edit) (d : Delimiter) : Option Delimiter :=
  match e with
  | insertion pos n =>
    let moves := if d.opens then decide (pos ≤ d.offset) else decide (pos < d.offset)
    some (if moves then { d with offset := d.offset + n } else d)
  | deletion pos n =>
    let gone :=
      if d.opens then decide (pos ≤ d.offset) && decide (d.offset < pos + n)
      else decide (pos < d.offset) && decide (d.offset ≤ pos + n)
    if gone then none
    else some (if pos + n ≤ d.offset then { d with offset := d.offset - n } else d)

/-- Where a plain offset is after the edit. -/
def mapOffset (e : Edit) (o : Nat) : Nat :=
  match e with
  | insertion pos n => if pos < o then o + n else o
  | deletion pos n => if pos + n ≤ o then o - n else min o pos

end Edit

end CodeBuffer
