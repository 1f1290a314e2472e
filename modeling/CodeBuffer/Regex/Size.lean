import CodeBuffer.Regex.Expr
import CodeBuffer.Unicode.Utf8
import Std.Data.HashMap

namespace CodeBuffer.Regex

open Unicode (Utf8.Sequence)

/-- An expression is searched for from both sides, with an automaton for each. -/
inductive Direction where
  | forward
  | backward
  deriving DecidableEq

namespace Size

/-- The room of one state, without what it leads to. -/
def state : Nat := 32

/-- A state that chooses between `n` others. -/
def choice (n : Nat) : Nat := state + 4 * n

/-- A state that consumes a byte of one of `n` ranges. -/
def bytes (n : Nat) : Nat := state + 8 * n

/-- Sequences by their first element: the element and what follows it. Equal ones are neighbours. -/
def heads : List Utf8.Sequence → List ((Nat × Nat) × List Utf8.Sequence)
  | [] => []
  | [] :: rest => heads rest
  | (r :: tail) :: rest =>
    match heads rest with
    | (r', tails) :: more =>
      if r = r' then (r, tail :: tails) :: more else (r, [tail]) :: (r', tails) :: more
    | [] => [(r, [tail])]

/-- The states of a shared automaton, each by the byte ranges that it consumes and where they
lead. -/
abbrev States := Std.HashMap (List ((Nat × Nat) × Nat)) Nat

/-- The state that consumes one of the sequences; equal states are made once. State 0 is the end,
and `fuel` bounds the length of the sequences. -/
def shared : Nat → List Utf8.Sequence → StateM States Nat
  | 0, _ => return 0
  | fuel + 1, seqs => do
    match heads seqs with
    | [] => return 0
    | hs =>
      let arrows ← hs.mapM fun (r, tails) => return (r, ← shared fuel tails)
      modifyGet fun states =>
        match states[arrows]? with
        | some i => (i, states)
        | none => (states.size + 1, states.insert arrows (states.size + 1))

/-- The number of states if sequences share what they begin with and nothing else. -/
def prefixes : Nat → List Utf8.Sequence → Nat
  | 0, _ => 0
  | fuel + 1, seqs => ((heads seqs).map fun h => 1 + prefixes fuel h.2).sum

/-- The automaton of a set over bytes. Forward it shares as much as it can; backward it shares
what the sequences begin with. -/
def ofSet (d : Direction) (s : CharSet) : Nat :=
  if s.isUpTo 127 then state + bytes s.length
  else
    let seqs := Unicode.Utf8.sequences s
    match d with
    | .forward =>
      let (_, states) := (shared 4 seqs).run ∅
      state + states.toList.foldl (fun n e => n + bytes e.1.length) 0
    | .backward => choice seqs.length + state + state * prefixes 4 seqs

def utf8 (s : List Char) : List Nat :=
  s.flatMap fun c => Unicode.Utf8.encode (Unicode.Utf8.byteCount c - 1) c.toNat

/-- What follows one byte in a tree of texts, with the bytes in the order of their first use. -/
def addTail (b : Nat) (tail : List Nat) : List (Nat × List (List Nat)) →
    List (Nat × List (List Nat))
  | [] => [(b, [tail])]
  | (b', tails) :: rest =>
    if b = b' then (b', tails ++ [tail]) :: rest else (b', tails) :: addTail b tail rest

/-- The texts of a tree up to each that ends at its root. -/
def chunks : List (List Nat) → List (List (Nat × List (List Nat)))
  | texts =>
    let step (acc : List (List (Nat × List (List Nat)))) (text : List Nat) :=
      match text, acc with
      | b :: tail, chunk :: done => addTail b tail chunk :: done
      | b :: tail, [] => [addTail b tail []]
      | [], acc => if acc.length ≥ 2 && acc.all List.isEmpty then acc else [] :: acc
    (texts.foldl step [[]]).reverse

/-- The automaton of texts of which earlier ones are preferred: a tree in which texts share their
beginnings up to the next one that ends there. -/
def tree : Nat → List (List Nat) → Nat
  | 0, _ => 0
  | fuel + 1, texts =>
    let cs := chunks texts
    if cs.all List.isEmpty then 0
    else
      let full := cs.filter (!·.isEmpty)
      let pieces := full.length + (cs.length - 1)
      let own := full.map fun c => if c.length = 1 then state else bytes c.length
      own.sum + (if pieces = 1 then 0 else choice pieces) +
        (cs.flatten.map fun e => tree fuel e.2).sum

def literal? : Expr → Option (List Char)
  | .literal s => some s
  | _ => none

/-- The automaton of an expression over bytes. `tail` tells that the branches go on a choice that is
counted already. -/
def ofExpr (d : Direction) : Expr → Bool → Nat
  | .empty, _ => state
  | .literal s, _ => state * (s.map Unicode.Utf8.byteCount).sum
  | .one s, _ => ofSet d s
  | .anchor _, _ => state
  | .group _ e, _ => ofExpr d e false + (if d = .forward then 2 * state else 0)
  | .seq a b, _ => ofExpr d a false + ofExpr d b false
  | .alt a b, tail =>
    match if tail then none else (Expr.alt a b).branches.mapM literal? with
    | some texts =>
      let texts := texts.map fun s => if d = .forward then utf8 s else (utf8 s).reverse
      state + tree ((texts.map List.length).foldl max 0 + 1) texts
    | none => (if tail then 4 else state + choice 2) + ofExpr d a false + ofExpr d b true
  | .rep e least most _, _ =>
    let once := ofExpr d e false
    match least, most with
    | 0, some 1 => choice 2 + state + once
    | n, some m =>
      if n = m then n * once
      else (if n = 0 then state else n * once) + state + (m - n) * (choice 2 + once)
    | 0, none =>
      if e.minLength?.any (0 < ·) then choice 2 + once else 2 * choice 2 + state + once
    | n, none => n * once + choice 2

/-- The automaton with what it takes to begin a match anywhere and to end it. -/
def whole (d : Direction) (e : Expr) : Nat :=
  let start := choice 2 + state + bytes 1
  let ends := if d = .forward then 2 * state else 0
  start + ends + ofExpr d e false + state

/-- The greatest size that is accepted. -/
def limit : Nat := 10 * Nat.pow 2 20

def fits (e : Expr) : Bool :=
  decide (whole .forward e ≤ limit) && decide (whole .backward e ≤ limit)

end Size

end CodeBuffer.Regex
