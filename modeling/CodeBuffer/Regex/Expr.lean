import CodeBuffer.Regex.Anchor

namespace CodeBuffer.Regex

/-- A regular expression. Sequences and branches lean to the right. -/
inductive Expr where
  | empty
  | literal (s : List Char)
  | one (s : CharSet)
  | anchor (a : Anchor)
  | group (index : Nat) (e : Expr)
  | seq (a b : Expr)
  | alt (a b : Expr)
  | rep (e : Expr) (least : Nat) (most : Option Nat) (greedy : Bool)
  deriving DecidableEq

namespace Expr

/-- The least number of characters of a match; `none` where a part can never match. -/
def minLength? : Expr → Option Nat
  | empty => some 0
  | literal s => some s.length
  | one s => if s.isEmpty then none else some 1
  | anchor _ => some 0
  | group _ e => e.minLength?
  | seq a b => return (← a.minLength?) + (← b.minLength?)
  | alt a b => return min (← a.minLength?) (← b.minLength?)
  | rep e least _ _ => e.minLength?.map (· * least)

/-- The greatest number of characters of a match; `none` where there is no bound or where a part
can never match. -/
def maxLength? : Expr → Option Nat
  | empty => some 0
  | literal s => some s.length
  | one s => if s.isEmpty then none else some 1
  | anchor _ => some 0
  | group _ e => e.maxLength?
  | seq a b => return (← a.maxLength?) + (← b.maxLength?)
  | alt a b => return max (← a.maxLength?) (← b.maxLength?)
  | rep e _ most _ => return (← e.maxLength?) * (← most)

/-- The elements of a sequence. -/
def parts : Expr → List Expr
  | empty => []
  | seq a b => a.parts ++ b.parts
  | e => [e]

def ofParts : List Expr → Expr
  | [] => empty
  | [e] => e
  | e :: es => seq e (ofParts es)

/-- Puts an element in front of a sequence; neighbouring literals become one. -/
def consPart (e : Expr) (es : List Expr) : List Expr :=
  match e, es with
  | literal s, literal t :: rest => literal (s ++ t) :: rest
  | e, es => e :: es

/-- The expressions one after the other. -/
def concat (es : List Expr) : Expr := ofParts ((es.flatMap parts).foldr consPart [])

def branches : Expr → List Expr
  | alt a b => a.branches ++ b.branches
  | e => [e]

/-- No branch at all can never match. -/
def ofBranches : List Expr → Expr
  | [] => one []
  | [e] => e
  | e :: es => alt e (ofBranches es)

/-- One character out of a set. -/
def ofSet : CharSet → Expr
  | [(lo, hi)] => if lo = hi then literal [Char.ofNat lo] else one [(lo, hi)]
  | s => one s

/-- The set that a branch stands for if it is a single character. -/
def char? : Expr → Option CharSet
  | literal [c] => some (.single c)
  | _ => none

def set? : Expr → Option CharSet
  | one s => some s
  | _ => none

/-- The elements of a sequence of several. -/
def parts? : Expr → Option (List Expr)
  | seq a b => some (a.parts ++ b.parts)
  | _ => none

/-- The longest list that both lists begin with. -/
def commonPrefix [DecidableEq α] : List α → List α → List α
  | a :: s, b :: t => if a = b then a :: commonPrefix s t else []
  | _, _ => []

/-- What all of several sequences begin with. -/
def sharedParts : List (List Expr) → List Expr
  | [] => []
  | s :: rest => rest.foldl commonPrefix s

def size : Expr → Nat
  | group _ e => e.size + 1
  | seq a b => a.size + b.size + 1
  | alt a b => a.size + b.size + 1
  | rep e _ _ _ => e.size + 1
  | _ => 1

/-- Branches as one expression. Single characters become a set, and so do sets. Sequences that
begin alike share their beginning; `fuel` bounds how often they do. -/
def alternate : Nat → List Expr → Expr
  | fuel, es =>
    let bs := es.flatMap branches
    match bs with
    | [] | [_] => ofBranches bs
    | _ =>
      match bs.mapM char?, bs.mapM set?, bs.mapM parts?, fuel with
      | some ss, _, _, _ => ofSet (.ofList ss.flatten)
      | _, some ss, _, _ => ofSet (.ofList ss.flatten)
      | _, _, some seqs, fuel + 1 =>
        let shared := sharedParts seqs
        if shared.isEmpty then ofBranches bs
        else concat (shared ++ [alternate fuel (seqs.map fun s => concat (s.drop shared.length))])
      | _, _, _, _ => ofBranches bs

def alternation (es : List Expr) : Expr := alternate (es.foldl (fun n e => n + e.size) 0) es

/-- Repetitions of an expression. Of one that matches nothing but the empty text, once is as good
as often. -/
def repeated (e : Expr) (least : Nat) (most : Option Nat) (greedy : Bool) : Expr :=
  let (least, most) :=
    if e.maxLength? = some 0 then (min least 1, some ((most.map (min 1)).getD 1))
    else (least, most)
  if most = some 0 then empty
  else if least = 1 ∧ most = some 1 then e
  else rep e least most greedy

end Expr

end CodeBuffer.Regex
