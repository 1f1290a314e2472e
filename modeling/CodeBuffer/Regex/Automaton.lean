import CodeBuffer.Regex.Expr

namespace CodeBuffer.Regex

/-- What an automaton does at one of its nodes; nodes are named by their numbers. -/
inductive Node where
  | accept
  | consume (s : CharSet) (next : Nat)
  | check (a : Anchor) (next : Nat)
  | fork (first second : Nat)

structure Automaton where
  nodes : Array Node
  start : Nat

namespace Automaton

/-- Building an automaton adds nodes to those that are there. -/
abbrev Building := StateM (Array Node)

def emit (n : Node) : Building Nat := modifyGet fun nodes => (nodes.size, nodes.push n)

def fill (i : Nat) (n : Node) : Building Unit := modify fun nodes => nodes.setIfInBounds i n

/-- So many copies of a part in a row, the last one in front of `target`. -/
def copies (part : Nat → Building Nat) : Nat → Nat → Building Nat
  | 0, target => return target
  | n + 1, target => do copies part n (← part target)

end Automaton

open Automaton

def Node.choice (greedy : Bool) (more done : Nat) : Node :=
  if greedy then .fork more done else .fork done more

/-- Adds the nodes of an expression in front of `target` and tells the first of them. A repetition
that has no bound goes round through a fork. If a round may be empty, the way in has a fork of its
own: going in through the one behind the rounds would put leaving before every later branch. -/
def Expr.build : Expr → Nat → Building Nat
  | empty, target => return target
  | literal s, target => s.foldrM (fun c next => emit (.consume (.single c) next)) target
  | one s, target => emit (.consume s target)
  | anchor a, target => emit (.check a target)
  | group _ e, target => e.build target
  | seq a b, target => do a.build (← b.build target)
  | alt a b, target => do
    let second ← b.build target
    let first ← a.build target
    emit (.fork first second)
  | rep e least (some most) greedy, target => do
    let optional (next : Nat) : Building Nat := do
      emit (.choice greedy (← e.build next) target)
    copies e.build least (← copies optional (most - least) target)
  | rep e least none greedy, target => do
    let loop ← emit .accept
    let first ← e.build loop
    fill loop (.choice greedy first target)
    if least = 0 then
      if e.minLength?.any (0 < ·) then return loop
      else emit (.choice greedy first target)
    else copies e.build (least - 1) first

def Automaton.ofExpr (e : Expr) : Automaton :=
  let (start, nodes) := (e.build 0).run #[.accept]
  ⟨nodes, start⟩

end CodeBuffer.Regex
