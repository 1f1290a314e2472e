namespace CodeBuffer.Unicode

/-- A set of characters as ascending, disjoint ranges of code points, ends included. -/
abbrev Ranges := List (Nat × Nat)

namespace Ranges

/-- Looks a code point up and stops at the first range that lies beyond it. -/
def holds : Ranges → Nat → Bool
  | [], _ => false
  | (lo, hi) :: rest, n => decide (lo ≤ n) && (decide (n ≤ hi) || holds rest n)

/-- Joins a range with those behind it that it touches. -/
def joinFrom (lo hi : Nat) : Ranges → Ranges
  | [] => [(lo, hi)]
  | (a, b) :: rest =>
    if a ≤ hi + 1 then joinFrom lo (max hi b) rest else (lo, hi) :: joinFrom a b rest

/-- The set that any ranges make up together. -/
def ofList (rs : List (Nat × Nat)) : Ranges :=
  match rs.mergeSort fun a b => decide (a.1 ≤ b.1) with
  | [] => []
  | (lo, hi) :: rest => joinFrom lo hi rest

def union (a b : Ranges) : Ranges := ofList (a ++ b)

def inter : Ranges → Ranges → Ranges
  | [], _ => []
  | _, [] => []
  | (a, b) :: s, (c, d) :: t =>
    let rest := if b < d then inter s ((c, d) :: t) else inter ((a, b) :: s) t
    if max a c ≤ min b d then (max a c, min b d) :: rest else rest
termination_by s t => s.length + t.length

/-- The greatest code point. -/
def lastPoint : Nat := 0x10FFFF

/-- The code point of the next character; the surrogates are no characters. -/
def pointAfter (n : Nat) : Nat := if n = 0xD7FF then 0xE000 else n + 1

def pointBefore (n : Nat) : Nat := if n = 0xE000 then 0xD7FF else n - 1

/-- What lies before, between and behind the ranges, first and last character each. Where two
ranges meet across the surrogates nothing lies between them, and the last comes before the first. -/
def gaps : Ranges → List (Nat × Nat)
  | [] => [(0, lastPoint)]
  | (lo, hi) :: rest =>
    (if lo = 0 then [] else [(0, pointBefore lo)]) ++ between hi rest
where
  between (hi : Nat) : Ranges → List (Nat × Nat)
    | [] => if hi < lastPoint then [(pointAfter hi, lastPoint)] else []
    | (a, b) :: rest => (pointAfter hi, pointBefore a) :: between b rest

/-- The other characters. A gap without characters counts as the two characters around it. -/
def compl (s : Ranges) : Ranges := s.gaps.map fun g => (min g.1 g.2, max g.1 g.2)

def diff (s t : Ranges) : Ranges := s.inter (t.gaps.filter fun g => g.1 ≤ g.2)

def symmDiff (s t : Ranges) : Ranges := (s.union t).diff (s.inter t)

end Ranges
end CodeBuffer.Unicode
