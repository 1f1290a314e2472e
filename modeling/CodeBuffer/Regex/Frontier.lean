import CodeBuffer.Regex.Automaton
import Std.Data.HashSet

namespace CodeBuffer.Regex

/-- A node behind one that waits for a character. The tag tells whose thread it is. -/
structure Thread (β : Type) where
  set : CharSet
  next : Nat
  tag : β

/-- What a place is like for an automaton: the threads that go on from there, the latest and least
preferred first, whose match may end there, and the nodes that were passed. -/
structure Frontier (β : Type) where
  threads : List (Thread β)
  accepted : Option β
  seen : Std.HashSet Nat

namespace Automaton

variable {β γ : Type} {a : Automaton} {p : Place}

/-- Where a node leads at a place without a character. -/
def silent (a : Automaton) (p : Place) (i : Nat) : List Nat :=
  match a.nodes[i]? with
  | some (.check c next) => if c.holds p then [next] else []
  | some (.fork first second) => [first, second]
  | _ => []

/-- How many nodes are not seen yet. -/
def unseen (a : Automaton) (seen : Std.HashSet Nat) : Nat :=
  (List.range a.nodes.size).countP fun i => !seen.contains i

theorem countP_lt_countP {P Q : Nat → Bool} (hPQ : ∀ i, P i = true → Q i = true) {i : Nat}
    (hP : P i = false) (hQ : Q i = true) {l : List Nat} (hi : i ∈ l) :
    l.countP P < l.countP Q := by
  induction l with
  | nil => simp at hi
  | cons j l ih =>
    rcases List.mem_cons.1 hi with rfl | hi
    · have : l.countP P ≤ l.countP Q := List.countP_mono_left fun j _ => hPQ j
      rw [List.countP_cons_of_neg (by simp [hP]), List.countP_cons_of_pos hQ]
      omega
    · have := ih hi
      have hj : (if P j = true then 1 else 0) ≤ if Q j = true then 1 else 0 := by
        split
        · simp [hPQ j ‹_›]
        · simp
      simp only [List.countP_cons]
      omega

theorem unseen_insert_le (a : Automaton) (seen : Std.HashSet Nat) (i : Nat) :
    a.unseen (seen.insert i) ≤ a.unseen seen := by
  apply List.countP_mono_left
  intro j _
  simp only [Std.HashSet.contains_insert, Bool.not_or, Bool.and_eq_true]
  exact And.right

theorem unseen_insert_lt {a : Automaton} {seen : Std.HashSet Nat} {i : Nat}
    (hi : i < a.nodes.size) (h : seen.contains i = false) :
    a.unseen (seen.insert i) < a.unseen seen := by
  refine countP_lt_countP (i := i) (fun j => ?_) (by simp) (by simp [h]) (List.mem_range.2 hi)
  simp only [Std.HashSet.contains_insert, Bool.not_or, Bool.and_eq_true]
  exact And.right

theorem silent_measure {a : Automaton} {p : Place} {seen : Std.HashSet Nat} {i : Nat}
    (h : seen.contains i = false) :
    (a.silent p i).length + 2 * a.unseen (seen.insert i) < 1 + 2 * a.unseen seen := by
  have hle := unseen_insert_le a seen i
  unfold silent
  split
  · rename_i hn
    have := unseen_insert_lt (Array.getElem?_eq_some_iff.1 hn).1 h
    split <;> simp only [List.length_cons, List.length_nil] <;> omega
  · rename_i hn
    have := unseen_insert_lt (Array.getElem?_eq_some_iff.1 hn).1 h
    simp only [List.length_cons, List.length_nil]
    omega
  · simp only [List.length_nil]
    omega

/-- Follows the nodes on a stack to those that wait for a character. A node that was seen before
is not worth a second visit, and nothing is worth one behind the end of a match. -/
def explore (a : Automaton) (p : Place) (stack : List (Nat × β)) (seen : Std.HashSet Nat)
    (threads : List (Thread β)) : Frontier β :=
  match stack with
  | [] => ⟨threads, none, seen⟩
  | (i, tag) :: stack =>
    if seen.contains i then a.explore p stack seen threads
    else
      match a.nodes[i]? with
      | some .accept => ⟨threads, some tag, seen⟩
      | some (.consume s next) => a.explore p stack (seen.insert i) (⟨s, next, tag⟩ :: threads)
      | _ => a.explore p ((a.silent p i).map (·, tag) ++ stack) (seen.insert i) threads
termination_by stack.length + 2 * a.unseen seen
decreasing_by
  · simp only [List.length_cons]
    omega
  · have := unseen_insert_le a seen i
    simp only [List.length_cons]
    omega
  · rename_i h
    have := silent_measure (a := a) (p := p) (Bool.eq_false_iff.2 h)
    simp only [List.length_append, List.length_map, List.length_cons]
    omega

end Automaton

/-- How far threads go, where `ahead` tells how many characters a match takes that goes on with a
set and the node behind it: the tag of the preferred match and its length. -/
def Thread.value (ahead : CharSet → Nat → Option Nat) (t : Thread β) : Option (β × Nat) :=
  (ahead t.set t.next).map (t.tag, ·)

def Thread.best (ahead : CharSet → Nat → Option Nat) (threads : List (Thread β)) :
    Option (β × Nat) :=
  threads.reverse.findSome? (value ahead)

/-- An end at the place itself is less preferred than any thread. -/
def Frontier.value (ahead : CharSet → Nat → Option Nat) (f : Frontier β) : Option (β × Nat) :=
  (Thread.best ahead f.threads).or (f.accepted.map (·, 0))

theorem Thread.best_cons (ahead : CharSet → Nat → Option Nat) (t : Thread β)
    (threads : List (Thread β)) :
    best ahead (t :: threads) = (best ahead threads).or (t.value ahead) := by
  simp [best, List.findSome?_append]

namespace Automaton

variable {a : Automaton} {p : Place} {stack : List (Nat × β)} {seen : Std.HashSet Nat}
  {ahead : CharSet → Nat → Option Nat}

theorem explore_nil (threads : List (Thread β)) :
    a.explore p [] seen threads = ⟨threads, none, seen⟩ := by
  rw [explore]

theorem explore_seen {i : Nat} (tag : β) (threads : List (Thread β))
    (h : seen.contains i = true) :
    a.explore p ((i, tag) :: stack) seen threads = a.explore p stack seen threads := by
  rw [explore, if_pos h]

theorem explore_accept {i : Nat} (tag : β) (threads : List (Thread β))
    (h : seen.contains i = false) (hn : a.nodes[i]? = some .accept) :
    a.explore p ((i, tag) :: stack) seen threads = ⟨threads, some tag, seen⟩ := by
  rw [explore, if_neg (Bool.eq_false_iff.1 h), hn]

theorem explore_consume {i : Nat} (tag : β) (threads : List (Thread β))
    (h : seen.contains i = false) {s : CharSet} {next : Nat}
    (hn : a.nodes[i]? = some (.consume s next)) :
    a.explore p ((i, tag) :: stack) seen threads =
      a.explore p stack (seen.insert i) (⟨s, next, tag⟩ :: threads) := by
  rw [explore, if_neg (Bool.eq_false_iff.1 h), hn]

theorem explore_silent {i : Nat} (tag : β) (threads : List (Thread β))
    (h : seen.contains i = false) (ha : a.nodes[i]? ≠ some .accept)
    (hc : ∀ s next, a.nodes[i]? ≠ some (.consume s next)) :
    a.explore p ((i, tag) :: stack) seen threads =
      a.explore p ((a.silent p i).map (·, tag) ++ stack) (seen.insert i) threads := by
  rw [explore, if_neg (Bool.eq_false_iff.1 h)]
  split <;> simp_all

theorem explore_append_threads (stack : List (Nat × β)) (seen : Std.HashSet Nat)
    (threads base : List (Thread β)) :
    a.explore p stack seen (threads ++ base) =
      { a.explore p stack seen threads with
        threads := (a.explore p stack seen threads).threads ++ base } := by
  fun_induction explore a p stack seen threads with
  | case1 => rw [explore_nil]
  | case2 seen threads i tag stack h ih => rw [explore_seen _ _ h, ih]
  | case3 seen threads i tag stack h hn =>
    rw [explore_accept _ _ (Bool.eq_false_iff.2 h) hn]
  | case4 seen threads i tag stack h s next hn ih =>
    rw [explore_consume _ _ (Bool.eq_false_iff.2 h) hn, ← List.cons_append, ih]
  | case5 seen threads i tag stack h ha hc ih =>
    rw [explore_silent _ _ (Bool.eq_false_iff.2 h) ha hc, ih]

/-- What was found before is preferred. -/
theorem value_explore (threads : List (Thread β)) :
    (a.explore p stack seen threads).value ahead =
      (Thread.best ahead threads).or ((a.explore p stack seen []).value ahead) := by
  have h := explore_append_threads (a := a) (p := p) stack seen [] threads
  rw [List.nil_append] at h
  simp [h, Frontier.value, Thread.best, List.findSome?_append, Option.or_assoc]

/-- A stack in two parts: the second is explored if no match ends in the first. -/
theorem explore_append (stack rest : List (Nat × β)) (seen : Std.HashSet Nat)
    (threads : List (Thread β)) :
    a.explore p (stack ++ rest) seen threads =
      if (a.explore p stack seen threads).accepted.isSome then a.explore p stack seen threads
      else a.explore p rest (a.explore p stack seen threads).seen
        (a.explore p stack seen threads).threads := by
  fun_induction explore a p stack seen threads with
  | case1 => simp
  | case2 seen threads i tag stack h ih => rw [List.cons_append, explore_seen _ _ h, ih]
  | case3 seen threads i tag stack h hn =>
    rw [List.cons_append, explore_accept _ _ (Bool.eq_false_iff.2 h) hn]
    simp
  | case4 seen threads i tag stack h s next hn ih =>
    rw [List.cons_append, explore_consume _ _ (Bool.eq_false_iff.2 h) hn, ih]
  | case5 seen threads i tag stack h ha hc ih =>
    rw [List.cons_append, explore_silent _ _ (Bool.eq_false_iff.2 h) ha hc, ← List.append_assoc, ih]

/-- Tags only tell whose a thread is. -/
theorem value_explore_tag (g : β → γ) (stack : List (Nat × β)) (seen : Std.HashSet Nat)
    (threads : List (Thread β)) :
    (a.explore p (stack.map fun e => (e.1, g e.2)) seen
        (threads.map fun t => ⟨t.set, t.next, g t.tag⟩)).value ahead =
      ((a.explore p stack seen threads).value ahead).map fun r => (g r.1, r.2) := by
  have hbest (threads : List (Thread β)) :
      Thread.best ahead (threads.map fun t => ⟨t.set, t.next, g t.tag⟩) =
        (Thread.best ahead threads).map fun r => (g r.1, r.2) := by
    induction threads with
    | nil => rfl
    | cons t threads ih =>
      rw [List.map_cons, Thread.best_cons, Thread.best_cons, ih]
      simp [Thread.value, Option.map_or, Function.comp_def]
  fun_induction explore a p stack seen threads with
  | case1 => simp [explore_nil, Frontier.value, hbest]
  | case2 seen threads i tag stack h ih => rw [List.map_cons, explore_seen _ _ h, ih]
  | case3 seen threads i tag stack h hn =>
    rw [List.map_cons, explore_accept _ _ (Bool.eq_false_iff.2 h) hn]
    simp only [Frontier.value, hbest, Option.map_or]
    rfl
  | case4 seen threads i tag stack h s next hn ih =>
    rw [List.map_cons, explore_consume _ _ (Bool.eq_false_iff.2 h) hn, ← ih]
    rfl
  | case5 seen threads i tag stack h ha hc ih =>
    rw [List.map_cons, explore_silent _ _ (Bool.eq_false_iff.2 h) ha hc, ← ih]
    simp [Function.comp_def]

end Automaton

end CodeBuffer.Regex
