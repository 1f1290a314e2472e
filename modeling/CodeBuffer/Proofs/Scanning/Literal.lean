import CodeBuffer.Pattern.Basic
import CodeBuffer.Proofs.Plain.Chunk
import CodeBuffer.Regex.Engine

namespace CodeBuffer

namespace Regex.Automaton

/-- The nodes for a word, with those for its last characters first. -/
def wordNodes : Text → Array Node
  | [] => #[.accept]
  | c :: w => (wordNodes w).push (.consume (.single c) w.length)

@[simp] theorem size_wordNodes (w : Text) : (wordNodes w).size = w.length + 1 := by
  induction w with
  | nil => rfl
  | cons c w ih => rw [wordNodes, Array.size_push, ih, List.length_cons]

theorem ofExpr_literal (w : Text) : ofExpr (.literal w) = ⟨wordNodes w, w.length⟩ := by
  have hbuild : (w.foldrM (fun c next => emit (.consume (.single c) next)) 0 : Building Nat).run
      #[.accept] = (w.length, wordNodes w) := by
    induction w with
    | nil => rfl
    | cons c w ih =>
      rw [List.foldrM_cons, StateT.run_bind, ih]
      change ((wordNodes w).size, (wordNodes w).push _) = _
      rw [size_wordNodes]
      rfl
  have hrun : ((Expr.literal w).build 0).run #[.accept] = (w.length, wordNodes w) := hbuild
  rw [ofExpr, hrun]

/-- Where the node for the last characters of a word is. -/
theorem wordNodes_append (u v : Text) :
    (wordNodes (u ++ v))[v.length]? = (wordNodes v)[v.length]? := by
  induction u with
  | nil => rfl
  | cons c u ih =>
    have hlt : v.length < (wordNodes (u ++ v)).size := by
      rw [size_wordNodes, List.length_append]
      omega
    rw [List.cons_append, wordNodes, Array.getElem?_push, if_neg (by omega), ih]

/-- From the node for the last characters of a word on, they are what is matched. -/
theorem lengthFrom_word (u v : Text) (start offset : Nat) (before after : Text) :
    (⟨wordNodes (u ++ v), start⟩ : Automaton).lengthFrom offset before after v.length =
      if v.isPrefixOf after then some v.length else none := by
  have hnew (i : Nat) : (∅ : Std.HashSet Nat).contains i = false := Std.HashSet.contains_empty
  induction v generalizing u offset before after with
  | nil =>
    have hnode : (⟨wordNodes (u ++ []), start⟩ : Automaton).nodes[0]? = some .accept :=
      wordNodes_append u []
    rw [lengthFrom_eq, List.length_nil, explore_accept () [] (hnew 0) hnode]
    rfl
  | cons c v ih =>
    have hnode : (⟨wordNodes (u ++ c :: v), start⟩ : Automaton).nodes[(c :: v).length]? =
        some (.consume (.single c) v.length) := by
      refine (wordNodes_append u (c :: v)).trans ?_
      rw [wordNodes, List.length_cons, ← size_wordNodes v, Array.getElem?_push_size]
    have hvalue (seen : Std.HashSet Nat) (ahead : CharSet → Nat → Option Nat) :
        ((⟨[⟨.single c, v.length, ()⟩], none, seen⟩ : Frontier Unit).value ahead).map (·.2) =
          ahead (.single c) v.length := by
      simp [Frontier.value, Thread.best, Thread.value, Function.comp_def]
    rw [lengthFrom_eq, explore_consume () [] (hnew _) hnode, explore_nil, hvalue]
    cases after with
    | nil => rfl
    | cons d after =>
      have hrest := ih (u ++ [c]) (offset + 1) (d :: before) after
      rw [List.append_assoc, List.singleton_append] at hrest
      rw [ahead, hrest, List.isPrefixOf]
      by_cases hd : d = c
      · rw [if_pos (CharSet.holds_single.2 hd), hd, beq_self_eq_true, Bool.true_and]
        split <;> rfl
      · have hne : (c == d) = false := beq_eq_false_iff_ne.2 fun h => hd h.symm
        rw [if_neg (mt CharSet.holds_single.1 hd), hne, Bool.false_and]
        rfl

end Regex.Automaton

namespace Matcher

/-- The automaton of a word matches what tries the word at one place after the other. -/
theorem ofAutomaton_literal (source : String) (w : Text) :
    ofAutomaton source (.ofExpr (.literal w)) =
      ofLengthAt source (Place.wordAt w) Place.wordAt_le := by
  have hlength : (Regex.Automaton.ofExpr (.literal w)).lengthAt = Place.wordAt w := by
    funext p
    rw [Regex.Automaton.ofExpr_literal]
    exact Regex.Automaton.lengthFrom_word [] w w.length p.offset p.before p.after
  have hsearch : (Regex.Automaton.ofExpr (.literal w)).search =
      fun p => Place.leastMatch (Place.wordAt w) p.offset p.before p.after := by
    funext p
    rw [← hlength]
    exact Regex.Automaton.search_eq _ p
  simp only [ofAutomaton, ofLengthAt, mk.injEq]
  exact ⟨trivial, hlength, hsearch⟩

open scoped Regex

/-- A word that is written down, and is not too long, is compiled. -/
theorem compileMatcher_of_literal {source : String} {w : Text}
    (hread : Regex.read? source = some (.literal w)) (hfits : Regex.Size.fits (.literal w) = true) :
    compileMatcher source = .ok (ofLengthAt source (Place.wordAt w) Place.wordAt_le) := by
  have hcompiled : PatternEngine.compile? source =
      some (ofLengthAt source (Place.wordAt w) Place.wordAt_le) := by
    simp only [PatternEngine.compile?, Regex.matcher?, hread, Option.bind_eq_bind, Option.bind_some,
      hfits, if_true, ofAutomaton_literal]
  rw [compileMatcher, hcompiled]

/-- The matcher of a word that is written down finds its first occurrence. -/
theorem finds_of_literal {source : String} {w : Text} {m : Matcher}
    (hread : Regex.read? source = some (.literal w)) (hm : compileMatcher source = .ok m) :
    m.Finds w := by
  have hcompiled : Regex.matcher? source = some m := by
    unfold compileMatcher at hm
    split at hm
    · rename_i m' hm'
      exact Except.ok.inj hm ▸ hm'
    · cases hm
  simp only [Regex.matcher?, hread, Option.bind_eq_bind, Option.bind_some] at hcompiled
  split at hcompiled
  · obtain rfl := Option.some.inj hcompiled
    rw [ofAutomaton_literal]
    exact finds_ofLengthAt source w
  · cases hcompiled

end Matcher
end CodeBuffer
