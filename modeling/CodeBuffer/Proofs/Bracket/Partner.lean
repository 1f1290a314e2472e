import Mathlib.Data.Nat.Dist
import Mathlib.Order.Interval.Finset.Nat
import Mathlib.Order.Lattice.Nat
import CodeBuffer.Proofs.Bracket.Nearby

namespace CodeBuffer

/-- Brackets come in pairs of two characters, each of which looks for the other. -/
theorem bracketPair?_partner {c partner : Char} {forward : Bool}
    (h : bracketPair? c = some (partner, forward)) :
    bracketPair? partner = some (c, !forward) ∧ c ≠ partner := by
  unfold bracketPair? at h
  split_ifs at h with h1 h2 h3 h4 h5 h6 h7 h8 <;> cases h <;> subst c <;> decide

namespace BracketContext

theorem within_refl (k : BracketContext) : k.within k = true := by
  obtain ⟨comment, string⟩ := k
  cases comment <;> cases string <;> rfl

theorem within_antisymm {k k' : BracketContext} (h : k.within k' = true)
    (h' : k'.within k = true) : k = k' := by
  obtain ⟨comment, string⟩ := k
  obtain ⟨comment', string'⟩ := k'
  simp only [within, Bool.and_eq_true, Bool.or_eq_true, Bool.not_eq_true'] at h h'
  grind

end BracketContext

/-- The place so many steps ahead of an offset. -/
def place (o : Nat) (forward : Bool) (n : Nat) : Nat := if forward then o + n else o - n

@[simp] theorem place_zero (o : Nat) (forward : Bool) : place o forward 0 = o := by
  cases forward <;> rfl

namespace Document

/-- How many places strictly between `o` and `p` hold a character and have just these classes. -/
def copies (d : Document) (k : BracketContext) (c : Char) (o p : Nat) : Nat :=
  ((Finset.Ioo (min o p) (max o p)).filter fun q =>
    d.bracketContext q = k ∧ d.charAt? q = some c).card

/-- The bracket `own` at `o` has its partner at `p`. No place up to there lacks a class of the
bracket. Of the places between that have its classes and no other, none is reached by more partners
than brackets like it, and in the end there are as many of both. -/
structure Partners (d : Document) (own partner : Char) (forward : Bool) (o p : Nat) : Prop where
  ahead : if forward then o < p else p < o
  within : ∀ q ∈ Finset.uIcc o p, (d.bracketContext o).within (d.bracketContext q) = true
  context : d.bracketContext p = d.bracketContext o
  char : d.charAt? p = some partner
  covered : ∀ q ∈ Finset.uIcc o p,
    d.copies (d.bracketContext o) partner o q ≤ d.copies (d.bracketContext o) own o q
  balanced : d.copies (d.bracketContext o) partner o p = d.copies (d.bracketContext o) own o p

/-- How many steps it is to the edge of the text: forward to its end, backward to its start. -/
def stepsToEdge (d : Document) (o : Nat) (forward : Bool) : Nat :=
  if forward then d.length - o else o

/-- How many steps it is to the first place that lacks a class of the start, or to the edge of the
text if that comes first. -/
def stepsToExit (d : Document) (o : Nat) (forward : Bool) : Nat :=
  (List.range (d.stepsToEdge o forward)).findIdx fun n =>
    !(d.bracketContext o).within (d.bracketContext (place o forward n))

variable {d : Document} {k : BracketContext} {c own partner : Char} {forward : Bool}
  {o p q n m : Nat}

theorem lt_stepsToExit_iff : n < d.stepsToExit o forward ↔ n < d.stepsToEdge o forward ∧
    ∀ m ≤ n, (d.bracketContext o).within (d.bracketContext (place o forward m)) = true := by
  simp [stepsToExit, List.lt_findIdx_iff]

theorem stepsToExit_le : d.stepsToExit o forward ≤ d.stepsToEdge o forward :=
  List.findIdx_le_length.trans_eq List.length_range

/-! Places and steps -/

/-- The places up to the one after so many steps are those after fewer. -/
theorem mem_uIcc_place (hn : n ≤ d.stepsToEdge o forward) :
    q ∈ Finset.uIcc o (place o forward n) ↔ ∃ m ≤ n, q = place o forward m := by
  rw [Finset.mem_uIcc]
  unfold stepsToEdge at hn
  unfold place
  cases forward with
  | true =>
    simp only [if_true] at hn ⊢
    constructor
    · intro h
      exact ⟨q - o, by omega, by omega⟩
    · rintro ⟨m, hm, rfl⟩
      omega
  | false =>
    simp only [Bool.false_eq_true, if_false] at hn ⊢
    constructor
    · intro h
      exact ⟨o - q, by omega, by omega⟩
    · rintro ⟨m, hm, rfl⟩
      omega

theorem dist_place (hn : n ≤ d.stepsToEdge o forward) : o.dist (place o forward n) = n := by
  unfold stepsToEdge at hn
  unfold place Nat.dist
  cases forward with
  | true => simp
  | false =>
    simp only [Bool.false_eq_true, if_false] at hn ⊢
    omega

theorem Partners.exists_place (h : d.Partners own partner forward o p) :
    ∃ n, n + 1 ≤ d.stepsToEdge o forward ∧ p = place o forward (n + 1) := by
  have hp : p < d.length := (List.getElem?_eq_some_iff.1 h.char).1
  have hahead := h.ahead
  unfold stepsToEdge place
  cases forward with
  | true =>
    simp only [if_true] at hahead ⊢
    exact ⟨p - o - 1, by omega, by omega⟩
  | false =>
    simp only [Bool.false_eq_true, if_false] at hahead ⊢
    exact ⟨o - p - 1, by omega, by omega⟩

/-! Copies -/

theorem copies_comm (d : Document) (k : BracketContext) (c : Char) (o p : Nat) :
    d.copies k c o p = d.copies k c p o := by
  rw [copies, copies, min_comm, max_comm]

theorem copies_of_adjacent (h : max o p ≤ min o p + 1) : d.copies k c o p = 0 := by
  have hnone : Finset.Ioo (min o p) (max o p) = ∅ := by
    apply Finset.eq_empty_of_forall_notMem
    intro q hq
    rw [Finset.mem_Ioo] at hq
    omega
  rw [copies, hnone, Finset.filter_empty, Finset.card_empty]

/-- What is counted between two places is counted on both sides of a place between them. -/
theorem copies_split (hq : min o p < q ∧ q < max o p) :
    d.copies k c o p = d.copies k c o q +
      (if d.bracketContext q = k ∧ d.charAt? q = some c then 1 else 0) + d.copies k c q p := by
  have hbetween : Finset.Ioo (min o p) (max o p) =
      Insert.insert q (Finset.Ioo (min o q) (max o q) ∪ Finset.Ioo (min q p) (max q p)) := by
    ext r
    simp only [Finset.mem_insert, Finset.mem_union, Finset.mem_Ioo]
    omega
  have hq' : q ∉ Finset.Ioo (min o q) (max o q) ∪ Finset.Ioo (min q p) (max q p) := by
    simp only [Finset.mem_union, Finset.mem_Ioo]
    omega
  have hapart : Disjoint (Finset.Ioo (min o q) (max o q)) (Finset.Ioo (min q p) (max q p)) := by
    rw [Finset.disjoint_left]
    intro r hr hr'
    rw [Finset.mem_Ioo] at hr hr'
    omega
  have hsides := Finset.card_union_of_disjoint (hapart.mono (Finset.filter_subset (fun r =>
    d.bracketContext r = k ∧ d.charAt? r = some c) _) (Finset.filter_subset (fun r =>
    d.bracketContext r = k ∧ d.charAt? r = some c) _))
  rw [← Finset.filter_union] at hsides
  simp only [copies]
  rw [hbetween, Finset.filter_insert]
  split_ifs with hhit
  · rw [Finset.card_insert_of_notMem fun h => hq' (Finset.filter_subset _ _ h), hsides]
    omega
  · rw [hsides]
    omega

/-- One step more counts the place that was come to. -/
theorem copies_place (hn : n + 2 ≤ d.stepsToEdge o forward) :
    d.copies k c o (place o forward (n + 2)) = d.copies k c o (place o forward (n + 1)) +
      if d.bracketContext (place o forward (n + 1)) = k ∧
        d.charAt? (place o forward (n + 1)) = some c then 1 else 0 := by
  have hplaces : (min o (place o forward (n + 2)) < place o forward (n + 1) ∧
      place o forward (n + 1) < max o (place o forward (n + 2))) ∧
      max (place o forward (n + 1)) (place o forward (n + 2)) ≤
        min (place o forward (n + 1)) (place o forward (n + 2)) + 1 := by
    unfold stepsToEdge at hn
    unfold place
    cases forward <;> simp at hn ⊢ <;> omega
  rw [copies_split hplaces.1, copies_of_adjacent hplaces.2, Nat.add_zero]

/-- Even with the place itself there are no more partners than brackets to close. -/
theorem Partners.covered_through (h : d.Partners own partner forward o p)
    (hq : min o p < q ∧ q < max o p) :
    d.copies (d.bracketContext o) partner o q +
        (if d.bracketContext q = d.bracketContext o ∧ d.charAt? q = some partner then 1 else 0) ≤
      d.copies (d.bracketContext o) own o q +
        if d.bracketContext q = d.bracketContext o ∧ d.charAt? q = some own then 1 else 0 := by
  obtain ⟨n, hn, rfl⟩ := h.exists_place
  obtain ⟨m, hm, rfl⟩ := (mem_uIcc_place hn).1 (Finset.mem_uIcc.2 ⟨hq.1.le, hq.2.le⟩)
  have hm0 : m ≠ 0 := by
    rintro rfl
    rw [place_zero] at hq
    omega
  have hmn : m ≠ n + 1 := by
    rintro rfl
    have hout := hq.1.trans hq.2
    omega
  obtain ⟨i, rfl⟩ := Nat.exists_eq_succ_of_ne_zero hm0
  have hnext := h.covered (place o forward (i + 2)) ((mem_uIcc_place hn).2 ⟨i + 2, by omega, rfl⟩)
  rwa [copies_place (by omega), copies_place (by omega)] at hnext

/-- A bracket has one partner. -/
theorem Partners.eq (h : d.Partners own partner forward o p) (hne : own ≠ partner)
    (h' : d.Partners own partner forward o q) : p = q := by
  have hfirst {p q : Nat} (h : d.Partners own partner forward o p)
      (h' : d.Partners own partner forward o q) : ¬(min o q < p ∧ p < max o q) := by
    intro hp
    have hthrough := h'.covered_through hp
    rw [if_pos ⟨h.context, h.char⟩, if_neg, h.balanced] at hthrough
    · omega
    · rintro ⟨-, hown⟩
      rw [h.char, Option.some.injEq] at hown
      exact hne hown.symm
  have hpq := hfirst h h'
  have hqp := hfirst h' h
  have hahead := h.ahead
  have hahead' := h'.ahead
  cases forward <;> simp at hahead hahead' <;> omega

theorem Partners.dist_le_stepsToExit (h : d.Partners own partner forward o p) :
    o.dist p ≤ d.stepsToExit o forward := by
  obtain ⟨n, hn, rfl⟩ := h.exists_place
  rw [dist_place hn]
  refine lt_stepsToExit_iff.2 ⟨hn, fun m hm => ?_⟩
  exact h.within _ ((mem_uIcc_place hn).2 ⟨m, by omega, rfl⟩)

/-! The search -/

/-- After so many steps the search has met no partner, no edge and no place outside of the start's
classes, and it has as many brackets open as are not closed yet. -/
structure Searching (d : Document) (own partner : Char) (forward : Bool) (o n depth : Nat) :
    Prop where
  within : ∀ m ≤ n, (d.bracketContext o).within (d.bracketContext (place o forward m)) = true
  missed : ∀ m ≤ n, ¬d.Partners own partner forward o (place o forward m)
  covered : ∀ m ≤ n, m < d.stepsToEdge o forward →
    d.copies (d.bracketContext o) partner o (place o forward (m + 1)) ≤
      d.copies (d.bracketContext o) own o (place o forward (m + 1))
  depth : n < d.stepsToEdge o forward →
    d.copies (d.bracketContext o) partner o (place o forward (n + 1)) + depth =
      d.copies (d.bracketContext o) own o (place o forward (n + 1))

/-- What a search has to say: where the partner is, if it is near, and else whether the end of the
context or of the text is beyond the limit. -/
def Verdict (d : Document) (own partner : Char) (forward : Bool) (o limit : Nat)
    (r : BracketResult) : Prop :=
  (∃ p, r = .found o p ∧ d.Partners own partner forward o p ∧ o.dist p ≤ max 1 limit) ∨
    (r = BracketMatcher.verdict limit (d.stepsToExit o forward) ∧
      ∀ p, d.Partners own partner forward o p → max 1 limit < o.dist p)

theorem searching_start : d.Searching own partner forward o 0 0 := by
  have hnone (c : Char) : d.copies (d.bracketContext o) c o (place o forward 1) = 0 := by
    apply copies_of_adjacent
    unfold place
    cases forward with
    | true => simp
    | false =>
      simp only [Bool.false_eq_true, if_false]
      omega
  refine ⟨?_, ?_, ?_, ?_⟩
  · intro m hm
    obtain rfl : m = 0 := by omega
    rw [place_zero]
    exact (d.bracketContext o).within_refl
  · intro m hm h
    obtain rfl : m = 0 := by omega
    have hahead := h.ahead
    simp at hahead
  · intro m hm _
    obtain rfl : m = 0 := by omega
    rw [hnone, hnone]
  · intro _
    rw [hnone, hnone]

namespace Searching

variable {depth limit : Nat}

/-- A partner is further ahead. -/
theorem exists_later (hs : d.Searching own partner forward o n depth)
    (h : d.Partners own partner forward o p) :
    ∃ m, n < m ∧ m ≤ d.stepsToEdge o forward ∧ p = place o forward m := by
  obtain ⟨m, hm, rfl⟩ := h.exists_place
  refine ⟨m + 1, ?_, hm, rfl⟩
  by_contra hle
  exact hs.missed (m + 1) (by omega) h

theorem le_stepsToExit (hs : d.Searching own partner forward o n depth)
    (hn : n ≤ d.stepsToEdge o forward) : n ≤ d.stepsToExit o forward := by
  cases n with
  | zero => exact Nat.zero_le _
  | succ n => exact lt_stepsToExit_iff.2 ⟨hn, fun m hm => hs.within m (by omega)⟩

/-- The next place lacks a class of the start. -/
theorem exit (hs : d.Searching own partner forward o n depth) (hn : n < d.stepsToEdge o forward)
    (hout : (d.bracketContext o).within (d.bracketContext (place o forward (n + 1))) = false) :
    d.stepsToExit o forward = n + 1 ∧ ∀ p, ¬d.Partners own partner forward o p := by
  constructor
  · have hlater : n < d.stepsToExit o forward := lt_stepsToExit_iff.2 ⟨hn, hs.within⟩
    have hhere : ¬n + 1 < d.stepsToExit o forward := by
      intro h
      have hin := (lt_stepsToExit_iff.1 h).2 (n + 1) (Nat.le_refl _)
      rw [hout] at hin
      cases hin
    omega
  · intro p h
    obtain ⟨m, hlt, hm, rfl⟩ := hs.exists_later h
    have hin := h.within (place o forward (n + 1)) ((mem_uIcc_place hm).2 ⟨n + 1, hlt, rfl⟩)
    rw [hout] at hin
    cases hin

/-- The next place holds the partner exactly if it looks like it and no bracket is open. -/
theorem partners_iff (hs : d.Searching own partner forward o n depth)
    (hn : n < d.stepsToEdge o forward)
    (hin : (d.bracketContext o).within (d.bracketContext (place o forward (n + 1))) = true) :
    d.Partners own partner forward o (place o forward (n + 1)) ↔
      d.bracketContext (place o forward (n + 1)) = d.bracketContext o ∧
        d.charAt? (place o forward (n + 1)) = some partner ∧ depth = 0 := by
  have hdepth := hs.depth hn
  constructor
  · intro h
    have hbalanced := h.balanced
    exact ⟨h.context, h.char, by omega⟩
  · rintro ⟨hcontext, hchar, rfl⟩
    refine ⟨?_, ?_, hcontext, hchar, ?_, hdepth⟩
    · unfold stepsToEdge at hn
      unfold place
      cases forward with
      | true => simp
      | false => simp at hn ⊢; omega
    · intro q hq
      obtain ⟨m, hm, rfl⟩ := (mem_uIcc_place hn).1 hq
      rcases Nat.lt_or_ge n m with hlt | hle
      · obtain rfl : m = n + 1 := by omega
        exact hin
      · exact hs.within m hle
    · intro q hq
      obtain ⟨m, hm, rfl⟩ := (mem_uIcc_place hn).1 hq
      cases m with
      | zero =>
        rw [place_zero, copies_of_adjacent (by omega)]
        exact Nat.zero_le _
      | succ m => exact hs.covered m (by omega) (by omega)

/-- A place that is neither outside nor the partner is passed, and counted if it is a bracket of the
start's kind and context. -/
theorem step (hs : d.Searching own partner forward o n depth) (hne : own ≠ partner)
    (hn : n < d.stepsToEdge o forward)
    (hin : (d.bracketContext o).within (d.bracketContext (place o forward (n + 1))) = true)
    (hnot : ¬d.Partners own partner forward o (place o forward (n + 1))) :
    d.Searching own partner forward o (n + 1)
      (if d.bracketContext (place o forward (n + 1)) = d.bracketContext o then
        if d.charAt? (place o forward (n + 1)) = some partner then depth - 1
        else if d.charAt? (place o forward (n + 1)) = some own then depth + 1 else depth
      else depth) := by
  have hopen := hs.depth hn
  rw [hs.partners_iff hn hin] at hnot
  obtain ⟨depth', hdepth'⟩ : ∃ depth', depth' =
      if d.bracketContext (place o forward (n + 1)) = d.bracketContext o then
        if d.charAt? (place o forward (n + 1)) = some partner then depth - 1
        else if d.charAt? (place o forward (n + 1)) = some own then depth + 1 else depth
      else depth := ⟨_, rfl⟩
  have hcount (hn' : n + 1 < d.stepsToEdge o forward) :
      d.copies (d.bracketContext o) partner o (place o forward (n + 2)) + depth' =
        d.copies (d.bracketContext o) own o (place o forward (n + 2)) := by
    rw [copies_place hn', copies_place hn', hdepth']
    by_cases hcontext : d.bracketContext (place o forward (n + 1)) = d.bracketContext o
    · by_cases hpartner : d.charAt? (place o forward (n + 1)) = some partner
      · have hclosed : depth ≠ 0 := fun h => hnot ⟨hcontext, hpartner, h⟩
        have hother : some partner ≠ some own := fun h => hne (Option.some.inj h).symm
        simp only [hcontext, hpartner, hother, and_self, and_false, if_true, if_false]
        omega
      · by_cases hown : d.charAt? (place o forward (n + 1)) = some own
        · have hother : some own ≠ some partner := fun h => hne (Option.some.inj h)
          simp only [hcontext, hown, hother, and_self, and_false, if_true, if_false]
          omega
        · simp only [hpartner, hown, and_false, if_false, ite_self]
          omega
    · simp only [hcontext, false_and, if_false]
      omega
  rw [← hdepth']
  refine ⟨?_, ?_, ?_, hcount⟩
  · intro m hm
    rcases Nat.lt_or_ge n m with hlt | hle
    · obtain rfl : m = n + 1 := by omega
      exact hin
    · exact hs.within m hle
  · intro m hm
    rcases Nat.lt_or_ge n m with hlt | hle
    · obtain rfl : m = n + 1 := by omega
      rwa [hs.partners_iff hn hin]
    · exact hs.missed m hle
  · intro m hm hm'
    rcases Nat.lt_or_ge n m with hlt | hle
    · obtain rfl : m = n + 1 := by omega
      exact Nat.le.intro (hcount hm')
    · exact hs.covered m hle hm'

end Searching
end Document

namespace BracketMatcher

open Document

variable {d : Document} {c own partner : Char} {forward : Bool} {o n p depth limit : Nat}
  {m m' : BracketMatcher}

/-- The places on the way of a search, step by step. -/
theorem path_eq (ho : o < d.length) : path d.text o forward =
    (List.range' 1 (d.stepsToEdge o forward)).map fun n =>
      (place o forward n, d.charAt? (place o forward n)) := by
  unfold length at ho
  unfold path stepsToEdge place length charAt?
  cases forward with
  | true =>
    simp only [if_true]
    apply List.ext_getElem
    · simp
      omega
    · intro i hi hi'
      simp only [List.length_zip, List.length_range', List.length_append, List.length_map,
        List.length_drop, List.length_singleton] at hi
      simp only [List.getElem_zip, List.getElem_range', List.getElem_map, List.getElem_append,
        List.length_map, List.length_drop, List.getElem_drop, Nat.one_mul, Nat.add_assoc]
      split_ifs with hlast
      · rw [List.getElem?_eq_getElem]
      · rw [List.getElem?_eq_none (by omega)]
        simp
  | false =>
    simp only [Bool.false_eq_true, if_false]
    apply List.ext_getElem
    · simp
      omega
    · intro i hi hi'
      simp only [List.length_reverse, List.length_zip, List.length_range, List.length_map,
        List.length_take] at hi
      simp only [List.getElem_reverse, List.getElem_zip, List.getElem_range, List.getElem_map,
        List.getElem_range', List.getElem_take, List.length_zip, List.length_range,
        List.length_map, List.length_take, Nat.one_mul]
      have hplace : min o (min o d.text.length) - 1 - i = o - (1 + i) := by omega
      rw [List.getElem?_eq_getElem (by omega)]
      simp only [hplace]

/-- The walk is right from any place of the search on. -/
theorem walk_verdict (hs : d.Searching own partner forward o n depth) (hne : own ≠ partner)
    (hlimit : n = 0 ∨ n < limit) {k : Nat} (hk : n + k = d.stepsToEdge o forward) :
    d.Verdict own partner forward o limit
      (walk o own partner (d.bracketContext o) limit d.bracketContext
        ((List.range' (n + 1) k).map fun i => (place o forward i, d.charAt? (place o forward i)))
        depth n) := by
  induction k generalizing n depth with
  | zero =>
    have hexit : d.stepsToExit o forward = n := by
      have hle := hs.le_stepsToExit (by omega)
      have hge : d.stepsToExit o forward ≤ d.stepsToEdge o forward := stepsToExit_le
      omega
    refine .inr ⟨by rw [hexit]; rfl, ?_⟩
    intro p h
    obtain ⟨i, hlt, hle, -⟩ := hs.exists_later h
    omega
  | succ k ih =>
    have hn : n < d.stepsToEdge o forward := by omega
    rw [List.range'_succ, List.map_cons, walk]
    simp only
    split
    · rename_i hout
      rw [Bool.not_eq_true'] at hout
      obtain ⟨hexit, hnone⟩ := hs.exit hn hout
      exact .inr ⟨by rw [hexit], fun p h => absurd h (hnone p)⟩
    · rename_i hin
      rw [Bool.not_eq_true', Bool.not_eq_false] at hin
      split
      · rename_i hfound
        refine .inl ⟨_, rfl, (hs.partners_iff hn hin).2 hfound, ?_⟩
        rw [dist_place hn]
        omega
      · rename_i hmissed
        have hpassed := hs.step hne hn hin (mt (hs.partners_iff hn hin).1 hmissed)
        split
        · have hexit := hpassed.le_stepsToExit hn
          refine .inr ⟨by rw [verdict, if_pos (by omega)], ?_⟩
          intro p h
          obtain ⟨i, hlt, hle, rfl⟩ := hpassed.exists_later h
          rw [dist_place hle]
          omega
        · exact ih hpassed (.inr (by omega)) (by omega)

theorem findAt_of_bracket (hc : d.charAt? o = some c)
    (hpair : bracketPair? c = some (partner, forward)) :
    d.Verdict c partner forward o m.maxChars (m.findAt d o) := by
  have ho : o < d.length := (List.getElem?_eq_some_iff.1 hc).1
  rw [findAt, hc]
  simp only [hpair]
  rw [path_eq ho]
  exact walk_verdict searching_start (bracketPair?_partner hpair).2 (.inl rfl) (Nat.zero_add _)

/-- A search finds the partner of a bracket exactly if it is no further away than the search
goes. -/
theorem findAt_eq_found_iff (hc : d.charAt? o = some c)
    (hpair : bracketPair? c = some (partner, forward)) {b : Nat} :
    m.findAt d o = .found b p ↔
      b = o ∧ d.Partners c partner forward o p ∧ o.dist p ≤ m.visits := by
  have hne := (bracketPair?_partner hpair).2
  rcases findAt_of_bracket (m := m) hc hpair with ⟨q, hfound, h, hnear⟩ | ⟨hmissed, hfar⟩
  · rw [hfound, BracketResult.found.injEq]
    constructor
    · rintro ⟨rfl, rfl⟩
      exact ⟨rfl, h, hnear⟩
    · rintro ⟨rfl, h', -⟩
      exact ⟨rfl, h.eq hne h'⟩
  · rw [hmissed, verdict]
    constructor
    · intro hfound
      split at hfound <;> cases hfound
    · rintro ⟨-, h, hnear⟩
      have := hfar p h
      unfold visits at hnear
      omega

/-- What is found belongs to a bracket. -/
theorem exists_partners_of_found {b : Nat} (h : m.findAt d o = .found b p) :
    ∃ c partner forward, (d.charAt? o = some c ∧ bracketPair? c = some (partner, forward)) ∧
      b = o ∧ d.Partners c partner forward o p ∧ o.dist p ≤ m.visits := by
  cases hc : d.charAt? o with
  | none =>
    rw [findAt, hc] at h
    cases h
  | some c =>
    cases hpair : bracketPair? c with
    | none =>
      rw [findAt, hc] at h
      simp only [hpair] at h
      cases h
    | some pair =>
      exact ⟨c, pair.1, pair.2, ⟨rfl, hpair⟩, (findAt_eq_found_iff hc hpair).1 h⟩

/-- The partner of a bracket is found where the text pairs them, if that is near enough. Where there
is none so near, the search tells whether it could have gone on beyond its limit. A search that goes
further finds the same unless this one gave up. -/
theorem findAt_nearest (hc : d.charAt? o = some c)
    (hpair : bracketPair? c = some (partner, forward)) (hm : 1 ≤ m.maxChars) :
    (∀ b p, m.findAt d o = .found b p ↔
      b = o ∧ (d.Partners c partner forward o p ∧ o.dist p ≤ m.maxChars) ∧
        ∀ q, d.Partners c partner forward o q ∧ o.dist q ≤ m.maxChars → o.dist p ≤ o.dist q) ∧
      ((¬∃ p, d.Partners c partner forward o p ∧ o.dist p ≤ m.maxChars) →
        m.findAt d o =
          if m.maxChars ≤ d.stepsToExit o forward then .outOfRange else .notFound) ∧
      ∀ m' : BracketMatcher, m.maxChars ≤ m'.maxChars → m.findAt d o ≠ .outOfRange →
        m'.findAt d o = m.findAt d o := by
  have hvisits : m.visits = m.maxChars := Nat.max_eq_right hm
  refine ⟨?_, ?_, ?_⟩
  · intro b p
    rw [findAt_eq_found_iff hc hpair, hvisits]
    constructor
    · rintro ⟨hb, h, hnear⟩
      refine ⟨hb, ⟨h, hnear⟩, ?_⟩
      rintro q ⟨hq, -⟩
      rw [h.eq (bracketPair?_partner hpair).2 hq]
    · rintro ⟨hb, ⟨h, hnear⟩, -⟩
      exact ⟨hb, h, hnear⟩
  · intro hnone
    rcases findAt_of_bracket (m := m) hc hpair with ⟨p, -, h, hnear⟩ | ⟨hmissed, -⟩
    · exact absurd ⟨p, h, hnear.trans_eq hvisits⟩ hnone
    · exact hmissed
  · intro m' hlimit hgave
    rcases findAt_of_bracket (m := m) hc hpair with ⟨p, hfound, h, hnear⟩ | ⟨hmissed, -⟩
    · rw [hfound, findAt_eq_found_iff hc hpair]
      refine ⟨rfl, h, ?_⟩
      unfold visits
      omega
    · have hexit : d.stepsToExit o forward < m.maxChars := by
        by_contra hle
        rw [hmissed, verdict, if_pos (by omega)] at hgave
        exact hgave rfl
      rcases findAt_of_bracket (m := m') hc hpair with ⟨p, -, h, -⟩ | ⟨hmissed', -⟩
      · -- a partner within the context would have been near enough
        have hfound := (findAt_eq_found_iff (m := m) (b := o) hc hpair).2
          ⟨rfl, h, by have := h.dist_le_stepsToExit; omega⟩
        rw [hmissed, verdict, if_neg (by omega)] at hfound
        cases hfound
      · rw [hmissed, hmissed', verdict, verdict, if_neg (by omega), if_neg (by omega)]

/-- A bracket around a string with a bracket in it. -/
def quoted : Document := (Document.new 0 ['(', '"', '(', '"', ')']).applyClass "string" 1 4

theorem findAt_nearest_quoted :
    (quoted.charAt? 0 = some '(' ∧ bracketPair? '(' = some (')', true) ∧
      1 ≤ (BracketMatcher.mk 4).maxChars) ∧
    quoted.Partners '(' ')' true 0 4 ∧
    ∀ m' : BracketMatcher, 4 ≤ m'.maxChars → m'.findAt quoted 0 = .found 0 4 := by
  have hc : quoted.charAt? 0 = some '(' := by decide +kernel
  have hfound : (BracketMatcher.mk 4).findAt quoted 0 = .found 0 4 := by decide +kernel
  obtain ⟨hiff, -, hgrows⟩ := findAt_nearest (m := ⟨4⟩) hc rfl (by decide)
  refine ⟨⟨hc, rfl, by decide⟩, ((hiff 0 4).1 hfound).2.1.1, ?_⟩
  intro m' hlimit
  rw [hgrows m' hlimit (by rw [hfound]; exact BracketResult.noConfusion), hfound]

end BracketMatcher
end CodeBuffer
