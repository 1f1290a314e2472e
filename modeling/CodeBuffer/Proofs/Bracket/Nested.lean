import Mathlib.Data.Set.Insert
import CodeBuffer.Proofs.Bracket.Partner

namespace CodeBuffer
namespace Document

variable {d : Document} {own partner : Char} {forward : Bool} {o o' p p' : Nat}

/-- The partner of a bracket has the bracket for its partner. What is balanced from one side, with
never too many of the one bracket, has from the other side never too many of the other. -/
theorem Partners.reverse (h : d.Partners own partner forward o p) (hown : d.charAt? o = some own) :
    d.Partners partner own (!forward) p o := by
  have hcontext := h.context
  refine ⟨?_, ?_, hcontext.symm, hown, ?_, ?_⟩
  · have hahead := h.ahead
    cases forward <;> simpa using hahead
  · intro q hq
    rw [hcontext]
    exact h.within q (Finset.uIcc_comm p o ▸ hq)
  · intro q hq
    have hbalanced := h.balanced
    rw [Finset.mem_uIcc] at hq
    rw [hcontext, d.copies_comm _ own, d.copies_comm _ partner]
    by_cases hqp : q = p
    · rw [hqp, copies_of_adjacent (by omega)]
      exact Nat.zero_le _
    · by_cases hqo : q = o
      · rw [hqo, hbalanced]
      · have hq' : min o p < q ∧ q < max o p := by omega
        have hthrough := h.covered_through hq'
        rw [copies_split (c := own) hq', copies_split (c := partner) hq'] at hbalanced
        omega
  · rw [hcontext, d.copies_comm _ own, d.copies_comm _ partner, h.balanced]

/-- Two brackets of one kind, the first of which closes with the second. -/
structure Paired (d : Document) (opener closer : Char) (lo hi : Nat) : Prop where
  kind : bracketPair? opener = some (closer, true)
  opens : d.charAt? lo = some opener
  partners : d.Partners opener closer true lo hi

namespace Paired

variable {opener closer opener' closer' : Char} {lo hi lo' hi' : Nat}

theorem ne (h : d.Paired opener closer lo hi) : opener ≠ closer :=
  (bracketPair?_partner h.kind).2

/-- A bracket within a pair and of its kind does not close outside of it. -/
theorem not_crossing (h : d.Paired opener closer lo hi) (h' : d.Paired opener closer lo' hi') :
    ¬(lo < lo' ∧ lo' < hi ∧ hi < hi') := by
  intro hcross
  obtain ⟨hlo, hmid, hhi⟩ := hcross
  -- each of the pairs has an end of the other one in it, so their contexts are the same
  have hcontext : d.bracketContext lo' = d.bracketContext lo := by
    have hin := h.partners.within lo' (Finset.mem_uIcc.2 ⟨by omega, by omega⟩)
    have hin' := h'.partners.within hi (Finset.mem_uIcc.2 ⟨by omega, by omega⟩)
    rw [h.partners.context] at hin'
    exact (BracketContext.within_antisymm hin hin').symm
  have hmid' : min lo hi < lo' ∧ lo' < max lo hi := by omega
  have hbalanced := h.partners.balanced
  have hbefore := h.partners.covered lo' (Finset.mem_uIcc.2 ⟨by omega, by omega⟩)
  have hbehind := h'.partners.covered hi (Finset.mem_uIcc.2 ⟨by omega, by omega⟩)
  have hother : some opener ≠ some closer := fun heq => h.ne (Option.some.inj heq)
  rw [copies_split (c := opener) hmid', copies_split (c := closer) hmid'] at hbalanced
  simp only [hcontext, h'.opens, hother, and_self, and_false, if_true, if_false] at hbalanced
  rw [hcontext] at hbehind
  omega

/-- Two pairs with the same characters open with the same of them. -/
theorem same_kind (h : d.Paired opener closer lo hi) (h' : d.Paired opener' closer' lo' hi')
    (hsame : ({some opener, some closer} : Set (Option Char)) = {some opener', some closer'}) :
    opener = opener' ∧ closer = closer' := by
  have hkind := h.kind
  rcases Set.pair_eq_pair_iff.1 hsame with ⟨hopen, hclose⟩ | ⟨hopen, hclose⟩
  · exact ⟨Option.some.inj hopen, Option.some.inj hclose⟩
  · rw [Option.some.inj hopen, (bracketPair?_partner h'.kind).1] at hkind
    cases hkind

/-- Two pairs of one kind that share an end are the same. -/
theorem eq_of_end (h : d.Paired opener closer lo hi) (h' : d.Paired opener closer lo' hi')
    (hend : lo = lo' ∨ hi = hi') : lo = lo' ∧ hi = hi' := by
  rcases hend with rfl | rfl
  · exact ⟨rfl, h.partners.eq h.ne h'.partners⟩
  · have hback := h.partners.reverse h.opens
    have hback' := h'.partners.reverse h'.opens
    exact ⟨hback.eq h.ne.symm hback', rfl⟩

/-- A bracket that opens is none that closes. -/
theorem lo_ne_hi (h : d.Paired opener closer lo hi) (h' : d.Paired opener closer lo' hi') :
    lo ≠ hi' := by
  intro heq
  have hchar := h.opens
  rw [heq, h'.partners.char] at hchar
  exact h.ne (Option.some.inj hchar).symm

end Paired

/-- The spans of two pairs are the same, or apart, or one of them is within the other. -/
def SpansNest (i j i' j' : Nat) : Prop :=
  (min i j = min i' j' ∧ max i j = max i' j') ∨
    (max i j < min i' j' ∨ max i' j' < min i j) ∨
    (min i j < min i' j' ∧ max i' j' < max i j) ∨ (min i' j' < min i j ∧ max i j < max i' j')

end Document

namespace BracketMatcher

open Document

variable {d : Document} {m m' : BracketMatcher} {b i j i' j' : Nat}

/-- A search from what was found comes back. -/
theorem found_symm (h : m.findAt d i = .found b j) : b = i ∧ m.findAt d j = .found j i := by
  obtain ⟨c, partner, forward, ⟨hc, hpair⟩, rfl, hpartners, hnear⟩ := exists_partners_of_found h
  refine ⟨rfl, ?_⟩
  rw [findAt_eq_found_iff hpartners.char (bracketPair?_partner hpair).1]
  exact ⟨rfl, hpartners.reverse hc, (Nat.dist_comm j b).trans_le hnear⟩

/-- What is found is a pair, seen from one of its ends. -/
theorem exists_paired (h : m.findAt d i = .found b j) :
    ∃ opener closer, d.Paired opener closer (min i j) (max i j) ∧
      ({d.charAt? i, d.charAt? j} : Set (Option Char)) = {some opener, some closer} := by
  obtain ⟨c, partner, forward, ⟨hc, hpair⟩, -, hpartners, -⟩ := exists_partners_of_found h
  have hahead := hpartners.ahead
  rw [hc, hpartners.char]
  cases forward with
  | true =>
    simp only [if_true] at hahead
    refine ⟨c, partner, ?_, rfl⟩
    rw [Nat.min_eq_left hahead.le, Nat.max_eq_right hahead.le]
    exact ⟨hpair, hc, hpartners⟩
  | false =>
    simp only [Bool.false_eq_true, if_false] at hahead
    refine ⟨partner, c, ?_, Set.pair_comm _ _⟩
    rw [Nat.min_eq_right hahead.le, Nat.max_eq_left hahead.le]
    exact ⟨(bracketPair?_partner hpair).1, hpartners.char, hpartners.reverse hc⟩

/-- Brackets find each other, so that none has two partners, and the pairs of one kind of bracket do
not cross, whatever their contexts and however far the searches went. -/
theorem findAt_pairs_nest (d : Document) (m m' : BracketMatcher) :
    (∀ b i j, m.findAt d i = .found b j → b = i ∧ m.findAt d j = .found j i ∧
      ∀ i', m.findAt d i' = .found i' j → i' = i) ∧
      ∀ i j i' j', m.findAt d i = .found i j → m'.findAt d i' = .found i' j' →
        ({d.charAt? i, d.charAt? j} : Set (Option Char)) = {d.charAt? i', d.charAt? j'} →
          SpansNest i j i' j' := by
  constructor
  · intro b i j h
    obtain ⟨hb, hback⟩ := found_symm h
    refine ⟨hb, hback, ?_⟩
    intro i' h'
    have hback' := (found_symm h').2
    rw [hback, BracketResult.found.injEq] at hback'
    exact hback'.2.symm
  · intro i j i' j' h h' hsame
    obtain ⟨opener, closer, hpaired, hchars⟩ := exists_paired h
    obtain ⟨opener', closer', hpaired', hchars'⟩ := exists_paired h'
    rw [hchars, hchars'] at hsame
    obtain ⟨rfl, rfl⟩ := hpaired.same_kind hpaired' hsame
    have hcross := hpaired.not_crossing hpaired'
    have hcross' := hpaired'.not_crossing hpaired
    have hend := hpaired.eq_of_end hpaired'
    have htouch := hpaired.lo_ne_hi hpaired'
    have htouch' := hpaired'.lo_ne_hi hpaired
    unfold SpansNest
    omega

/-- Brackets around a string with brackets in it. -/
def quotedPair : Document :=
  (Document.new 0 ['(', '"', '(', ')', '"', ')']).applyClass "string" 1 5

theorem findAt_pairs_nest_quotedPair :
    ((BracketMatcher.mk 5).findAt quotedPair 0 = .found 0 5 ∧
      (BracketMatcher.mk 0).findAt quotedPair 3 = .found 3 2) ∧
    (BracketMatcher.mk 5).findAt quotedPair 5 = .found 5 0 ∧ SpansNest 0 5 3 2 := by
  have houter : (BracketMatcher.mk 5).findAt quotedPair 0 = .found 0 5 := by decide +kernel
  have hinner : (BracketMatcher.mk 0).findAt quotedPair 3 = .found 3 2 := by decide +kernel
  have hkind : ({quotedPair.charAt? 0, quotedPair.charAt? 5} : Set (Option Char)) =
      {quotedPair.charAt? 3, quotedPair.charAt? 2} := by
    rw [Set.pair_comm]
    rfl
  obtain ⟨hsymm, hnest⟩ := findAt_pairs_nest quotedPair ⟨5⟩ ⟨0⟩
  exact ⟨⟨houter, hinner⟩, (hsymm 0 0 5 houter).2.1, hnest 0 5 3 2 houter hinner hkind⟩

end BracketMatcher
end CodeBuffer
