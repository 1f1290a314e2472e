import Mathlib.Order.Bounds.Basic
import Mathlib.Order.Interval.Set.Basic
import CodeBuffer.Region.Lemmas

namespace CodeBuffer
namespace Region

variable {r : Region} {i j : Interval} {is : List Interval} {S : Set Nat} {s e p pos len : Nat}

/-- Two runs that overlap or touch are one. -/
theorem eq_of_touches (h : Separated is) (hi : i ∈ is) (hj : j ∈ is) (hij : i.start ≤ j.stop)
    (hji : j.start ≤ i.stop) : i = j := by
  induction is with
  | nil => cases hi
  | cons k is ih =>
    obtain ⟨-, hgap, hrest⟩ := separated_cons.1 h
    rcases List.mem_cons.1 hi with hik | hi <;> rcases List.mem_cons.1 hj with hjk | hj
    · rw [hik, hjk]
    · have := hgap j hj
      subst hik
      omega
    · have := hgap i hi
      subst hjk
      omega
    · exact ih hrest hi hj

/-- The first run begins before all others, and behind it there is a gap. -/
theorem Covered.head (h : Separated (i :: is)) (hp : Covered (i :: is) p) :
    i.start ≤ p ∧ p ≠ i.stop ∧ (i.stop ≤ p → Covered is p) := by
  obtain ⟨hi, hgap, -⟩ := separated_cons.1 h
  rcases covered_cons.1 hp with hin | ⟨j, hj, hin⟩
  · exact ⟨hin.1, by omega, fun hle => absurd hle (by omega)⟩
  · have := hgap j hj
    exact ⟨by omega, by omega, fun _ => ⟨j, hj, hin⟩⟩

theorem separated_unique {js : List Interval} (h : Separated is) (h' : Separated js)
    (hsame : ∀ p, Covered is p ↔ Covered js p) : is = js := by
  induction is generalizing js with
  | nil =>
    cases js with
    | nil => rfl
    | cons j js =>
      have hj := (separated_cons.1 h').1
      exact absurd ((hsame j.start).2 (covered_cons.2 (.inl ⟨Nat.le_refl _, hj⟩))) covered_nil
  | cons i is ih =>
    have hi := (separated_cons.1 h).1
    have hfirst : Covered (i :: is) i.start := covered_cons.2 (.inl ⟨Nat.le_refl i.start, hi⟩)
    cases js with
    | nil => exact absurd ((hsame i.start).1 hfirst) covered_nil
    | cons j js =>
      have hj := (separated_cons.1 h').1
      have hfirst' : Covered (j :: js) j.start :=
        covered_cons.2 (.inl ⟨Nat.le_refl j.start, hj⟩)
      have hstart : i.start = j.start :=
        Nat.le_antisymm (((hsame _).2 hfirst').head h).1 (((hsame _).1 hfirst).head h').1
      -- the end of the shorter one is in the longer one
      have hstop : i.stop = j.stop := by
        rcases Nat.lt_trichotomy i.stop j.stop with hlt | heq | hlt
        · have hin : Covered (j :: js) i.stop := covered_cons.2 (.inl ⟨by omega, hlt⟩)
          exact absurd rfl (((hsame _).2 hin).head h).2.1
        · exact heq
        · have hin : Covered (i :: is) j.stop := covered_cons.2 (.inl ⟨by omega, hlt⟩)
          exact absurd rfl (((hsame _).1 hin).head h').2.1
      obtain rfl : i = j := by
        obtain ⟨a, b⟩ := i
        obtain ⟨c, d⟩ := j
        exact congrArg₂ Interval.mk hstart hstop
      obtain ⟨-, hgap, hrest⟩ := separated_cons.1 h
      obtain ⟨-, hgap', hrest'⟩ := separated_cons.1 h'
      refine congrArg (i :: ·) (ih hrest hrest' fun p => ⟨fun hp => ?_, fun hp => ?_⟩)
      · obtain ⟨k, hk, hin⟩ := hp
        have := hgap k hk
        exact (((hsame p).1 (covered_cons.2 (.inr ⟨k, hk, hin⟩))).head h').2.2 (by omega)
      · obtain ⟨k, hk, hin⟩ := hp
        have := hgap' k hk
        exact (((hsame p).2 (covered_cons.2 (.inr ⟨k, hk, hin⟩))).head h).2.2 (by omega)

/-- A region is told by its offsets. -/
theorem eq_of_contains {r' : Region} (h : r.WellFormed) (h' : r'.WellFormed)
    (hsame : ∀ p, r.contains p = true ↔ r'.contains p = true) : r = r' := by
  obtain ⟨is⟩ := r
  obtain ⟨js⟩ := r'
  refine congrArg Region.mk (separated_unique h h' fun p => ?_)
  have hp := hsame p
  rwa [contains_iff_covered, contains_iff_covered] at hp

/-- A run covers a range as soon as the region holds all offsets of it. -/
theorem covers_iff (h : r.WellFormed) :
    r.covers s e = true ↔ ∀ p, s ≤ p → p < e → r.contains p = true := by
  simp only [covers, Bool.or_eq_true, Bool.and_eq_true, decide_eq_true_eq, List.any_eq_true]
  constructor
  · rintro (hle | ⟨i, hi, his, hie⟩) p hs he
    · omega
    · exact contains_iff.2 ⟨i, hi, by omega, by omega⟩
  · intro hall
    by_cases hle : e ≤ s
    · exact .inl hle
    obtain ⟨i, hi, his, hsi⟩ := contains_iff.1 (hall s (Nat.le_refl s) (by omega))
    refine .inr ⟨i, hi, his, ?_⟩
    -- the first offset behind the run would be in a run that touches it
    by_contra hshort
    obtain ⟨j, hj, hjs, hij⟩ := contains_iff.1 (hall i.stop (by omega) (by omega))
    obtain rfl := eq_of_touches h hi hj (by omega) hjs
    omega

/-- Cells that are inserted belong to the region where both of their neighbours do. -/
theorem contains_shiftForInsertion (h : r.WellFormed) :
    (r.shiftForInsertion pos len).contains p = true ↔
      (p < pos ∧ r.contains p = true) ∨ (pos + len ≤ p ∧ r.contains (p - len) = true) ∨
        (pos ≤ p ∧ p < pos + len ∧ 0 < pos ∧ r.contains (pos - 1) = true ∧
          r.contains pos = true) := by
  unfold shiftForInsertion
  split
  · rename_i hzero
    subst hzero
    rw [Nat.add_zero, Nat.sub_zero]
    by_cases hp : p < pos
    · simp [hp, show ¬pos ≤ p by omega]
    · simp [show pos ≤ p by omega, show ¬p < pos by omega]
  · simp only [contains_iff, List.mem_map]
    constructor
    · rintro ⟨_, ⟨i, hi, rfl⟩, hp⟩
      unfold afterInsertion at hp
      split at hp
      · exact .inl ⟨by omega, i, hi, hp⟩
      · split at hp
        · exact .inr (.inl ⟨by simp only at hp; omega, i, hi, by simp only at hp; omega⟩)
        · simp only at hp
          by_cases hbefore : p < pos
          · exact .inl ⟨hbefore, i, hi, by omega⟩
          · by_cases hbehind : pos + len ≤ p
            · exact .inr (.inl ⟨hbehind, i, hi, by omega⟩)
            · exact .inr (.inr ⟨by omega, by omega, by omega, ⟨i, hi, by omega⟩, i, hi, by omega⟩)
    · rintro (⟨hp, i, hi, hip⟩ | ⟨hp, i, hi, hip⟩ | ⟨hlo, hhi, hpos, ⟨i, hi, hip⟩, j, hj, hjp⟩)
      · refine ⟨_, ⟨i, hi, rfl⟩, ?_⟩
        unfold afterInsertion
        split
        · exact hip
        · split <;> simp only <;> omega
      · refine ⟨_, ⟨i, hi, rfl⟩, ?_⟩
        unfold afterInsertion
        split
        · omega
        · split <;> simp only <;> omega
      · obtain rfl := eq_of_touches h hi hj (by omega) (by omega)
        refine ⟨_, ⟨i, hi, rfl⟩, ?_⟩
        unfold afterInsertion
        rw [if_neg (by omega), if_neg (by omega)]
        simp only
        omega

/-- An offset lies before the place of another one after a deletion as it did before. -/
theorem afterDeletion_le_iff (h : s < e) {o : Nat} :
    afterDeletion s e o ≤ p ↔ o ≤ if p < s then p else p + (e - s) := by
  unfold afterDeletion
  split
  · split <;> omega
  · split <;> split <;> omega

theorem lt_afterDeletion_iff (h : s < e) {o : Nat} :
    p < afterDeletion s e o ↔ (if p < s then p else p + (e - s)) < o := by
  rw [← Nat.not_le, afterDeletion_le_iff h, Nat.not_le]

/-- What lies behind a deleted range moves to its start. -/
theorem contains_shiftForDeletion :
    (r.shiftForDeletion s e).contains p = true ↔
      (p < s ∧ r.contains p = true) ∨ (s ≤ p ∧ r.contains (p + (e - s)) = true) := by
  unfold shiftForDeletion
  split
  · rename_i hle
    rw [Nat.sub_eq_zero_of_le hle, Nat.add_zero]
    by_cases hp : p < s
    · simp [hp, show ¬s ≤ p by omega]
    · simp [show s ≤ p by omega, show ¬p < s by omega]
  · rename_i hlt
    rw [contains_ofList]
    simp only [Covered, List.mem_map, exists_exists_and_eq_and, contains_iff,
      afterDeletion_le_iff (Nat.lt_of_not_le hlt), lt_afterDeletion_iff (Nat.lt_of_not_le hlt)]
    by_cases hp : p < s
    · simp [hp, show ¬s ≤ p by omega]
    · simp [hp, show s ≤ p by omega]

/-- A region of runs in order holds a set of offsets, and all that is asked of it is answered by the
set. -/
structure Represents (r : Region) (S : Set Nat) : Prop where
  wellFormed : r.WellFormed
  contains : ∀ p, r.contains p = true ↔ p ∈ S
  covers : ∀ s e, r.covers s e = true ↔ Set.Ico s e ⊆ S
  intersect : ∀ s e, (r.intersect s e).WellFormed ∧
    ∀ p, (r.intersect s e).contains p = true ↔ p ∈ S ∩ Set.Ico s e
  bounds : match r.bounds? with
    | none => S = ∅
    | some b => IsLeast S b.start ∧ b.start < b.stop ∧ IsGreatest S (b.stop - 1)

theorem bounds?_of_contains (h : r.WellFormed) (hS : ∀ p, r.contains p = true ↔ p ∈ S) :
    match r.bounds? with
    | none => S = ∅
    | some b => IsLeast S b.start ∧ b.start < b.stop ∧ IsGreatest S (b.stop - 1) := by
  obtain ⟨is⟩ := r
  rcases List.eq_nil_or_concat is with rfl | ⟨before, last, rfl⟩
  · exact Set.eq_empty_iff_forall_notMem.2 fun p hp => by
      have := (hS p).2 hp
      simp [Region.contains] at this
  rw [List.concat_eq_append] at h hS ⊢
  obtain ⟨first, behind, hfirst⟩ : ∃ first behind, before ++ [last] = first :: behind :=
    List.exists_cons_of_ne_nil (by simp)
  have hbounds : bounds? ⟨before ++ [last]⟩ = some ⟨first.start, last.stop⟩ := by
    have hhead : (before ++ [last]).head? = some first := by rw [hfirst, List.head?_cons]
    simp only [bounds?, hhead, List.getLast?_concat]
  have hgap : ∀ i ∈ before ++ [last], i = first ∨ first.stop < i.start := by
    intro i hi
    rw [hfirst] at hi
    have hsep : Separated (first :: behind) := hfirst ▸ h
    rcases List.mem_cons.1 hi with rfl | hi
    · exact .inl rfl
    · exact .inr ((separated_cons.1 hsep).2.1 i hi)
  have hgap' : ∀ i ∈ before ++ [last], i = last ∨ i.stop < last.start := by
    intro i hi
    rcases List.mem_append.1 hi with hi | hi
    · exact .inr ((List.pairwise_append.1 h.2).2.2 i hi last (by simp))
    · exact .inl (List.mem_singleton.1 hi)
  have hne := h.1
  have hmemf : first ∈ before ++ [last] := by simp [hfirst]
  have hmeml : last ∈ before ++ [last] := by simp
  have hf := hne first hmemf
  have hl := hne last hmeml
  rw [hbounds]
  refine ⟨⟨?_, ?_⟩, ?_, ?_, ?_⟩
  · exact (hS _).1 (contains_iff.2 ⟨first, hmemf, Nat.le_refl _, hf⟩)
  · intro p hp
    obtain ⟨i, hi, hip⟩ := contains_iff.1 ((hS p).2 hp)
    rcases hgap i hi with rfl | hlt <;> dsimp only <;> omega
  · rcases hgap last hmeml with heq | hlt
    · rw [heq] at hl ⊢
      exact hf
    · dsimp only
      omega
  · exact (hS _).1 (contains_iff.2 ⟨last, hmeml, by dsimp only; omega, by dsimp only; omega⟩)
  · intro p hp
    obtain ⟨i, hi, hip⟩ := contains_iff.1 ((hS p).2 hp)
    have := hne i hi
    rcases hgap' i hi with rfl | hlt <;> dsimp only <;> omega

theorem represents_of_contains (h : r.WellFormed) (hS : ∀ p, r.contains p = true ↔ p ∈ S) :
    r.Represents S := by
  refine ⟨h, hS, fun s e => ?_, fun s e => ⟨wellFormed_intersect h s e, fun p => ?_⟩,
    bounds?_of_contains h hS⟩
  · rw [covers_iff h]
    exact ⟨fun hall p hp => (hS p).1 (hall p hp.1 hp.2),
      fun hall p hs he => (hS p).2 (hall ⟨hs, he⟩)⟩
  · rw [contains_intersect, hS]
    rfl

/-- What is done to a region. -/
inductive Change where
  | add (start stop : Nat)
  | subtract (start stop : Nat)
  | clear
  | insertion (pos len : Nat)
  | deletion (start stop : Nat)
  deriving DecidableEq, Repr

/-- An insertion that brings a run beyond the last position is refused. -/
def change (r : Region) : Change → Except Fault Region
  | .add s e => .ok (r.add s e)
  | .subtract s e => .ok (r.subtract s e)
  | .clear => .ok .empty
  | .insertion pos len => r.shiftForInsertion? pos len
  | .deletion s e => .ok (r.shiftForDeletion s e)

def changeAll (r : Region) (cs : List Change) : Except Fault Region := cs.foldlM change r

namespace Change

/-- What a change makes of a set of offsets. -/
def image (S : Set Nat) : Change → Set Nat
  | add s e => S ∪ Set.Ico s e
  | subtract s e => S \ Set.Ico s e
  | clear => ∅
  | insertion pos len => {p | (p < pos ∧ p ∈ S) ∨ (pos + len ≤ p ∧ p - len ∈ S) ∨
      (pos ≤ p ∧ p < pos + len ∧ 0 < pos ∧ pos - 1 ∈ S ∧ pos ∈ S)}
  | deletion s e => {p | (p < s ∧ p ∈ S) ∨ (s ≤ p ∧ p + (e - s) ∈ S)}

def imageAll (S : Set Nat) (cs : List Change) : Set Nat := cs.foldl image S

/-- What is added ends at a position. -/
def InRange : Change → Prop
  | add _ e => e ≤ offsetLimit
  | _ => True

/-- No run that an insertion moves or widens comes to end beyond the last position. -/
def Fits (S : Set Nat) : Change → Prop
  | insertion pos len => ∀ p ∈ S, pos ≤ p → p + 1 + len ≤ offsetLimit
  | _ => True

def FitAll (S : Set Nat) : List Change → Prop
  | [] => True
  | c :: cs => c.Fits S ∧ FitAll (c.image S) cs

end Change

open Change

theorem Represents.stop_le_iff (h : r.Represents S) {m : Nat} :
    (∀ i ∈ r.intervals, i.stop ≤ m) ↔ ∀ p ∈ S, p < m := by
  constructor
  · intro hall p hp
    obtain ⟨i, hi, hip⟩ := contains_iff.1 ((h.contains p).2 hp)
    have := hall i hi
    omega
  · intro hall i hi
    have hne := h.wellFormed.1 i hi
    have := hall (i.stop - 1) ((h.contains _).1 (contains_iff.2 ⟨i, hi, by omega, by omega⟩))
    omega

theorem Represents.shiftForInsertion (h : r.Represents S) (pos len : Nat) :
    (r.shiftForInsertion pos len).Represents ((insertion pos len).image S) := by
  refine represents_of_contains (wellFormed_shiftForInsertion h.wellFormed pos len) fun p => ?_
  simp only [contains_shiftForInsertion h.wellFormed, h.contains]
  rfl

/-- An insertion is refused exactly where a run would end beyond the last position. -/
theorem Represents.shiftForInsertion? (h : r.Represents S) (hS : ∀ p ∈ S, p < offsetLimit)
    (pos len : Nat) :
    ((insertion pos len).Fits S →
        r.shiftForInsertion? pos len = .ok (r.shiftForInsertion pos len)) ∧
      (¬(insertion pos len).Fits S →
        r.shiftForInsertion? pos len = .error .offsetOverflow) := by
  have hfits : (insertion pos len).Fits S ↔
      ∀ i ∈ (r.shiftForInsertion pos len).intervals, i.stop ≤ offsetLimit := by
    rw [(h.shiftForInsertion pos len).stop_le_iff]
    constructor
    · rintro hfits p (⟨-, hp⟩ | ⟨hlen, hp⟩ | ⟨-, hlt, -, -, hp⟩)
      · exact hS p hp
      · have := hfits _ hp (by omega)
        omega
      · have := hfits pos hp (Nat.le_refl pos)
        omega
    · intro hall p hp hle
      have := hall (p + len) (.inr (.inl ⟨by omega, by rwa [Nat.add_sub_cancel]⟩))
      omega
  rw [hfits, Region.shiftForInsertion?]
  simp only [List.all_eq_true, decide_eq_true_eq]
  exact ⟨fun hall => if_pos hall, fun hnot => if_neg hnot⟩

/-- One change of a region is the same change of its set. -/
theorem Represents.change (h : r.Represents S) (hS : ∀ p ∈ S, p < offsetLimit) {c : Change}
    (hc : c.InRange) :
    (c.Fits S → ∃ r', r.change c = .ok r' ∧ r'.Represents (c.image S) ∧
      ∀ p ∈ c.image S, p < offsetLimit) ∧
      (¬c.Fits S → r.change c = .error .offsetOverflow) := by
  cases c with
  | add s e =>
    refine ⟨fun _ => ⟨_, rfl, ?_, ?_⟩, fun hnot => absurd trivial hnot⟩
    · refine represents_of_contains (wellFormed_add h.wellFormed s e) fun p => ?_
      rw [contains_add h.wellFormed, h.contains]
      exact or_comm
    · rintro p (hp | hp)
      · exact hS p hp
      · exact Nat.lt_of_lt_of_le hp.2 hc
  | subtract s e =>
    refine ⟨fun _ => ⟨_, rfl, ?_, fun p hp => hS p hp.1⟩, fun hnot => absurd trivial hnot⟩
    refine represents_of_contains (wellFormed_subtract h.wellFormed s e) fun p => ?_
    rw [contains_subtract, h.contains]
    rfl
  | clear =>
    refine ⟨fun _ => ⟨_, rfl, ?_, fun p hp => hp.elim⟩, fun hnot => absurd trivial hnot⟩
    exact represents_of_contains wellFormed_empty fun p => by simp [Region.contains, empty, image]
  | insertion pos len =>
    obtain ⟨hdone, hrefused⟩ := h.shiftForInsertion? hS pos len
    refine ⟨fun hfits => ⟨_, hdone hfits, h.shiftForInsertion pos len, ?_⟩, hrefused⟩
    rintro p (⟨-, hp⟩ | ⟨hlen, hp⟩ | ⟨-, hlt, -, -, hp⟩)
    · exact hS p hp
    · have := hfits _ hp (by omega)
      omega
    · have := hfits pos hp (Nat.le_refl pos)
      omega
  | deletion s e =>
    refine ⟨fun _ => ⟨_, rfl, ?_, ?_⟩, fun hnot => absurd trivial hnot⟩
    · refine represents_of_contains (wellFormed_shiftForDeletion h.wellFormed s e) fun p => ?_
      simp only [contains_shiftForDeletion, h.contains]
      rfl
    · rintro p (⟨-, hp⟩ | ⟨-, hp⟩)
      · exact hS p hp
      · have := hS _ hp
        omega

theorem Represents.changeAll (h : r.Represents S) (hS : ∀ p ∈ S, p < offsetLimit)
    {cs : List Change} (hcs : ∀ c ∈ cs, c.InRange) :
    (FitAll S cs → ∃ r', r.changeAll cs = .ok r' ∧ r'.Represents (imageAll S cs)) ∧
      (¬FitAll S cs → r.changeAll cs = .error .offsetOverflow) := by
  induction cs generalizing r S with
  | nil => exact ⟨fun _ => ⟨r, rfl, h⟩, fun hnot => absurd trivial hnot⟩
  | cons c cs ih =>
    obtain ⟨hdone, hrefused⟩ := h.change hS (hcs c List.mem_cons_self)
    by_cases hfits : c.Fits S
    · obtain ⟨r', hr', hrep, hS'⟩ := hdone hfits
      have hstep : r.changeAll (c :: cs) = r'.changeAll cs := by
        rw [Region.changeAll, List.foldlM_cons, hr']
        rfl
      have hrest := ih hrep hS' fun c' hc' => hcs c' (List.mem_cons_of_mem c hc')
      rw [hstep]
      exact ⟨fun hall => hrest.1 hall.2, fun hnot => hrest.2 fun hall => hnot ⟨hfits, hall⟩⟩
    · refine ⟨fun hall => absurd hall.1 hfits, fun _ => ?_⟩
      rw [Region.changeAll, List.foldlM_cons, hrefused hfits]
      rfl

/-- The offsets of a list of intervals. -/
def offsetsOf (is : List Interval) : Set Nat := {p | Covered is p}

/-- From any intervals on, any changes of a region are the same changes of a plain set of offsets.
They are refused exactly where an insertion would need a position that there is not. -/
theorem represents_changeAll {is : List Interval} (his : ∀ i ∈ is, i.stop ≤ offsetLimit)
    {cs : List Change} (hcs : ∀ c ∈ cs, c.InRange) :
    (FitAll (offsetsOf is) cs →
      ∃ r, (ofList is).changeAll cs = .ok r ∧ r.Represents (imageAll (offsetsOf is) cs)) ∧
      (¬FitAll (offsetsOf is) cs → (ofList is).changeAll cs = .error .offsetOverflow) := by
  have hrep : (ofList is).Represents (offsetsOf is) :=
    represents_of_contains (wellFormed_ofList is) fun p => contains_ofList
  refine hrep.changeAll ?_ hcs
  rintro p ⟨i, hi, hip⟩
  have := his i hi
  omega

/-- Runs that touch, an insertion inside the run that they become, one at its end, and a deletion
that closes the gap behind it. -/
theorem represents_changeAll_touching :
    (ofList [⟨4, 6⟩, ⟨9, 9⟩, ⟨2, 4⟩, ⟨7, 8⟩]).changeAll
        [.insertion 4 3, .insertion 9 1, .deletion 8 11] = .ok ⟨[⟨2, 9⟩]⟩ ∧
      Represents ⟨[⟨2, 9⟩]⟩ (imageAll (offsetsOf [⟨4, 6⟩, ⟨9, 9⟩, ⟨2, 4⟩, ⟨7, 8⟩])
        [.insertion 4 3, .insertion 9 1, .deletion 8 11]) := by
  have hlimit : 100 < offsetLimit := by decide
  have hS : ∀ p ∈ offsetsOf [⟨4, 6⟩, ⟨9, 9⟩, ⟨2, 4⟩, ⟨7, 8⟩], p < 8 := by
    simp only [offsetsOf, covered_cons, covered_nil, or_false, Set.mem_ofPred_eq]
    intro p hp
    omega
  have hS' : ∀ p ∈ (insertion 4 3).image (offsetsOf [⟨4, 6⟩, ⟨9, 9⟩, ⟨2, 4⟩, ⟨7, 8⟩]), p < 11 := by
    rintro p (⟨-, hp⟩ | ⟨-, hp⟩ | ⟨-, hlt, -⟩)
    · exact Nat.lt_of_lt_of_le (hS p hp) (by decide)
    · have := hS _ hp
      omega
    · omega
  have hfits : FitAll (offsetsOf [⟨4, 6⟩, ⟨9, 9⟩, ⟨2, 4⟩, ⟨7, 8⟩])
      [.insertion 4 3, .insertion 9 1, .deletion 8 11] := by
    refine ⟨fun p hp _ => ?_, fun p hp _ => ?_, trivial, trivial⟩
    · have := hS p hp
      omega
    · have := hS' p hp
      omega
  obtain ⟨r, hr, hrep⟩ := (represents_changeAll (by decide) (by simp [InRange])).1 hfits
  have hdone : (ofList [⟨4, 6⟩, ⟨9, 9⟩, ⟨2, 4⟩, ⟨7, 8⟩]).changeAll
      [.insertion 4 3, .insertion 9 1, .deletion 8 11] = .ok ⟨[⟨2, 9⟩]⟩ := rfl
  obtain rfl := Except.ok.inj (hdone.symm.trans hr)
  exact ⟨hdone, hrep⟩

end Region
end CodeBuffer
