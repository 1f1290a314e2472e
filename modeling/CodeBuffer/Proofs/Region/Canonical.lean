import CodeBuffer.Proofs.Region.Offsets

namespace CodeBuffer
namespace Region

variable {r r' : Region} {is js : List Interval} {s e s' e' p : Nat}

/-! Each law is one about sets of offsets, for a region is told by its offsets. -/

theorem add_add_comm (h : r.WellFormed) : (r.add s e).add s' e' = (r.add s' e').add s e := by
  have hleft := wellFormed_add h s e
  have hright := wellFormed_add h s' e'
  apply eq_of_contains
  · exact wellFormed_add hleft s' e'
  · exact wellFormed_add hright s e
  · intro p
    rw [contains_add hleft, contains_add h, contains_add hright, contains_add h]
    exact or_left_comm

theorem subtract_subtract_comm (h : r.WellFormed) :
    (r.subtract s e).subtract s' e' = (r.subtract s' e').subtract s e := by
  apply eq_of_contains
  · exact wellFormed_subtract (wellFormed_subtract h s e) s' e'
  · exact wellFormed_subtract (wellFormed_subtract h s' e') s e
  · intro p
    simp only [contains_subtract]
    exact and_right_comm

/-- A range that was all there comes back when it is added again. -/
theorem add_subtract_of_covers (h : r.WellFormed) (hc : r.covers s e = true) :
    (r.subtract s e).add s e = r := by
  have hsub := wellFormed_subtract h s e
  apply eq_of_contains
  · exact wellFormed_add hsub s e
  · exact h
  · intro p
    have hin := (covers_iff h).1 hc p
    rw [contains_add hsub, contains_subtract]
    constructor
    · rintro (⟨hs, he⟩ | ⟨hp, -⟩)
      · exact hin hs he
      · exact hp
    · intro hp
      by_cases hrange : s ≤ p ∧ p < e
      · exact .inl hrange
      · exact .inr ⟨hp, hrange⟩

/-- The part in a range is what is left without all before it and all behind it. -/
theorem intersect_eq_subtract (h : r.WellFormed) {m : Nat}
    (hm : ∀ p, r.contains p = true → p < m) (s e : Nat) :
    r.intersect s e = (r.subtract 0 s).subtract e m := by
  apply eq_of_contains
  · exact wellFormed_intersect h s e
  · exact wellFormed_subtract (wellFormed_subtract h 0 s) e m
  · intro p
    rw [contains_intersect, contains_subtract, contains_subtract, and_assoc]
    apply and_congr_right
    intro hp
    have hlt := hm p hp
    omega

/-- Only which intervals are collected counts, not how often and in which order. -/
theorem ofList_eq_of_mem_iff (h : ∀ i, i ∈ is ↔ i ∈ js) : ofList is = ofList js := by
  apply eq_of_contains
  · exact wellFormed_ofList is
  · exact wellFormed_ofList js
  · intro p
    rw [contains_ofList, contains_ofList]
    exact exists_congr fun i => and_congr_left fun _ => h i

theorem foldl_add (h : r.WellFormed) (is : List Interval) :
    (is.foldl (fun r i => r.add i.start i.stop) r).WellFormed ∧
      ∀ p, (is.foldl (fun r i => r.add i.start i.stop) r).contains p = true ↔
        r.contains p = true ∨ Covered is p := by
  induction is generalizing r with
  | nil => exact ⟨h, fun p => by simp⟩
  | cons i is ih =>
    obtain ⟨hwell, hcontains⟩ := ih (wellFormed_add h i.start i.stop)
    refine ⟨hwell, fun p => ?_⟩
    rw [List.foldl_cons, hcontains, contains_add h, covered_cons, or_assoc]
    exact or_left_comm

/-- Intervals may be collected from either end of a list. -/
theorem foldl_add_eq_ofList (is : List Interval) :
    is.foldl (fun r i => r.add i.start i.stop) empty = ofList is := by
  obtain ⟨hwell, hcontains⟩ := foldl_add wellFormed_empty is
  apply eq_of_contains hwell (wellFormed_ofList is)
  intro p
  rw [hcontains, contains_ofList]
  simp [Region.contains, empty]

/-! The regions that there are -/

/-- A region that is made from intervals up to the last position, by changes that are not refused
and by cutting. -/
inductive Built : Region → Prop where
  | empty : Built empty
  | ofList {is : List Interval} (his : ∀ i ∈ is, i.stop ≤ offsetLimit) : Built (ofList is)
  | change {r r' : Region} (hr : Built r) {c : Change} (hc : c.InRange)
      (hdone : r.change c = .ok r') : Built r'
  | intersect {r : Region} (hr : Built r) (s e : Nat) : Built (r.intersect s e)

/-- The offsets of a region, as a set. -/
theorem WellFormed.represents (h : r.WellFormed) : r.Represents {p | r.contains p = true} :=
  represents_of_contains h fun _ => Iff.rfl

/-- What is built is in order, and no offset in it lies beyond the last position. -/
theorem Built.wellFormed (h : Built r) :
    r.WellFormed ∧ ∀ p, r.contains p = true → p < offsetLimit := by
  induction h with
  | empty => exact ⟨wellFormed_empty, fun p hp => by simp [Region.contains, Region.empty] at hp⟩
  | ofList his =>
    refine ⟨wellFormed_ofList _, fun p hp => ?_⟩
    obtain ⟨i, hi, hip⟩ := contains_ofList.1 hp
    have hstop := his i hi
    omega
  | @change r r' _ c hc hdone ih =>
    obtain ⟨hwell, hbelow⟩ := ih
    obtain ⟨hfits, hrefused⟩ := hwell.represents.change hbelow hc
    by_cases hfit : c.Fits {p | r.contains p = true}
    · obtain ⟨r'', hr'', hrep, hbelow'⟩ := hfits hfit
      obtain rfl := Except.ok.inj (hdone.symm.trans hr'')
      exact ⟨hrep.wellFormed, fun p hp => hbelow' p ((hrep.contains p).1 hp)⟩
    · rw [hrefused hfit] at hdone
      cases hdone
  | intersect _ s e ih =>
    exact ⟨wellFormed_intersect ih.1 s e, fun p hp => ih.2 p (contains_intersect.1 hp).1⟩

/-- However regions are built, they are equal as lists of runs exactly if they hold the same
offsets. So the laws of sets are laws of regions. -/
theorem built_canonical (hr : Built r) :
    (∀ r', Built r' → ((r == r') = true ↔ ∀ p, r.contains p = r'.contains p)) ∧
      (∀ is js : List Interval, (∀ i, i ∈ is ↔ i ∈ js) →
        js.foldl (fun r i => r.add i.start i.stop) empty = ofList is ∧ ofList js = ofList is) ∧
      (∀ s e s' e', (r.add s e).add s' e' = (r.add s' e').add s e) ∧
      (∀ s e s' e', (r.subtract s e).subtract s' e' = (r.subtract s' e').subtract s e) ∧
      (∀ s e, r.covers s e = true → (r.subtract s e).add s e = r) ∧
      ∀ s e, r.intersect s e = (r.subtract 0 s).subtract e offsetLimit := by
  obtain ⟨hwell, hbelow⟩ := hr.wellFormed
  refine ⟨fun r' hr' => ?_, fun is js hsame => ?_, fun s e s' e' => add_add_comm hwell,
    fun s e s' e' => subtract_subtract_comm hwell, fun s e => add_subtract_of_covers hwell,
    intersect_eq_subtract hwell hbelow⟩
  · rw [beq_iff_eq]
    constructor
    · rintro rfl p
      rfl
    · intro hsame
      apply eq_of_contains hwell hr'.wellFormed.1
      intro p
      rw [hsame p]
  · have hlists := (ofList_eq_of_mem_iff hsame).symm
    exact ⟨(foldl_add_eq_ofList js).trans hlists, hlists⟩

/-- A run that is grown from two touching ones, and the same run cut out of another one. -/
theorem built_canonical_glued :
    let r : Region := ⟨[⟨2, 8⟩]⟩
    let r' := (ofList [⟨3, 9⟩, ⟨0, 3⟩]).intersect 2 8
    (Built r ∧ Built r' ∧
        (∀ i, i ∈ [⟨0, 3⟩, ⟨3, 9⟩, ⟨0, 3⟩] ↔ i ∈ ([⟨3, 9⟩, ⟨0, 3⟩] : List Interval)) ∧
        r.covers 4 8 = true) ∧
      ((r == r') = true ↔ ∀ p, r.contains p = r'.contains p) ∧
        ofList [⟨3, 9⟩, ⟨0, 3⟩] = ofList [⟨0, 3⟩, ⟨3, 9⟩, ⟨0, 3⟩] ∧
        (r.subtract 4 8).add 4 8 = r ∧
          r.intersect 3 5 = (r.subtract 0 3).subtract 5 offsetLimit := by
  intro r r'
  have hglued : Built (ofList [⟨4, 6⟩, ⟨2, 4⟩]) := .ofList (by decide)
  have hr : Built r := .change hglued (c := .insertion 3 2) trivial rfl
  have hr' : Built r' := .intersect (.ofList (by decide)) 2 8
  have hsame : ∀ i, i ∈ [⟨0, 3⟩, ⟨3, 9⟩, ⟨0, 3⟩] ↔ i ∈ ([⟨3, 9⟩, ⟨0, 3⟩] : List Interval) := by
    intro i
    simp only [List.mem_cons, List.not_mem_nil, or_false]
    rw [or_left_comm, or_self]
  have hc : r.covers 4 8 = true := rfl
  obtain ⟨heq, hlist, -, -, hback, hpart⟩ := built_canonical hr
  exact ⟨⟨hr, hr', hsame, hc⟩, heq r' hr', (hlist _ _ hsame).2, hback 4 8 hc, hpart 3 5⟩

end Region
end CodeBuffer
