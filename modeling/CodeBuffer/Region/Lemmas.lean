import CodeBuffer.Region.Basic

namespace CodeBuffer.Region

/-- Membership in a list of runs. -/
def Covered (is : List Interval) (p : Nat) : Prop := ∃ i ∈ is, i.start ≤ p ∧ p < i.stop

theorem contains_iff_covered {r : Region} {p : Nat} :
    r.contains p = true ↔ Covered r.intervals p := contains_iff

@[simp] theorem covered_nil {p : Nat} : ¬Covered [] p := by simp [Covered]

@[simp] theorem covered_cons {i : Interval} {is : List Interval} {p : Nat} :
    Covered (i :: is) p ↔ (i.start ≤ p ∧ p < i.stop) ∨ Covered is p := by
  simp [Covered]

theorem separated_cons {i : Interval} {is : List Interval} :
    Separated (i :: is) ↔ i.start < i.stop ∧ (∀ j ∈ is, i.stop < j.start) ∧ Separated is := by
  simp only [Separated, List.mem_cons, forall_eq_or_imp, List.pairwise_cons]
  constructor
  · rintro ⟨⟨h1, h2⟩, h3, h4⟩
    exact ⟨h1, h3, h2, h4⟩
  · rintro ⟨h1, h3, h2, h4⟩
    exact ⟨⟨h1, h2⟩, h3, h4⟩

theorem separated_nil : Separated [] := by simp [Separated]

theorem separated_append {is js : List Interval} : Separated (is ++ js) ↔
    Separated is ∧ Separated js ∧ ∀ i ∈ is, ∀ j ∈ js, i.stop < j.start := by
  simp only [Separated, List.mem_append, or_imp, forall_and, List.pairwise_append]
  constructor
  · rintro ⟨⟨h1, h2⟩, h3, h4, h5⟩
    exact ⟨⟨h1, h3⟩, ⟨h2, h4⟩, h5⟩
  · rintro ⟨⟨h1, h3⟩, ⟨h2, h4⟩, h5⟩
    exact ⟨⟨h1, h2⟩, h3, h4, h5⟩

theorem covered_append {is js : List Interval} {p : Nat} :
    Covered (is ++ js) p ↔ Covered is p ∨ Covered js p := by
  simp only [Covered, List.mem_append, or_and_right, exists_or]

/-- A run begins where one did before, or where the new one does. -/
theorem start_of_mem_fuse {i j : Interval} {is : List Interval} (h : j ∈ fuse i is) :
    j.start = i.start ∨ ∃ k ∈ is, j.start = k.start := by
  induction is generalizing i with
  | nil => simp_all [fuse]
  | cons k rest ih =>
    unfold fuse at h
    split at h
    · rcases List.mem_cons.1 h with rfl | h
      · exact .inr ⟨j, List.mem_cons_self, rfl⟩
      · rcases ih h with h | ⟨m, hm, h⟩
        · exact .inl h
        · exact .inr ⟨m, List.mem_cons_of_mem _ hm, h⟩
    · split at h
      · rcases List.mem_cons.1 h with rfl | h
        · exact .inl rfl
        · exact .inr ⟨j, h, rfl⟩
      · rcases ih h with h | ⟨m, hm, h⟩
        · simp only at h
          by_cases hle : i.start ≤ k.start
          · exact .inl (by omega)
          · exact .inr ⟨k, List.mem_cons_self, by omega⟩
        · exact .inr ⟨m, List.mem_cons_of_mem _ hm, h⟩

theorem separated_fuse {i : Interval} {is : List Interval} (hi : i.start < i.stop)
    (h : Separated is) : Separated (fuse i is) := by
  induction is generalizing i with
  | nil => simp [fuse, Separated, hi]
  | cons j rest ih =>
    obtain ⟨hj, hgap, hrest⟩ := separated_cons.1 h
    unfold fuse
    split
    · rename_i hlt
      refine separated_cons.2 ⟨hj, ?_, ih hi hrest⟩
      intro k hk
      rcases start_of_mem_fuse hk with h | ⟨m, hm, h⟩
      · omega
      · have := hgap m hm
        omega
    · split
      · rename_i hlt
        refine separated_cons.2 ⟨hi, ?_, h⟩
        intro k hk
        rcases List.mem_cons.1 hk with rfl | hk
        · exact hlt
        · have := hgap k hk
          omega
      · exact ih (by simp only; omega) hrest

theorem covered_fuse {i : Interval} {is : List Interval} {p : Nat} (hi : i.start < i.stop)
    (h : Separated is) : Covered (fuse i is) p ↔ (i.start ≤ p ∧ p < i.stop) ∨ Covered is p := by
  induction is generalizing i with
  | nil => simp [fuse]
  | cons j rest ih =>
    obtain ⟨hj, hgap, hrest⟩ := separated_cons.1 h
    unfold fuse
    split
    · rw [covered_cons, covered_cons, ih hi hrest]
      constructor
      · rintro (h | h | h)
        · exact .inr (.inl h)
        · exact .inl h
        · exact .inr (.inr h)
      · rintro (h | h | h)
        · exact .inr (.inl h)
        · exact .inl h
        · exact .inr (.inr h)
    · split
      · rw [covered_cons]
      · rw [ih (by simp only; omega) hrest, covered_cons]
        constructor
        · rintro (h | h)
          · simp only at h
            omega
          · exact .inr (.inr h)
        · rintro (h | h | h)
          · exact .inl (by simp only; omega)
          · exact .inl (by simp only; omega)
          · exact .inr h

/-- Adding a range is union with it. -/
theorem contains_add {r : Region} (h : r.WellFormed) {s e p : Nat} :
    (r.add s e).contains p = true ↔ (s ≤ p ∧ p < e) ∨ r.contains p = true := by
  unfold add
  split
  · rename_i hle
    constructor
    · exact .inr
    · rintro (h | h)
      · omega
      · exact h
  · rename_i hlt
    rw [contains_iff_covered, contains_iff_covered]
    exact covered_fuse (by simp only; omega) h

theorem wellFormed_add {r : Region} (h : r.WellFormed) (s e : Nat) : (r.add s e).WellFormed := by
  unfold add
  split
  · exact h
  · exact separated_fuse (by simp only; omega) h

theorem wellFormed_ofList (is : List Interval) : (ofList is).WellFormed := by
  induction is with
  | nil => exact wellFormed_empty
  | cons i is ih => exact wellFormed_add ih _ _

/-- Collecting intervals is the union of them all. -/
theorem contains_ofList {is : List Interval} {p : Nat} :
    (ofList is).contains p = true ↔ Covered is p := by
  induction is with
  | nil => simp [ofList, contains, empty]
  | cons i is ih =>
    rw [covered_cons, ← ih]
    exact contains_add (wellFormed_ofList is)

theorem wellFormed_addAll {r : Region} (h : r.WellFormed) (is : List Interval) :
    (r.addAll is).WellFormed := by
  unfold addAll
  split
  · exact h
  · exact wellFormed_ofList _

/-- Adding several intervals is union with them all. -/
theorem contains_addAll {r : Region} {is : List Interval} {p : Nat} :
    (r.addAll is).contains p = true ↔ r.contains p = true ∨ Covered is p := by
  unfold addAll
  split
  · rename_i h
    simp [List.isEmpty_iff.1 h]
  · rw [contains_ofList, contains_iff_covered]
    simp only [Covered, List.mem_mergeSort, List.mem_append, or_and_right, exists_or]

/-- Subtracting a range leaves what lies outside it. -/
theorem contains_subtract {r : Region} {s e p : Nat} :
    (r.subtract s e).contains p = true ↔ r.contains p = true ∧ ¬(s ≤ p ∧ p < e) := by
  unfold subtract
  split
  · rename_i hle
    constructor
    · exact fun h => ⟨h, by omega⟩
    · exact fun h => h.1
  · rename_i hlt
    simp only [contains_iff, List.mem_flatMap, remnants, List.mem_filter, List.mem_cons,
      List.not_mem_nil, or_false]
    constructor
    · rintro ⟨i, ⟨j, hj, h | h, -⟩, hp⟩
      · subst h
        simp only at hp
        exact ⟨⟨j, hj, by omega⟩, by omega⟩
      · subst h
        simp only at hp
        exact ⟨⟨j, hj, by omega⟩, by omega⟩
    · rintro ⟨⟨j, hj, hp⟩, hout⟩
      by_cases hs : p < s
      · refine ⟨⟨j.start, min j.stop s⟩, ⟨j, hj, .inl rfl, ?_⟩, by simp only; omega⟩
        simp only [Interval.isEmpty, Bool.not_eq_true', decide_eq_false_iff_not]
        omega
      · refine ⟨⟨max j.start e, j.stop⟩, ⟨j, hj, .inr rfl, ?_⟩, by simp only; omega⟩
        simp only [Interval.isEmpty, Bool.not_eq_true', decide_eq_false_iff_not]
        omega

/-- The part of a region in a range. -/
theorem contains_intersect {r : Region} {s e p : Nat} :
    (r.intersect s e).contains p = true ↔ r.contains p = true ∧ s ≤ p ∧ p < e := by
  simp only [contains_iff, intersect, List.mem_filter, List.mem_map, Interval.clip]
  constructor
  · rintro ⟨i, ⟨⟨j, hj, rfl⟩, -⟩, hp⟩
    simp only at hp
    exact ⟨⟨j, hj, by omega⟩, by omega⟩
  · rintro ⟨⟨j, hj, hp⟩, hse⟩
    refine ⟨⟨max j.start s, min j.stop e⟩, ⟨⟨j, hj, rfl⟩, ?_⟩, by simp only; omega⟩
    simp only [Interval.isEmpty, Bool.not_eq_true', decide_eq_false_iff_not]
    omega

theorem wellFormed_intersect {r : Region} (h : r.WellFormed) (s e : Nat) :
    (r.intersect s e).WellFormed := by
  refine ⟨?_, ?_⟩
  · intro i hi
    have := (List.mem_filter.1 hi).2
    simpa [Interval.isEmpty] using this
  · unfold intersect
    refine List.Pairwise.filter _ (List.pairwise_map.2 (h.2.imp ?_))
    intro i j hij
    simp only [Interval.clip]
    omega

theorem wellFormed_subtract {r : Region} (h : r.WellFormed) (s e : Nat) :
    (r.subtract s e).WellFormed := by
  unfold subtract
  split
  · exact h
  · rename_i hlt
    refine ⟨?_, ?_⟩
    · intro i hi
      obtain ⟨j, -, hj⟩ := List.mem_flatMap.1 hi
      have := (List.mem_filter.1 hj).2
      simpa [Interval.isEmpty] using this
    · refine List.pairwise_flatMap.2 ⟨?_, h.2.imp ?_⟩
      · intro i hi
        refine List.Pairwise.filter _ ?_
        simp only [List.pairwise_cons, List.mem_singleton, forall_eq, List.not_mem_nil,
          false_implies, implies_true, List.Pairwise.nil, and_true]
        omega
      · intro i j hij k hk l hl
        have hk := (List.mem_filter.1 hk).1
        have hl := (List.mem_filter.1 hl).1
        simp only [List.mem_cons, List.not_mem_nil, or_false] at hk hl
        rcases hk with rfl | rfl <;> rcases hl with rfl | rfl <;> simp only <;> omega

theorem wellFormed_shiftForInsertion {r : Region} (h : r.WellFormed) (pos len : Nat) :
    (r.shiftForInsertion pos len).WellFormed := by
  unfold shiftForInsertion
  split
  · exact h
  · refine ⟨?_, List.pairwise_map.2 (h.2.imp_of_mem ?_)⟩
    · intro i hi
      obtain ⟨j, hj, rfl⟩ := List.mem_map.1 hi
      have := h.1 j hj
      grind [afterInsertion]
    · intro i j hi hj hij
      have := h.1 j hj
      grind [afterInsertion]

/-- Offsets keep their order when a range is deleted. -/
theorem afterDeletion_mono {a b start stop : Nat} (h : a ≤ b) (hlt : start < stop) :
    afterDeletion start stop a ≤ afterDeletion start stop b := by
  unfold afterDeletion
  by_cases ha : a ≤ start
  · rw [if_pos ha]
    split
    · exact h
    · split <;> omega
  · rw [if_neg ha, if_neg (show ¬b ≤ start by omega)]
    split
    · rw [if_pos (show stop ≤ b by omega)]
      exact Nat.sub_le_sub_right h _
    · split <;> omega

theorem wellFormed_shiftForDeletion {r : Region} (h : r.WellFormed) (s e : Nat) :
    (r.shiftForDeletion s e).WellFormed := by
  unfold shiftForDeletion
  split
  · exact h
  · exact wellFormed_ofList _

end CodeBuffer.Region
