import CodeBuffer.Proofs.Region.Offsets

namespace CodeBuffer
namespace Region

/-! The operations of a region as they are done by search: the runs stand in order, so that those
which a change concerns are next to each other, between two places that a binary search finds. They
are taken out, and what is left of them is put in their place. -/

namespace Search

/-- How many runs there are before the first that does not meet the condition. Where the runs that
meet it are all before the others, a binary search finds that place. -/
def partitionPoint (q : Interval → Bool) (is : List Interval) : Nat := (is.takeWhile q).length

/-- The runs with others in the place of those from `first` up to `last`. -/
def splice (is : List Interval) (first last : Nat) (others : List Interval) : List Interval :=
  is.take first ++ others ++ is.drop last

def contains (r : Region) (p : Nat) : Bool :=
  let place := partitionPoint (fun i => decide (i.stop ≤ p)) r.intervals
  r.intervals[place]?.any (·.contains p)

def covers (r : Region) (start stop : Nat) : Bool :=
  if stop ≤ start then true
  else
    let place := partitionPoint (fun i => decide (i.stop ≤ start)) r.intervals
    r.intervals[place]?.any fun i => decide (i.start ≤ start) && decide (stop ≤ i.stop)

/-- There is no result if a run that is asked for is not there. -/
def add (r : Region) (start stop : Nat) : Option Region :=
  if stop ≤ start then some r
  else
    let first := partitionPoint (fun i => decide (i.stop < start)) r.intervals
    let last := partitionPoint (fun i => decide (i.start ≤ stop)) r.intervals
    if first = last then some ⟨splice r.intervals first first [⟨start, stop⟩]⟩
    else do
      let head ← r.intervals[first]?
      let tail ← r.intervals[last - 1]?
      some ⟨splice r.intervals first last [⟨min start head.start, max stop tail.stop⟩]⟩

/-- What a range leaves of the first and the last run that it meets. -/
def remnants (start stop : Nat) (head tail : Interval) : List Interval :=
  (if head.start < start then [⟨head.start, start⟩] else []) ++
    if stop < tail.stop then [⟨stop, tail.stop⟩] else []

/-- There is no result if a run that is asked for is not there. -/
def subtract (r : Region) (start stop : Nat) : Option Region :=
  if stop ≤ start then some r
  else
    let first := partitionPoint (fun i => decide (i.stop ≤ start)) r.intervals
    let last := partitionPoint (fun i => decide (i.start < stop)) r.intervals
    if last ≤ first then some r
    else do
      let head ← r.intervals[first]?
      let tail ← r.intervals[last - 1]?
      some ⟨splice r.intervals first last (remnants start stop head tail)⟩

def intersect (r : Region) (start stop : Nat) : Region :=
  if stop ≤ start then empty
  else
    let first := partitionPoint (fun i => decide (i.stop ≤ start)) r.intervals
    let met := (r.intervals.drop first).takeWhile fun i => decide (i.start < stop)
    ⟨(met.map (·.clip start stop)).filter (!·.isEmpty)⟩

def shiftForInsertion (r : Region) (pos len : Nat) : Region :=
  if len = 0 then r
  else
    let first := partitionPoint (fun i => decide (i.stop ≤ pos)) r.intervals
    ⟨r.intervals.take first ++ (r.intervals.drop first).map fun i =>
      if pos ≤ i.start then ⟨i.start + len, i.stop + len⟩ else ⟨i.start, i.stop + len⟩⟩

/-- Puts a run behind the others, or makes it part of the last one that it touches. -/
def fuseLast (is : List Interval) (i : Interval) : List Interval :=
  if i.isEmpty then is
  else
    match is.getLast? with
    | some last =>
      if i.start ≤ last.stop then is.dropLast ++ [⟨last.start, max last.stop i.stop⟩]
      else is ++ [i]
    | none => is ++ [i]

/-- Where a run lies when a range is deleted. -/
def moved (start stop : Nat) (i : Interval) : Interval :=
  ⟨afterDeletion start stop i.start, afterDeletion start stop i.stop⟩

def shiftForDeletion (r : Region) (start stop : Nat) : Region :=
  if stop ≤ start then r
  else
    let first := partitionPoint (fun i => decide (i.stop < start)) r.intervals
    if first = r.intervals.length then r
    else
      ⟨((r.intervals.drop first).map (moved start stop)).foldl fuseLast (r.intervals.take first)⟩

/-! Places -/

variable {r : Region} {is before met behind : List Interval} {i head tail : Interval}
  {q q' : Interval → Bool} {s e p pos len : Nat}

/-- What meets the condition comes first. -/
def Partitioned (q : Interval → Bool) (is : List Interval) : Prop :=
  is.Pairwise fun i j => q j = true → q i = true

theorem Partitioned.of_mem_dropWhile (hq : Partitioned q is) (hi : i ∈ is.dropWhile q) :
    q i = false := by
  induction is with
  | nil => cases hi
  | cons j is ih =>
    obtain ⟨hfirst, hrest⟩ := List.pairwise_cons.1 hq
    cases hj : q j with
    | true =>
      rw [List.dropWhile_cons_of_pos hj] at hi
      exact ih hrest hi
    | false =>
      rw [List.dropWhile_cons_of_neg (by rw [hj]; exact Bool.false_ne_true)] at hi
      rw [Bool.eq_false_iff]
      intro hmeets
      rcases List.mem_cons.1 hi with rfl | hi
      · rw [hj] at hmeets
        cases hmeets
      · rw [hfirst i hi hmeets] at hj
        cases hj

theorem Partitioned.exists_parts (hq : Partitioned q is) :
    ∃ before behind, is = before ++ behind ∧ partitionPoint q is = before.length ∧
      (∀ i ∈ before, q i = true) ∧ ∀ i ∈ behind, q i = false :=
  ⟨is.takeWhile q, is.dropWhile q, List.takeWhile_append_dropWhile.symm, rfl,
    List.all_eq_true.1 List.all_takeWhile, fun _ => hq.of_mem_dropWhile⟩

/-- Two conditions, of which one is stronger, part the runs in three. -/
theorem Partitioned.exists_three (hq : Partitioned q is) (hq' : Partitioned q' is)
    (hstronger : ∀ i ∈ is, q i = true → q' i = true) :
    ∃ before met behind, is = before ++ met ++ behind ∧ partitionPoint q is = before.length ∧
      partitionPoint q' is = before.length + met.length ∧ (∀ i ∈ before, q i = true) ∧
        (∀ i ∈ met, q i = false ∧ q' i = true) ∧ ∀ i ∈ behind, q' i = false := by
  obtain ⟨before, rest, rfl, hplace, hbefore, hrest⟩ := hq.exists_parts
  have hq'' : Partitioned q' rest := (List.pairwise_append.1 hq').2.1
  obtain ⟨met, behind, rfl, hplace', hmet, hbehind⟩ := hq''.exists_parts
  refine ⟨before, met, behind, (List.append_assoc ..).symm, hplace, ?_, hbefore, ?_, hbehind⟩
  · have hweaker : ∀ i ∈ before, q' i = true := fun i hi =>
      hstronger i (List.mem_append_left _ hi) (hbefore i hi)
    rw [partitionPoint, List.takeWhile_append_of_pos hweaker, List.length_append]
    exact congrArg (before.length + ·) hplace'
  · exact fun i hi => ⟨hrest i (List.mem_append_left _ hi), hmet i hi⟩

/-- In ordered runs the ends rise with the starts. -/
theorem Partitioned.of_separated (h : Separated is)
    (hq : ∀ i j : Interval, i.start ≤ j.start → i.stop ≤ j.stop → q j = true → q i = true) :
    Partitioned q is := by
  refine h.2.imp_of_mem fun {i j} hi hj hij => hq i j ?_ ?_
  · have := h.1 i hi
    omega
  · have := h.1 j hj
    omega

theorem partitioned_stop_le (h : Separated is) (p : Nat) :
    Partitioned (fun i => decide (i.stop ≤ p)) is :=
  .of_separated h fun i j _ hstop hj => by simp at hj ⊢; omega

theorem partitioned_stop_lt (h : Separated is) (p : Nat) :
    Partitioned (fun i => decide (i.stop < p)) is :=
  .of_separated h fun i j _ hstop hj => by simp at hj ⊢; omega

theorem partitioned_start_lt (h : Separated is) (p : Nat) :
    Partitioned (fun i => decide (i.start < p)) is :=
  .of_separated h fun i j hstart _ hj => by simp at hj ⊢; omega

/-- The first and the last of some runs, and where the others lie between them. -/
theorem exists_ends (h : Separated met) (hne : met ≠ []) (before behind : List Interval) :
    ∃ head tail, (head ∈ met ∧ tail ∈ met) ∧
      (before ++ met ++ behind)[before.length]? = some head ∧
      (before ++ met ++ behind)[before.length + met.length - 1]? = some tail ∧
        ∀ i ∈ met, (i = head ∨ head.stop < i.start) ∧ (i = tail ∨ i.stop < tail.start) := by
  obtain ⟨head, rest, hhead⟩ := List.exists_cons_of_ne_nil hne
  obtain ⟨front, tail, htail⟩ := (List.eq_nil_or_concat met).resolve_left hne
  rw [List.concat_eq_append] at htail
  refine ⟨head, tail, ⟨by simp [hhead], by simp [htail]⟩, by simp [hhead], ?_, fun i hi => ⟨?_, ?_⟩⟩
  · have hplace : before.length + met.length - 1 = (before ++ front).length := by
      simp [htail, ← Nat.add_assoc]
    rw [hplace, htail, ← List.append_assoc, List.append_assoc (before ++ front),
      List.getElem?_append_right (Nat.le_refl _), Nat.sub_self]
    rfl
  · rw [hhead] at h hi
    exact (List.mem_cons.1 hi).imp_right ((separated_cons.1 h).2.1 i)
  · rw [htail] at h hi
    rcases List.mem_append.1 hi with hi | hi
    · exact .inr ((separated_append.1 h).2.2 i hi tail (List.mem_singleton_self tail))
    · exact .inl (List.mem_singleton.1 hi)

theorem splice_parts (before met behind others : List Interval) :
    splice (before ++ met ++ behind) before.length (before.length + met.length) others =
      before ++ others ++ behind := by
  rw [splice, ← List.length_append, List.drop_left, List.append_assoc before met, List.take_left]

/-- A region is told by its offsets, as well where some of its runs are replaced. -/
theorem spliced_eq {others : List Interval} {r' : Region} (h : Separated (before ++ met ++ behind))
    (hothers : Separated others) (hleft : ∀ i ∈ before, ∀ j ∈ others, i.stop < j.start)
    (hright : ∀ i ∈ others, ∀ j ∈ behind, i.stop < j.start) (h' : r'.WellFormed)
    (hsame : ∀ p, r'.contains p = true ↔ Covered before p ∨ Covered others p ∨ Covered behind p) :
    ⟨before ++ others ++ behind⟩ = r' := by
  obtain ⟨hfront, hbehind, hacross⟩ := separated_append.1 h
  have hbefore := (separated_append.1 hfront).1
  have hwell : Separated (before ++ others ++ behind) := by
    refine separated_append.2 ⟨separated_append.2 ⟨hbefore, hothers, hleft⟩, hbehind, ?_⟩
    intro i hi j hj
    rcases List.mem_append.1 hi with hi | hi
    · exact hacross i (List.mem_append_left _ hi) j hj
    · exact hright i hi j hj
  apply eq_of_contains hwell h'
  intro p
  rw [contains_iff_covered, covered_append, covered_append, hsame, or_assoc]

/-! What a search comes to -/

/-- Where a run holds an offset, the search comes to that run. -/
theorem getElem?_partitionPoint (h : Separated is) (hi : i ∈ is) (hp : i.start ≤ p ∧ p < i.stop) :
    is[partitionPoint (fun i => decide (i.stop ≤ p)) is]? = some i := by
  obtain ⟨before, behind, rfl, hplace, hbefore, hbehind⟩ := (partitioned_stop_le h p).exists_parts
  rw [hplace, List.getElem?_append_right (Nat.le_refl _), Nat.sub_self]
  rcases List.mem_append.1 hi with hi | hi
  · have := hbefore i hi
    simp at this
    omega
  cases behind with
  | nil => cases hi
  | cons j behind =>
    rcases List.mem_cons.1 hi with rfl | hi
    · rfl
    · have hgap := (separated_cons.1 (separated_append.1 h).2.1).2.1 i hi
      have := hbehind j List.mem_cons_self
      simp at this
      omega

theorem contains_eq (h : r.WellFormed) (p : Nat) : contains r p = r.contains p := by
  rw [Bool.eq_iff_iff, contains, contains_iff, Option.any_eq_true]
  constructor
  · rintro ⟨i, hi, hp⟩
    exact ⟨i, List.mem_of_getElem? hi, Interval.contains_iff.1 hp⟩
  · rintro ⟨i, hi, hp⟩
    exact ⟨i, getElem?_partitionPoint h hi hp, Interval.contains_iff.2 hp⟩

theorem covers_eq (h : r.WellFormed) (s e : Nat) : covers r s e = r.covers s e := by
  unfold covers
  split
  · rename_i hempty
    simp [Region.covers, hempty]
  · rename_i hlt
    rw [Bool.eq_iff_iff, Region.covers, decide_eq_false hlt, Bool.false_or, List.any_eq_true,
      Option.any_eq_true]
    constructor
    · rintro ⟨i, hi, hin⟩
      exact ⟨i, List.mem_of_getElem? hi, hin⟩
    · rintro ⟨i, hi, hin⟩
      refine ⟨i, getElem?_partitionPoint h hi ?_, hin⟩
      simp only [Bool.and_eq_true, decide_eq_true_eq] at hin
      omega

/-- A range makes one run of those that it touches. -/
theorem spliced_eq_add (h : Separated (before ++ met ++ behind)) (hlt : s < e) {m : Interval}
    (hbefore : ∀ i ∈ before, i.stop < m.start) (hbehind : ∀ i ∈ behind, m.stop < i.start)
    (hm : ∀ p, m.start ≤ p ∧ p < m.stop ↔ (s ≤ p ∧ p < e) ∨ Covered met p) :
    ⟨before ++ [m] ++ behind⟩ = Region.add ⟨before ++ met ++ behind⟩ s e := by
  have hhere := (hm s).2 (.inl ⟨Nat.le_refl s, hlt⟩)
  refine spliced_eq h ?_ ?_ ?_ (wellFormed_add h s e) fun p => ?_
  · exact separated_cons.2 ⟨by omega, fun j hj => (by cases hj), separated_nil⟩
  · intro i hi j hj
    rw [List.mem_singleton.1 hj]
    exact hbefore i hi
  · intro i hi j hj
    rw [List.mem_singleton.1 hi]
    exact hbehind j hj
  · rw [contains_add h, contains_iff_covered, covered_append, covered_append, covered_cons, hm]
    simp only [covered_nil, or_false]
    tauto

/-- A range reaches from the first run that it touches to the last. -/
theorem contains_hull (hhead : head ∈ met) (htail : tail ∈ met) (h : Separated met)
    (hmet : ∀ i ∈ met, s ≤ i.stop ∧ i.start ≤ e)
    (hends : ∀ i ∈ met, (i = head ∨ head.stop < i.start) ∧ (i = tail ∨ i.stop < tail.start)) :
    min s head.start ≤ p ∧ p < max e tail.stop ↔ (s ≤ p ∧ p < e) ∨ Covered met p := by
  have hheadWell := h.1 head hhead
  have htailWell := h.1 tail htail
  have hheadMet := hmet head hhead
  have htailMet := hmet tail htail
  constructor
  · intro hp
    by_cases hin : s ≤ p ∧ p < e
    · exact .inl hin
    · -- before the range lies only the first run, and behind it only the last
      by_cases hle : p < s
      · exact .inr ⟨head, hhead, by omega⟩
      · exact .inr ⟨tail, htail, by omega⟩
  · rintro (hin | ⟨i, hi, hin⟩)
    · omega
    · have hmeets := hends i hi
      grind

theorem add_eq (h : r.WellFormed) (s e : Nat) : add r s e = some (r.add s e) := by
  unfold add
  split
  · rename_i hempty
    rw [Region.add, if_pos hempty]
  rename_i hlt
  obtain ⟨is⟩ := r
  have hlast : Partitioned (fun i => decide (i.start ≤ e)) is :=
    .of_separated h fun i j hstart _ hj => by simp at hj ⊢; omega
  obtain ⟨before, met, behind, rfl, hplace, hplace', hbefore, hmet, hbehind⟩ :=
    (partitioned_stop_lt h s).exists_three hlast fun i hi hlt => by
      have := h.1 i hi
      simp at hlt ⊢
      omega
  simp only [decide_eq_true_eq] at hbefore
  simp only [decide_eq_true_eq, decide_eq_false_iff_not, Nat.not_lt] at hmet
  simp only [decide_eq_false_iff_not, Nat.not_le] at hbehind
  obtain ⟨hfront, -, hgap'⟩ := separated_append.1 h
  obtain ⟨-, hwell, hgap⟩ := separated_append.1 hfront
  dsimp only
  rw [hplace, hplace']
  by_cases hne : met = []
  · subst hne
    rw [List.length_nil, Nat.add_zero, if_pos rfl]
    refine congrArg some ((congrArg Region.mk (splice_parts before [] behind _)).trans ?_)
    exact spliced_eq_add h (by omega) hbefore hbehind fun p => by simp
  · obtain ⟨head, tail, ⟨hhead, htail⟩, hget, hget', hends⟩ := exists_ends hwell hne before behind
    have hlength := List.length_pos_iff.2 hne
    rw [if_neg (by omega), hget, hget', Option.bind_eq_bind, Option.bind_some, Option.bind_some,
      splice_parts]
    refine congrArg some (spliced_eq_add h (by omega) ?_ ?_ fun p => ?_)
    · intro i hi
      exact Nat.lt_min.2 ⟨hbefore i hi, hgap i hi head hhead⟩
    · intro i hi
      exact Nat.max_lt.2 ⟨hbehind i hi, hgap' tail (List.mem_append_right _ htail) i hi⟩
    · exact contains_hull hhead htail hwell hmet hends

theorem mem_remnants : i ∈ remnants s e head tail ↔
    (head.start < s ∧ i = ⟨head.start, s⟩) ∨ (e < tail.stop ∧ i = ⟨e, tail.stop⟩) := by
  rw [remnants, List.mem_append]
  split <;> split <;> simp [*]

theorem separated_remnants (hlt : s < e) (head tail : Interval) :
    Separated (remnants s e head tail) := by
  refine ⟨fun i hi => ?_, ?_⟩
  · rcases mem_remnants.1 hi with ⟨hpart, rfl⟩ | ⟨hpart, rfl⟩ <;> exact hpart
  · unfold remnants
    split <;> split <;> simp [hlt]

/-- Of the runs that a range meets, only the first and the last have offsets outside of it. -/
theorem covered_remnants (hhead : head ∈ met) (htail : tail ∈ met)
    (hmet : ∀ i ∈ met, s < i.stop ∧ i.start < e)
    (hends : ∀ i ∈ met, (i = head ∨ head.stop < i.start) ∧ (i = tail ∨ i.stop < tail.start)) :
    Covered (remnants s e head tail) p ↔ Covered met p ∧ ¬(s ≤ p ∧ p < e) := by
  have hheadMet := hmet head hhead
  have htailMet := hmet tail htail
  constructor
  · rintro ⟨i, hi, hin⟩
    rcases mem_remnants.1 hi with ⟨-, rfl⟩ | ⟨-, rfl⟩ <;> dsimp only at hin
    · exact ⟨⟨head, hhead, by omega⟩, by omega⟩
    · exact ⟨⟨tail, htail, by omega⟩, by omega⟩
  · rintro ⟨⟨i, hi, hin⟩, hout⟩
    obtain ⟨hfrom, hto⟩ := hends i hi
    by_cases hle : p < s
    · obtain rfl : i = head := hfrom.resolve_right (by omega)
      exact ⟨⟨i.start, s⟩, mem_remnants.2 (.inl ⟨by omega, rfl⟩), hin.1, hle⟩
    · obtain rfl : i = tail := hto.resolve_right (by omega)
      have hfar : e ≤ p := by omega
      exact ⟨⟨e, i.stop⟩, mem_remnants.2 (.inr ⟨by omega, rfl⟩), hfar, hin.2⟩

/-- The runs that a range meets go, but for what the first has before it and the last behind it. -/
theorem spliced_eq_subtract {others : List Interval} (h : Separated (before ++ met ++ behind))
    (hbefore : ∀ i ∈ before, i.stop ≤ s) (hbehind : ∀ i ∈ behind, e ≤ i.start)
    (hothers : Separated others) (hleft : ∀ i ∈ before, ∀ j ∈ others, i.stop < j.start)
    (hright : ∀ i ∈ others, ∀ j ∈ behind, i.stop < j.start)
    (hsame : ∀ p, Covered others p ↔ Covered met p ∧ ¬(s ≤ p ∧ p < e)) :
    ⟨before ++ others ++ behind⟩ = Region.subtract ⟨before ++ met ++ behind⟩ s e := by
  refine spliced_eq h hothers hleft hright (wellFormed_subtract h s e) fun p => ?_
  have houtside : Covered before p ∨ Covered behind p → ¬(s ≤ p ∧ p < e) := by
    rintro (⟨i, hi, hp⟩ | ⟨i, hi, hp⟩)
    · have := hbefore i hi
      omega
    · have := hbehind i hi
      omega
  rw [contains_subtract, contains_iff_covered, covered_append, covered_append, hsame]
  tauto

theorem subtract_eq (h : r.WellFormed) (s e : Nat) : subtract r s e = some (r.subtract s e) := by
  unfold subtract
  split
  · rename_i hempty
    rw [Region.subtract, if_pos hempty]
  rename_i hlt
  obtain ⟨is⟩ := r
  obtain ⟨before, met, behind, rfl, hplace, hplace', hbefore, hmet, hbehind⟩ :=
    (partitioned_stop_le h s).exists_three (partitioned_start_lt h e) fun i hi hlt => by
      have := h.1 i hi
      simp at hlt ⊢
      omega
  simp only [decide_eq_true_eq] at hbefore
  simp only [decide_eq_true_eq, decide_eq_false_iff_not, Nat.not_le] at hmet
  simp only [decide_eq_false_iff_not, Nat.not_lt] at hbehind
  obtain ⟨hfront, -, hgap'⟩ := separated_append.1 h
  obtain ⟨-, hwell, hgap⟩ := separated_append.1 hfront
  dsimp only
  rw [hplace, hplace']
  by_cases hne : met = []
  · subst hne
    rw [List.length_nil, Nat.add_zero, if_pos (Nat.le_refl _)]
    exact congrArg some (spliced_eq_subtract h hbefore hbehind hwell hgap
      (fun i hi => (by cases hi)) fun p => by simp)
  · obtain ⟨head, tail, ⟨hhead, htail⟩, hget, hget', hends⟩ := exists_ends hwell hne before behind
    have hlength := List.length_pos_iff.2 hne
    rw [if_neg (by omega), hget, hget', Option.bind_eq_bind, Option.bind_some, Option.bind_some,
      splice_parts]
    have hkept := separated_remnants (Nat.lt_of_not_le hlt) head tail
    refine congrArg some (spliced_eq_subtract h hbefore hbehind hkept ?_ ?_ fun p =>
      covered_remnants hhead htail hmet hends)
    · intro i hi j hj
      have hheadGap := hgap i hi head hhead
      have hle := hbefore i hi
      rcases mem_remnants.1 hj with ⟨-, rfl⟩ | ⟨-, rfl⟩
      · exact hheadGap
      · exact Nat.lt_of_le_of_lt hle (Nat.lt_of_not_le hlt)
    · intro i hi j hj
      have htailGap := hgap' tail (List.mem_append_right _ htail) j hj
      have hle := hbehind j hj
      rcases mem_remnants.1 hi with ⟨-, rfl⟩ | ⟨-, rfl⟩
      · exact Nat.lt_of_lt_of_le (Nat.lt_of_not_le hlt) hle
      · exact htailGap

/-- Behind the runs that end before a range, those that begin before its end are the ones which it
meets. -/
theorem intersect_eq (h : r.WellFormed) (s e : Nat) : intersect r s e = r.intersect s e := by
  have hdropped {is : List Interval} (his : ∀ i ∈ is, i.stop ≤ s ∨ e ≤ i.start ∨ e ≤ s) :
      (is.map (·.clip s e)).filter (!·.isEmpty) = [] := by
    simp only [List.filter_eq_nil_iff, List.mem_map]
    rintro _ ⟨i, hi, rfl⟩
    have := his i hi
    simp [Interval.clip, Interval.isEmpty]
    omega
  unfold intersect
  split
  · rename_i hempty
    exact congrArg Region.mk (hdropped fun i _ => .inr (.inr hempty)).symm
  rename_i hlt
  obtain ⟨is⟩ := r
  obtain ⟨before, rest, rfl, hplace, hbefore, -⟩ := (partitioned_stop_le h s).exists_parts
  have hrest : Separated rest := (separated_append.1 h).2.1
  obtain ⟨met, behind, rfl, -, hmet, hbehind⟩ := (partitioned_start_lt hrest e).exists_parts
  have htaken : (met ++ behind).takeWhile (fun i => decide (i.start < e)) = met := by
    rw [List.takeWhile_append_of_pos hmet]
    cases behind with
    | nil => exact List.append_nil met
    | cons j behind => simp [hbehind j List.mem_cons_self]
  simp only [decide_eq_true_eq, decide_eq_false_iff_not, Nat.not_lt] at hbefore hbehind
  dsimp only
  rw [hplace, List.drop_left, htaken, Region.intersect]
  simp only [List.map_append, List.filter_append]
  rw [hdropped fun i hi => .inl (hbefore i hi), hdropped fun i hi => .inr (.inl (hbehind i hi)),
    List.nil_append, List.append_nil]

theorem shiftForInsertion_eq (h : r.WellFormed) (pos len : Nat) :
    shiftForInsertion r pos len = r.shiftForInsertion pos len := by
  unfold shiftForInsertion Region.shiftForInsertion
  split
  · rfl
  obtain ⟨is⟩ := r
  obtain ⟨before, behind, rfl, hplace, hbefore, hbehind⟩ :=
    (partitioned_stop_le h pos).exists_parts
  simp only [decide_eq_true_eq, decide_eq_false_iff_not] at hbefore hbehind
  have hstay : before.map (afterInsertion pos len) = before :=
    (List.map_congr_left fun i hi => if_pos (hbefore i hi)).trans (List.map_id before)
  dsimp only
  rw [hplace, List.take_left, List.drop_left, List.map_append, hstay]
  refine congrArg Region.mk (congrArg (before ++ ·) (List.map_congr_left fun i hi => ?_))
  rw [afterInsertion, if_neg (hbehind i hi)]

/-- A run that begins behind the beginnings of all others touches none but the last. -/
theorem fuseLast_spec (h : Separated is) (hbehind : ∀ k ∈ is, k.start ≤ i.start) :
    Separated (fuseLast is i) ∧
      (∀ p, Covered (fuseLast is i) p ↔ Covered is p ∨ (i.start ≤ p ∧ p < i.stop)) ∧
        ∀ k ∈ fuseLast is i, k.start ≤ i.start := by
  have hsingle (j : Interval) (hj : j.start < j.stop) : Separated [j] :=
    separated_cons.2 ⟨hj, fun k hk => (by cases hk), separated_nil⟩
  unfold fuseLast
  split
  · rename_i hempty
    rw [Interval.isEmpty, decide_eq_true_eq] at hempty
    exact ⟨h, fun p => ⟨.inl, fun hp => hp.resolve_right (by omega)⟩, hbehind⟩
  rename_i hne
  rw [Interval.isEmpty, decide_eq_true_eq] at hne
  rcases List.eq_nil_or_concat is with rfl | ⟨front, last, hconcat⟩
  · refine ⟨hsingle i (by omega), fun p => by simp [Covered], fun k hk => ?_⟩
    rw [List.mem_singleton.1 hk]
  rw [List.concat_eq_append] at hconcat
  subst hconcat
  obtain ⟨hfront, hlast, hgap⟩ := separated_append.1 h
  have hlastWell := hlast.1 last (List.mem_singleton_self last)
  have hlastStart := hbehind last (by simp)
  rw [List.getLast?_concat, List.dropLast_concat]
  dsimp only
  split
  · rename_i htouches
    refine ⟨separated_append.2 ⟨hfront, hsingle _ ?_, ?_⟩, fun p => ?_, fun k hk => ?_⟩
    · exact Nat.lt_of_lt_of_le hlastWell (Nat.le_max_left _ _)
    · intro k hk j hj
      rw [List.mem_singleton.1 hj]
      exact hgap k hk last (List.mem_singleton_self last)
    · simp only [covered_append, covered_cons, covered_nil, or_false, or_assoc]
      refine or_congr_right ?_
      omega
    · rcases List.mem_append.1 hk with hk | hk
      · exact hbehind k (List.mem_append_left _ hk)
      · rw [List.mem_singleton.1 hk]
        exact hlastStart
  · rename_i hapart
    refine ⟨separated_append.2 ⟨h, hsingle i (by omega), ?_⟩, fun p => ?_, fun k hk => ?_⟩
    · intro k hk j hj
      rw [List.mem_singleton.1 hj]
      rcases List.mem_append.1 hk with hk | hk
      · have := hgap k hk last (List.mem_singleton_self last)
        omega
      · rw [List.mem_singleton.1 hk]
        omega
    · rw [covered_append, covered_cons]
      simp
    · rcases List.mem_append.1 hk with hk | hk
      · exact hbehind k hk
      · rw [List.mem_singleton.1 hk]

/-- Runs that come in order are collected behind those that are there. -/
theorem foldl_fuseLast {rest : List Interval} (h : Separated is)
    (hrest : rest.Pairwise fun i j => i.start ≤ j.start)
    (hbehind : ∀ i ∈ is, ∀ j ∈ rest, i.start ≤ j.start) :
    Separated (rest.foldl fuseLast is) ∧
      ∀ p, Covered (rest.foldl fuseLast is) p ↔ Covered is p ∨ Covered rest p := by
  induction rest generalizing is with
  | nil => exact ⟨h, fun p => by simp⟩
  | cons i rest ih =>
    obtain ⟨hfirst, hrest⟩ := List.pairwise_cons.1 hrest
    obtain ⟨hwell, hcovered, hstarts⟩ :=
      fuseLast_spec h fun k hk => hbehind k hk i List.mem_cons_self
    obtain ⟨hall, hcovered'⟩ :=
      ih hwell hrest fun k hk j hj => (hstarts k hk).trans (hfirst j hj)
    refine ⟨hall, fun p => ?_⟩
    rw [List.foldl_cons, hcovered', hcovered, covered_cons, or_assoc]

/-- What lies before the range stays where it is. -/
theorem map_moved_before (h : Separated before) (hbefore : ∀ i ∈ before, i.stop < s) :
    before.map (moved s e) = before := by
  refine (List.map_congr_left fun i hi => ?_).trans (List.map_id before)
  have hlt := hbefore i hi
  have hi := h.1 i hi
  rw [moved, afterDeletion, afterDeletion, if_pos (by omega), if_pos (by omega)]
  rfl

/-- The runs that are moved still come in order, none before those that stay. -/
theorem foldl_moved (h : Separated (before ++ behind)) (hbefore : ∀ i ∈ before, i.stop < s)
    (hlt : s < e) :
    Separated ((behind.map (moved s e)).foldl fuseLast before) ∧
      ∀ p, Covered ((behind.map (moved s e)).foldl fuseLast before) p ↔
        Covered before p ∨ Covered (behind.map (moved s e)) p := by
  obtain ⟨hwell, hwell', hgap⟩ := separated_append.1 h
  refine foldl_fuseLast hwell (List.pairwise_map.2 (hwell'.2.imp_of_mem ?_)) ?_
  · intro i j hi _ hij
    have hi := hwell'.1 i hi
    exact afterDeletion_mono (by omega) hlt
  · intro i hi j hj
    obtain ⟨k, hk, rfl⟩ := List.mem_map.1 hj
    have hnonempty := hwell.1 i hi
    have hleft := hbefore i hi
    have hlate := hgap i hi k hk
    have hstart : afterDeletion s e i.start = i.start := if_pos (by omega)
    rw [← hstart]
    exact afterDeletion_mono (by omega) hlt

theorem shiftForDeletion_eq (h : r.WellFormed) (s e : Nat) :
    shiftForDeletion r s e = r.shiftForDeletion s e := by
  unfold shiftForDeletion
  split
  · rename_i hempty
    rw [Region.shiftForDeletion, if_pos hempty]
  rename_i hlt
  have hshifted := wellFormed_shiftForDeletion h s e
  obtain ⟨is⟩ := r
  obtain ⟨before, behind, rfl, hplace, hbefore, -⟩ := (partitioned_stop_lt h s).exists_parts
  simp only [decide_eq_true_eq] at hbefore
  have hwell := (separated_append.1 h).1
  obtain ⟨hcollected, hcovered⟩ := foldl_moved h hbefore (Nat.lt_of_not_le hlt)
  have hsame : ⟨(behind.map (moved s e)).foldl fuseLast before⟩ =
      Region.shiftForDeletion ⟨before ++ behind⟩ s e := by
    apply eq_of_contains hcollected hshifted
    intro p
    rw [contains_iff_covered, hcovered, Region.shiftForDeletion, if_neg hlt, contains_ofList]
    change _ ↔ Covered ((before ++ behind).map (moved s e)) p
    rw [List.map_append, map_moved_before hwell hbefore, covered_append]
  dsimp only
  rw [hplace]
  split
  · rename_i hend
    rw [List.length_append] at hend
    obtain rfl : behind = [] := List.eq_nil_of_length_eq_zero (by omega)
    rw [← hsame, List.append_nil]
    rfl
  · rw [List.take_left, List.drop_left]
    exact hsame

/-! Runs of changes -/

/-- There is no result if a run that is asked for is not there. -/
def change (r : Region) : Change → Option (Except Fault Region)
  | .add start stop => (add r start stop).map .ok
  | .subtract start stop => (subtract r start stop).map .ok
  | .clear => some (.ok .empty)
  | .insertion pos len =>
    let shifted := shiftForInsertion r pos len
    some (if shifted.intervals.all fun i => decide (i.stop ≤ offsetLimit) then .ok shifted
      else .error .offsetOverflow)
  | .deletion start stop => some (.ok (shiftForDeletion r start stop))

/-- The changes one after the other, up to one that is refused. -/
def changeAll (r : Region) : List Change → Option (Except Fault Region)
  | [] => some (.ok r)
  | c :: cs => (change r c).bind fun
    | .ok r' => changeAll r' cs
    | .error fault => some (.error fault)

theorem change_eq (h : r.WellFormed) (c : Change) : change r c = some (r.change c) := by
  cases c with
  | add start stop => rw [change, add_eq h]; rfl
  | subtract start stop => rw [change, subtract_eq h]; rfl
  | clear => rfl
  | insertion pos len =>
    rw [change, shiftForInsertion_eq h]
    rfl
  | deletion start stop => rw [change, shiftForDeletion_eq h]; rfl

theorem wellFormed_change (h : r.WellFormed) {c : Change} {r' : Region}
    (hdone : r.change c = .ok r') : r'.WellFormed := by
  cases c with
  | add start stop =>
    obtain rfl := Except.ok.inj hdone
    exact wellFormed_add h start stop
  | subtract start stop =>
    obtain rfl := Except.ok.inj hdone
    exact wellFormed_subtract h start stop
  | clear =>
    obtain rfl := Except.ok.inj hdone
    exact wellFormed_empty
  | insertion pos len =>
    rw [Region.change, Region.shiftForInsertion?] at hdone
    split at hdone
    · obtain rfl := Except.ok.inj hdone
      exact wellFormed_shiftForInsertion h pos len
    · cases hdone
  | deletion start stop =>
    obtain rfl := Except.ok.inj hdone
    exact wellFormed_shiftForDeletion h start stop

/-- However changes follow each other, every run that a search asks for is there, and they come to
the same region, or are refused alike. -/
theorem changeAll_eq (h : r.WellFormed) (cs : List Change) :
    changeAll r cs = some (r.changeAll cs) := by
  induction cs generalizing r with
  | nil => rfl
  | cons c cs ih =>
    rw [changeAll, change_eq h, Option.bind_some, Region.changeAll, List.foldlM_cons]
    cases hdone : r.change c with
    | error fault => rfl
    | ok r' => exact ih (wellFormed_change h hdone)

end Search
end Region
end CodeBuffer
