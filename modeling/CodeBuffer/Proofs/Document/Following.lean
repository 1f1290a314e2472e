import CodeBuffer.Proofs.Document.Consistent

namespace CodeBuffer

namespace Region

variable {a b o len start stop : Nat}

/-- One run from `a` to `b`, or nothing if `b` does not lie behind `a`. -/
def between (a b : Nat) : Region := ⟨if a < b then [⟨a, b⟩] else []⟩

theorem between_of_lt (h : a < b) : between a b = ⟨[⟨a, b⟩]⟩ := by rw [between, if_pos h]

theorem between_of_le (h : b ≤ a) : between a b = ⟨[]⟩ := by
  rw [between, if_neg (Nat.not_lt.2 h)]

/-- A run grows by what is inserted inside it and not by what is inserted at its ends. -/
theorem shiftForInsertion_between (hlen : 0 < len) :
    (between a b).shiftForInsertion o len =
      between (if a < o then a else a + len) (if b ≤ o then b else b + len) := by
  rw [shiftForInsertion, if_neg (Nat.ne_of_gt hlen)]
  rcases Nat.lt_or_ge a b with hlt | hge
  · rw [between_of_lt hlt, List.map_singleton, afterInsertion]
    split
    · rename_i hbefore
      dsimp only at hbefore
      rw [if_pos (by omega), between_of_lt hlt]
    · split
      · rename_i hbehind
        rw [if_neg (Nat.not_lt.2 hbehind), between_of_lt (Nat.add_lt_add_right hlt len)]
      · rename_i hinside
        rw [if_pos (Nat.not_le.1 hinside), between_of_lt (by omega)]
  · rw [between_of_le hge, List.map_nil, between_of_le]
    -- a run that is gone does not come back, for its end moves only together with its start
    split
    · split <;> omega
    · rw [if_neg (by omega)]
      omega

theorem shiftForDeletion_between (hlt : start < stop) :
    (between a b).shiftForDeletion start stop =
      between (afterDeletion start stop a) (afterDeletion start stop b) := by
  rw [shiftForDeletion, if_neg (Nat.not_le.2 hlt)]
  rcases Nat.lt_or_ge a b with hab | hba
  · rw [between_of_lt hab]
    simp only [List.map_singleton, ofList, List.foldr_cons, List.foldr_nil, add, between]
    by_cases hleft : afterDeletion start stop a < afterDeletion start stop b
    · rw [if_neg (Nat.not_le.2 hleft), if_pos hleft]
      rfl
    · rw [if_pos (Nat.not_lt.1 hleft), if_neg hleft]
      rfl
  · rw [between_of_le hba, between_of_le (afterDeletion_mono hba hlt)]
    rfl

end Region

namespace Mark

variable {a b o len start stop : Nat}

theorem afterInsertion_right (a o len : Nat) :
    afterInsertion o len ⟨a, false⟩ = ⟨if a < o then a else a + len, false⟩ := by
  unfold afterInsertion
  by_cases h : a < o
  · rw [if_pos h, if_neg (by rintro (hlt | ⟨heq, -⟩) <;> dsimp only at * <;> omega)]
  · rw [if_neg h, if_pos]
    rcases Nat.lt_or_eq_of_le (Nat.not_lt.1 h) with hlt | heq
    · exact .inl hlt
    · exact .inr ⟨heq.symm, rfl⟩

theorem afterInsertion_left (b o len : Nat) :
    afterInsertion o len ⟨b, true⟩ = ⟨if b ≤ o then b else b + len, true⟩ := by
  unfold afterInsertion
  by_cases h : b ≤ o
  · rw [if_pos h, if_neg]
    rintro (hlt | ⟨-, hright⟩)
    · exact Nat.not_lt.2 h hlt
    · cases hright
  · rw [if_neg h, if_pos (.inl (Nat.not_le.1 h))]

/-- A deletion moves marks of either gravity as it moves the ends of runs. -/
theorem afterDeletion_eq (hlt : start < stop) (o : Nat) (g : Bool) :
    afterDeletion start stop ⟨o, g⟩ = ⟨Region.afterDeletion start stop o, g⟩ := by
  unfold afterDeletion Region.afterDeletion
  dsimp only
  by_cases hbefore : o ≤ start
  · rw [if_pos hbefore, if_neg (by omega), if_neg (by omega)]
  · rw [if_neg hbefore]
    split
    · rfl
    · rw [if_pos (Nat.not_le.1 hbefore)]

end Mark

namespace Document

variable {d : Document} {tag : TagId} {first last : MarkId} {a b o start stop : Nat}

/-- Insertions and deletions. -/
def Operation.IsEdit : Operation → Prop
  | .insert _ _ => True
  | .delete _ _ => True
  | _ => False

/-- The tag lies exactly between two marks, from a mark that goes behind what is inserted at it to
one that stays before it; it lies nowhere once the marks have met or crossed. -/
structure Follows (d : Document) (tag : TagId) (first last : MarkId) (a b : Nat) : Prop where
  first : d.mark? first = some ⟨a, false⟩
  last : d.mark? last = some ⟨b, true⟩
  ranges : d.tags.ranges? tag = some (.between a b)

theorem Follows.inserted (h : d.Follows tag first last a b) (o : Nat) (t : Text) :
    ∃ a' b', (d.inserted o t).Follows tag first last a' b' := by
  by_cases ht : t = []
  · subst ht
    exact ⟨a, b, h⟩
  refine ⟨if a < o then a else a + t.length, if b ≤ o then b else b + t.length, ?_, ?_, ?_⟩
  · rw [mark?_inserted ht, h.first, Option.map_some, Mark.afterInsertion_right]
  · rw [mark?_inserted ht, h.last, Option.map_some, Mark.afterInsertion_left]
  · have hlen : 0 < t.length := List.length_pos_iff.2 ht
    rw [tags_inserted ht, TagTable.ranges?_mapRanges, h.ranges, Option.map_some,
      Region.shiftForInsertion_between hlen]

theorem Follows.deleted (h : d.Follows tag first last a b) (hle : start ≤ stop) :
    ∃ a' b', (d.deleted start stop).Follows tag first last a' b' := by
  by_cases hne : start = stop
  · rw [Document.deleted, if_pos hne]
    exact ⟨a, b, h⟩
  have hlt : start < stop := Nat.lt_of_le_of_ne hle hne
  refine ⟨Region.afterDeletion start stop a, Region.afterDeletion start stop b, ?_, ?_, ?_⟩
  · rw [mark?_deleted hne, h.first, Option.map_some, Mark.afterDeletion_eq hlt]
  · rw [mark?_deleted hne, h.last, Option.map_some, Mark.afterDeletion_eq hlt]
  · rw [tags_deleted hne, TagTable.ranges?_mapRanges, h.ranges, Option.map_some,
      Region.shiftForDeletion_between hlt]

theorem Follows.operate (h : d.Follows tag first last a b) {op : Operation} (hop : op.IsEdit) :
    ∃ a' b', (d.operate op).Follows tag first last a' b' := by
  cases op with
  | insert o t =>
    rcases d.operate_insert_cases o t with hsame | ⟨-, hins⟩
    · rw [hsame]
      exact ⟨a, b, h⟩
    · rw [hins]
      exact h.inserted o t
  | delete start stop =>
    rcases d.operate_delete_cases start stop with hsame | ⟨⟨hle, -⟩, hdel⟩
    · rw [hsame]
      exact ⟨a, b, h⟩
    · rw [hdel]
      exact h.deleted hle
  | _ => exact hop.elim

theorem Follows.operateAll (h : d.Follows tag first last a b) {ops : List Operation}
    (hops : ∀ op ∈ ops, op.IsEdit) :
    ∃ a' b', (d.operateAll ops).Follows tag first last a' b' := by
  induction ops generalizing d a b with
  | nil => exact ⟨a, b, h⟩
  | cons op ops ih =>
    obtain ⟨a', b', h'⟩ := h.operate (hops op List.mem_cons_self)
    exact ih h' fun op' hop' => hops op' (List.mem_cons_of_mem op hop')

/-- Marks that are made at the ends of a tag's only run. -/
theorem follows_createMark (hlt : start < stop) (hstop : stop ≤ d.length)
    (htag : d.tagRanges tag = [⟨start, stop⟩]) :
    let e := (d.createMark start false).2
    (e.createMark stop true).2.Follows tag (d.createMark start false).1 (e.createMark stop true).1
      start stop := by
  intro e
  obtain ⟨-, hfirst⟩ := d.createMark_cases start false
  obtain ⟨hfree, hlast⟩ := e.createMark_cases stop true
  have hthere : e.mark? (d.createMark start false).1 = some ⟨start, false⟩ := by
    rw [hfirst, if_pos rfl, Nat.min_eq_left (by omega)]
  have hlength : e.length = d.length := length_createMark d start false
  refine ⟨?_, ?_, ?_⟩
  · rw [hlast, if_neg, hthere]
    -- the second mark takes a slot that was free, so not that of the first one
    intro heq
    rw [← heq, hthere] at hfree
    cases hfree
  · rw [hlast, if_pos rfl, Nat.min_eq_left (by omega)]
  · rw [tags_createMark, tags_createMark, Region.between_of_lt hlt]
    rw [tagRanges] at htag
    cases hr : d.tags.ranges? tag with
    | none => simp [hr, Region.empty] at htag
    | some r =>
      rw [hr, Option.getD_some] at htag
      exact congrArg (fun is => some (Region.mk is)) htag

/-- A tag and two marks at its ends that look away from it and towards it, respectively, go the
same way through every sequence of edits. -/
theorem tagRanges_eq_marks {ops : List Operation} (hlt : start < stop) (hstop : stop ≤ d.length)
    (htag : d.tagRanges tag = [⟨start, stop⟩]) (hops : ∀ op ∈ ops, op.IsEdit) :
    let first := d.createMark start false
    let last := first.2.createMark stop true
    let e := last.2.operateAll ops
    ∃ a b, e.markOffset? first.1 = some a ∧ e.markOffset? last.1 = some b ∧
      e.tagRanges tag = if a < b then [⟨a, b⟩] else [] := by
  intro first last e
  obtain ⟨a, b, h⟩ := (follows_createMark hlt hstop htag).operateAll hops
  refine ⟨a, b, ?_, ?_, ?_⟩
  · exact congrArg (Option.map Mark.offset) h.first
  · exact congrArg (Option.map Mark.offset) h.last
  · exact congrArg (fun r => (Option.getD r Region.empty).intervals) h.ranges

/-- "b" and "c" are tagged; the edits type at both ends, delete across the start, and reach over the
whole range, after which the two marks have crossed. -/
theorem tagRanges_eq_marks_crossing :
    let d := ((new 0 ['a', 'b', 'c', 'd']).createTag "t" none).2.applyTag 0 1 3
    let ops : List Operation :=
      [.insert 1 ['x'], .insert 4 ['y'], .delete 0 3, .delete 0 1, .insert 0 ['z']]
    (1 < 3 ∧ 3 ≤ d.length ∧ d.tagRanges 0 = [⟨1, 3⟩] ∧ ∀ op ∈ ops, op.IsEdit) ∧
      let first := d.createMark 1 false
      let last := first.2.createMark 3 true
      let e := last.2.operateAll ops
      ∃ a b, e.markOffset? first.1 = some a ∧ e.markOffset? last.1 = some b ∧
        e.tagRanges 0 = if a < b then [⟨a, b⟩] else [] := by
  intro d ops
  have hops : ∀ op ∈ ops, op.IsEdit := by simp [ops, Operation.IsEdit]
  have hrange : 3 ≤ d.length := by decide
  have htag : d.tagRanges 0 = [⟨1, 3⟩] := by decide
  exact ⟨⟨by decide, hrange, htag, hops⟩, tagRanges_eq_marks (by decide) hrange htag hops⟩

end Document
end CodeBuffer
