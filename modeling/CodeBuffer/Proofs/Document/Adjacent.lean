import CodeBuffer.Proofs.Document.Consistent
import CodeBuffer.Proofs.Observing.Edits
import CodeBuffer.Proofs.Region.Offsets

namespace CodeBuffer

/-! Neighbouring edits and the single edit that does the work of both. Two insertions are neighbours
if the second one is made behind the text of the first, or before it; two deletions, if the second
one goes on from the place where the first one was, to either side. -/

namespace Mark

variable (m : Mark) {o n k r s e : Nat}

theorem offset_afterInsertion : (m.afterInsertion o n).offset =
    if o < m.offset ∨ (m.offset = o ∧ m.leftGravity = false) then m.offset + n else m.offset := by
  unfold afterInsertion
  split <;> rfl

theorem leftGravity_afterInsertion : (m.afterInsertion o n).leftGravity = m.leftGravity := by
  unfold afterInsertion
  split <;> rfl

theorem offset_afterDeletion : (m.afterDeletion s e).offset =
    if e ≤ m.offset then m.offset - (e - s) else min s m.offset := by
  unfold afterDeletion
  split
  · rfl
  · split
    · rename_i hin
      exact (Nat.min_eq_left (Nat.le_of_lt hin)).symm
    · rename_i hout
      exact (Nat.min_eq_right (Nat.le_of_not_lt hout)).symm

theorem leftGravity_afterDeletion : (m.afterDeletion s e).leftGravity = m.leftGravity := by
  unfold afterDeletion
  split
  · rfl
  · split <;> rfl

variable {m} in
theorem eq_of_offset {m' : Mark} (h : m.offset = m'.offset)
    (hgravity : m.leftGravity = m'.leftGravity) : m = m' := by
  obtain ⟨offset, leftGravity⟩ := m
  cases h
  cases hgravity
  rfl

theorem afterInsertion_behind :
    (m.afterInsertion o n).afterInsertion (o + n) k = m.afterInsertion o (n + k) := by
  apply eq_of_offset
  · simp only [offset_afterInsertion, leftGravity_afterInsertion]
    cases m.leftGravity
    · simp only [and_true]
      split_ifs <;> omega
    · simp only [Bool.true_eq_false, and_false, or_false]
      split_ifs <;> omega
  · simp only [leftGravity_afterInsertion]

theorem afterInsertion_before :
    (m.afterInsertion o n).afterInsertion o k = m.afterInsertion o (k + n) := by
  apply eq_of_offset
  · simp only [offset_afterInsertion, leftGravity_afterInsertion]
    cases m.leftGravity
    · simp only [and_true]
      split_ifs <;> omega
    · simp only [Bool.true_eq_false, and_false, or_false]
      split_ifs <;> omega
  · simp only [leftGravity_afterInsertion]

theorem afterDeletion_forward (h : s ≤ e) :
    (m.afterDeletion s e).afterDeletion s (s + n) = m.afterDeletion s (e + n) := by
  apply eq_of_offset
  · simp only [offset_afterDeletion]
    split_ifs <;> omega
  · simp only [leftGravity_afterDeletion]

theorem afterDeletion_backward (hr : r ≤ s) (h : s ≤ e) :
    (m.afterDeletion s e).afterDeletion r s = m.afterDeletion r e := by
  apply eq_of_offset
  · simp only [offset_afterDeletion]
    split_ifs <;> omega
  · simp only [leftGravity_afterDeletion]

end Mark

namespace Region

variable (r : Region) {o n k q s e : Nat}

theorem afterInsertion_zero (i : Interval) : afterInsertion o 0 i = i := by
  unfold afterInsertion
  split
  · rfl
  · split <;> rfl

theorem shiftForInsertion_eq :
    r.shiftForInsertion o n = ⟨r.intervals.map (afterInsertion o n)⟩ := by
  unfold shiftForInsertion
  split
  · rename_i hzero
    have hid : afterInsertion o 0 = id := funext afterInsertion_zero
    rw [hzero, hid, List.map_id]
  · rfl

theorem afterInsertion_behind (i : Interval) :
    afterInsertion (o + n) k (afterInsertion o n i) = afterInsertion o (n + k) i := by
  unfold afterInsertion
  grind

theorem afterInsertion_before (i : Interval) :
    afterInsertion o k (afterInsertion o n i) = afterInsertion o (k + n) i := by
  unfold afterInsertion
  grind

theorem shiftForInsertion_behind :
    (r.shiftForInsertion o n).shiftForInsertion (o + n) k = r.shiftForInsertion o (n + k) := by
  simp only [shiftForInsertion_eq, List.map_map, Function.comp_def, afterInsertion_behind]

theorem shiftForInsertion_before :
    (r.shiftForInsertion o n).shiftForInsertion o k = r.shiftForInsertion o (k + n) := by
  simp only [shiftForInsertion_eq, List.map_map, Function.comp_def, afterInsertion_before]

/-- Once something is deleted, the runs are in order whatever they were before. -/
theorem wellFormed_of_deletion (h : s < e) : (r.shiftForDeletion s e).WellFormed := by
  unfold shiftForDeletion
  rw [if_neg (Nat.not_le_of_lt h)]
  exact wellFormed_ofList _

theorem shiftForDeletion_forward (h : s < e) (hn : 0 < n) :
    (r.shiftForDeletion s e).shiftForDeletion s (s + n) = r.shiftForDeletion s (e + n) := by
  apply eq_of_contains
  · exact wellFormed_of_deletion _ (by omega)
  · exact wellFormed_of_deletion _ (by omega)
  · intro p
    simp only [contains_shiftForDeletion]
    have hbehind : p + (s + n - s) + (e - s) = p + (e + n - s) := by omega
    rw [hbehind]
    grind

theorem shiftForDeletion_backward (hq : q < s) (h : s < e) :
    (r.shiftForDeletion s e).shiftForDeletion q s = r.shiftForDeletion q e := by
  apply eq_of_contains
  · exact wellFormed_of_deletion _ hq
  · exact wellFormed_of_deletion _ (hq.trans h)
  · intro p
    simp only [contains_shiftForDeletion]
    have hbehind : p + (s - q) + (e - s) = p + (e - q) := by omega
    rw [hbehind]
    grind

end Region

theorem TagTable.mapRanges_mapRanges (t : TagTable) {f g k : Region → Region}
    (h : ∀ r, g (f r) = k r) : (t.mapRanges f).mapRanges g = t.mapRanges k := by
  refine TagTable.ext ?_ rfl
  simp only [mapRanges, tags_withTags, List.map_map, Function.comp_def, h]

theorem map_marks_map (ms : List (Option Mark)) {f g k : Mark → Mark} (h : ∀ m, g (f m) = k m) :
    (ms.map (·.map f)).map (·.map g) = ms.map (·.map k) := by
  simp only [List.map_map, Function.comp_def, Option.map_map, h]

namespace Document

/-- Nothing but the count of the edits differs. -/
def SameButGeneration (d d' : Document) : Prop := ∃ n, d' = { d with generation := n }

namespace SameButGeneration

variable {d d' d'' : Document}

theorem trans (h : d.SameButGeneration d') (h' : d'.SameButGeneration d'') :
    d.SameButGeneration d'' := by
  obtain ⟨n, rfl⟩ := h
  obtain ⟨n', rfl⟩ := h'
  exact ⟨n', rfl⟩

theorem of_parts (d : Document) {text text' : Text} {marks marks' : List (Option Mark)}
    {tags tags' : TagTable} (m n : Nat) (htext : text = text') (hmarks : marks = marks')
    (htags : tags = tags') :
    SameButGeneration { d with text, marks, tags, generation := m }
      { d with text := text', marks := marks', tags := tags', generation := n } := by
  subst htext hmarks htags
  exact ⟨n, rfl⟩

theorem inserted (h : d.SameButGeneration d') (o : Nat) (t : Text) :
    (d.inserted o t).SameButGeneration (d'.inserted o t) := by
  obtain ⟨n, rfl⟩ := h
  unfold Document.inserted
  split
  · exact ⟨n, rfl⟩
  · exact ⟨n + 1, rfl⟩

theorem deleted (h : d.SameButGeneration d') (start stop : Nat) :
    (d.deleted start stop).SameButGeneration (d'.deleted start stop) := by
  obtain ⟨n, rfl⟩ := h
  unfold Document.deleted
  split
  · exact ⟨n, rfl⟩
  · exact ⟨n + 1, rfl⟩

theorem selectRange (h : d.SameButGeneration d') (insert bound : Nat) :
    (d.selectRange insert bound).SameButGeneration (d'.selectRange insert bound) := by
  obtain ⟨n, rfl⟩ := h
  exact ⟨n, rfl⟩

end SameButGeneration

variable {d : Document} {o q s e n i j i' j' : Nat} {t u : Text}

theorem inserted_of_ne (d : Document) (o : Nat) (ht : t ≠ []) : d.inserted o t = { d with
    text := d.text.take o ++ t ++ d.text.drop o
    generation := d.generation + 1
    marks := d.marks.map (·.map (Mark.afterInsertion o t.length))
    tags := d.tags.mapRanges (·.shiftForInsertion o t.length) } := by
  rw [inserted, if_neg]
  rwa [List.isEmpty_iff]

theorem deleted_of_ne (d : Document) (h : s ≠ e) : d.deleted s e = { d with
    text := d.text.take s ++ d.text.drop e
    generation := d.generation + 1
    marks := d.marks.map (·.map (Mark.afterDeletion s e))
    tags := d.tags.mapRanges (·.shiftForDeletion s e) } := by
  rw [deleted, if_neg h]

/-- A text, and another one behind it. -/
theorem inserted_behind (ho : o ≤ d.length) (ht : t ≠ []) (hu : u ≠ []) :
    ((d.inserted o t).inserted (o + t.length) u).SameButGeneration (d.inserted o (t ++ u)) := by
  rw [inserted_of_ne _ _ hu, inserted_of_ne d o ht, inserted_of_ne d o (by simp [ht])]
  have hfirst : (d.text.take o ++ t).length = o + t.length := by
    rw [List.length_append, List.length_take_of_le ho]
  dsimp only
  refine .of_parts d _ _ ?_ ?_ ?_
  · rw [← hfirst, List.take_left, List.drop_left]
    simp only [List.append_assoc]
  · rw [List.length_append]
    exact map_marks_map _ fun m => m.afterInsertion_behind
  · rw [List.length_append]
    exact d.tags.mapRanges_mapRanges fun r => r.shiftForInsertion_behind

/-- A text, and another one before it. -/
theorem inserted_before (ho : o ≤ d.length) (ht : t ≠ []) (hu : u ≠ []) :
    ((d.inserted o u).inserted o t).SameButGeneration (d.inserted o (t ++ u)) := by
  rw [inserted_of_ne _ _ ht, inserted_of_ne d o hu, inserted_of_ne d o (by simp [ht])]
  have hfirst : (d.text.take o).length = o := List.length_take_of_le ho
  dsimp only
  refine .of_parts d _ _ ?_ ?_ ?_
  · simp only [List.append_assoc]
    rw [List.take_left' hfirst, List.drop_left' hfirst]
  · rw [List.length_append]
    exact map_marks_map _ fun m => m.afterInsertion_before
  · rw [List.length_append]
    exact d.tags.mapRanges_mapRanges fun r => r.shiftForInsertion_before

/-- A range, and what comes to its place. -/
theorem deleted_forward (h : s < e) (he : e ≤ d.length) (hn : 0 < n) :
    ((d.deleted s e).deleted s (s + n)).SameButGeneration (d.deleted s (e + n)) := by
  rw [deleted_of_ne _ (by omega : s ≠ s + n), deleted_of_ne d h.ne,
    deleted_of_ne d (by omega : s ≠ e + n)]
  have hfirst : (d.text.take s).length = s := List.length_take_of_le (by unfold length at he; omega)
  dsimp only
  refine .of_parts d _ _ ?_ ?_ ?_
  · rw [List.take_left' hfirst]
    congr 1
    rw [← List.drop_drop, List.drop_left' hfirst, List.drop_drop]
  · exact map_marks_map _ fun m => m.afterDeletion_forward h.le
  · exact d.tags.mapRanges_mapRanges fun r => r.shiftForDeletion_forward h hn

/-- A range, and what is before it. -/
theorem deleted_backward (hq : q < s) (h : s < e) (he : e ≤ d.length) :
    ((d.deleted s e).deleted q s).SameButGeneration (d.deleted q e) := by
  rw [deleted_of_ne _ hq.ne, deleted_of_ne d h.ne, deleted_of_ne d (hq.trans h).ne]
  have hfirst : (d.text.take s).length = s := List.length_take_of_le (by unfold length at he; omega)
  dsimp only
  refine .of_parts d _ _ ?_ ?_ ?_
  · rw [List.drop_left' hfirst, List.take_append_of_le_length (by omega), List.take_take,
      Nat.min_eq_left hq.le]
  · exact map_marks_map _ fun m => m.afterDeletion_backward hq.le h.le
  · exact d.tags.mapRanges_mapRanges fun r => r.shiftForDeletion_backward hq h

/-! Of what is selected in between nothing is left once something else is. -/

/-- The first two marks are put elsewhere. -/
def reselected (x y : Nat) (ms : List (Option Mark)) : List (Option Mark) :=
  (ms.modify 0 (·.map ({ · with offset := x }))).modify 1 (·.map ({ · with offset := y }))

theorem selectRange_eq (d : Document) (i j : Nat) : d.selectRange i j =
    { d with marks := reselected (min i d.length) (min j d.length) d.marks } := rfl

theorem reselected_map_reselected (ms : List (Option Mark)) {f : Mark → Mark} {x y u v : Nat}
    (hf : ∀ m, (f m).leftGravity = m.leftGravity) :
    reselected u v ((reselected x y ms).map (·.map f)) = reselected u v (ms.map (·.map f)) := by
  unfold reselected
  rcases ms with _ | ⟨m, _ | ⟨k, ms⟩⟩
  · rfl
  · simp [Function.comp_def, hf]
  · simp [Function.comp_def, hf]

theorem selectRange_selectRange (d : Document) (i j i' j' : Nat) :
    (d.selectRange i j).selectRange i' j' = d.selectRange i' j' := by
  have hmarks := reselected_map_reselected d.marks (x := min i d.length) (y := min j d.length)
    (u := min i' d.length) (v := min j' d.length) (f := fun m => m) fun _ => rfl
  simp only [Option.map_id_fun', List.map_id_fun', id_eq] at hmarks
  rw [selectRange_eq, selectRange_eq, selectRange_eq]
  exact congrArg (fun marks => { d with marks }) hmarks

theorem selectRange_inserted_selectRange (d : Document) (i j o : Nat) (t : Text) (i' j' : Nat) :
    ((d.selectRange i j).inserted o t).selectRange i' j' = (d.inserted o t).selectRange i' j' := by
  by_cases ht : t = []
  · rw [ht]
    exact d.selectRange_selectRange i j i' j'
  · simp only [inserted_of_ne _ _ ht, selectRange_eq]
    rw [reselected_map_reselected d.marks fun m => m.leftGravity_afterInsertion]
    rfl

theorem selectRange_deleted_selectRange (d : Document) (i j s e i' j' : Nat) :
    ((d.selectRange i j).deleted s e).selectRange i' j' = (d.deleted s e).selectRange i' j' := by
  by_cases h : s = e
  · rw [deleted, deleted, if_pos h, if_pos h]
    exact d.selectRange_selectRange i j i' j'
  · simp only [deleted_of_ne _ h, selectRange_eq]
    rw [reselected_map_reselected d.marks fun m => m.leftGravity_afterDeletion]
    rfl

end Document

end CodeBuffer
