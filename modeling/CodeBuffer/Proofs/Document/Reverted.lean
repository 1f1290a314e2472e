import CodeBuffer.Delimiter.Edit
import CodeBuffer.Proofs.Document.Adjacent

namespace CodeBuffer

/-! An insertion, and the deletion of what it has inserted. -/

namespace Mark

variable {o n : Nat}

/-- A mark at the place comes back from behind the text, or has stayed before it. -/
theorem afterDeletion_afterInsertion (m : Mark) (hn : 0 < n) :
    (m.afterInsertion o n).afterDeletion o (o + n) = m := by
  apply eq_of_offset
  · rw [offset_afterDeletion, offset_afterInsertion]
    cases m.leftGravity
    · simp only [and_true]
      split_ifs <;> omega
    · simp only [Bool.true_eq_false, and_false, or_false]
      split_ifs <;> omega
  · rw [leftGravity_afterDeletion, leftGravity_afterInsertion]

end Mark

namespace Region

variable {r : Region} {o n : Nat}

/-- A run that has grown shrinks again, and none that touches the place is fused with another. -/
theorem shiftForDeletion_shiftForInsertion (h : r.WellFormed) :
    (r.shiftForInsertion o n).shiftForDeletion o (o + n) = r := by
  have hshifted := wellFormed_shiftForInsertion h o n
  apply eq_of_contains
  · exact wellFormed_shiftForDeletion hshifted o (o + n)
  · exact h
  · intro p
    have hlength : o + n - o = n := Nat.add_sub_cancel_left o n
    rw [contains_shiftForDeletion, contains_shiftForInsertion h, contains_shiftForInsertion h,
      hlength, Nat.add_sub_cancel]
    by_cases hp : p < o
    · simp [hp, show ¬o ≤ p by omega, show ¬o + n ≤ p by omega]
    · simp [hp, show o ≤ p by omega, show ¬p + n < o by omega]

/-- An insertion is refused only where it would bring a run beyond the last position. -/
theorem shiftForInsertion?_cases (r : Region) (o n : Nat) :
    r.shiftForInsertion? o n = .ok (r.shiftForInsertion o n) ∨
      r.shiftForInsertion? o n = .error .offsetOverflow ∧
        ∃ i ∈ (r.shiftForInsertion o n).intervals, offsetLimit < i.stop := by
  unfold shiftForInsertion?
  split
  · exact .inl rfl
  · rename_i hall
    refine .inr ⟨rfl, ?_⟩
    simpa using hall

end Region

namespace Edit

/-- An opener at the place goes behind the text and a closer stays before it, so neither is in what
is deleted. -/
theorem map?_deletion_insertion (d : Delimiter) (o n : Nat) :
    ((insertion o n).map? d).bind (deletion o n).map? = some d := by
  obtain ⟨offset, key, depth⟩ := d
  cases key with
  | some key =>
    by_cases hmoves : o ≤ offset
    · have hkept : ¬offset + n < o + n := by omega
      simp [map?, Delimiter.opens, hmoves, hkept]
    · have hbefore : ¬o + n ≤ offset := by omega
      simp [map?, Delimiter.opens, hmoves, hbefore]
  | none =>
    by_cases hmoves : o < offset
    · have hkept : ¬offset + n ≤ o + n := by omega
      simp [map?, Delimiter.opens, hmoves, hkept, hmoves.le]
    · by_cases hempty : o + n ≤ offset
      · have hnone : n = 0 := by omega
        simp [map?, Delimiter.opens, hmoves, hnone]
      · simp [map?, Delimiter.opens, hmoves, hempty]

end Edit

theorem TagTable.mapRanges_eq_self {t : TagTable} {f : Region → Region}
    (h : ∀ tag ∈ t.tags, f tag.ranges = tag.ranges) : t.mapRanges f = t := by
  have htags : t.tags.map (fun tag => { tag with ranges := f tag.ranges }) = t.tags := by
    refine (List.map_congr_left fun tag htag => ?_).trans (List.map_id _)
    exact congrArg (fun r => { tag with ranges := r }) (h tag htag)
  exact TagTable.ext htags rfl

namespace Document

variable {d : Document} {o : Nat} {t : Text}

/-- The text is there to be taken out again. -/
theorem slice_inserted (ho : o ≤ d.length) (ht : t ≠ []) :
    (d.inserted o t).text.slice o (o + t.length) = t := by
  have hfirst : (d.text.take o).length = o := List.length_take_of_le ho
  have hfront : (d.text.take o ++ t).length = o + t.length := by
    rw [List.length_append, hfirst]
  rw [inserted_of_ne d o ht]
  dsimp only
  rw [Text.slice, ← hfront, List.take_left, List.drop_left' hfirst]

/-- What was inserted and is deleted again leaves nothing but two more edits in the count. -/
theorem deleted_inserted (htags : ∀ tag ∈ d.tags.tags, tag.ranges.WellFormed) (ho : o ≤ d.length)
    (ht : t ≠ []) :
    (d.inserted o t).deleted o (o + t.length) = { d with generation := d.generation + 2 } := by
  have hlen : 0 < t.length := List.length_pos_iff.2 ht
  have hfirst : (d.text.take o).length = o := List.length_take_of_le ho
  have hfront : (d.text.take o ++ t).length = o + t.length := by
    rw [List.length_append, hfirst]
  have htext : (d.text.take o ++ t ++ d.text.drop o).take o ++
      (d.text.take o ++ t ++ d.text.drop o).drop (o + t.length) = d.text := by
    rw [← hfront, List.drop_left, List.append_assoc, List.take_left' hfirst, List.take_append_drop]
  have hmarks : (d.marks.map (·.map (Mark.afterInsertion o t.length))).map
      (·.map (Mark.afterDeletion o (o + t.length))) = d.marks := by
    rw [map_marks_map d.marks fun m => m.afterDeletion_afterInsertion hlen]
    simp
  have hranges : (d.tags.mapRanges (·.shiftForInsertion o t.length)).mapRanges
      (·.shiftForDeletion o (o + t.length)) = d.tags := by
    rw [TagTable.mapRanges_mapRanges _ fun r => rfl]
    exact TagTable.mapRanges_eq_self fun tag htag =>
      Region.shiftForDeletion_shiftForInsertion (htags tag htag)
  rw [deleted_of_ne _ (by omega), inserted_of_ne d o ht]
  dsimp only
  rw [htext, hmarks, hranges]

/-- Whatever is done to a document, the runs of its tags stay in order. -/
theorem Consistent.wellFormed (h : d.Consistent) :
    ∀ tag ∈ d.tags.tags, tag.ranges.WellFormed := by
  intro tag htag
  obtain ⟨id, hid⟩ := List.getElem?_of_mem htag
  have hranges : d.tags.ranges? id = some tag.ranges := by
    rw [TagTable.ranges?, hid, Option.map_some]
  exact (h.tags.below id tag.ranges hranges).1

end Document

/-- Text that is inserted anywhere and deleted again is handed back, and it leaves the text, the
marks and the tags of a document as they were. A region that makes room and closes it again is the
same list of runs, unless it has no room to make, and no delimiter moves or is lost. -/
theorem insertion_deletion :
    (∀ d : Document, (∀ tag ∈ d.tags.tags, tag.ranges.WellFormed) →
      ∀ (o : Nat) (t : Text), o ≤ d.length → t ≠ [] →
        ∃ d', d.insert o t = (d', .ok ()) ∧
          d'.delete o (o + t.length) = ({ d with generation := d.generation + 2 }, .ok t)) ∧
      (∀ r : Region, r.WellFormed → ∀ o n : Nat,
        (∃ r', r.shiftForInsertion? o n = .ok r' ∧ r'.shiftForDeletion o (o + n) = r) ∨
          r.shiftForInsertion? o n = .error .offsetOverflow ∧
            ∃ i ∈ (r.shiftForInsertion o n).intervals, offsetLimit < i.stop) ∧
      ∀ (b : Delimiter) (o n : Nat),
        ((Edit.insertion o n).map? b).bind (Edit.deletion o n).map? = some b := by
  refine ⟨?document, ?region, Edit.map?_deletion_insertion⟩
  case document =>
    intro d htags o t ho ht
    have hstop : o + t.length ≤ (d.inserted o t).length := by
      rw [Document.length_inserted ho]
      exact Nat.add_le_add_right ho t.length
    refine ⟨d.inserted o t, (d.insert_eq o t).trans (if_pos ho), ?_⟩
    rw [Document.delete_of_mem (Nat.le_add_right o t.length) hstop, Document.slice_inserted ho ht,
      Document.deleted_inserted htags ho ht]
  case region =>
    intro r hr o n
    rcases r.shiftForInsertion?_cases o n with hok | hrefused
    · exact .inl ⟨_, hok, Region.shiftForDeletion_shiftForInsertion hr⟩
    · exact .inr hrefused

/-- At a place where a tag ends, another one begins and two marks of either gravity stand; and in
the middle of a run. -/
theorem insertion_deletion_between :
    let ops : List Document.Operation :=
      [.createMark 2 true, .selectRange 2 4, .createTag "a" none, .createTag "b" none,
        .applyTag 0 0 2, .applyTag 1 2 4]
    let d := (Document.new 0 "abcd".toList).operateAll ops
    let r : Region := ⟨[⟨0, 2⟩, ⟨3, 7⟩]⟩
    (d.marks = [some ⟨2, false⟩, some ⟨4, false⟩, some ⟨2, true⟩] ∧
        d.tags.tags = [⟨"a", none, ⟨[⟨0, 2⟩]⟩⟩, ⟨"b", none, ⟨[⟨2, 4⟩]⟩⟩] ∧ r.WellFormed) ∧
      (∃ d', d.insert 2 "xy".toList = (d', .ok ()) ∧
        d'.delete 2 4 = ({ d with generation := d.generation + 2 }, .ok "xy".toList)) ∧
      ∃ r', r.shiftForInsertion? 5 2 = .ok r' ∧ r'.shiftForDeletion 5 7 = r := by
  intro ops d r
  have htags := ((Document.consistent_new 0 "abcd".toList).operateAll ops).wellFormed
  have hr : r.WellFormed := by simp [r, Region.WellFormed, Region.Separated]
  refine ⟨⟨by decide, by decide, hr⟩, ?_, ?_⟩
  · exact insertion_deletion.1 d htags 2 "xy".toList (by decide) (by decide)
  · apply (insertion_deletion.2.1 r hr 5 2).resolve_right
    rintro ⟨hrefused, -⟩
    cases hrefused

end CodeBuffer
