import CodeBuffer.Buffer

namespace CodeBuffer

namespace Document

theorem text_inserted (d : Document) (o : Nat) (t : Text) :
    (d.inserted o t).text = d.text.take o ++ t ++ d.text.drop o := by
  unfold inserted
  split
  · rename_i hempty
    rw [List.isEmpty_iff.1 hempty, List.append_nil, List.take_append_drop]
  · rfl

theorem text_deleted (d : Document) (start stop : Nat) :
    (d.deleted start stop).text = d.text.take start ++ d.text.drop stop := by
  unfold deleted
  split
  · rename_i heq
    rw [heq, List.take_append_drop]
  · rfl

theorem modified_inserted (d : Document) (o : Nat) (t : Text) :
    (d.inserted o t).modified = d.modified := by
  unfold inserted
  split <;> rfl

theorem modified_deleted (d : Document) (start stop : Nat) :
    (d.deleted start stop).modified = d.modified := by
  unfold deleted
  split <;> rfl

theorem id_inserted (d : Document) (o : Nat) (t : Text) : (d.inserted o t).id = d.id := by
  unfold inserted
  split <;> rfl

theorem id_deleted (d : Document) (start stop : Nat) : (d.deleted start stop).id = d.id := by
  unfold deleted
  split <;> rfl

end Document

namespace Buffer

variable {H : Type} [Observer H] (b : Buffer H)

/-- The buffer once some text is inserted, before anything but the observer takes note. -/
def insertedBare (o : Nat) (t : Text) : Buffer H :=
  { b with history := b.history.recordInsertAt o t b.doc.selection, doc := b.doc.inserted o t
    }.notifyIfOn fun h d => Observer.textInserted h d o t.length

/-- The buffer once a range is deleted, before anything but the observer takes note. -/
def deletedBare (start stop : Nat) : Buffer H :=
  { b with
    history := b.history.recordDeleteAt start stop (b.doc.text.slice start stop) b.doc.selection
    doc := b.doc.deleted start stop
    }.notifyIfOn fun h d => Observer.textDeleted h d start (stop - start)

/-- An insertion is refused behind the text, and then changes nothing. No text is no edit. -/
theorem insert_eq (o : Nat) (t : Text) :
    b.insert o t =
      if o ≤ b.doc.length then
        (if t = [] then b else (b.insertedBare o t).markModified.cursorChanged, .ok ())
      else (b, .error (.outOfRange o b.doc.length)) := by
  by_cases ho : o ≤ b.doc.length
  · rw [insert, b.doc.checkRange_eq (Nat.le_refl o) ho, if_pos ho]
    by_cases ht : t = []
    · rw [ht]
      rfl
    · -- what the document checks is checked already
      have hdone : b.doc.insert o t = (b.doc.inserted o t, .ok ()) :=
        (b.doc.insert_eq o t).trans (if_pos ho)
      simp only [List.isEmpty_iff, ht, if_false, hdone]
      rfl
  · have herror : b.doc.checkRange o o = .error (.outOfRange o b.doc.length) :=
      Document.checkRange_eq_error_iff.2 (.inr ⟨Nat.le_refl o, Nat.not_le.1 ho, rfl⟩)
    rw [insert, herror, if_neg ho]

/-- An insertion is refused behind the text only. -/
theorem insert_eq_error_iff {o : Nat} {t : Text} {e : EditError} :
    (b.insert o t).2 = .error e ↔ b.doc.length < o ∧ e = .outOfRange o b.doc.length := by
  rw [insert_eq]
  split
  · rename_i ho
    exact iff_of_false nofun fun h => Nat.not_le.2 h.1 ho
  · rename_i ho
    rw [Except.error.injEq, eq_comm, and_iff_right (Nat.not_le.1 ho)]

/-- An insertion that is refused changes nothing. -/
theorem insert_of_refused {o : Nat} {t : Text} {e : EditError}
    (he : (b.insert o t).2 = .error e) : (b.insert o t).1 = b := by
  have hout := (b.insert_eq_error_iff.1 he).1
  rw [insert_eq, if_neg (Nat.not_le.2 hout)]

theorem delete_of_mem {start stop : Nat} (h : start ≤ stop) (hs : stop ≤ b.doc.length) :
    b.delete start stop =
      (if start = stop then b else (b.deletedBare start stop).markModified.cursorChanged,
        .ok (b.doc.text.slice start stop)) := by
  rw [delete, b.doc.checkRange_eq h hs]
  by_cases heq : start = stop
  · obtain rfl := heq
    have hnone : b.doc.text.slice start start = [] := by
      rw [Text.slice, List.drop_eq_nil_of_le (List.length_take_le _ _)]
    simp only [if_true, hnone]
  · simp only [heq, if_false, Document.delete_of_mem h hs]
    rfl

theorem delete_of_error {start stop : Nat} {e : EditError}
    (he : b.doc.checkRange start stop = .error e) : b.delete start stop = (b, .error e) := by
  rw [delete, he]

/-- A deletion is refused where there is no such range. -/
theorem delete_eq_error_iff {start stop : Nat} {e : EditError} :
    (b.delete start stop).2 = .error e ↔
      stop < start ∧ e = .reversed start stop ∨
        start ≤ stop ∧ b.doc.length < stop ∧ e = .outOfRange stop b.doc.length := by
  rw [← Document.checkRange_eq_error_iff]
  by_cases h : start ≤ stop ∧ stop ≤ b.doc.length
  · rw [b.delete_of_mem h.1 h.2, b.doc.checkRange_eq h.1 h.2]
    exact iff_of_false nofun nofun
  · obtain ⟨e', he'⟩ := b.doc.checkRange_error h
    rw [b.delete_of_error he', he', Except.error.injEq, Except.error.injEq]

/-- A deletion that is refused changes nothing. -/
theorem delete_of_refused {start stop : Nat} {e : EditError}
    (he : (b.delete start stop).2 = .error e) : (b.delete start stop).1 = b := by
  have herror := Document.checkRange_eq_error_iff.2 (b.delete_eq_error_iff.1 he)
  rw [b.delete_of_error herror]

/-- An insertion is refused behind the text, and is none without text. -/
theorem tryInsert_eq (o : Nat) (t : Text) :
    b.tryInsert o t =
      if t ≠ [] ∧ o ≤ b.doc.length then (b.insertedBare o t).markModified.cursorChanged else b := by
  rw [tryInsert, insert_eq]
  by_cases ho : o ≤ b.doc.length <;> by_cases ht : t = [] <;> simp [ho, ht]

/-- A deletion is refused where there is no such range, and is none of an empty one. -/
theorem tryDelete_eq (start stop : Nat) :
    (b.tryDelete start stop).2 =
      if start < stop ∧ stop ≤ b.doc.length then
        (b.deletedBare start stop).markModified.cursorChanged
      else b := by
  have hfst : (b.tryDelete start stop).2 = (b.delete start stop).1 := by
    rw [tryDelete]
    rcases b.delete start stop with ⟨b', e | t⟩ <;> rfl
  rw [hfst]
  by_cases h : start ≤ stop ∧ stop ≤ b.doc.length
  · rw [b.delete_of_mem h.1 h.2]
    by_cases heq : start = stop
    · rw [if_pos heq, if_neg (by omega)]
    · rw [if_neg heq, if_pos (by omega)]
  · obtain ⟨e, he⟩ := b.doc.checkRange_error h
    rw [b.delete_of_error he, if_neg (by omega)]

/-- The insertion of a replay. -/
theorem replay_insert (o : Nat) (t : Text) :
    b.replay (.insert o t) =
      if o ≤ b.doc.length then
        { b with doc := b.doc.inserted o t }.notifyIfOn
          fun h d => Observer.textInserted h d o t.length
      else b := by
  rw [replay, Document.insert_eq]
  by_cases ho : o ≤ b.doc.length
  · rw [if_pos ho, if_pos ho]
  · rw [if_neg ho, if_neg ho]

/-- The deletion of a replay. -/
theorem replay_delete (start stop : Nat) :
    b.replay (.delete start stop) =
      if start ≤ stop ∧ stop ≤ b.doc.length then
        { b with doc := b.doc.deleted start stop }.notifyIfOn
          fun h d => Observer.textDeleted h d start (stop - start)
      else b := by
  rw [replay]
  by_cases h : start ≤ stop ∧ stop ≤ b.doc.length
  · rw [Document.delete_of_mem h.1 h.2, if_pos h]
  · obtain ⟨e, he⟩ := b.doc.checkRange_error h
    rw [Document.delete_of_error he, if_neg h]

omit [Observer H] in
/-- To clear the tag of brackets changes tags at most. -/
theorem clearBracketTag_eq :
    ∃ tags, b.clearBracketTag = { b with doc := { b.doc with tags } } := by
  unfold clearBracketTag
  split
  · exact ⟨_, rfl⟩
  · exact ⟨_, rfl⟩

omit [Observer H] in
theorem matcher_notifyIfOn (f : H → Document → H × Document) :
    (b.notifyIfOn f).matcher = b.matcher := by
  unfold notifyIfOn
  split <;> rfl

/-- The buffer in which brackets are looked for: their tag is gone, and the text around the cursor
is highlighted. -/
def searched : Buffer H :=
  b.clearBracketTag.notifyIfOn fun h d => Observer.updateHighlight h d
    (b.clearBracketTag.doc.cursor - b.clearBracketTag.matcher.maxChars)
    (min (b.clearBracketTag.doc.cursor + b.clearBracketTag.matcher.maxChars) d.length) true

/-- Tags the brackets that were found. -/
def tagFound (b : Buffer H) : BracketResult → Buffer H
  | .found bracket partner => b.modifyDocument (tagBrackets · bracket partner)
  | _ => b

theorem updateBrackets_snd :
    b.updateBrackets.2 =
      b.searched.tagFound (b.matcher.findMatch b.searched.doc b.doc.cursor) := by
  have hmatcher : b.searched.matcher = b.clearBracketTag.matcher := matcher_notifyIfOn _ _
  obtain ⟨tags, hcleared⟩ := b.clearBracketTag_eq
  have hsame : b.clearBracketTag.matcher = b.matcher ∧
      b.clearBracketTag.doc.cursor = b.doc.cursor := by
    rw [hcleared]
    exact ⟨rfl, rfl⟩
  rw [← hsame.1, ← hsame.2, ← hmatcher]
  unfold updateBrackets
  change (match b.searched.matcher.findMatch b.searched.doc b.clearBracketTag.doc.cursor with
    | .found bracket partner =>
      (_, b.searched.modifyDocument (tagBrackets · bracket partner))
    | _ => (_, b.searched) : BracketResult × Buffer H).2 = _
  cases b.searched.matcher.findMatch b.searched.doc b.clearBracketTag.doc.cursor <;> rfl

theorem cursorChanged_of_off (h : b.highlightBrackets = false) : b.cursorChanged = b := by
  rw [cursorChanged, h]
  simp

/-- While a user action is open, the bracket tag is left where it is. -/
theorem cursorChanged_of_open {b : Buffer H} (h : 0 < b.actionDepth) : b.cursorChanged = b :=
  if_neg fun hfollows => by omega

/-- The buffer once what is selected is deleted. -/
def withoutSelection : Buffer H :=
  match b.doc.selectionBounds? with
  | some (start, stop) => (b.tryDelete start stop).2
  | none => b

theorem type_eq (t : Text) :
    b.type t = (b.beginUserAction.withoutSelection.tryInsert
      b.beginUserAction.withoutSelection.doc.cursor t).finishUserAction := rfl

end Buffer
end CodeBuffer
