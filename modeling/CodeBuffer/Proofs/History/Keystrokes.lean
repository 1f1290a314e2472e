import CodeBuffer.Proofs.History.Retracing
import CodeBuffer.Proofs.History.Segments

namespace CodeBuffer

theorem Document.SameButTags.marks_eq {d d' : Document} (h : d.SameButTags d') :
    d'.marks = d.marks := by
  obtain ⟨tags, rfl⟩ := h
  rfl

namespace Buffer

variable {H : Type} [Observer H] {b b' b'' : Buffer H} {t x y u : Text} {o q : Nat} {c d : Char}
  {as as' : List Action} {a : Action}

/-- The same but for the tags, the observer and the flag. -/
structure SameKeys (b b' : Buffer H) : Prop where
  text : b'.doc.text = b.doc.text
  marks : b'.doc.marks = b.doc.marks
  history : b'.history = b.history
  highlightBrackets : b'.highlightBrackets = b.highlightBrackets
  actionDepth : b'.actionDepth = b.actionDepth

omit [Observer H] in
theorem SameKeys.trans (h : b.SameKeys b') (h' : b'.SameKeys b'') : b.SameKeys b'' :=
  ⟨h'.text.trans h.text, h'.marks.trans h.marks, h'.history.trans h.history,
    h'.highlightBrackets.trans h.highlightBrackets, h'.actionDepth.trans h.actionDepth⟩

omit [Observer H] in
theorem sameKeys_notifyIfOn (b : Buffer H) {f : H → Document → H × Document}
    (hf : ∀ (h : H) (d : Document), d.SameButTags (f h d).2) : b.SameKeys (b.notifyIfOn f) := by
  unfold notifyIfOn
  split
  · have hdoc := hf b.observer b.doc
    exact ⟨hdoc.text_eq, hdoc.marks_eq, rfl, rfl, rfl⟩
  · exact ⟨rfl, rfl, rfl, rfl, rfl⟩

omit [Observer H] in
/-- Within a user action with an edit the history takes no note of the flag. -/
theorem sameKeys_markModified (b : Buffer H) (hp : b.history.hasPending = true) :
    b.SameKeys b.markModified ∧ b.markModified.doc.modified = true := by
  have hsame : b.history.modifiedChanged true = b.history := by
    unfold History.modifiedChanged
    simp [hp]
  unfold markModified
  split
  · rename_i hmodified
    exact ⟨⟨rfl, rfl, rfl, rfl, rfl⟩, hmodified⟩
  · exact ⟨⟨rfl, rfl, hsame, rfl, rfl⟩, rfl⟩

/-- A text with a cursor in it, and nothing recorded but these actions. -/
structure Keyed (b : Buffer H) (t : Text) (o : Nat) (as : List Action) : Prop where
  text : b.doc.text = t
  marks : b.doc.marks = [some ⟨o, false⟩, some ⟨o, false⟩]
  modified : b.doc.modified = false ↔ as = []
  history : b.history = .ofActions as
  highlightBrackets : b.highlightBrackets = false
  actionDepth : b.actionDepth = 0

namespace Keyed

omit [Observer H] in
theorem selection (hk : b.Keyed t o as) : b.doc.selection = (o, o) := by
  simp [Document.selection, Document.cursor, Document.bound, Document.markOffset?, hk.marks,
    Document.cursorMark, Document.boundMark]

omit [Observer H] in
theorem selectionBounds? (hk : b.Keyed t o as) : b.doc.selectionBounds? = none := by
  have hcursor : b.doc.cursor = o := congrArg Prod.fst hk.selection
  have hbound : b.doc.bound = o := congrArg Prod.snd hk.selection
  rw [Document.selectionBounds?, if_pos (hcursor.trans hbound.symm)]

/-- A user action of one edit, from where the edit is made and recorded on. -/
theorem of_edit [Quiet H] (hk : b.Keyed t o as) {e : Buffer H} {f : H → Document → H × Document}
    (hf : ∀ (h : H) (d : Document), d.SameButTags (f h d).2) (htext : e.doc.text = u)
    (hmarks : e.doc.marks = [some ⟨q, false⟩, some ⟨q, false⟩])
    (hhistory : e.history = b.history.beginUserAction.push a)
    (hbrackets : e.highlightBrackets = b.highlightBrackets) (hdepth : e.actionDepth = 1)
    (has : (History.ofActions as).keyed a = .ofActions as') (hne : as' ≠ []) :
    (e.notifyIfOn f).markModified.cursorChanged.finishUserAction.Keyed u q as' := by
  have hfirst := sameKeys_notifyIfOn e hf
  have hpending : (e.notifyIfOn f).history.hasPending = true := by
    rw [hfirst.history, hhistory]
    simp [History.push, History.beginUserAction, History.hasPending, Step.push]
  obtain ⟨hsecond, hmodified⟩ := sameKeys_markModified _ hpending
  have hall := hfirst.trans hsecond
  have hoff : (e.notifyIfOn f).markModified.highlightBrackets = false :=
    (hall.highlightBrackets.trans hbrackets).trans hk.highlightBrackets
  rw [cursorChanged_of_off _ hoff, finishUserAction, if_pos (hall.actionDepth.trans hdepth),
    cursorChanged_of_off]
  · refine ⟨hall.text.trans htext, hall.marks.trans hmarks, ?_, ?_, hoff, rfl⟩
    · simp [hmodified, hne]
    · dsimp only
      rw [hall.history, hhistory, hk.history]
      exact has
  · exact hoff

omit [Observer H] in
/-- In a user action everything is recorded. -/
theorem history_beginUserAction (hk : b.Keyed t o as) :
    b.beginUserAction.history = b.history.beginUserAction ∧
      b.history.beginUserAction.isRecording = true := by
  refine ⟨if_pos hk.actionDepth, ?_⟩
  rw [hk.history]
  rfl

omit [Observer H] in
theorem actionDepth_beginUserAction (hk : b.Keyed t o as) : b.beginUserAction.actionDepth = 1 :=
  congrArg (· + 1) hk.actionDepth

variable [Quiet H]

theorem type (hk : b.Keyed (x ++ y) x.length as)
    (has : (History.ofActions as).keyed (typedAt x.length [d]) = .ofActions as') (hne : as' ≠ []) :
    (b.type [d]).Keyed (x ++ [d] ++ y) (x.length + 1) as' := by
  have hcursor : b.beginUserAction.doc.cursor = x.length := congrArg Prod.fst hk.selection
  have hbounds : b.beginUserAction.doc.selectionBounds? = none := hk.selectionBounds?
  have hin : x.length ≤ b.beginUserAction.doc.length := by
    rw [Document.length, show b.beginUserAction.doc.text = _ from hk.text]
    simp
  obtain ⟨hbegun, hrecording⟩ := hk.history_beginUserAction
  have htype : b.type [d] = (b.beginUserAction.insertedBare x.length [d]
      ).markModified.cursorChanged.finishUserAction := by
    rw [Buffer.type, hbounds]
    dsimp only
    rw [hcursor, tryInsert_eq, if_pos ⟨List.cons_ne_nil d [], hin⟩]
  rw [htype]
  refine hk.of_edit (a := typedAt x.length [d]) (fun h d => Quiet.textInserted h d _ _) ?_ ?_ ?_ rfl
    hk.actionDepth_beginUserAction has hne
  · refine (Document.text_inserted _ _ _).trans ?_
    rw [show b.beginUserAction.doc.text = _ from hk.text, List.take_left, List.drop_left]
  · have hmarks : b.beginUserAction.doc.marks = _ := hk.marks
    simp [Document.inserted, hmarks, Mark.afterInsertion]
  · dsimp only
    rw [hbegun, History.recordInsertAt, History.recordInsert, hrecording,
      show b.beginUserAction.doc.selection = _ from hk.selection]
    simp [typedAt]

/-- What backspace and the delete key have in common: the cursor is at an end of the character. -/
theorem deleteAsAction (hk : b.Keyed (x ++ c :: y) o as) (ho : o = x.length ∨ o = x.length + 1)
    (has : (History.ofActions as).keyed ⟨.deletion, x.length, x.length + 1, [c], some (o, o)⟩ =
      .ofActions as') (hne : as' ≠ []) :
    (b.deleteAsAction x.length (x.length + 1)).2.Keyed (x ++ y) x.length as' := by
  have htext : b.beginUserAction.doc.text = x ++ c :: y := hk.text
  have hin : x.length + 1 ≤ b.beginUserAction.doc.length := by
    rw [Document.length, htext]
    simp
  have hslice : Text.slice (x ++ c :: y) x.length (x.length + 1) = [c] := by
    simp [Text.slice, List.take_append]
  obtain ⟨hbegun, hrecording⟩ := hk.history_beginUserAction
  rw [Buffer.deleteAsAction]
  dsimp only
  rw [tryDelete_eq, if_pos ⟨Nat.lt_succ_self _, hin⟩]
  refine hk.of_edit (fun h d => Quiet.textDeleted h d _ _) ?_ ?_ ?_ rfl
    hk.actionDepth_beginUserAction has hne
  · refine (Document.text_deleted _ _ _).trans ?_
    rw [htext]
    simp [List.drop_append]
  · have hmarks : b.beginUserAction.doc.marks = _ := hk.marks
    rcases ho with rfl | rfl
    · simp [Document.deleted, hmarks, Mark.afterDeletion]
    · simp [Document.deleted, hmarks, Mark.afterDeletion]
  · dsimp only
    rw [hbegun, History.recordDeleteAt, History.recordDelete, hrecording,
      show b.beginUserAction.doc.selection = _ from hk.selection, htext, hslice]
    rcases ho with rfl | rfl
    · simp
    · simp

theorem backspace (hk : b.Keyed (x ++ [c]) (x.length + 1) as)
    (has : (History.ofActions as).keyed (backspacedAt x.length [c]) = .ofActions as')
    (hne : as' ≠ []) : b.backspace.2.Keyed x x.length as' := by
  have hcursor : b.doc.cursor = x.length + 1 := congrArg Prod.fst hk.selection
  have hdone := hk.deleteAsAction (.inr rfl) has hne
  rw [List.append_nil] at hdone
  rw [Buffer.backspace, hk.selectionBounds?, hcursor]
  exact hdone

theorem deleteKey (hk : b.Keyed (c :: y) 0 as)
    (has : (History.ofActions as).keyed (keyDeleted [c]) = .ofActions as') (hne : as' ≠ []) :
    b.deleteKey.2.Keyed y 0 as' := by
  have hcursor : b.doc.cursor = 0 := congrArg Prod.fst hk.selection
  have hsome : ¬b.doc.length ≤ 0 := by
    rw [Document.length, hk.text]
    simp
  rw [Buffer.deleteKey, hk.selectionBounds?, hcursor]
  simp only [Option.isSome_none, Bool.false_eq_true, if_false, if_neg hsome]
  exact hk.deleteAsAction (x := []) (.inl rfl) has hne

/-! Runs of keystrokes. -/

theorem types (hk : b.Keyed (x ++ y) x.length []) (u : Text) :
    (u.foldl (fun b c => b.type [c]) b).Keyed (x ++ u ++ y) (x ++ u).length
      (placed typedAt x.length u.segments) := by
  induction u using List.reverseRecOn with
  | nil =>
    rw [List.append_nil]
    exact hk
  | append_singleton u d ih =>
    have hstep := grows_typedAt.keyed_placed x.length u d
    rw [← List.length_append] at hstep
    have hdone := ih.type hstep (placed_ne_nil _ (by simp))
    have hlength : (x ++ u ++ [d]).length = (x ++ u).length + 1 := List.length_append
    rw [List.foldl_append, ← List.append_assoc, hlength]
    exact hdone

theorem backspaces (hk : b.Keyed (x ++ u) (x ++ u).length []) :
    (u.length.repeat (fun b => b.backspace.2) b).Keyed x x.length
      (placed backspacedAt x.length u.segments).reverse := by
  induction u generalizing x with
  | nil =>
    rw [List.append_nil] at hk
    exact hk
  | cons c u ih =>
    have hsplit : x ++ c :: u = x ++ [c] ++ u := List.append_cons x c u
    rw [hsplit] at hk
    have hrest := ih hk
    rw [List.length_append, List.length_singleton] at hrest
    refine hrest.backspace (keyed_backspacedAt x.length u c) ?_
    rw [ne_eq, List.reverse_eq_nil_iff]
    exact placed_ne_nil _ (List.cons_ne_nil c u)

theorem deleteKeys (hk : b.Keyed (u ++ y) 0 []) :
    (u.length.repeat (fun b => b.deleteKey.2) b).Keyed y 0
      (placed (fun _ => keyDeleted) 0 u.segments) := by
  induction u using List.reverseRecOn generalizing y with
  | nil => exact hk
  | append_singleton u d ih =>
    rw [List.append_assoc] at hk
    rw [List.length_append, List.length_singleton]
    exact (ih hk).deleteKey (grows_keyDeleted.keyed_placed 0 u d) (placed_ne_nil _ (by simp))

theorem new (id : Nat) (t : Text) (h : H) (o : Nat) :
    ((Buffer.new id t h).placeCursor o).Keyed t (min o t.length) [] := by
  have hdoc := Quiet.attach h (Document.new id t)
  have hoff : ((Buffer.new id t h).modifyDocument (·.placeCursor o)).highlightBrackets = false :=
    rfl
  have hmodified : (Buffer.new id t h).doc.modified = false := hdoc.modified_eq
  have htext : (Buffer.new id t h).doc.text = t := hdoc.text_eq
  have hmarks : (Buffer.new id t h).doc.marks = [some ⟨0, false⟩, some ⟨0, false⟩] := hdoc.marks_eq
  rw [placeCursor, cursorChanged_of_off _ hoff]
  refine ⟨htext, ?_, ?_, rfl, rfl, rfl⟩
  · simp [modifyDocument, Document.placeCursor, Document.selectRange, Document.moveMark,
      Document.cursorMark, Document.boundMark, Document.length, htext, hmarks]
  · exact ⟨fun _ => rfl, fun _ => hmodified⟩

omit [Observer H] [Quiet H] in
/-- Actions that lead from text to text make a timeline, if each of them is a step. -/
theorem standing (hk : b.Keyed t o as) {texts : Nat → Text} (hhere : t = texts as.length)
    (hleads : ∀ (i : Nat) (a : Action), as[i]? = some a → a.Leads (texts i) (texts (i + 1))) :
    b.Standing (fun _ => True) none (texts 0) texts := by
  refine ⟨?_, ?_, ?_, ?_, ?_⟩ <;> rw [hk.history]
  · refine ⟨?_, ?_, fun _ _ => trivial, ?_, ?_⟩
    · exact (History.length_stepsOf as).ge
    · intro i bs hi
      rw [History.ofActions, History.map_actions_stepsOf, List.getElem?_map] at hi
      obtain ⟨a, ha, rfl⟩ := Option.map_eq_some_iff.1 hi
      exact .cons (hleads i a ha) (.nil _)
    · intro i hi
      obtain rfl : 0 = i := Option.some.inj hi
      exact ⟨Nat.zero_le _, rfl⟩
    · intro t ht
      cases ht
  · rfl
  · rfl
  · exact hk.text.trans hhere
  · have hsaved : (History.ofActions as).AtSaved ↔ some 0 = some as.length := Iff.rfl
    rw [hk.modified, hsaved, Option.some.injEq, eq_comm (a := 0), List.length_eq_zero_iff]

end Keyed

/-- What is recorded are these pieces, each in a step of its own, and so many undos lead to such a
text. -/
structure SteppedBy (b : Buffer H) (pieces : List Text) (texts : Nat → Text) : Prop where
  recorded : b.history.steps.map (fun g => g.actions.map Action.text) = pieces.map ([·])
  undoDepth : b.history.undoDepth = pieces.length
  undo : ∀ k ≤ pieces.length, ∃ b', times Buffer.undo k b = .ok b' ∧ b'.doc.text = texts k

variable [Quiet H]

theorem Keyed.steppedBy (hk : b.Keyed t o as) (texts : Nat → Text) (hhere : t = texts as.length)
    (hleads : ∀ (i : Nat) (a : Action), as[i]? = some a → a.Leads (texts i) (texts (i + 1))) :
    b.SteppedBy (as.map Action.text) fun k => texts (as.length - k) := by
  have hlocation : b.history.location = as.length := by
    rw [hk.history]
    rfl
  refine ⟨?_, ?_, fun k hle => ?_⟩
  · have hactions := congrArg (List.map (List.map Action.text)) (History.map_actions_stepsOf as)
    rw [hk.history, History.ofActions]
    simpa [Function.comp_def] using hactions
  · rw [List.length_map]
    exact hlocation
  · rw [List.length_map, ← hlocation] at hle
    obtain ⟨b', hundo, hback, hhistory⟩ := (hk.standing hhere hleads).undoTimes hle
    refine ⟨b', hundo, ?_⟩
    rw [hback.here, hhistory, hlocation]

theorem steppedBy_typed (hk : b.Keyed (x ++ y) x.length []) (s : Text) :
    (s.foldl (fun b c => b.type [c]) b).SteppedBy s.segments
      (fun k => x ++ (s.segments.take (s.segments.length - k)).flatten ++ y) := by
  have hlength : (placed typedAt x.length s.segments).length = s.segments.length :=
    length_placed _ _
  have hall := (hk.types s).steppedBy (fun i => x ++ (s.segments.take i).flatten ++ y)
    (by rw [hlength, List.take_length, s.flatten_segments]) fun i a => leads_typed
  rw [map_text_placed grows_typedAt.text, hlength] at hall
  exact hall

theorem steppedBy_backspaced (hk : b.Keyed u u.length []) :
    (u.length.repeat (fun b => b.backspace.2) b).SteppedBy u.segments.reverse
      (fun k => (u.segments.take k).flatten) := by
  have hlength : (placed backspacedAt 0 u.segments).reverse.length = u.segments.length := by
    rw [List.length_reverse, length_placed]
  have hall := (hk.backspaces (x := [])).steppedBy
    (fun i => (u.segments.take (u.segments.length - i)).flatten)
    (by rw [List.length_nil, hlength, Nat.sub_self]; rfl) fun i a => leads_backspaced
  rw [List.map_reverse, map_text_placed fun _ _ => rfl, List.length_nil, hlength] at hall
  refine ⟨hall.recorded, hall.undoDepth, fun k hle => ?_⟩
  obtain ⟨b', hundo, htext⟩ := hall.undo k hle
  rw [List.length_reverse] at hle
  rw [Nat.sub_sub_self hle] at htext
  exact ⟨b', hundo, htext⟩

theorem steppedBy_keyDeleted (hk : b.Keyed u 0 []) :
    (u.length.repeat (fun b => b.deleteKey.2) b).SteppedBy u.segments
      (fun k => (u.segments.drop (u.segments.length - k)).flatten) := by
  rw [← List.append_nil u] at hk
  have hlength : (placed (fun _ => keyDeleted) 0 u.segments).length = u.segments.length :=
    length_placed _ _
  have hall := hk.deleteKeys.steppedBy (fun i => (u.segments.drop i).flatten)
    (by rw [hlength, List.drop_length, List.flatten_nil]) fun i a => leads_keyDeleted
  rw [map_text_placed grows_keyDeleted.text, hlength] at hall
  exact hall

/-- Typed, taken away by backspace or by the delete key, a text falls into the same steps. One undo
after the other takes one piece away, or brings one back, the latest first. -/
theorem keystrokes_fall_into_segments (id : Nat) (h : H) (t : Text) (o : Nat) (s : Text) :
    (s.foldl (fun b c => b.type [c]) ((Buffer.new id t h).placeCursor o)).SteppedBy s.segments
        (fun k => t.take o ++ (s.segments.take (s.segments.length - k)).flatten ++ t.drop o) ∧
      (s.length.repeat (fun b => b.backspace.2)
        ((Buffer.new id s h).placeCursor s.length)).SteppedBy
          s.segments.reverse (fun k => (s.segments.take k).flatten) ∧
      (s.length.repeat (fun b => b.deleteKey.2) ((Buffer.new id s h).placeCursor 0)).SteppedBy
          s.segments (fun k => (s.segments.drop (s.segments.length - k)).flatten) := by
  have htyped : ((Buffer.new id t h).placeCursor o).Keyed (t.take o ++ t.drop o) (t.take o).length
      [] := by
    rw [List.take_append_drop, List.length_take]
    exact Keyed.new id t h o
  have hbackspaced := Keyed.new id s h s.length
  rw [Nat.min_self] at hbackspaced
  have hdeleted := Keyed.new id s h 0
  rw [Nat.zero_min] at hdeleted
  exact ⟨steppedBy_typed htyped s, steppedBy_backspaced hbackspaced, steppedBy_keyDeleted hdeleted⟩

/-- Two words, a line feed and a blank before a word. -/
def words : Text := ['a', 'b', ' ', 'c', '\n', ' ', 'd']

theorem keystrokes_fall_into_segments_words :
    words.segments = [['a', 'b'], [' ', 'c'], ['\n'], [' ', 'd']] ∧
      (words.length.repeat (fun b => b.backspace.2)
        ((Buffer.new 0 words PlainText.mk).placeCursor words.length)).SteppedBy
          words.segments.reverse (fun k => (words.segments.take k).flatten) ∧
      (words.length.repeat (fun b => b.deleteKey.2)
        ((Buffer.new 0 words PlainText.mk).placeCursor 0)).SteppedBy
          words.segments (fun k => (words.segments.drop (words.segments.length - k)).flatten) ∧
      ∃ b', times Buffer.undo 2 (words.foldl (fun b c => b.type [c])
          ((Buffer.new 0 ['x', 'y'] PlainText.mk).placeCursor 1)) = .ok b' ∧
        b'.doc.text = ['x', 'a', 'b', ' ', 'c', 'y'] := by
  have hsegments : words.segments = [['a', 'b'], [' ', 'c'], ['\n'], [' ', 'd']] := by decide
  obtain ⟨htyped, hbackspaced, hdeleted⟩ :=
    keystrokes_fall_into_segments 0 PlainText.mk ['x', 'y'] 1 words
  obtain ⟨b', hundo, htext⟩ := htyped.undo 2 (by rw [hsegments]; decide)
  rw [hsegments] at htext
  exact ⟨hsegments, hbackspaced, hdeleted, b', hundo, htext⟩

end Buffer
end CodeBuffer
