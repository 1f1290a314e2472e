import CodeBuffer.Journal
import CodeBuffer.Proofs.Observing.Edits
import CodeBuffer.Proofs.Observing.Painted

namespace CodeBuffer

/-- An observer that does nothing to a document but tag it. -/
class Quiet (H : Type) [Observer H] : Prop where
  attach : ∀ (h : H) (d : Document), d.SameButTags (Observer.attach h d).2
  detach : ∀ (h : H) (d : Document), d.SameButTags (Observer.detach h d).2
  textInserted : ∀ (h : H) (d : Document) (o n : Nat),
    d.SameButTags (Observer.textInserted h d o n).2
  textDeleted : ∀ (h : H) (d : Document) (o n : Nat),
    d.SameButTags (Observer.textDeleted h d o n).2
  schemeChanged : ∀ (h : H) (d : Document), d.SameButTags (Observer.schemeChanged h d).2
  syncTags : ∀ (h : H) (d : Document), d.SameButTags (Observer.syncTags h d).2
  updateHighlight : ∀ (h : H) (d : Document) (start stop : Nat) (synchronous : Bool),
    d.SameButTags (Observer.updateHighlight h d start stop synchronous).2
  runIdleSlice : ∀ (h : H) (d : Document), d.SameButTags (Observer.runIdleSlice h d).2.2

instance : Quiet PlainText where
  attach _ d := .refl d
  detach _ d := .refl d
  textInserted _ d _ _ := .refl d
  textDeleted _ d _ _ := .refl d
  schemeChanged _ d := .refl d
  syncTags _ d := .refl d
  updateHighlight _ d _ _ _ := .refl d
  runIdleSlice _ d := .refl d

instance : Quiet Highlighter where
  attach _ d := (Highlighter.painted_resolveTags _ d).document
  detach _ d := iteInduction (motive := fun s : Work => d.SameButTags s.2)
    (fun _ => .foldl Document.SameButTags.clearTag _ d) (fun _ => .refl d)
  textInserted _ d _ _ := .refl d
  textDeleted _ d _ _ := .refl d
  schemeChanged _ d := .refl d
  syncTags h d := iteInduction (motive := fun s : Work => d.SameButTags s.2)
    (fun _ => (h.painted_resolveTags d).document) (fun _ => .refl d)
  updateHighlight h d start stop synchronous :=
    (h.updateHighlight_eq d start stop synchronous).choose_spec.document
  runIdleSlice h d := (h.runIdleSlice_eq d).choose_spec.document

instance {H : Type} [Observer H] [Announcer H] [Quiet H] : Quiet (Journal H) where
  attach j d := Quiet.attach j.collect.observer d
  detach j d := Quiet.detach j.collect.observer d
  textInserted j d o n := Quiet.textInserted j.collect.observer d o n
  textDeleted j d o n := Quiet.textDeleted j.collect.observer d o n
  schemeChanged j d := Quiet.schemeChanged j.collect.observer d
  syncTags j d := Quiet.syncTags j.collect.observer d
  updateHighlight j d start stop synchronous :=
    Quiet.updateHighlight j.collect.observer d start stop synchronous
  runIdleSlice j d := Quiet.runIdleSlice j.collect.observer d

/-- Two buffers with the same text and the same flag, history and open user actions. -/
structure Buffer.Alike {H : Type} (b b' : Buffer H) : Prop where
  text : b'.doc.text = b.doc.text
  modified : b'.doc.modified = b.doc.modified
  history : b'.history = b.history
  actionDepth : b'.actionDepth = b.actionDepth

namespace Buffer

variable {H : Type}

namespace Alike

variable {b b' b'' : Buffer H}

theorem refl (b : Buffer H) : b.Alike b := ⟨rfl, rfl, rfl, rfl⟩

theorem trans (h : b.Alike b') (h' : b'.Alike b'') : b.Alike b'' :=
  ⟨h'.text.trans h.text, h'.modified.trans h.modified, h'.history.trans h.history,
    h'.actionDepth.trans h.actionDepth⟩

/-- Tags make no difference, nor does the observer. -/
theorem of_document {observer : H} {doc : Document} (h : b.doc.SameButTags doc) :
    b.Alike { b with observer, doc } := ⟨h.text_eq, h.modified_eq, rfl, rfl⟩

end Alike

variable (b : Buffer H)

theorem alike_clearBracketTag : b.Alike b.clearBracketTag := by
  unfold clearBracketTag
  split <;> exact ⟨rfl, rfl, rfl, rfl⟩

theorem alike_notifyIfOn {f : H → Document → H × Document}
    (hf : ∀ (h : H) (d : Document), d.SameButTags (f h d).2) : b.Alike (b.notifyIfOn f) := by
  unfold notifyIfOn
  split
  · exact .of_document (hf b.observer b.doc)
  · exact .refl b

variable [Observer H] [Quiet H]

theorem alike_updateBrackets : b.Alike b.updateBrackets.2 := by
  have hcleared := b.alike_clearBracketTag
  have hlooked := hcleared.trans (alike_notifyIfOn _ fun h d => Quiet.updateHighlight h d
    (b.clearBracketTag.doc.cursor - b.clearBracketTag.matcher.maxChars)
    (min (b.clearBracketTag.doc.cursor + b.clearBracketTag.matcher.maxChars) d.length) true)
  unfold updateBrackets
  dsimp only
  split
  · exact hlooked.trans ⟨rfl, rfl, rfl, rfl⟩
  · exact hlooked

theorem alike_cursorChanged : b.Alike b.cursorChanged := by
  unfold cursorChanged
  split
  · exact b.alike_updateBrackets
  · exact .refl b

theorem alike_placeCursor (o : Nat) : b.Alike (b.placeCursor o) :=
  have first : b.Alike (b.modifyDocument (·.placeCursor o)) := ⟨rfl, rfl, rfl, rfl⟩
  first.trans (alike_cursorChanged _)

theorem alike_selectRange (insert bound : Nat) : b.Alike (b.selectRange insert bound) :=
  have first : b.Alike (b.modifyDocument (·.selectRange insert bound)) := ⟨rfl, rfl, rfl, rfl⟩
  first.trans (alike_cursorChanged _)

theorem alike_modifyObserver {α : Type} (f : H → α × H) : b.Alike (b.modifyObserver f).2 :=
  have first : b.Alike { b with observer := (f b.observer).2 } := ⟨rfl, rfl, rfl, rfl⟩
  first.trans (alike_notifyIfOn _ Quiet.syncTags)

theorem alike_setHighlightSyntax (on : Bool) : b.Alike (b.setHighlightSyntax on) := by
  have first : b.Alike { b with highlightSyntax := on } := ⟨rfl, rfl, rfl, rfl⟩
  unfold setHighlightSyntax
  split
  · exact .refl b
  · cases on with
    | true => exact first.trans (.of_document (Quiet.attach _ _))
    | false => exact first.trans (.of_document (Quiet.detach _ _))

theorem alike_setHighlightBrackets (on : Bool) : b.Alike (b.setHighlightBrackets on) := by
  have first : b.Alike { b with highlightBrackets := on } := ⟨rfl, rfl, rfl, rfl⟩
  unfold setHighlightBrackets
  split
  · exact .refl b
  · cases on with
    | true => exact first.trans (alike_updateBrackets _)
    | false => exact first.trans (alike_clearBracketTag _)

theorem alike_setScheme (s : Option StyleScheme) : b.Alike (b.setScheme s) :=
  have first : b.Alike (b.modifyDocument (·.setScheme s)) := ⟨rfl, rfl, rfl, rfl⟩
  first.trans (.of_document (Quiet.schemeChanged _ _))

theorem alike_ensureHighlighted (start stop : Nat) : b.Alike (b.ensureHighlighted start stop) :=
  b.alike_notifyIfOn fun h d => Quiet.updateHighlight h d start stop true

theorem alike_requestHighlight (start stop : Nat) : b.Alike (b.requestHighlight start stop) :=
  b.alike_notifyIfOn fun h d => Quiet.updateHighlight h d start stop false

theorem alike_runIdleSlice : b.Alike b.runIdleSlice.2 := by
  unfold runIdleSlice
  split
  · exact .of_document (Quiet.runIdleSlice b.observer b.doc)
  · exact .refl b

end Buffer
end CodeBuffer
