import CodeBuffer.Proofs.Document.Consistent
import CodeBuffer.Proofs.History.Session

namespace CodeBuffer

/-- An edit that is asked for. The document may refuse it. -/
inductive Attempt where
  | insert (o : Nat) (t : Text)
  | delete (start stop : Nat)
  deriving DecidableEq, Repr

namespace Document

/-- The selection is there, and both its ends are in the text. -/
structure Pointed (d : Document) : Prop where
  cursor : ∃ m, d.mark? cursorMark = some m ∧ m.offset ≤ d.length
  bound : ∃ m, d.mark? boundMark = some m ∧ m.offset ≤ d.length

variable {d d' : Document} {o start stop : Nat} {t : Text}

theorem Pointed.cursor_le (hd : d.Pointed) : d.cursor ≤ d.length := by
  obtain ⟨m, hm, hle⟩ := hd.cursor
  rw [Document.cursor, markOffset?_eq, hm]
  exact hle

theorem Pointed.bound_le (hd : d.Pointed) : d.bound ≤ d.length := by
  obtain ⟨m, hm, hle⟩ := hd.bound
  rw [Document.bound, markOffset?_eq, hm]
  exact hle

theorem Pointed.of_eq (hd : d.Pointed) (hmarks : d'.marks = d.marks) (htext : d'.text = d.text) :
    d'.Pointed := by
  have hmark (id : MarkId) : d'.mark? id = d.mark? id := by rw [mark?, hmarks, mark?]
  have hlength : d'.length = d.length := congrArg List.length htext
  refine ⟨?_, ?_⟩
  · rw [hmark, hlength]
    exact hd.cursor
  · rw [hmark, hlength]
    exact hd.bound

theorem Pointed.inserted (hd : d.Pointed) (ho : o ≤ d.length) (ht : t ≠ []) :
    (d.inserted o t).Pointed := by
  have hlength := length_inserted (t := t) ho
  have moved {id : MarkId} (h : ∃ m, d.mark? id = some m ∧ m.offset ≤ d.length) :
      ∃ m, (d.inserted o t).mark? id = some m ∧ m.offset ≤ (d.inserted o t).length := by
    obtain ⟨m, hm, hle⟩ := h
    rw [mark?_inserted ht, hm, hlength]
    exact ⟨_, rfl, afterInsertion_le hle⟩
  exact ⟨moved hd.cursor, moved hd.bound⟩

theorem Pointed.deleted (hd : d.Pointed) (hlt : start < stop) (hstop : stop ≤ d.length) :
    (d.deleted start stop).Pointed := by
  have hlength := length_deleted (Nat.le_of_lt hlt) hstop
  have moved {id : MarkId} (h : ∃ m, d.mark? id = some m ∧ m.offset ≤ d.length) :
      ∃ m, (d.deleted start stop).mark? id = some m ∧
        m.offset ≤ (d.deleted start stop).length := by
    obtain ⟨m, hm, hle⟩ := h
    rw [mark?_deleted (Nat.ne_of_lt hlt), hm, hlength]
    exact ⟨_, rfl, afterDeletion_le hle hstop (Nat.le_of_lt hlt)⟩
  exact ⟨moved hd.cursor, moved hd.bound⟩

/-- Where there is a selection, it can be set. -/
theorem Pointed.selectRange (hd : d.Pointed) (i j : Nat) :
    (d.selectRange i j).Pointed ∧
      (d.selectRange i j).selection = (min i d.length, min j d.length) := by
  obtain ⟨m, hm, -⟩ := hd.cursor
  obtain ⟨n, hn, -⟩ := hd.bound
  have hcursor : (d.selectRange i j).mark? cursorMark =
      some { m with offset := min i d.length } := by
    rw [Document.selectRange, mark?_moveMark, mark?_moveMark, if_neg (by decide), if_pos rfl, hm]
    rfl
  have hbound : (d.selectRange i j).mark? boundMark = some { n with offset := min j d.length } := by
    rw [Document.selectRange, mark?_moveMark, mark?_moveMark, if_pos rfl, if_neg (by decide), hn]
    rfl
  refine ⟨⟨⟨_, hcursor, Nat.min_le_right _ _⟩, ⟨_, hbound, Nat.min_le_right _ _⟩⟩, ?_⟩
  rw [selection, Document.cursor, Document.bound, markOffset?_eq, markOffset?_eq, hcursor, hbound]
  rfl

/-- The first of the edits is one of the selection: an insertion at the cursor where nothing is
selected, or a deletion between ends at which the selection has both its own. -/
def OpensAtSelection (d : Document) : List Attempt → Prop
  | [] => False
  | .insert o _ :: rest => rest = [] ∧ d.selection = (o, o)
  | .delete start stop :: _ => start < stop ∧ stop ≤ d.length ∧
      (d.cursor = start ∨ d.cursor = stop) ∧ (d.bound = start ∨ d.bound = stop)

theorem selectionBounds?_eq_none (h : d.selectionBounds? = none) :
    d.selection = (d.cursor, d.cursor) := by
  unfold selectionBounds? at h
  split at h
  · rename_i heq
    rw [selection, ← heq]
  · cases h

theorem opens_of_selectionBounds?
    (h : d.selectionBounds? = some (start, stop)) (hd : d.Pointed) (rest : List Attempt) :
    d.OpensAtSelection (.delete start stop :: rest) := by
  have hcursor := hd.cursor_le
  have hbound := hd.bound_le
  unfold selectionBounds? at h
  split at h
  · cases h
  · simp only [Option.some.injEq, Prod.mk.injEq] at h
    unfold OpensAtSelection
    omega

end Document

/-- Typing and deleting by keys, each a user action of its own. -/
def Command.IsStroke {H : Type} : Command H → Prop
  | .type _ | .backspace | .deleteKey | .deleteSelection => True
  | _ => False

namespace Buffer

variable {H : Type} [Observer H]

def attempt (b : Buffer H) : Attempt → Buffer H
  | .insert o t => b.tryInsert o t
  | .delete start stop => (b.tryDelete start stop).2

def attemptAll (b : Buffer H) (as : List Attempt) : Buffer H := as.foldl attempt b

/-- Edits within a user action of their own. -/
def actOut (b : Buffer H) (as : List Attempt) : Buffer H :=
  (b.beginUserAction.attemptAll as).finishUserAction

theorem type_eq_actOut (b : Buffer H) (t : Text) :
    ∃ as, b.type t = b.actOut as ∧ (b.doc.Pointed → b.doc.OpensAtSelection as) := by
  unfold Buffer.type
  dsimp only
  split
  · rename_i start stop hsel
    refine ⟨[.delete start stop,
      .insert (b.beginUserAction.tryDelete start stop).2.doc.cursor t], rfl, fun hd => ?_⟩
    exact Document.opens_of_selectionBounds? hsel hd _
  · rename_i hsel
    exact ⟨[.insert b.doc.cursor t], rfl, fun _ => ⟨rfl, Document.selectionBounds?_eq_none hsel⟩⟩

theorem deleteSelection_eq_actOut (b : Buffer H) :
    b.deleteSelection.2 = b ∨
      ∃ as, b.deleteSelection.2 = b.actOut as ∧ (b.doc.Pointed → b.doc.OpensAtSelection as) := by
  unfold Buffer.deleteSelection
  split
  · rename_i start stop hsel
    exact .inr ⟨[.delete start stop], rfl, fun hd => Document.opens_of_selectionBounds? hsel hd _⟩
  · exact .inl rfl

/-- A stroke does nothing, or its first edit is one of the selection. -/
theorem perform_stroke (b : Buffer H) {c : Command H} (hc : c.IsStroke) :
    b.perform c = b ∨
      ∃ as, b.perform c = b.actOut as ∧ (b.doc.Pointed → b.doc.OpensAtSelection as) := by
  have opens {start stop : Nat} (hsel : b.doc.selectionBounds? = none) (hlt : start < stop)
      (hstop : b.doc.Pointed → stop ≤ b.doc.length)
      (hcursor : b.doc.cursor = start ∨ b.doc.cursor = stop) :
      b.doc.Pointed → b.doc.OpensAtSelection [.delete start stop] := by
    intro hd
    have hbound : b.doc.bound = b.doc.cursor :=
      congrArg Prod.snd (Document.selectionBounds?_eq_none hsel)
    exact ⟨hlt, hstop hd, hcursor, by rwa [hbound]⟩
  cases c with
  | type t => exact .inr (b.type_eq_actOut t)
  | deleteSelection => exact b.deleteSelection_eq_actOut
  | backspace =>
    rw [perform, backspace]
    split
    · exact b.deleteSelection_eq_actOut
    · rename_i hsel
      rw [Bool.not_eq_true, Option.isSome_eq_false_iff, Option.isNone_iff_eq_none] at hsel
      split
      · exact .inl rfl
      · exact .inr ⟨[.delete (b.doc.cursor - 1) b.doc.cursor], rfl,
          opens hsel (by omega) (·.cursor_le) (.inr rfl)⟩
  | deleteKey =>
    rw [perform, deleteKey]
    split
    · exact b.deleteSelection_eq_actOut
    · rename_i hsel
      rw [Bool.not_eq_true, Option.isSome_eq_false_iff, Option.isNone_iff_eq_none] at hsel
      split
      · exact .inl rfl
      · rename_i hend
        exact .inr ⟨[.delete b.doc.cursor (b.doc.cursor + 1)], rfl,
          opens hsel (Nat.lt_succ_self _) (fun _ => Nat.lt_of_not_le hend) (.inl rfl)⟩
  | _ => exact hc.elim

/-- A condition that buffers keep through edits and user actions. -/
structure KeptByEdits (P : Buffer H → Prop) : Prop where
  inserted : ∀ {b : Buffer H} {o : Nat} {t : Text}, P b → t ≠ [] → o ≤ b.doc.length →
    P (b.insertedBare o t).markModified.cursorChanged
  deleted : ∀ {b : Buffer H} {start stop : Nat}, P b → start < stop → stop ≤ b.doc.length →
    P (b.deletedBare start stop).markModified.cursorChanged
  begun : ∀ {b : Buffer H}, P b → P b.beginUserAction
  finished : ∀ {b : Buffer H}, P b → P b.finishUserAction

namespace KeptByEdits

variable {P : Buffer H → Prop} {b : Buffer H}

theorem attempt (hP : KeptByEdits P) (hb : P b) (a : Attempt) : P (b.attempt a) := by
  cases a with
  | insert o t =>
    rw [Buffer.attempt, tryInsert_eq]
    split
    · rename_i hdone
      exact hP.inserted hb hdone.1 hdone.2
    · exact hb
  | delete start stop =>
    rw [Buffer.attempt, tryDelete_eq]
    split
    · rename_i hdone
      exact hP.deleted hb hdone.1 hdone.2
    · exact hb

theorem attemptAll (hP : KeptByEdits P) (hb : P b) (as : List Attempt) : P (b.attemptAll as) := by
  induction as generalizing b with
  | nil => exact hb
  | cons a as ih => exact ih (hP.attempt hb a)

theorem stroke (hP : KeptByEdits P) (hb : P b) {c : Command H} (hc : c.IsStroke) :
    P (b.perform c) := by
  rcases b.perform_stroke hc with heq | ⟨as, heq, -⟩
  · rwa [heq]
  · rw [heq]
    exact hP.finished (hP.attemptAll (hP.begun hb) as)

end KeptByEdits

end Buffer
end CodeBuffer
