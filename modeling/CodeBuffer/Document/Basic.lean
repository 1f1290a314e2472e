import CodeBuffer.Tag
import CodeBuffer.Style
import CodeBuffer.Text.Line

namespace CodeBuffer

/-- A mark is named by its slot. -/
abbrev MarkId := Nat

/-- A place that edits carry along. Text inserted at it goes behind a mark of left gravity and
before any other. -/
structure Mark where
  offset : Nat
  leftGravity : Bool
  deriving DecidableEq, Repr

/-- An edit that the text does not allow. -/
inductive EditError where
  | outOfRange (offset length : Nat)
  | reversed (start stop : Nat)
  deriving DecidableEq, Repr

def EditError.message : EditError → String
  | outOfRange offset length =>
      "offset " ++ toString offset ++ " is out of range (buffer has " ++ toString length ++
        " characters)"
  | reversed start stop => "invalid range " ++ toString start ++ ".." ++ toString stop

/-- A text with the marks and tags on it. The first two slots hold the cursor and the other end of
the selection; a slot without a mark is free. The generation counts the edits. -/
structure Document where
  id : Nat
  text : Text
  generation : Nat
  marks : List (Option Mark)
  tags : TagTable
  scheme : Option StyleScheme
  schemeGeneration : Nat
  modified : Bool
  deriving DecidableEq, Repr

/-- A place that holds until the next edit. -/
structure Walker where
  offset : Nat
  generation : Nat
  deriving DecidableEq, Repr

namespace Mark

def afterInsertion (pos len : Nat) (m : Mark) : Mark :=
  if pos < m.offset ∨ (m.offset = pos ∧ m.leftGravity = false) then
    { m with offset := m.offset + len }
  else m

def afterDeletion (start stop : Nat) (m : Mark) : Mark :=
  if stop ≤ m.offset then { m with offset := m.offset - (stop - start) }
  else if start < m.offset then { m with offset := start }
  else m

end Mark

namespace Document

def cursorMark : MarkId := 0
def boundMark : MarkId := 1

/-- A document with the cursor before its text. -/
def new (id : Nat) (text : Text) : Document :=
  { id, text, generation := 0, marks := [some ⟨0, false⟩, some ⟨0, false⟩], tags := .empty,
    scheme := none, schemeGeneration := 0, modified := false }

def length (d : Document) : Nat := d.text.length

def isEmpty (d : Document) : Bool := d.text.isEmpty

def charAt? (d : Document) (o : Nat) : Option Char := d.text[o]?

def checkOffset (d : Document) (o : Nat) : Except EditError Unit :=
  if d.length < o then .error (.outOfRange o d.length) else .ok ()

def checkRange (d : Document) (start stop : Nat) : Except EditError Unit :=
  if stop < start then .error (.reversed start stop) else d.checkOffset stop

/-- The document once the text is changed at a valid offset; no text is no edit. -/
def inserted (d : Document) (o : Nat) (t : Text) : Document :=
  if t.isEmpty then d
  else { d with
    text := d.text.take o ++ t ++ d.text.drop o
    generation := d.generation + 1
    marks := d.marks.map (·.map (Mark.afterInsertion o t.length))
    tags := d.tags.mapRanges (·.shiftForInsertion o t.length) }

/-- The document once a valid range is gone; an empty range is no edit. -/
def deleted (d : Document) (start stop : Nat) : Document :=
  if start = stop then d
  else { d with
    text := d.text.take start ++ d.text.drop stop
    generation := d.generation + 1
    marks := d.marks.map (·.map (Mark.afterDeletion start stop))
    tags := d.tags.mapRanges (·.shiftForDeletion start stop) }

def insert (d : Document) (o : Nat) (t : Text) : Document × Except EditError Unit :=
  match d.checkOffset o with
  | .error e => (d, .error e)
  | .ok () => (d.inserted o t, .ok ())

/-- Removes a range and hands back what it held. -/
def delete (d : Document) (start stop : Nat) : Document × Except EditError Text :=
  match d.checkRange start stop with
  | .error e => (d, .error e)
  | .ok () => (d.deleted start stop, .ok (d.text.slice start stop))

/-! Walkers -/

def walkerAt (d : Document) (o : Nat) : Walker := ⟨min o d.length, d.generation⟩

def isValid (d : Document) (i : Walker) : Bool := i.generation == d.generation

def isAtEnd (d : Document) (i : Walker) : Bool := decide (d.length ≤ i.offset)

def guardWalker {α : Type} (d : Document) (i : Walker) (a : α) : Except Fault α :=
  if d.isValid i then .ok a else .error .staleWalker

def charUnder? (d : Document) (i : Walker) : Except Fault (Option Char) :=
  d.guardWalker i (d.charAt? i.offset)

/-- One character on; `false` at the end of the text, where the walker stays. -/
def forward (d : Document) (i : Walker) : Except Fault (Bool × Walker) :=
  d.guardWalker i (if d.isAtEnd i then (false, i) else (true, { i with offset := i.offset + 1 }))

def backward (d : Document) (i : Walker) : Except Fault (Bool × Walker) :=
  d.guardWalker i (if i.offset = 0 then (false, i) else (true, { i with offset := i.offset - 1 }))

/-! Marks -/

/-- Puts a mark into the first free slot. -/
def createMark (d : Document) (o : Nat) (leftGravity : Bool) : MarkId × Document :=
  let mark : Mark := ⟨min o d.length, leftGravity⟩
  match (d.marks.drop 2).findIdx? (·.isNone) with
  | some free => (free + 2, { d with marks := d.marks.set (free + 2) (some mark) })
  | none => (d.marks.length, { d with marks := d.marks ++ [some mark] })

def moveMark (d : Document) (id : MarkId) (o : Nat) : Document :=
  { d with marks := d.marks.modify id (·.map ({ · with offset := min o d.length })) }

/-- Frees a slot. The cursor and the selection's other end stay. -/
def deleteMark (d : Document) (id : MarkId) : Document :=
  if id = cursorMark ∨ id = boundMark then d else { d with marks := d.marks.set id none }

def markOffset? (d : Document) (id : MarkId) : Option Nat := d.marks[id]?.join.map (·.offset)

def cursor (d : Document) : Nat := (d.markOffset? cursorMark).getD 0

def bound (d : Document) : Nat := (d.markOffset? boundMark).getD 0

/-- The cursor and the other end of the selection. -/
def selection (d : Document) : Nat × Nat := (d.cursor, d.bound)

def selectionBounds? (d : Document) : Option (Nat × Nat) :=
  if d.cursor = d.bound then none else some (min d.cursor d.bound, max d.cursor d.bound)

def selectRange (d : Document) (insert bound : Nat) : Document :=
  (d.moveMark cursorMark insert).moveMark boundMark bound

def placeCursor (d : Document) (o : Nat) : Document := d.selectRange o o

def setModified (d : Document) (b : Bool) : Document := { d with modified := b }

theorem length_inserted {d : Document} {o : Nat} {t : Text} (h : o ≤ d.length) :
    (d.inserted o t).length = d.length + t.length := by
  unfold length at *
  unfold inserted
  split
  · rename_i ht
    simp [List.isEmpty_iff.1 ht]
  · simp only [List.length_append, List.length_take, List.length_drop]
    omega

theorem length_deleted {d : Document} {start stop : Nat} (h : start ≤ stop)
    (hs : stop ≤ d.length) : (d.deleted start stop).length = d.length - (stop - start) := by
  unfold length at *
  unfold deleted
  split
  · omega
  · simp only [List.length_append, List.length_take, List.length_drop]
    omega

/-- What an insertion does: it is refused behind the text, and then changes nothing. -/
theorem insert_eq (d : Document) (o : Nat) (t : Text) :
    d.insert o t = if o ≤ d.length then (d.inserted o t, .ok ())
      else (d, .error (.outOfRange o d.length)) := by
  by_cases ho : o ≤ d.length
  · rw [insert, checkOffset, if_neg (Nat.not_lt.2 ho), if_pos ho]
  · rw [insert, checkOffset, if_pos (Nat.not_le.1 ho), if_neg ho]

theorem checkRange_eq (d : Document) {start stop : Nat} (h : start ≤ stop) (hs : stop ≤ d.length) :
    d.checkRange start stop = .ok () := by
  rw [checkRange, if_neg (by omega), checkOffset, if_neg (by omega)]

/-- A range is refused if its ends are in the wrong order, or else if it goes beyond the text. -/
theorem checkRange_eq_error_iff {d : Document} {start stop : Nat} {e : EditError} :
    d.checkRange start stop = .error e ↔
      stop < start ∧ e = .reversed start stop ∨
        start ≤ stop ∧ d.length < stop ∧ e = .outOfRange stop d.length := by
  unfold checkRange checkOffset
  split
  · rename_i hlt
    simp only [Except.error.injEq, hlt, Nat.not_le.2 hlt, true_and, false_and, or_false, eq_comm]
  · rename_i hle
    simp only [hle, Nat.not_lt.1 hle, true_and, false_and, false_or]
    split
    · rename_i hout
      simp only [Except.error.injEq, hout, true_and, eq_comm]
    · rename_i hin
      simp only [reduceCtorEq, hin, false_and]

theorem checkRange_error (d : Document) {start stop : Nat} (h : ¬(start ≤ stop ∧ stop ≤ d.length)) :
    ∃ e, d.checkRange start stop = .error e := by
  cases hcheck : d.checkRange start stop with
  | error e => exact ⟨e, rfl⟩
  | ok _ =>
    unfold checkRange checkOffset at hcheck
    split at hcheck
    · cases hcheck
    · rw [if_pos (by omega)] at hcheck
      cases hcheck

theorem delete_of_mem {d : Document} {start stop : Nat} (h : start ≤ stop) (hs : stop ≤ d.length) :
    d.delete start stop = (d.deleted start stop, .ok (d.text.slice start stop)) := by
  rw [delete, d.checkRange_eq h hs]

theorem delete_of_error {d : Document} {start stop : Nat} {e : EditError}
    (he : d.checkRange start stop = .error e) : d.delete start stop = (d, .error e) := by
  rw [delete, he]

/-- The document behind a deletion: where there is no such range it is the same. -/
theorem delete_fst (d : Document) (start stop : Nat) :
    (d.delete start stop).1 =
      if start ≤ stop ∧ stop ≤ d.length then d.deleted start stop else d := by
  by_cases h : start ≤ stop ∧ stop ≤ d.length
  · rw [delete_of_mem h.1 h.2, if_pos h]
  · obtain ⟨e, he⟩ := d.checkRange_error h
    rw [delete_of_error he, if_neg h]

end Document
end CodeBuffer
