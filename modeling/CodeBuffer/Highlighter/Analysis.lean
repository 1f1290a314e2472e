import CodeBuffer.Delimiter.Chunk
import CodeBuffer.Highlighter.Basic

namespace CodeBuffer
namespace Highlighter

/-- Looks again at the lines that an edit touched and brings the delimiters up to date. -/
def updateTable (h : Highlighter) (t : Text) (edit : Edit) : Highlighter :=
  let head := t.lineStartOf edit.offset
  let scanStop := t.nextLineStart edit.stop
  let h := h.refreshRange head scanStop
  if !h.hasDelimited then h
  else if h.table.isBeyondFrontier edit then { h with table := h.table.truncateOld head }
  else
    let fresh := (Chunk.ofRange t head scanStop h.escape).collect (delimitedOf h.patterns) head
      (h.table.stateBefore head)
    { h with table := (h.table.applyEdit edit head scanStop fresh).2 }

def shiftRegions (h : Highlighter) : Edit → Highlighter
  | .insertion o n =>
    { h with
      refresh := h.refresh.shiftForInsertion o n
      requests := h.requests.shiftForInsertion o n }
  | .deletion o n =>
    { h with
      refresh := h.refresh.shiftForDeletion o (o + n)
      requests := h.requests.shiftForDeletion o (o + n) }

/-- Takes an edit into account; `t` is the text after it. -/
def edited (h : Highlighter) (t : Text) (edit : Edit) : Highlighter :=
  ({ h with bufferLength := t.length }.shiftRegions edit).updateTable t edit

/-- Where a batch that begins at the frontier `start` ends: a whole batch further, or at
`needed` if that lies beyond, and then at the end of the line. -/
def batchStop (h : Highlighter) (t : Text) (start needed : Nat) : Nat :=
  t.nextLineStart (min (max (start + h.batchSize) needed) t.length)

/-- Goes by the clock for the size of the next batch, unless the last one was empty. Where the clock
says nothing the size stays. -/
def reestimate (h : Highlighter) (analysed : Nat) : Highlighter :=
  match analysed, h.estimates with
  | _ + 1, estimate :: rest => { h with batchSize := h.config.clamp estimate, estimates := rest }
  | _, _ => h

theorem reestimate_eq (h : Highlighter) (analysed : Nat) :
    ∃ batchSize estimates, h.reestimate analysed = { h with batchSize, estimates } := by
  unfold reestimate
  split
  · exact ⟨_, _, rfl⟩
  · exact ⟨h.batchSize, h.estimates, rfl⟩

@[simp] theorem table_reestimate (h : Highlighter) (analysed : Nat) :
    (h.reestimate analysed).table = h.table := by
  obtain ⟨batchSize, estimates, heq⟩ := h.reestimate_eq analysed
  rw [heq]

/-- Analyses one batch. -/
def build (h : Highlighter) (t : Text) (needed : Nat) : Highlighter :=
  match h.table.frontier with
  | .complete => h
  | .pending start =>
    let stop := h.batchStop t start needed
    let found := (Chunk.ofRange t start stop h.escape).collect (delimitedOf h.patterns) start
      h.table.lastState
    let table := match h.table.pushAll start found with
      | (true, table) => table
      | (false, table) => table.finishBatch stop (decide (t.length ≤ stop))
    ({ h with table }.reestimate (stop - start)).refreshRange start stop

/-- Analyses batches until an offset is covered, or a batch brings nothing new. `fuel` bounds
their number. -/
def buildUntil (h : Highlighter) (t : Text) (o : Nat) : Nat → Highlighter
  | 0 => h
  | fuel + 1 =>
    if h.table.frontier.covers o then h
    else
      let next := h.build t o
      if next.table.frontier = h.table.frontier then next else next.buildUntil t o fuel

end Highlighter
end CodeBuffer
