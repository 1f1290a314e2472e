import CodeBuffer.Highlighter.Analysis
import CodeBuffer.Highlighter.Painting
import CodeBuffer.Observer

namespace CodeBuffer
namespace Highlighter

def resetState (h : Highlighter) : Highlighter :=
  { h with
    table := .reset !h.hasDelimited
    refresh := .empty
    requests := .empty
    batchSize := h.config.clamp h.config.initialBatch
    attached := none
    bufferLength := 0 }

def isAttachedTo (h : Highlighter) (d : Document) : Bool := h.attached == some d.id

def attach (h : Highlighter) (d : Document) : Work :=
  let h := { h.resetState with attached := some d.id, bufferLength := d.length }
  let (h, d) := h.resolveTags d
  (h.refreshRange 0 h.bufferLength, d)

/-- Leaves a document and takes all tags of the highlighter off it. -/
def detach (h : Highlighter) (d : Document) : Work :=
  if h.isAttachedTo d then
    let own := h.patternTags.map (·.2) ++ h.classTags.map (·.2) ++ h.staleTags
    ({ h with patternTags := [], classTags := [], staleTags := [] }.resetState,
      own.foldl Document.clearTag d)
  else (h, d)

def editedBy (h : Highlighter) (d : Document) (edit : Edit) : Work :=
  (if h.isAttachedTo d then h.edited d.text edit else h, d)

def syncTags (h : Highlighter) (d : Document) : Work :=
  if h.isAttachedTo d then h.resolveTags d else (h, d)

/-- Tags find their looks through the scheme, so that all there is to do is to draw again. -/
def schemeChanged (h : Highlighter) (d : Document) : Work :=
  (if h.isAttachedTo d then h.announce 0 h.bufferLength else h, d)

/-- Highlights a range that is analysed. Any other is analysed first if the caller waits, and
noted for later if not. A frontier at the end of the text still owes the batch that finds the
table complete. -/
def updateHighlight (h : Highlighter) (d : Document) (start stop : Nat) (synchronous : Bool) :
    Work :=
  if h.isAttachedTo d then
    let stop := min stop d.length
    let start := min start stop
    let needed := d.text.lineBoundary stop
    let owesLast := match h.table.frontier with
      | .complete => false
      | .pending f => synchronous && decide (d.length ≤ f)
    let h := if owesLast then h.build d.text needed else h
    if h.table.frontier.covers needed then h.ensureHighlighted d start stop
    else if synchronous then
      (h.buildUntil d.text needed (d.length + 2)).ensureHighlighted d start stop
    else ({ h with requests := h.requests.add start stop }, d)
  else (h, d)

def highlightAll (h : Highlighter) (d : Document) : Work :=
  h.updateHighlight d 0 d.length true

def hasPendingWork (h : Highlighter) : Bool :=
  h.isAttached && (!h.table.isComplete || !h.requests.isEmpty)

/-- Serves requests in order as far as they are analysed. -/
def serve : List Interval → Work → Work
  | [], s => s
  | request :: rest, (h, d) =>
    let limit := match h.table.frontier with
      | .complete => request.stop
      | .pending f => min request.stop (d.text.lineStartOf f)
    if limit ≤ request.start then (h, d)
    else
      let s := { h with requests := h.requests.subtract request.start limit }.ensureHighlighted d
        request.start limit
      if limit < request.stop then s else serve rest s

/-- Analyses a batch if one is due, then serves requests. -/
def runIdleSlice (h : Highlighter) (d : Document) : Bool × Work :=
  if h.isAttachedTo d then
    let h := if h.table.isComplete then h else h.build d.text 0
    let s := serve h.requests.intervals (h, d)
    (s.1.hasPendingWork, s)
  else (false, h, d)

/-- Hands over what was announced, in order. -/
def takeAnnounced (h : Highlighter) : List Interval × Highlighter :=
  (h.announced.reverse, { h with announced := [] })

instance : Observer Highlighter where
  attach := attach
  detach := detach
  textInserted h d o n := h.editedBy d (.insertion o n)
  textDeleted h d o n := h.editedBy d (.deletion o n)
  schemeChanged := schemeChanged
  syncTags := syncTags
  updateHighlight := updateHighlight
  hasPendingWork := hasPendingWork
  runIdleSlice := runIdleSlice

end Highlighter
end CodeBuffer
