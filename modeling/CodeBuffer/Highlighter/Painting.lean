import CodeBuffer.Highlighter.Basic
import CodeBuffer.Pattern.SimpleMatch

namespace CodeBuffer
namespace Highlighter

/-- The tag of a pattern, made if need be. -/
def patternTag (h : Highlighter) (d : Document) (id style : String) : TagId × Work :=
  match h.patternTags.lookup id with
  | some tag => (tag, h, d)
  | none =>
    let (tag, d) := d.createTag id (some style)
    (tag, { h with patternTags := h.patternTags ++ [(id, tag)] }, d)

def classTag (h : Highlighter) (d : Document) (c : String) : TagId × Work :=
  match h.classTags.lookup c with
  | some tag => (tag, h, d)
  | none =>
    let (tag, d) := d.classTag c
    (tag, { h with classTags := h.classTags ++ [(c, tag)] }, d)

def dropStaleTags (h : Highlighter) (d : Document) : Work :=
  ({ h with staleTags := [] }, h.staleTags.foldl Document.clearTag d)

/-- Takes away the tags of patterns that are gone and makes those of new ones. -/
def resolveTags (h : Highlighter) (d : Document) : Work :=
  let (h, d) := h.dropStaleTags d
  h.patterns.foldl (fun (h, d) p => (h.patternTag d p.id p.style).2) (h, d)

/-- What a piece of text is tagged as: a match of a pattern, or text of a context class. -/
inductive Label where
  | pattern (id style : String)
  | contextClass (name : String)

structure Stroke where
  start : Nat
  stop : Nat
  label : Label

def labelTag (h : Highlighter) (d : Document) : Label → TagId × Work
  | .pattern id style => h.patternTag d id style
  | .contextClass c => h.classTag d c

/-- What to tag in a span that begins at a place: an enclosure as a whole, other text by the
matches in it. -/
def spanStrokes (h : Highlighter) (p : Place) (span : Span) : List Stroke :=
  match span.key with
  | some key =>
    match (delimitedOf h.patterns).find? (·.key == key) with
    | none => []
    | some q =>
      ⟨span.start, span.stop, .pattern q.id q.style⟩ ::
        q.contextClass.toList.map fun c => ⟨span.start, span.stop, .contextClass c⟩
  | none =>
    (SimpleMatch.collect (h.patterns.filterMap (·.simple?)) p span.stop).map fun m =>
      ⟨m.start, m.stop, .pattern m.pattern.id m.pattern.style⟩

/-- What to tag in spans that follow each other, the first of them at a place. -/
def strokes (h : Highlighter) (p : Place) : List Span → List Stroke
  | [] => []
  | span :: rest => h.spanStrokes p span ++ h.strokes (p.forward (span.stop - span.start)) rest

/-- Finds or makes the tags of the strokes in order and applies them. A tag that the document does
not have by then, since it is one of another document, is applied nowhere. -/
def paint (strokes : List Stroke) (s : Work) : Work :=
  let (placed, h, d) := strokes.foldl (fun (placed, h, d) k =>
    let (tag, h, d) := h.labelTag d k.label
    (if d.tags.has tag then (tag, ⟨k.start, k.stop⟩) :: placed else placed, h, d)) ([], s)
  (h, d.applyTags placed.reverse)

/-- Puts all tags of the highlighter on a range anew. -/
def highlightRegion (h : Highlighter) (d : Document) (start stop : Nat) : Work :=
  let (h, d) := h.dropStaleTags d
  let own := h.patternTags.map (·.2) ++ h.classTags.map (·.2)
  let d := own.foldl (fun d tag => d.removeTag tag start stop) d
  paint (h.strokes (.front start (d.text.slice start stop)) (h.table.spans start stop)) (h, d)

/-- Highlights the lines that hold an out-of-date interval, as far as they are analysed. -/
def highlightLines (s : Work) (i : Interval) : Work :=
  let (h, d) := s
  let start := d.text.lineStartOf i.start
  let boundary := d.text.lineBoundary i.stop
  let stop := match h.table.frontier with
    | .complete => boundary
    | .pending f => min boundary f
  if start < stop then
    let (h, d) := h.highlightRegion d start stop
    ({ h with refresh := h.refresh.subtract start stop }, d)
  else s

/-- Highlights every out-of-date line in a range that the table covers. -/
def ensureHighlighted (h : Highlighter) (d : Document) (start stop : Nat) : Work :=
  (h.refresh.intersect start stop).intervals.foldl highlightLines (h, d)

end Highlighter
end CodeBuffer
