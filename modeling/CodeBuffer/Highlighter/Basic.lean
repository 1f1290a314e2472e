import CodeBuffer.Delimiter.Table
import CodeBuffer.Document.Tagging

namespace CodeBuffer

/-- How much text a batch analyses. The time slice is what a batch should take; how much text that
comes to is told by a clock. -/
structure BatchConfig where
  timeSliceMillis : Nat := 30
  initialBatch : Nat := 40 * 1024
  minimumBatch : Nat := 1024
  maximumBatch : Nat := 1024 * 1024
  deriving DecidableEq, Repr

/-- A batch size within the bounds; the lower one, which is at least one, prevails. -/
def BatchConfig.clamp (c : BatchConfig) (batch : Nat) : Nat :=
  max (min batch c.maximumBatch) (max c.minimumBatch 1)

/-- A highlighter of one document. `refresh` is the text whose tags are out of date, `requests`
what someone wants highlighted and could not have yet, and `announced` what listeners were told
to draw again, latest first. Tags of patterns that are gone wait in `staleTags`. What the clock will
say of each batch to come, how much text goes into the time slice, stands in `estimates`. -/
structure Highlighter where
  config : BatchConfig
  patterns : List Pattern
  nextKey : PatternKey
  escape : Option Char
  table : DelimiterTable
  refresh : Region
  requests : Region
  batchSize : Nat
  estimates : List Nat
  attached : Option Nat
  bufferLength : Nat
  patternTags : List (String × TagId)
  classTags : List (String × TagId)
  staleTags : List TagId
  announced : List Interval

/-- A highlighter with the document that it works on. -/
abbrev Work := Highlighter × Document

namespace Highlighter

def ofConfig (config : BatchConfig) : Highlighter :=
  { config, patterns := [], nextKey := 0, escape := none, table := .reset true, refresh := .empty,
    requests := .empty, batchSize := config.clamp config.initialBatch, estimates := [],
    attached := none, bufferLength := 0, patternTags := [], classTags := [], staleTags := [],
    announced := [] }

def pattern? (h : Highlighter) (id : String) : Option Pattern := h.patterns.find? (·.id == id)

def isAttached (h : Highlighter) : Bool := h.attached.isSome

def hasDelimited (h : Highlighter) : Bool := h.patterns.any (·.isDelimited)

def announce (h : Highlighter) (start stop : Nat) : Highlighter :=
  { h with announced := ⟨start, stop⟩ :: h.announced }

/-- Marks a range as out of date and announces it. -/
def refreshRange (h : Highlighter) (start stop : Nat) : Highlighter :=
  if stop ≤ start then h else { h with refresh := h.refresh.add start stop }.announce start stop

def refreshAll (h : Highlighter) : Highlighter :=
  if h.isAttached then h.refreshRange 0 h.bufferLength else h

/-- Forgets the delimiters. -/
def invalidateAll (h : Highlighter) : Highlighter :=
  { h with table := .reset !h.hasDelimited }.refreshAll

end Highlighter
end CodeBuffer
