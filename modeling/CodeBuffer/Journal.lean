import CodeBuffer.Highlighter.Service

namespace CodeBuffer

/-- Something that tells listeners which ranges to draw again. -/
class Announcer (H : Type) where
  /-- Hands over what was announced since the last time, in order. -/
  takeAnnounced : H → List Interval × H

instance : Announcer PlainText := ⟨fun h => ([], h)⟩

instance : Announcer Highlighter := ⟨Highlighter.takeAnnounced⟩

/-- What passes between a buffer, its observer and the observer's listeners. -/
inductive JournalEntry where
  | attached
  | detached
  | inserted (offset length : Nat)
  | deleted (offset length : Nat)
  | schemeChanged
  | tagsSynced
  | highlightAsked (start stop : Nat) (synchronous : Bool)
  | idleSlice
  | announced (start stop : Nat)
  deriving DecidableEq, Repr

/-- An observer with a record of what it was told and what it announced, latest first. -/
structure Journal (H : Type) where
  observer : H
  entries : List JournalEntry

namespace Journal

variable {H : Type} [Observer H] [Announcer H]

def start (h : H) : Journal H := ⟨h, []⟩

/-- Writes down what the observer has announced. -/
def collect (j : Journal H) : Journal H :=
  let (is, observer) := Announcer.takeAnnounced j.observer
  ⟨observer, (is.map fun i => JournalEntry.announced i.start i.stop).reverse ++ j.entries⟩

/-- Writes an entry, passes the call on, and writes down what the observer announced meanwhile. -/
def pass (j : Journal H) (entry : JournalEntry) (d : Document)
    (f : H → Document → H × Document) : Journal H × Document :=
  let j := j.collect
  let (observer, d) := f j.observer d
  (collect ⟨observer, entry :: j.entries⟩, d)

/-- Hands over the entries in order. -/
def takeEntries (j : Journal H) : List JournalEntry × Journal H :=
  let j := j.collect
  (j.entries.reverse, { j with entries := [] })

instance : Observer (Journal H) where
  attach j d := j.pass .attached d Observer.attach
  detach j d := j.pass .detached d Observer.detach
  textInserted j d o n := j.pass (.inserted o n) d fun h d => Observer.textInserted h d o n
  textDeleted j d o n := j.pass (.deleted o n) d fun h d => Observer.textDeleted h d o n
  schemeChanged j d := j.pass .schemeChanged d Observer.schemeChanged
  syncTags j d := j.pass .tagsSynced d Observer.syncTags
  updateHighlight j d s e sync :=
    j.pass (.highlightAsked s e sync) d fun h d => Observer.updateHighlight h d s e sync
  hasPendingWork j := Observer.hasPendingWork j.observer
  runIdleSlice j d :=
    let j := j.collect
    let (more, observer, d) := Observer.runIdleSlice j.observer d
    (more, collect ⟨observer, .idleSlice :: j.entries⟩, d)

end Journal
end CodeBuffer
