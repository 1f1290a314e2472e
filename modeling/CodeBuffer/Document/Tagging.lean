import CodeBuffer.Document.Basic

namespace CodeBuffer
namespace Document

def createTag (d : Document) (name : String) (style : Option String) : TagId × Document :=
  let (id, tags) := d.tags.create name style
  (id, { d with tags })

def applyTag (d : Document) (id : TagId) (start stop : Nat) : Document :=
  { d with tags := d.tags.modifyRanges id (·.add (min start d.length) (min stop d.length)) }

/-- Applies tags in many places at once. -/
def applyTags (d : Document) (placed : List (TagId × Interval)) : Document :=
  let length := d.length
  { d with tags := d.tags.addRanges (placed.map fun (id, i) =>
      (id, ⟨min i.start length, min i.stop length⟩)) }

def removeTag (d : Document) (id : TagId) (start stop : Nat) : Document :=
  { d with tags := d.tags.modifyRanges id (·.subtract start stop) }

def clearTag (d : Document) (id : TagId) : Document :=
  { d with tags := d.tags.modifyRanges id fun _ => .empty }

def hasTag (d : Document) (o : Nat) (id : TagId) : Bool := (d.tags.ranges? id).any (·.contains o)

def tagRanges (d : Document) (id : TagId) : List Interval :=
  ((d.tags.ranges? id).getD .empty).intervals

/-! Context classes -/

/-- The beginning of the names of the tags that say what a piece of text is. -/
def classMarker : String := "context-class:"

def classTagName (c : String) : String := classMarker ++ c

def classTag (d : Document) (c : String) : TagId × Document := d.createTag (classTagName c) none

def applyClass (d : Document) (c : String) (start stop : Nat) : Document :=
  let (id, d) := d.classTag c
  d.applyTag id start stop

def hasClass (d : Document) (o : Nat) (c : String) : Bool :=
  (d.tags.lookup? (classTagName c)).any (d.hasTag o)

/-- The class that a tag of this name stands for. -/
def className? (name : String) : Option String :=
  if classMarker.toList.isPrefixOf name.toList then
    some (String.ofList (name.toList.drop classMarker.length))
  else none

def classesAt (d : Document) (o : Nat) : List String :=
  (d.tags.coverAt o).filterMap fun id => (d.tags.name? id).bind className?

/-! Styles -/

def setScheme (d : Document) (s : Option StyleScheme) : Document :=
  { d with scheme := s, schemeGeneration := d.schemeGeneration + 1 }

/-- How a tag looks under the active scheme. -/
def tagLook? (d : Document) (id : TagId) : Option Style := do
  let name ← d.tags.style? id
  (← d.scheme).style? name

end Document
end CodeBuffer
