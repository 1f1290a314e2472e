import CodeBuffer.Unicode.Age
import CodeBuffer.Unicode.Segment

namespace CodeBuffer.Unicode

/-- The form in which names are compared: without case, blanks, low lines, hyphens and a leading
`is`. One short name would lose its own beginning and keeps it. -/
def looseName (name : List Char) : String :=
  let lower := name.map Char.toLower
  let kept (cs : List Char) :=
    cs.filter fun c => decide (c.toNat < 128) && !(c == ' ' || c == '_' || c == '-')
  match lower with
  | 'i' :: 's' :: rest => if kept rest = ['c'] then "isc" else .ofList (kept rest)
  | _ => .ofList (kept lower)

/-- The characters of a general category or of a union of some. -/
def categoryNamed? (name : String) : Option Ranges :=
  match name with
  | "any" => some [(0, Ranges.lastPoint)]
  | "ascii" => some [(0, 127)]
  | "assigned" => some Category.unassigned.ranges.compl
  | _ => (Category.names.lookup name).map Category.unionOf

/-- The characters that a single name stands for. Three short names of categories are also short
names of properties without a table, and mean the category. -/
def named? (name : List Char) : Option Ranges :=
  let name := looseName name
  let property? :=
    if ["cf", "sc", "lc"].contains name then none
    else (Property.names.lookup name).map Property.ranges
  property?.or ((categoryNamed? name).or ((Script.named? name).map Script.ranges))

/-- The characters for which a property has a value. -/
def valued? (property value : List Char) : Option Ranges :=
  let value := looseName value
  match looseName property with
  | "generalcategory" | "gc" => categoryNamed? value
  | "script" | "sc" => (Script.named? value).map Script.ranges
  | "scriptextensions" | "scx" => (Script.named? value).map Script.extended
  | "age" => Age.upTo? value
  | "graphemeclusterbreak" | "gcb" => GraphemeBreak.named? value
  | "wordbreak" | "wb" => WordBreak.named? value
  | "sentencebreak" | "sb" => SentenceBreak.named? value
  | _ => none

end CodeBuffer.Unicode
