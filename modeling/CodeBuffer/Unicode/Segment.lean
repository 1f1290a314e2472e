import CodeBuffer.Unicode.Property
import CodeBuffer.Unicode.Script

namespace CodeBuffer.Unicode

/-- The scripts of the given codes, without what they share. -/
def scriptsOf (codes : List String) : Ranges :=
  .ofList ((Script.all.filter fun s => codes.contains s.code).flatMap Script.ranges)

namespace GraphemeBreak

def extend : Ranges := graphemeExtend.union BaseProperty.emojiModifier.ranges

def prepend : Ranges :=
  BaseProperty.prependedConcatenationMark.ranges.union
    (.ofListing "D4E 111C2-111C3 113D1 1193F 11941 11A3A 11A84-11A89 11D46 11F02")

/-- Control characters and those that are to be ignored; none of them joins a neighbour. -/
def control : Ranges :=
  ((combined [.lineSeparator, .paragraphSeparator, .control, .format] []).union
    (Category.unassigned.ranges.inter defaultIgnorable)).diff
      ((prepend.union extend).union (.ofListing "A D 200C-200D"))

def spacingMark : Ranges :=
  (Category.spacingMark.ranges.union (.ofListing "E33 EB3")).diff
    (extend.union (.ofListing "102B-102C 1038 1062-1064 1067-106D 1083 1087-108C 108F 109A-109C
      1A61 1A63-1A64 AA7B AA7D 11720-11721"))

/-- The syllables with a vowel and no final consonant; there is one in every block of 28. -/
def openSyllables : Ranges := (List.range' 0xAC00 399 28).map fun n => (n, n)

/-- The characters of a value, by its name or short name in the loose form. -/
def named? : String → Option Ranges
  | "control" | "cn" => some control
  | "cr" => some (.ofListing "D")
  | "extend" | "ex" => some extend
  | "l" => some (.ofListing "1100-115F A960-A97C")
  | "lf" => some (.ofListing "A")
  | "lv" => some openSyllables
  | "lvt" => some (Ranges.diff [(0xAC00, 0xD7A3)] openSyllables)
  | "prepend" | "pp" => some prepend
  | "regionalindicator" | "ri" => some BaseProperty.regionalIndicator.ranges
  | "spacingmark" | "sm" => some spacingMark
  | "t" => some (.ofListing "11A8-11FF D7CB-D7FB")
  | "v" => some (.ofListing "1160-11A7 D7B0-D7C6 16D63 16D67-16D6A")
  | "zwj" => some (.ofListing "200D")
  | _ => none

end GraphemeBreak

namespace WordBreak

def extend : Ranges :=
  (GraphemeBreak.extend.union Category.spacingMark.ranges).diff (.ofListing "200D")

/-- The marks that stand before digits; the one that stands before letters is not among them. -/
def numberMarks : Ranges :=
  BaseProperty.prependedConcatenationMark.ranges.diff (.ofListing "70F")

def katakana : Ranges :=
  (scriptsOf ["Kana"]).union (.ofListing "3031-3035 309B-309C 30A0 30FC FF70")

def hebrewLetter : Ranges := (scriptsOf ["Hebr"]).inter Category.otherLetter.ranges

/-- Letters of scripts that separate words, and signs that stand inside words like letters. -/
def letter : Ranges :=
  ((alphabetic.diff BaseProperty.ideographic.ranges).union
    (.ofListing "2C2-2C5 2D2-2D7 2DE-2DF 2E5-2EB 2ED 2EF-2FF 55A-55C 55E 58A 5F3 70F A708-A716
      A720-A721 A789-A78A AB5B")).diff
    (((scriptsOf
        ["Hira", "Thai", "Laoo", "Mymr", "Khmr", "Tale", "Talu", "Lana", "Tavt", "Ahom"]).union
      katakana).union (extend.union hebrewLetter))

def named? : String → Option Ranges
  | "aletter" | "le" => some letter
  | "cr" => some (.ofListing "D")
  | "doublequote" | "dq" => some (.ofListing "22")
  | "extend" => some extend
  | "extendnumlet" | "ex" =>
    some (Category.connectorPunctuation.ranges.union (.ofListing "202F"))
  | "format" | "fo" =>
    some (Category.format.ranges.diff
      ((extend.union BaseProperty.prependedConcatenationMark.ranges).union
        (.ofListing "200B-200D")))
  | "hebrewletter" | "hl" => some hebrewLetter
  | "katakana" | "ka" => some katakana
  | "lf" => some (.ofListing "A")
  | "midletter" | "ml" => some midLetter
  | "midnum" | "mn" =>
    some (.ofListing "2C 3B 37E 589 60C-60D 66C 7F8 2044 FE10 FE14 FE50 FE54 FF0C FF1B")
  | "midnumlet" | "mb" => some midNumLet
  | "newline" | "nl" => some (.ofListing "B-C 85 2028-2029")
  | "numeric" | "nu" =>
    some ((Category.decimalNumber.ranges.union numberMarks).union (.ofListing "66B"))
  | "regionalindicator" | "ri" => some BaseProperty.regionalIndicator.ranges
  | "singlequote" | "sq" => some (.ofListing "27")
  | "wsegspace" => some (Category.spaceSeparator.ranges.diff (.ofListing "A0 2007 202F"))
  | "zwj" => some (.ofListing "200D")
  | _ => none

end WordBreak

namespace SentenceBreak

def extend : Ranges :=
  (graphemeExtend.union Category.spacingMark.ranges).union (.ofListing "200D")

def separator : Ranges := .ofListing "85 2028-2029"

/-- Full stops, which may end a sentence or an abbreviation. -/
def fullStop : Ranges := .ofListing "2E 2024 FE52 FF0E"

def lower : Ranges := lowercase.diff (extend.union (.ofListing "10D0-10FA 10FD-10FF"))

def upper : Ranges := (uppercase.union titlecase).diff (.ofListing "1C90-1CBF")

def named? : String → Option Ranges
  | "aterm" | "at" => some fullStop
  | "close" | "cl" =>
    some ((combined [.openPunctuation, .closePunctuation, .initialPunctuation,
      .finalPunctuation] []).union (.ofListing "22 27 275B-2760 2E00-2E01 2E06-2E08 2E0B
        1F676-1F678"))
  | "cr" => some (.ofListing "D")
  | "extend" | "ex" => some extend
  | "format" | "fo" =>
    some (Category.format.ranges.diff
      ((extend.union WordBreak.numberMarks).union (.ofListing "200C-200D")))
  | "lf" => some (.ofListing "A")
  | "lower" | "lo" => some lower
  | "numeric" | "nu" =>
    some ((Category.decimalNumber.ranges.union WordBreak.numberMarks).union
      (.ofListing "66B-66C"))
  | "oletter" | "le" =>
    some ((alphabetic.union (.ofListing "5F3")).diff ((lower.union upper).union extend))
  | "scontinue" | "sc" =>
    some (.ofListing "2C-2D 3A 55D 60C-60D 7F8 1802 1808 2013-2014 3001 FE10-FE11 FE13
      FE31-FE32 FE50-FE51 FE55 FE58 FE63 FF0C-FF0D FF1A FF64")
  | "sep" | "se" => some separator
  | "sp" => some (BaseProperty.whiteSpace.ranges.diff (separator.union (.ofListing "A D")))
  | "sterm" | "st" => some (BaseProperty.sentenceTerminal.ranges.diff fullStop)
  | "upper" | "up" => some upper
  | _ => none

end SentenceBreak

end CodeBuffer.Unicode
