import CodeBuffer.Unicode.Property

namespace CodeBuffer.Unicode

/-- The characters of words: what is alphabetic, marks, digits, connectors and joiners. -/
def wordRanges : Ranges :=
  alphabetic.union
    (combined (.decimalNumber :: .connectorPunctuation :: Category.marks) [.joinControl])

def isWord (c : Char) : Bool := wordRanges.holds c.toNat

end CodeBuffer.Unicode
