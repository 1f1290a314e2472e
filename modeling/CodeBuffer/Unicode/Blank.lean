import CodeBuffer.Unicode.BaseProperty

namespace CodeBuffer.Unicode

/-- The characters that count as white space. -/
def blankRanges : Ranges := BaseProperty.whiteSpace.ranges

def isBlank (c : Char) : Bool := blankRanges.holds c.toNat

end CodeBuffer.Unicode
