import CodeBuffer.Unicode.Category

namespace CodeBuffer.Unicode

/-- The decimal digits of every script. -/
def digitRanges : Ranges := Category.decimalNumber.ranges

def isDigit (c : Char) : Bool := digitRanges.holds c.toNat

end CodeBuffer.Unicode
