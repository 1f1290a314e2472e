import CodeBuffer.Pattern.Matcher

namespace CodeBuffer

/-- What the sources of patterns are compiled by. A source may be refused; the matcher of one that
is not tells it. -/
class PatternEngine where
  compile? : String → Option Matcher
  source_eq : ∀ {source : String} {m : Matcher}, compile? source = some m → m.source = source

end CodeBuffer
