import CodeBuffer.Pattern.Engine
import CodeBuffer.Regex.Search
import CodeBuffer.Regex.Size
import CodeBuffer.Regex.Source

namespace CodeBuffer

def Matcher.ofAutomaton (source : String) (a : Regex.Automaton) : Matcher :=
  ⟨source, a.lengthAt, fun _ _ h => a.lengthAt_le h, a.search, a.search_eq⟩

namespace Regex

/-- The matcher that a source denotes; `none` if the source is malformed or denotes too much. -/
def matcher? (source : String) : Option Matcher := do
  let e ← read? source
  if Size.fits e then some (.ofAutomaton source (.ofExpr e)) else none

theorem source_matcher? {source : String} {m : Matcher} (h : matcher? source = some m) :
    m.source = source := by
  simp only [matcher?, Option.bind_eq_bind, Option.bind_eq_some_iff] at h
  obtain ⟨e, -, he⟩ := h
  split at he
  · obtain rfl := Option.some.inj he
    rfl
  · cases he

/-- Sources are regular expressions. -/
scoped instance : PatternEngine where
  compile? := matcher?
  source_eq := source_matcher?

end Regex
end CodeBuffer
