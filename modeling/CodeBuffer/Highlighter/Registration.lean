import CodeBuffer.Highlighter.Basic
import CodeBuffer.Pattern.Language

namespace CodeBuffer
namespace Highlighter

variable [PatternEngine]

def checkUnique (h : Highlighter) (id : String) : Except PatternError Unit :=
  if (h.pattern? id).isSome then .error (.duplicateId id) else .ok ()

/-- The pattern that a definition denotes, with `key` if it is a delimited one. -/
def compile (key : PatternKey) : PatternDef → Except PatternError Pattern
  | .simple id style source => do
    return .simple ⟨id, style, ← compileMatcher source⟩
  | .delimited id style opener closer contextClass => do
    let opener ← compileMatcher opener
    let closer ← compileMatcher closer
    return .delimited ⟨id, style, key, opener, closer, contextClass⟩

/-- Adds a pattern. A delimited one makes all that is known of enclosures void. -/
def addPattern (h : Highlighter) (p : PatternDef) : Highlighter × Except PatternError Unit :=
  match h.checkUnique p.id with
  | .error err => (h, .error err)
  | .ok () =>
    match compile h.nextKey p with
    | .error err => (h, .error err)
    | .ok p =>
      let h := { h with patterns := h.patterns ++ [p] }
      (if p.isDelimited then { h with nextKey := h.nextKey + 1 }.invalidateAll else h.refreshAll,
        .ok ())

/-- Removes a pattern; its tag goes with the next look at the document's tags. -/
def removePattern (h : Highlighter) (id : String) : Bool × Highlighter :=
  match h.pattern? id with
  | none => (false, h)
  | some p =>
    let h := { h with
      patterns := h.patterns.eraseP (·.id == id)
      staleTags := h.staleTags ++ (h.patternTags.lookup id).toList
      patternTags := h.patternTags.filter fun entry => entry.1 != id }
    (true, if p.isDelimited then h.invalidateAll else h.refreshAll)

def setEscape (h : Highlighter) (escape : Option Char) : Highlighter :=
  if h.escape = escape then h else { h with escape }.invalidateAll

/-- Compiles definitions in order, up to the first that is refused. The key is the next free one,
and is handed back whatever comes of it. -/
def compileAll (key : PatternKey) : List Pattern → List PatternDef →
    PatternKey × Except PatternError (List Pattern)
  | done, [] => (key, .ok done)
  | done, p :: rest =>
    if done.any (·.id == p.id) then (key, .error (.duplicateId p.id))
    else
      match compile key p with
      | .error err => (key, .error err)
      | .ok p => compileAll (if p.isDelimited then key + 1 else key) (done ++ [p]) rest

/-- Puts the patterns of a language in the place of all others. When one of them is refused, only
the keys given out so far are lost. -/
def setLanguage (h : Highlighter) (l : Language) : Highlighter × Except PatternError Unit :=
  match compileAll h.nextKey [] l.patterns with
  | (nextKey, .error err) => ({ h with nextKey }, .error err)
  | (nextKey, .ok patterns) =>
    ({ h with
        nextKey, patterns, escape := l.escape
        staleTags := h.staleTags ++ h.patternTags.map Prod.snd
        patternTags := [] }.invalidateAll, .ok ())

def ofLanguage (config : BatchConfig) (l : Language) : Except PatternError Highlighter := do
  let (h, result) := (ofConfig config).setLanguage l
  result
  return h

end Highlighter
end CodeBuffer
