import CodeBuffer.Registry

namespace CodeBuffer

/-- Visual attributes. What a colour's text means is up to whoever draws. -/
structure Style where
  foreground : Option String := none
  background : Option String := none
  bold : Bool := false
  italic : Bool := false
  underline : Bool := false
  strikethrough : Bool := false
  deriving DecidableEq, Repr

/-- Styles by name. No name occurs twice. -/
structure StyleScheme where
  id : String
  name : String
  styles : List (String × Style)
  deriving DecidableEq, Repr

namespace StyleScheme

def empty (id name : String) : StyleScheme := ⟨id, name, []⟩

/-- Adds a style, or replaces the one of the same name. -/
def set (s : StyleScheme) (name : String) (style : Style) : StyleScheme :=
  { s with styles := s.styles.filter (·.1 != name) ++ [(name, style)] }

def get? (s : StyleScheme) (name : String) : Option Style := s.styles.lookup name

/-- The name in the default namespace that stands in for a name with a namespace of its own. -/
def defaultName? (name : String) : Option String :=
  match name.toList.dropWhile (· != ':') with
  | _ :: suffix => some ("def:" ++ String.ofList suffix)
  | [] => none

/-- A style by its own name, else by its name in the default namespace. -/
def style? (s : StyleScheme) (name : String) : Option Style :=
  (s.get? name).orElse fun _ => (defaultName? name).bind s.get?

/-- A small light scheme for the styles that the built-in languages use. -/
def classic : StyleScheme :=
  ⟨"classic", "Classic",
    [("def:comment", { foreground := some "#0000ff", italic := true }),
     ("def:string", { foreground := some "#ff00ff" }),
     ("def:keyword", { foreground := some "#a52a2a", bold := true }),
     ("def:type", { foreground := some "#2e8b57", bold := true }),
     ("def:number", { foreground := some "#ff00ff" }),
     ("def:preprocessor", { foreground := some "#a020f0" }),
     ("bracket-match",
      { foreground := some "#ffffff", background := some "#a0a0a0", bold := true })]⟩

end StyleScheme

/-- The schemes that come with the library. -/
def StyleScheme.registry : Registry StyleScheme :=
  Registry.empty.insert StyleScheme.classic.id StyleScheme.classic

end CodeBuffer
