import CodeBuffer.Pattern.Basic
import CodeBuffer.Registry

namespace CodeBuffer

/-- A pattern as it is written down. -/
inductive PatternDef where
  | simple (id style source : String)
  | delimited (id style opener closer : String) (contextClass : Option String)
  deriving DecidableEq, Repr

def PatternDef.id : PatternDef → String
  | simple id _ _ => id
  | delimited id _ _ _ _ => id

/-- A named set of patterns, with the character that makes a delimiter behind it ordinary text. -/
structure Language where
  id : String
  name : String
  escape : Option Char
  patterns : List PatternDef
  deriving DecidableEq, Repr

namespace Language

/-- A whole word out of a list. -/
def anyWord (words : List String) : String := "\\b(?:" ++ "|".intercalate words ++ ")\\b"

def c : Language where
  id := "c"
  name := "C"
  escape := some '\\'
  patterns := [
    .delimited "c:line-comment" "c:comment" "//" "\n" (some "comment"),
    .delimited "c:block-comment" "c:comment" "/\\*" "\\*/" (some "comment"),
    .delimited "c:string" "c:string" "\"" "\"" (some "string"),
    .delimited "c:char" "c:string" "'" "'" (some "string"),
    .simple "c:preprocessor" "c:preprocessor" "^[ \\t]*#[ \\t]*[a-z]+",
    .simple "c:keyword" "c:keyword" (anyWord
      ["break", "case", "continue", "default", "do", "else", "enum", "extern", "for", "goto", "if",
       "inline", "return", "sizeof", "static", "struct", "switch", "typedef", "union", "volatile",
       "while"]),
    .simple "c:type" "c:type" (anyWord
      ["bool", "char", "const", "double", "float", "int", "long", "short", "signed", "size_t",
       "unsigned", "void"]),
    .simple "c:number" "c:number"
      "\\b(?:0[xX][0-9a-fA-F]+|[0-9]+(?:\\.[0-9]+)?)[uUlLfF]*\\b"]

def rust : Language where
  id := "rust"
  name := "Rust"
  escape := some '\\'
  patterns := [
    .delimited "rust:line-comment" "rust:comment" "//" "\n" (some "comment"),
    .delimited "rust:block-comment" "rust:comment" "/\\*" "\\*/" (some "comment"),
    .delimited "rust:string" "rust:string" "\"" "\"" (some "string"),
    .simple "rust:keyword" "rust:keyword" (anyWord
      ["as", "async", "await", "break", "const", "continue", "crate", "dyn", "else", "enum",
       "extern", "fn", "for", "if", "impl", "in", "let", "loop", "match", "mod", "move", "mut",
       "pub", "ref", "return", "self", "Self", "static", "struct", "super", "trait", "type",
       "unsafe", "use", "where", "while"]),
    .simple "rust:type" "rust:type" (anyWord
      ["bool", "char", "f32", "f64", "i8", "i16", "i32", "i64", "i128", "isize", "str", "u8",
       "u16", "u32", "u64", "u128", "usize", "String", "Vec", "Option", "Result"]),
    .simple "rust:number" "rust:number"
      "\\b[0-9][0-9_]*(?:\\.[0-9_]+)?(?:[iuf](?:8|16|32|64|128|size))?\\b"]

/-- The languages that come with the library. -/
def registry : Registry Language :=
  (Registry.empty.insert c.id c).insert rust.id rust

end Language

/-- A language by its id. -/
def Registry.language (r : Registry Language) (id : String) : Except PatternError Language :=
  match r.get? id with
  | some l => .ok l
  | none => .error (.unknownLanguage id)

end CodeBuffer
