import CodeBuffer.Delimiter.Basic
import CodeBuffer.Pattern.Lookahead

namespace CodeBuffer

/-- How many characters `c` stand in a row right before an offset. -/
def Text.runBefore (t : Text) (c : Char) (o : Nat) : Nat :=
  ((t.take o).reverse.takeWhile (· == c)).length

/-- Whole lines of a text, the first of them at offset `base`, and how many escape characters stand
right before them. -/
structure Chunk where
  base : Nat
  lines : Text
  escape : Option Char
  escapesBefore : Nat

namespace Chunk

/-- From the line that holds `start` up to `stop`. -/
def ofRange (t : Text) (start stop : Nat) (escape : Option Char) : Chunk :=
  let base := t.lineStartOf start
  ⟨base, t.slice base stop, escape, escape.elim 0 fun c => t.runBefore c base⟩

/-- Whether an odd number of escape characters stands right before a place in the lines. -/
def isEscaped (c : Chunk) (p : Place) : Bool :=
  match c.escape with
  | none => false
  | some e =>
    let run := (p.before.takeWhile (· == e)).length
    let all := if c.base + run = p.offset then c.escapesBefore + run else run
    all % 2 == 1

/-- The first match from a place on that is neither empty nor escaped. Matches see no text outside
the chunk, escapes do. -/
def find (c : Chunk) (m : Matcher) (p : Place) : Option Interval :=
  m.find (fun p => !c.isEscaped p) p

/-- The earliest of the next openers; of several at one offset the first pattern's. -/
def earliest : List (DelimitedPattern × Lookahead) → Option (Interval × PatternKey)
  | [] => none
  | (p, known) :: rest =>
    match known.match?, earliest rest with
    | none, later => later
    | some i, none => some (i, p.key)
    | some i, some (j, key) => if j.start < i.start then some (j, key) else some (i, p.key)

/-- The next delimiter from a place on and where to go on behind it, with what is then known of
each pattern's opener. -/
def next? (c : Chunk) (ps : List DelimitedPattern) (known : List Lookahead) (p : Place)
    (inside : Option PatternKey) : Option (Delimiter × Nat) × List Lookahead :=
  match inside with
  | some key =>
    let found := (ps.find? (·.key == key)).bind fun q => c.find q.closer p
    (found.map fun i => (.closer i.stop, i.stop), known)
  | none =>
    let known := List.zipWith (fun q l => l.refresh (c.find q.opener) p) ps known
    ((earliest (ps.zip known)).map fun (i, key) => (.opener i.start key, i.stop), known)

/-- The delimiters from a place on. `fuel` bounds their number. -/
def collectFrom (c : Chunk) (ps : List DelimitedPattern) :
    Nat → List Lookahead → Place → Option PatternKey → List Delimiter
  | 0, _, _, _ => []
  | fuel + 1, known, p, inside =>
    match c.next? ps known p inside with
    | (none, _) => []
    | (some (d, resume), known) =>
      d :: c.collectFrom ps fuel known (p.forward (resume - p.offset)) d.key

/-- All delimiters of a chunk from `pos` on, where the state is `inside`. Each of them has a
character of its own, so there are no more than characters. -/
def collect (c : Chunk) (ps : List DelimitedPattern) (pos : Nat) (inside : Option PatternKey) :
    List Delimiter :=
  c.collectFrom ps (c.lines.length + 1) (ps.map fun _ => .unknown)
    ((Place.front c.base c.lines).forward (pos - c.base)) inside

end Chunk
end CodeBuffer
