namespace CodeBuffer

/-- The characters of a buffer in order. -/
abbrev Text := List Char

/-- The characters that end a line. A carriage return and the line feed behind it end it once. -/
def isLineBreak (c : Char) : Bool :=
  c == '\n' || c == '\r' || c == '\x0B' || c == '\x0C' || c == '\u0085' || c == '\u2028' ||
    c == '\u2029'

/-- What a rope is asked about its lines: how many there are, on which of them an offset lies, and
where one of them begins. -/
structure LineIndex where
  count : Text → Nat
  lineAt : Text → Nat → Nat
  startOf : Text → Nat → Nat

namespace Text

/-- The part of `[start, stop)` that the text has. -/
def slice (t : Text) (start stop : Nat) : Text := (t.take stop).drop start

/-- Where lines begin behind the first character of a text that itself begins at `o`. -/
def startsFrom (o : Nat) : Text → List Nat
  | [] => []
  | c :: rest =>
    if isLineBreak c && !(c == '\r' && rest.head? == some '\n') then
      (o + 1) :: startsFrom (o + 1) rest
    else startsFrom (o + 1) rest

/-- The offsets at which a line begins, the first line's included. -/
def lineStarts (t : Text) : List Nat := 0 :: t.startsFrom 0

/-- The lines of a rope, counted from the start of the text. -/
def lineIndex : LineIndex where
  count t := t.lineStarts.length
  lineAt t o := (t.startsFrom 0).countP fun s => decide (s ≤ o)
  startOf t line := t.lineStarts.getD line 0

/-- A terminator at the end of the text is followed by a last, empty line. -/
def lineCount (t : Text) : Nat := lineIndex.count t

/-- The line that holds an offset. Between a return and its feed the line goes on. -/
def lineOf (t : Text) (o : Nat) : Nat := lineIndex.lineAt t (min o t.length)

/-- Beyond the last line, the start of the last line. -/
def lineStart (t : Text) (line : Nat) : Nat :=
  lineIndex.startOf t (min line (t.lineCount - 1))

/-- The start of the next line, or the end of the text on the last line. -/
def lineStop (t : Text) (line : Nat) : Nat :=
  if line + 1 < t.lineCount then t.lineStart (line + 1) else t.length

/-- Where a line ends, its terminator left out. -/
def lineEnd (t : Text) (line : Nat) : Nat :=
  let line := min line (t.lineCount - 1)
  let start := t.lineStart line
  let stop := t.lineStop line
  if start < stop ∧ t[stop - 1]?.any isLineBreak then
    if start < stop - 1 ∧ t[stop - 1]? = some '\n' ∧ t[stop - 2]? = some '\r' then stop - 2
    else stop - 1
  else stop

def lineStartOf (t : Text) (o : Nat) : Nat := t.lineStart (t.lineOf o)

def lineEndOf (t : Text) (o : Nat) : Nat := t.lineEnd (t.lineOf o)

def startsLine (t : Text) (o : Nat) : Bool := o == 0 || t.lineStartOf o == o

/-- Whether a terminator or the end of the text is at an offset. -/
def endsLine (t : Text) (o : Nat) : Bool :=
  match t[o]? with
  | none => true
  | some '\n' => o == 0 || t[o - 1]? != some '\r'
  | some c => isLineBreak c

/-- The start of the line behind the one that holds `o`. -/
def nextLineStart (t : Text) (o : Nat) : Nat := t.lineStop (t.lineOf o)

/-- The first line start that is not before `o`. -/
def lineBoundary (t : Text) (o : Nat) : Nat := if t.startsLine o then o else t.nextLineStart o

/-- A line begins behind a terminator, so never at `o` itself. -/
theorem startsFrom_bounds {o s : Nat} {t : Text} (h : s ∈ t.startsFrom o) :
    o < s ∧ s ≤ o + t.length := by
  induction t generalizing o with
  | nil => simp [startsFrom] at h
  | cons c rest ih =>
    have later : s ∈ startsFrom (o + 1) rest → o < s ∧ s ≤ o + (c :: rest).length := by
      intro hs
      have := ih hs
      simp only [List.length_cons]
      omega
    unfold startsFrom at h
    split at h
    · rcases List.mem_cons.1 h with rfl | hs
      · simp only [List.length_cons]
        omega
      · exact later hs
    · exact later h

theorem pairwise_startsFrom (o : Nat) (t : Text) : (t.startsFrom o).Pairwise (· < ·) := by
  induction t generalizing o with
  | nil => simp [startsFrom]
  | cons c rest ih =>
    unfold startsFrom
    split
    · exact List.pairwise_cons.2 ⟨fun s hs => (startsFrom_bounds hs).1, ih (o + 1)⟩
    · exact ih (o + 1)

theorem pairwise_lineStarts (t : Text) : t.lineStarts.Pairwise (· < ·) :=
  List.pairwise_cons.2 ⟨fun _ hs => (startsFrom_bounds hs).1, pairwise_startsFrom 0 t⟩

theorem le_length_of_mem_lineStarts {t : Text} {s : Nat} (h : s ∈ t.lineStarts) :
    s ≤ t.length := by
  rcases List.mem_cons.1 h with rfl | hs
  · exact Nat.zero_le _
  · have := (startsFrom_bounds hs).2
    omega

theorem length_slice {t : Text} {start stop : Nat} (h : stop ≤ t.length) :
    (t.slice start stop).length = stop - start := by
  simp [slice, h]

end Text
end CodeBuffer
