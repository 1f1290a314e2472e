import CodeBuffer.Proofs.Scanning.Leftmost
import CodeBuffer.Proofs.Upkeep.Table

namespace CodeBuffer
namespace Chunk

/-- A match in the lines from the one that holds `start` up to `stop`, of which the matcher sees
nothing else. It is not empty, and no odd number of escape characters stands right before it in the
text. -/
def Delimits (t : Text) (start stop : Nat) (escape : Option Char) (m : Matcher) (i : Interval) :
    Prop :=
  m.Matches (t.lineStartOf start) (t.slice (t.lineStartOf start) stop) i ∧
    t.isEscapedAt escape i.start = false

section
variable (t : Text) (start stop : Nat) (escape : Option Char) (ps : List DelimitedPattern)

/-- The next delimiter from `pos` on, and where to go on behind it. Outside of the enclosures it is
the first opener, which at one offset is that of the first pattern; inside it is the first closer
of the pattern. -/
inductive Next (pos : Nat) : Option PatternKey → Delimiter → Nat → Prop
  | opener {ahead behind : List DelimitedPattern} {q : DelimitedPattern} {i : Interval}
      (split : ps = ahead ++ q :: behind)
      (here : i.IsFirst (Delimits t start stop escape q.opener) pos)
      (first : ∀ r ∈ ahead, ∀ j, Delimits t start stop escape r.opener j → pos ≤ j.start →
        i.start < j.start)
      (nearest : ∀ r ∈ behind, ∀ j, Delimits t start stop escape r.opener j → pos ≤ j.start →
        i.start ≤ j.start) :
      Next pos none (.opener i.start q.key) i.stop
  | closer {key : PatternKey} {q : DelimitedPattern} {i : Interval}
      (pattern : ps.find? (·.key == key) = some q)
      (here : i.IsFirst (Delimits t start stop escape q.closer) pos) :
      Next pos (some key) (.closer i.stop) i.stop

/-- The delimiters from `pos` on, one after the other, until there is none. -/
inductive Scans : Nat → Option PatternKey → List Delimiter → Prop
  | done {pos : Nat} {inside : Option PatternKey}
      (none : ∀ d resume, ¬Next t start stop escape ps pos inside d resume) : Scans pos inside []
  | step {pos resume : Nat} {inside : Option PatternKey} {d : Delimiter} {ds : List Delimiter}
      (next : Next t start stop escape ps pos inside d resume) (rest : Scans resume d.key ds) :
      Scans pos inside (d :: ds)

end

variable {t : Text} {start stop pos resume : Nat} {escape : Option Char}
  {ps : List DelimitedPattern} {inside : Option PatternKey} {d : Delimiter} {ds : List Delimiter}

/-- A chunk ends with the text and not before its first line. -/
theorem ofRange_within (t : Text) (start stop : Nat) (escape : Option Char) :
    ofRange t start stop escape =
      ofRange t start (max (t.lineStartOf start) (min stop t.length)) escape := by
  have hlines : t.slice (t.lineStartOf start) stop =
      t.slice (t.lineStartOf start) (max (t.lineStartOf start) (min stop t.length)) := by
    rw [Text.slice, Text.slice, List.drop_take, List.drop_take, List.take_eq_take_iff,
      List.length_drop]
    omega
  rw [ofRange, ofRange, hlines]

/-- In its lines a chunk tells what is escaped in the text. -/
theorem isEscaped_front {o : Nat} (hlo : t.lineStartOf start ≤ o)
    (hhi : o ≤ t.lineStartOf start + (t.slice (t.lineStartOf start) stop).length) :
    (ofRange t start stop escape).isEscaped ((ofRange t start stop escape).spot o) =
      t.isEscapedAt escape o := by
  have hbase := t.lineStartOf_le start
  rw [Text.slice, List.length_drop, List.length_take] at hhi
  rw [ofRange_within]
  exact isEscaped_spot hlo (by omega) (by omega)

/-- What a chunk's scan accepts are the delimiting matches. -/
theorem accepts_eq (m : Matcher) :
    m.Accepts (fun p => !(ofRange t start stop escape).isEscaped p) (t.lineStartOf start)
        (t.slice (t.lineStartOf start) stop) = Delimits t start stop escape m := by
  funext i
  refine propext (and_congr_right fun hmatch => ?_)
  have hlt := hmatch.start_lt
  have hle := hmatch.stop_le
  rw [Bool.not_eq_true', ← @isEscaped_front t start stop escape _ hmatch.base_le (by omega)]
  rfl

theorem find_eq_some_iff {m : Matcher} {i : Interval} :
    (ofRange t start stop escape).find m ((ofRange t start stop escape).spot pos) = some i ↔
      i.IsFirst (Delimits t start stop escape m) pos := by
  rw [← accepts_eq]
  exact Matcher.find_front_eq_some_iff

theorem forall_isFirst_iff {m : Matcher} {Q : Interval → Prop}
    (later : ∀ i j, i.start < j.start → Q i → Q j) :
    (∀ i : Interval, i.IsFirst (Delimits t start stop escape m) pos → Q i) ↔
      ∀ i, Delimits t start stop escape m i → pos ≤ i.start → Q i := by
  rw [← accepts_eq]
  exact Matcher.forall_isFirst_iff later

/-- Of the finds of several openers the earliest is the one that leads. -/
theorem earliest_eq_pick (find : DelimitedPattern → Option Interval) (ps : List DelimitedPattern) :
    earliest (ps.map fun q => (q, Lookahead.ofSearch (find q))) =
      (Interval.pick (fun j i => decide (j.start < i.start)) find ps).map fun (i, q) =>
        (i, q.key) := by
  induction ps with
  | nil => rfl
  | cons q ps ih =>
    rw [List.map_cons, earliest, ih, Interval.pick, Lookahead.match?_ofSearch]
    cases find q with
    | none => rfl
    | some i =>
      cases Interval.pick (fun j i => decide (j.start < i.start)) find ps with
      | none => rfl
      | some found =>
        simp only [Option.map_some, decide_eq_true_eq]
        split <;> rfl

/-- The first opener is the earliest of the patterns' next ones. -/
theorem firstOpener?_eq_some_iff {i : Interval} {key : PatternKey} :
    (ofRange t start stop escape).firstOpener? ps ((ofRange t start stop escape).spot pos) =
        some (i, key) ↔
      ∃ ahead q behind, ps = ahead ++ q :: behind ∧ q.key = key ∧
        i.IsFirst (Delimits t start stop escape q.opener) pos ∧
        (∀ r ∈ ahead, ∀ j, Delimits t start stop escape r.opener j → pos ≤ j.start →
          i.start < j.start) ∧
        ∀ r ∈ behind, ∀ j, Delimits t start stop escape r.opener j → pos ≤ j.start →
          i.start ≤ j.start := by
  have leads {q : DelimitedPattern} :
      Interval.pick (fun j i => decide (j.start < i.start))
        (fun q => (ofRange t start stop escape).find q.opener
          ((ofRange t start stop escape).spot pos)) ps = some (i, q) ↔ Interval.Leads _ _ ps i q :=
    Interval.pick_eq_some_iff
      (fun i j k hij hjk => by simp only [decide_eq_true_eq] at *; omega)
      (fun i j k hik => by simp only [decide_eq_true_eq] at *; omega)
  have later (q : DelimitedPattern) :
      (∀ j : Interval, j.IsFirst (Delimits t start stop escape q.opener) pos →
        i.start < j.start) ↔ _ :=
    forall_isFirst_iff fun j k _ _ => by omega
  have notBefore (q : DelimitedPattern) :
      (∀ j : Interval, j.IsFirst (Delimits t start stop escape q.opener) pos →
        i.start ≤ j.start) ↔ _ :=
    forall_isFirst_iff fun j k _ _ => by omega
  simp only [firstOpener?, earliest_eq_pick, Option.map_eq_some_iff, Prod.exists, Prod.mk.injEq,
    Interval.Leads, decide_eq_true_eq, decide_eq_false_iff_not, Nat.not_lt, find_eq_some_iff]
    at leads ⊢
  simp only [later, notBefore] at leads
  constructor
  · rintro ⟨i, q, hpick, rfl, rfl⟩
    obtain ⟨ahead, behind, hsplit, here, hahead, hbehind⟩ := leads.1 hpick
    exact ⟨ahead, q, behind, hsplit, rfl, here, hahead, hbehind⟩
  · rintro ⟨ahead, q, behind, hsplit, rfl, here, hahead, hbehind⟩
    exact ⟨i, q, leads.2 ⟨ahead, behind, hsplit, here, hahead, hbehind⟩, rfl, rfl⟩

/-- The plain search finds the next delimiter. -/
theorem afresh?_eq_some_iff :
    (ofRange t start stop escape).afresh? ps ((ofRange t start stop escape).spot pos) inside =
        some (d, resume) ↔ Next t start stop escape ps pos inside d resume := by
  cases inside with
  | some key =>
    simp only [afresh?, Option.map_eq_some_iff, Option.bind_eq_some_iff, find_eq_some_iff,
      Prod.mk.injEq]
    constructor
    · rintro ⟨i, ⟨q, hq, hi⟩, rfl, rfl⟩
      exact .closer hq hi
    · rintro ⟨⟩
      exact ⟨_, ⟨_, ‹_›, ‹_›⟩, rfl, rfl⟩
  | none =>
    simp only [afresh?, Option.map_eq_some_iff, Prod.exists, firstOpener?_eq_some_iff,
      Prod.mk.injEq]
    constructor
    · rintro ⟨i, _, ⟨ahead, q, behind, hsplit, rfl, here, first, nearest⟩, rfl, rfl⟩
      exact .opener hsplit here first nearest
    · rintro ⟨⟩
      exact ⟨_, _, ⟨_, _, _, ‹_›, rfl, ‹_›, ‹_›, ‹_›⟩, rfl, rfl⟩

theorem Next.unique {d' : Delimiter} {resume' : Nat}
    (h : Next t start stop escape ps pos inside d resume)
    (h' : Next t start stop escape ps pos inside d' resume') : d = d' ∧ resume = resume' := by
  rw [← afresh?_eq_some_iff] at h h'
  simpa using h.symm.trans h'

/-- The scan goes on strictly behind where it was, and within the chunk. -/
theorem Next.progress (h : Next t start stop escape ps pos inside d resume) :
    max pos (t.lineStartOf start) < resume ∧
      resume ≤ t.lineStartOf start + (t.slice (t.lineStartOf start) stop).length := by
  cases h with
  | opener _ here | closer _ here =>
    have hpos := here.pos_le
    have hbase := here.here.1.base_le
    have hlt := here.here.1.start_lt
    have hle := here.here.1.stop_le
    omega

theorem forward_spot_of_next (h : Next t start stop escape ps pos inside d resume) :
    ((ofRange t start stop escape).spot pos).forward
        (resume - ((ofRange t start stop escape).spot pos).offset) =
      (ofRange t start stop escape).spot resume := by
  have hprogress := h.progress
  have hoffset : ((ofRange t start stop escape).spot pos).offset =
      t.lineStartOf start + (pos - t.lineStartOf start) := by
    have hwithin : pos - t.lineStartOf start ≤ (t.slice (t.lineStartOf start) stop).length := by
      omega
    exact Place.offset_forward hwithin
  rw [hoffset, spot, spot, Place.forward_forward]
  congr 1
  simp only [ofRange]
  omega

/-- The scan with nothing kept in mind goes from one delimiter to the next until there is none. -/
theorem scans_walk {fuel : Nat} (h : t.lineStartOf start +
    (t.slice (t.lineStartOf start) stop).length < max pos (t.lineStartOf start) + fuel) :
    Scans t start stop escape ps pos inside ((ofRange t start stop escape).walk ps fuel
      ((ofRange t start stop escape).spot pos) inside) := by
  induction fuel generalizing pos inside with
  | zero =>
    refine .done fun d resume hnext => ?_
    have hprogress := hnext.progress
    omega
  | succ fuel ih =>
    rw [walk]
    cases hafresh : (ofRange t start stop escape).afresh? ps
        ((ofRange t start stop escape).spot pos) inside with
    | none =>
      refine .done fun d resume hnext => ?_
      rw [← afresh?_eq_some_iff, hafresh] at hnext
      cases hnext
    | some found =>
      obtain ⟨d, resume⟩ := found
      have hnext := afresh?_eq_some_iff.1 hafresh
      have hprogress := hnext.progress
      dsimp only
      rw [forward_spot_of_next hnext]
      exact .step hnext (ih (by omega))

theorem Scans.unique {es : List Delimiter} (h : Scans t start stop escape ps pos inside ds)
    (h' : Scans t start stop escape ps pos inside es) : ds = es := by
  induction h generalizing es with
  | done none =>
    cases h' with
    | done => rfl
    | step next => exact absurd next (none _ _)
  | step next _ ih =>
    cases h' with
    | done none => exact absurd next (none _ _)
    | step next' rest =>
      obtain ⟨rfl, rfl⟩ := next.unique next'
      rw [ih rest]

/-- Each delimiter has a character of its own. -/
theorem Scans.length_le (h : Scans t start stop escape ps pos inside ds) :
    ds.length ≤ ((t.slice (t.lineStartOf start) stop).drop (pos - t.lineStartOf start)).length := by
  rw [List.length_drop]
  induction h with
  | done => exact Nat.zero_le _
  | step next _ ih =>
    have hprogress := next.progress
    rw [List.length_cons]
    omega

/-- The matches that a scan keeps in mind never change what it finds: its delimiters are those that
follow one after the other when each is searched anew. Each search goes on strictly behind the one
before it, so there are no more delimiters than characters, and openers and closers take turns, each
opener strictly before its closer. -/
theorem scans_collect (t : Text) (start stop : Nat) (escape : Option Char)
    (ps : List DelimitedPattern) (pos : Nat) (inside : Option PatternKey) :
    let found := (ofRange t start stop escape).collect ps pos inside
    (∀ ds, Scans t start stop escape ps pos inside ds ↔ ds = found) ∧
      (∀ pos inside d resume, Next t start stop escape ps pos inside d resume → pos < resume) ∧
      found.length ≤
        ((t.slice (t.lineStartOf start) stop).drop (pos - t.lineStartOf start)).length ∧
      (∀ d ∈ found.head?, d.opens = inside.isNone) ∧ found.IsChain Delimiter.Precedes := by
  have hscans : Scans t start stop escape ps pos inside
      ((ofRange t start stop escape).collect ps pos inside) := by
    rw [collect_eq]
    exact scans_walk (by simp only [ofRange]; omega)
  have hturns := (alternate_walk (ofRange t start stop escape) ps
    ((ofRange t start stop escape).lines.length + 1) ((ofRange t start stop escape).spot pos)
    inside).1
  rw [spot, ← collect_eq] at hturns
  refine ⟨fun ds => ⟨fun h => h.unique hscans, fun h => h ▸ hscans⟩,
    fun pos inside d resume h => ?_, hscans.length_le, hturns.head, hturns.isChain⟩
  have hprogress := h.progress
  omega

end Chunk
end CodeBuffer
