import Mathlib.Data.List.Forall2
import CodeBuffer.Proofs.Scanning.Search

namespace CodeBuffer

namespace Lookahead

/-- What is known is true of a search from a place. A match that lies behind the place says
nothing any more. -/
def Holds (find : Place → Option Interval) (p : Place) : Lookahead → Prop
  | unknown => True
  | found i => p.offset ≤ i.start → find p = some i
  | exhausted => find p = none

theorem refresh_eq {find : Place → Option Interval} {p : Place} {l : Lookahead}
    (h : l.Holds find p) : l.refresh find p = ofSearch (find p) := by
  cases l with
  | unknown => rfl
  | found i =>
    by_cases ahead : p.offset ≤ i.start
    · rw [refresh, if_pos ahead, h ahead, ofSearch]
    · rw [refresh, if_neg ahead]
  | exhausted => rw [refresh, show find p = none from h, ofSearch]

theorem holds_ofSearch (find : Place → Option Interval) (p : Place) :
    (ofSearch (find p)).Holds find p := by
  cases h : find p with
  | some i => exact fun _ => h
  | none => exact h

/-- What is known stays true when the place moves on. -/
theorem Holds.forward {m : Matcher} {accept : Place → Bool} {p : Place} {l : Lookahead} {k : Nat}
    (h : l.Holds (m.find accept) p) (hk : k ≤ p.after.length) :
    l.Holds (m.find accept) (p.forward k) := by
  cases l with
  | unknown => trivial
  | found i =>
    intro ahead
    rw [Place.offset_forward hk] at ahead
    exact Matcher.find_forward (h (by omega)) ahead
  | exhausted => exact Matcher.find_forward_none h hk

/-- What is known of several searches is true of them from a place on. -/
def AllHold {α : Type} (m : α → Matcher) (accept : Place → Bool) (as : List α)
    (known : List Lookahead) (p : Place) : Prop :=
  List.Forall₂ (fun a l => l.Holds ((m a).find accept) p) as known

section
variable {α : Type} {m : α → Matcher} {accept : Place → Bool} {as : List α}

theorem allHold_unknown (p : Place) : AllHold m accept as (as.map fun _ => .unknown) p := by
  unfold AllHold
  induction as with
  | nil => exact .nil
  | cons a as ih => exact .cons trivial ih

theorem allHold_refreshed (p : Place) :
    AllHold m accept as (as.map fun a => ofSearch ((m a).find accept p)) p := by
  unfold AllHold
  induction as with
  | nil => exact .nil
  | cons a as ih => exact .cons (holds_ofSearch _ p) ih

theorem AllHold.forward {known : List Lookahead} {p : Place} {k : Nat}
    (h : AllHold m accept as known p) (hk : k ≤ p.after.length) :
    AllHold m accept as known (p.forward k) := by
  unfold AllHold at h ⊢
  induction h with
  | nil => exact .nil
  | cons ha _ ih => exact .cons (ha.forward hk) ih

/-- With true knowledge what is known then is what each search finds afresh. -/
theorem AllHold.refresh_eq {known : List Lookahead} {p : Place} (h : AllHold m accept as known p) :
    List.zipWith (fun a l => l.refresh ((m a).find accept) p) as known =
      as.map fun a => ofSearch ((m a).find accept p) := by
  unfold AllHold at h
  induction h with
  | nil => rfl
  | cons ha _ ih => rw [List.zipWith_cons_cons, List.map_cons, ih, Lookahead.refresh_eq ha]

end

end Lookahead

namespace Chunk

variable (c : Chunk) (ps : List DelimitedPattern)

/-- The earliest opener from a place on, each pattern searched anew. -/
def firstOpener? (p : Place) : Option (Interval × PatternKey) :=
  earliest (ps.map fun q => (q, Lookahead.ofSearch (c.find q.opener p)))

/-- The next delimiter and where to go on behind it, with nothing known from before. -/
def afresh? (p : Place) : Option PatternKey → Option (Delimiter × Nat)
  | some key =>
    ((ps.find? (·.key == key)).bind fun q => c.find q.closer p).map fun i =>
      (.closer i.stop, i.stop)
  | none => (c.firstOpener? ps p).map fun (i, key) => (.opener i.start key, i.stop)

/-- The delimiters from a place on, each of them searched anew. -/
def walk : Nat → Place → Option PatternKey → List Delimiter
  | 0, _, _ => []
  | fuel + 1, p, inside =>
    match c.afresh? ps p inside with
    | none => []
    | some (d, resume) => d :: walk fuel (p.forward (resume - p.offset)) d.key

variable {c ps}

theorem mem_of_earliest {known : List (DelimitedPattern × Lookahead)} {i : Interval}
    {key : PatternKey} (h : earliest known = some (i, key)) :
    ∃ q l, (q, l) ∈ known ∧ l.match? = some i := by
  induction known generalizing i key with
  | nil => simp [earliest] at h
  | cons first rest ih =>
    obtain ⟨q, l⟩ := first
    have later {j : Interval} {k : PatternKey} (hj : earliest rest = some (j, k)) :
        ∃ q' l', (q', l') ∈ (q, l) :: rest ∧ l'.match? = some j := by
      obtain ⟨q', l', hm, hl⟩ := ih hj
      exact ⟨q', l', List.mem_cons_of_mem _ hm, hl⟩
    rw [earliest] at h
    split at h
    · exact later h
    · rename_i hl _
      simp only [Option.some.injEq, Prod.mk.injEq] at h
      exact ⟨q, l, List.mem_cons_self, by rw [hl, h.1]⟩
    · rename_i hl hr
      split at h <;> simp only [Option.some.injEq, Prod.mk.injEq] at h
      · obtain ⟨rfl, rfl⟩ := h
        exact later hr
      · exact ⟨q, l, List.mem_cons_self, by rw [hl, h.1]⟩

theorem find_of_firstOpener? {p : Place} {i : Interval} {key : PatternKey}
    (h : c.firstOpener? ps p = some (i, key)) : ∃ q ∈ ps, c.find q.opener p = some i := by
  obtain ⟨q, l, hm, hl⟩ := mem_of_earliest h
  obtain ⟨q', hq, heq⟩ := List.mem_map.1 hm
  simp only [Prod.mk.injEq] at heq
  obtain ⟨rfl, rfl⟩ := heq
  exact ⟨q', hq, by rwa [Lookahead.match?_ofSearch] at hl⟩

/-- The scan goes on behind the place it came from and within the lines. -/
theorem afresh?_bounds {p : Place} {inside : Option PatternKey} {d : Delimiter} {resume : Nat}
    (h : c.afresh? ps p inside = some (d, resume)) :
    p.offset < resume ∧ resume ≤ p.offset + p.after.length := by
  cases inside with
  | some key =>
    obtain ⟨i, hi, heq⟩ := Option.map_eq_some_iff.1 h
    obtain ⟨q, -, hq⟩ := Option.bind_eq_some_iff.1 hi
    simp only [Prod.mk.injEq] at heq
    have := Matcher.find_bounds hq
    omega
  | none =>
    obtain ⟨⟨i, key⟩, hi, heq⟩ := Option.map_eq_some_iff.1 h
    obtain ⟨q, -, hq⟩ := find_of_firstOpener? hi
    simp only [Prod.mk.injEq] at heq
    have := Matcher.find_bounds hq
    omega

/-- What is known of the patterns' openers is true of a search from a place. -/
def Knows (c : Chunk) (ps : List DelimitedPattern) (known : List Lookahead) (p : Place) : Prop :=
  List.Forall₂ (fun q l => l.Holds (c.find q.opener) p) ps known

theorem knows_unknown (p : Place) : c.Knows ps (ps.map fun _ => .unknown) p :=
  Lookahead.allHold_unknown p

theorem knows_refreshed (p : Place) :
    c.Knows ps (ps.map fun q => Lookahead.ofSearch (c.find q.opener p)) p :=
  Lookahead.allHold_refreshed p

theorem Knows.forward {known : List Lookahead} {p : Place} {k : Nat} (h : c.Knows ps known p)
    (hk : k ≤ p.after.length) : c.Knows ps known (p.forward k) :=
  Lookahead.AllHold.forward h hk

theorem refresh_known {known : List Lookahead} {p : Place} (h : c.Knows ps known p) :
    List.zipWith (fun q l => l.refresh (c.find q.opener) p) ps known =
      ps.map fun q => Lookahead.ofSearch (c.find q.opener p) :=
  Lookahead.AllHold.refresh_eq h

/-- With true knowledge the next delimiter is the one found afresh, and what is known then is true
again. -/
theorem next?_eq {known : List Lookahead} {p : Place} (h : c.Knows ps known p)
    (inside : Option PatternKey) :
    (c.next? ps known p inside).1 = c.afresh? ps p inside ∧
      c.Knows ps (c.next? ps known p inside).2 p := by
  cases inside with
  | some key =>
    refine ⟨?_, h⟩
    simp only [next?, afresh?]
  | none =>
    simp only [next?, refresh_known h, afresh?, firstOpener?]
    exact ⟨by rw [List.zip_map_right, List.zip_eq_zipWith, List.zipWith_self, List.map_map]; rfl,
      knows_refreshed p⟩

theorem collectFrom_eq {known : List Lookahead} {p : Place} (h : c.Knows ps known p) (fuel : Nat)
    (inside : Option PatternKey) :
    c.collectFrom ps fuel known p inside = c.walk ps fuel p inside := by
  induction fuel generalizing known p inside with
  | zero => rfl
  | succ fuel ih =>
    obtain ⟨hnext, hknows⟩ := next?_eq h inside
    rw [collectFrom, walk, ← hnext]
    generalize hn : c.next? ps known p inside = result at hnext hknows
    obtain ⟨_ | ⟨d, resume⟩, known'⟩ := result
    · rfl
    · have := afresh?_bounds hnext.symm
      exact congrArg (d :: ·) (ih (hknows.forward (by omega)) d.key)

/-- The matches kept in mind never change what a chunk's scan finds. -/
theorem collect_eq (pos : Nat) (inside : Option PatternKey) :
    c.collect ps pos inside = c.walk ps (c.lines.length + 1)
      ((Place.front c.base c.lines).forward (pos - c.base)) inside :=
  collectFrom_eq (knows_unknown _) _ _

end Chunk
end CodeBuffer
