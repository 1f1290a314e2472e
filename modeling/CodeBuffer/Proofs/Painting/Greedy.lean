import CodeBuffer.Proofs.Painting.Shades
import CodeBuffer.Proofs.Scanning.Leftmost

namespace CodeBuffer
namespace SimpleMatch

section
variable (ps : List Pattern) (base : Nat) (u : Text)

/-- The next match from `pos` on in a text that begins at `base`. It is the first one of its
pattern, and of all others none is nearer and none in the same place is longer; what an earlier
pattern matches in the same place is shorter. -/
structure Next (pos : Nat) (m : SimpleMatch) : Prop where
  here : Interval.IsFirst (m.pattern.matcher.Matches base u) pos ⟨m.start, m.stop⟩
  first : ∃ ahead behind, simpleOf ps = ahead ++ m.pattern :: behind ∧
    (∀ r ∈ ahead, ∀ j, r.matcher.Matches base u j → pos ≤ j.start →
      m.start < j.start ∨ m.start = j.start ∧ j.stop < m.stop) ∧
    ∀ r ∈ behind, ∀ j, r.matcher.Matches base u j → pos ≤ j.start →
      m.start < j.start ∨ m.start = j.start ∧ j.stop ≤ m.stop

/-- The matches from `pos` on, each the next one behind the end of the one before it, until no
pattern matches any more. -/
inductive Greedy : Nat → List SimpleMatch → Prop
  | done {pos : Nat}
      (none : ∀ s ∈ simpleOf ps, ∀ i, s.matcher.Matches base u i → i.start < pos) : Greedy pos []
  | step {pos : Nat} {m : SimpleMatch} {ms : List SimpleMatch} (next : Next ps base u pos m)
      (rest : Greedy m.stop ms) : Greedy pos (m :: ms)

end

variable {ps : List Pattern} {base pos : Nat} {u : Text} {i : Interval} {s : SimplePattern}
  {m : SimpleMatch} {ms : List SimpleMatch}

theorem accepts_eq (m : Matcher) : m.Accepts (fun _ => true) base u = m.Matches base u := by
  funext i
  simp [Matcher.Accepts]

theorem next?_eq_some_iff :
    next? s ((Place.front base u).forward (pos - base)) = some i ↔
      i.IsFirst (s.matcher.Matches base u) pos := by
  rw [← accepts_eq]
  exact Matcher.find_front_eq_some_iff

theorem next?_eq_none_iff :
    next? s ((Place.front base u).forward (pos - base)) = none ↔
      ∀ i, s.matcher.Matches base u i → i.start < pos := by
  rw [← accepts_eq]
  exact Matcher.find_front_eq_none_iff

theorem forall_isFirst_iff {Q : Interval → Prop} (later : ∀ i j, i.start < j.start → Q i → Q j) :
    (∀ i : Interval, i.IsFirst (s.matcher.Matches base u) pos → Q i) ↔
      ∀ i, s.matcher.Matches base u i → pos ≤ i.start → Q i := by
  rw [← accepts_eq]
  exact Matcher.forall_isFirst_iff later

theorem goesBefore_iff {i j : Interval} :
    goesBefore j i = true ↔ j.start < i.start ∨ j.start = i.start ∧ i.stop < j.stop := by
  simp [goesBefore]

theorem goesBefore_eq_false_iff {i j : Interval} :
    goesBefore j i = false ↔ i.start < j.start ∨ i.start = j.start ∧ j.stop ≤ i.stop := by
  rw [← Bool.not_eq_true, goesBefore_iff]
  omega

theorem best_eq_pick (find : SimplePattern → Option Interval) (ps : List SimplePattern) :
    best (ps.map fun s => (s, Lookahead.ofSearch (find s))) =
      Interval.pick goesBefore find ps := by
  induction ps with
  | nil => rfl
  | cons s ps ih =>
    rw [List.map_cons, best, ih, Interval.pick, Lookahead.match?_ofSearch]
    cases find s with
    | none => rfl
    | some i => cases Interval.pick goesBefore find ps <;> rfl

/-- The plain search finds the next match. -/
theorem first?_eq_some_iff :
    first? (simpleOf ps) ((Place.front base u).forward (pos - base)) = some (i, s) ↔
      Next ps base u pos ⟨i.start, i.stop, s⟩ := by
  have leads : Interval.pick goesBefore
      (fun s => next? s ((Place.front base u).forward (pos - base))) (simpleOf ps) = some (i, s) ↔
        Interval.Leads goesBefore _ (simpleOf ps) i s :=
    Interval.pick_eq_some_iff (fun i j k hij hjk => by simp only [goesBefore_iff] at *; omega)
      (fun i j k hik => by simp only [goesBefore_iff] at *; omega)
  have before (r : SimplePattern) : (∀ j : Interval, j.IsFirst (r.matcher.Matches base u) pos →
      i.start < j.start ∨ i.start = j.start ∧ j.stop < i.stop) ↔ _ :=
    forall_isFirst_iff fun j k _ _ => by omega
  have notBehind (r : SimplePattern) : (∀ j : Interval, j.IsFirst (r.matcher.Matches base u) pos →
      i.start < j.start ∨ i.start = j.start ∧ j.stop ≤ i.stop) ↔ _ :=
    forall_isFirst_iff fun j k _ _ => by omega
  simp only [Interval.Leads, next?_eq_some_iff, goesBefore_iff, goesBefore_eq_false_iff, before,
    notBehind] at leads
  rw [first?, best_eq_pick, leads]
  constructor
  · rintro ⟨ahead, behind, hsplit, here, hahead, hbehind⟩
    exact ⟨here, ahead, behind, hsplit, hahead, hbehind⟩
  · rintro ⟨here, ahead, behind, hsplit, hahead, hbehind⟩
    exact ⟨ahead, behind, hsplit, here, hahead, hbehind⟩

theorem first?_eq_none_iff :
    first? (simpleOf ps) ((Place.front base u).forward (pos - base)) = none ↔
      ∀ s ∈ simpleOf ps, ∀ i, s.matcher.Matches base u i → i.start < pos := by
  rw [first?, best_eq_pick, Interval.pick_eq_none_iff]
  simp only [next?_eq_none_iff]

theorem Next.unique {m' : SimpleMatch} (h : Next ps base u pos m) (h' : Next ps base u pos m') :
    m = m' := by
  obtain ⟨start, stop, s⟩ := m
  obtain ⟨start', stop', s'⟩ := m'
  have hfirst := first?_eq_some_iff (i := ⟨start, stop⟩).2 h
  rw [first?_eq_some_iff (i := ⟨start', stop'⟩).2 h'] at hfirst
  simp_all

theorem Next.bounds (h : Next ps base u pos m) :
    max pos base ≤ m.start ∧ m.start < m.stop ∧ m.stop ≤ base + u.length := by
  have hpos := h.here.pos_le
  have hbase := h.here.here.base_le
  have hlt := h.here.here.start_lt
  have hle := h.here.here.stop_le
  dsimp only at hpos hbase hlt hle
  omega

/-- What a pattern matches from `pos` on does not begin before the next match. -/
theorem Next.start_le (h : Next ps base u pos m) (hs : s ∈ simpleOf ps)
    (hi : s.matcher.Matches base u i) (hpos : pos ≤ i.start) : m.start ≤ i.start := by
  obtain ⟨ahead, behind, hsplit, hahead, hbehind⟩ := h.first
  rw [hsplit, List.mem_append, List.mem_cons] at hs
  rcases hs with hs | rfl | hs
  · have hbefore := hahead s hs i hi hpos
    omega
  · exact h.here.least i hi hpos
  · have hafter := hbehind s hs i hi hpos
    omega

theorem forward_of_next (h : Next ps base u pos m) :
    ((Place.front base u).forward (pos - base)).forward
        (m.stop - ((Place.front base u).forward (pos - base)).offset) =
      (Place.front base u).forward (m.stop - base) := by
  have hbounds := h.bounds
  have hwithin : pos - base ≤ (Place.front base u).after.length := by
    rw [Place.after_front]
    omega
  rw [Place.offset_forward hwithin, Place.offset_front, Place.forward_forward]
  congr 1
  omega

theorem greedy_walk {fuel : Nat} (h : base + u.length < max pos base + fuel) :
    Greedy ps base u pos
      (walk (simpleOf ps) fuel ((Place.front base u).forward (pos - base))) := by
  induction fuel generalizing pos with
  | zero =>
    refine .done fun s _ i hi => ?_
    have hlt := hi.start_lt
    have hle := hi.stop_le
    omega
  | succ fuel ih =>
    rw [walk]
    cases hfirst : first? (simpleOf ps) ((Place.front base u).forward (pos - base)) with
    | none => exact .done (first?_eq_none_iff.1 hfirst)
    | some found =>
      obtain ⟨i, s⟩ := found
      have hnext := first?_eq_some_iff.1 hfirst
      have hbounds := hnext.bounds
      have hforward := forward_of_next hnext
      dsimp only at hbounds hforward ⊢
      rw [hforward]
      exact .step hnext (ih (by dsimp only; omega))

namespace Greedy

theorem unique {ms' : List SimpleMatch} (h : Greedy ps base u pos ms)
    (h' : Greedy ps base u pos ms') : ms = ms' := by
  induction h generalizing ms' with
  | done none =>
    cases h' with
    | done => rfl
    | step next =>
      obtain ⟨ahead, behind, hsplit, -⟩ := next.first
      have hbefore := none _ (hsplit ▸ by simp) _ next.here.here
      have hpos := next.here.pos_le
      omega
  | step next _ ih =>
    cases h' with
    | done none =>
      obtain ⟨ahead, behind, hsplit, -⟩ := next.first
      have hbefore := none _ (hsplit ▸ by simp) _ next.here.here
      have hpos := next.here.pos_le
      omega
    | step next' rest =>
      obtain rfl := next.unique next'
      rw [ih rest]

theorem bounds (h : Greedy ps base u pos ms) :
    ∀ m ∈ ms, max pos base ≤ m.start ∧ m.start < m.stop ∧ m.stop ≤ base + u.length := by
  induction h with
  | done => simp
  | step next _ ih =>
    have hbounds := next.bounds
    rw [List.forall_mem_cons]
    refine ⟨by omega, fun m hm => ?_⟩
    have hlater := ih m hm
    omega

/-- The matches follow one another. -/
theorem pairwise (h : Greedy ps base u pos ms) : ms.Pairwise fun m n => m.stop ≤ n.start := by
  induction h with
  | done => exact .nil
  | step _ rest ih =>
    exact .cons (fun m hm => Nat.le_trans (Nat.le_max_left _ _) (rest.bounds m hm).1) ih

/-- Whatever a pattern matches from `pos` on begins within one of the matches. -/
theorem covers (h : Greedy ps base u pos ms) (hs : s ∈ simpleOf ps)
    (hi : s.matcher.Matches base u i) (hpos : pos ≤ i.start) :
    ∃ m ∈ ms, m.start ≤ i.start ∧ i.start < m.stop := by
  induction h with
  | done none =>
    have hbefore := none s hs i hi
    omega
  | @step _ m _ next _ ih =>
    by_cases hin : i.start < m.stop
    · exact ⟨m, List.mem_cons_self, next.start_le hs hi hpos, hin⟩
    · obtain ⟨n, hn, hcovers⟩ := ih (by omega)
      exact ⟨n, List.mem_cons_of_mem _ hn, hcovers⟩

end Greedy

/-- The end of the text that is seen does not matter to a walk that does not reach it. -/
theorem endingAt_forward {p : Place} {n stop : Nat} (h : n ≤ stop - p.offset) :
    (p.forward n).endingAt stop = (p.endingAt stop).forward n := by
  fun_induction Place.forward p n with
  | case1 => rw [Place.forward]
  | case2 o before c after n ih =>
    dsimp only at h ih
    rw [ih (by omega), Place.endingAt, Place.endingAt]
    dsimp only
    rw [show stop - o = stop - (o + 1) + 1 by omega, List.take_succ_cons, Place.forward]
  | case3 o before n =>
    rw [Place.endingAt]
    dsimp only
    rw [List.take_nil, Place.forward]

/-- Where no text is left there is nothing to match. -/
theorem walk_of_after_eq_nil {p : Place} (hp : p.after = []) (ps : List SimplePattern)
    (fuel : Nat) : walk ps fuel p = [] := by
  apply List.eq_nil_iff_forall_not_mem.2
  intro m hm
  have hbounds := (mem_walk hm).2
  rw [hp, List.length_nil] at hbounds
  omega

theorem greedy_collect (ps : List Pattern) (base : Nat) (t : Text) (start stop : Nat) :
    Greedy ps base (t.take (stop - base)) start
      (collect (simpleOf ps) ((Place.front base t).forward (start - base)) stop) := by
  rw [collect_eq]
  by_cases hle : start - base ≤ stop - base
  · rw [endingAt_forward hle]
    refine greedy_walk ?_
    rw [Place.after_forward, List.length_drop, Place.endingAt, Place.after_front,
      Place.offset_front]
    dsimp only
    omega
  · -- Behind `stop` there is nothing to match, neither for the scan nor in the text that is cut.
    have hempty : (((Place.front base t).forward (start - base)).endingAt stop).after = [] := by
      rw [Place.endingAt, Place.after_forward, Place.after_front]
      dsimp only
      by_cases hlen : start - base ≤ t.length
      · rw [Place.offset_forward (by exact hlen), Place.offset_front,
          Nat.sub_eq_zero_of_le (by omega), List.take_zero]
      · rw [List.drop_eq_nil_of_le (by omega), List.take_nil]
    rw [walk_of_after_eq_nil hempty]
    refine .done fun s _ i hi => ?_
    have hlt := hi.start_lt
    have hstop := hi.stop_le
    rw [List.length_take] at hstop
    omega

/-- The simple matches of a span are the greedy ones in the text cut at its end, whatever is kept in
mind of the patterns on the way. They follow one another within the span, none of them is empty, and
nothing that a simple pattern matches begins outside of them. -/
theorem greedy_iff_collect (ps : List Pattern) (base : Nat) (t : Text) (start stop : Nat) :
    let found := collect (simpleOf ps) ((Place.front base t).forward (start - base)) stop
    (∀ ms, Greedy ps base (t.take (stop - base)) start ms ↔ ms = found) ∧
      (∀ m ∈ found, start ≤ m.start ∧ m.start < m.stop ∧ m.stop ≤ stop) ∧
      (found.Pairwise fun m n => m.stop ≤ n.start) ∧
      ∀ s ∈ simpleOf ps, ∀ i, s.matcher.Matches base (t.take (stop - base)) i → start ≤ i.start →
        ∃ m ∈ found, m.start ≤ i.start ∧ i.start < m.stop := by
  have hgreedy := greedy_collect ps base t start stop
  refine ⟨fun ms => ⟨fun h => h.unique hgreedy, fun h => h ▸ hgreedy⟩, fun m hm => ?_,
    hgreedy.pairwise, fun s hs i hi hpos => hgreedy.covers hs hi hpos⟩
  have hbounds := hgreedy.bounds m hm
  rw [List.length_take] at hbounds
  omega

end SimpleMatch
end CodeBuffer
