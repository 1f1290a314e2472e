import CodeBuffer.Pattern.SimpleMatch
import CodeBuffer.Proofs.Plain.Chunk

namespace CodeBuffer

/-- Some characters, none of which ends a line. -/
def Text.InLine (w : Text) : Prop := w ≠ [] ∧ ∀ c ∈ w, isLineBreak c = false

/-- A pattern that searches for a fixed word. -/
def SimplePattern.IsPlain (s : SimplePattern) : Prop :=
  ∃ w : Text, w.InLine ∧ s.matcher.Finds w

namespace Text

variable {t u v w : Text}

theorem Closed.drop (h : u.Closed) (k : Nat) : Closed (u.drop k) := by
  rcases h with rfl | ⟨c, hc, hbreak⟩
  · exact .inl List.drop_nil
  · by_cases hk : k < u.length
    · exact .inr ⟨c, by rw [List.getLast?_drop, if_neg (by omega), hc], hbreak⟩
    · exact .inl (List.drop_eq_nil_of_le (by omega))

/-- A word in a line does not reach behind the end of a line before which it begins. -/
theorem InLine.prefix_append_iff (hw : w.InLine) (hne : u ≠ []) (hu : v = [] ∨ u.Closed) :
    w <+: u ++ v ↔ w <+: u := by
  refine ⟨fun h => ?_, fun h => h.trans (List.prefix_append u v)⟩
  rcases hu with rfl | rfl | ⟨c, hc, hbreak⟩
  · rwa [List.append_nil] at h
  · exact absurd rfl hne
  · rcases Nat.le_total w.length u.length with hle | hle
    · exact List.prefix_of_prefix_length_le h (List.prefix_append u v) hle
    · have hpre : u <+: w := List.prefix_of_prefix_length_le (List.prefix_append u v) h hle
      have hin := hw.2 c (hpre.subset (List.mem_of_getLast? hc))
      simp [hin] at hbreak

end Text

namespace Place

variable {w u v : Text} {o : Nat}

theorem leastMatch_wordAt_before (w : Text) (o : Nat) (before before' after : Text) :
    leastMatch (wordAt w) o before after = leastMatch (wordAt w) o before' after := by
  induction after generalizing o before before' with
  | nil => rfl
  | cons c after ih =>
    rw [leastMatch, leastMatch, ih (o + 1) (c :: before) (c :: before')]
    rfl

/-- The search for a word in a line goes on behind the end of a line with what follows alone. -/
theorem leastMatch_wordAt_append (hw : w.InLine) (hu : v = [] ∨ u.Closed) (o : Nat)
    (before : Text) :
    leastMatch (wordAt w) o before (u ++ v) =
      (leastMatch (wordAt w) o [] u).or (leastMatch (wordAt w) (o + u.length) [] v) := by
  induction u generalizing o before with
  | nil =>
    have hend : leastMatch (wordAt w) o [] [] = none := by
      simp [leastMatch, wordAt, List.isPrefixOf_iff_prefix, hw.1]
    rw [hend, Option.none_or, List.nil_append, List.length_nil, Nat.add_zero]
    exact leastMatch_wordAt_before w o before [] v
  | cons c u ih =>
    have hlater : v = [] ∨ Text.Closed u := hu.imp_right fun h => h.drop 1
    have hhere : wordAt w ⟨o, before, (c :: u) ++ v⟩ = wordAt w ⟨o, [], c :: u⟩ := by
      have hsame : w.isPrefixOf ((c :: u) ++ v) = w.isPrefixOf (c :: u) := by
        rw [Bool.eq_iff_iff, List.isPrefixOf_iff_prefix, List.isPrefixOf_iff_prefix]
        exact hw.prefix_append_iff (List.cons_ne_nil c u) hu
      simp only [wordAt, hsame]
    rw [List.cons_append] at hhere ⊢
    rw [leastMatch, leastMatch, hhere, ih hlater]
    cases wordAt w ⟨o, [], c :: u⟩ with
    | some n => rfl
    | none =>
      rw [leastMatch_wordAt_before w (o + 1) [] [c] u, List.length_cons,
        Nat.add_right_comm, Nat.add_assoc o]

end Place

namespace SimpleMatch

variable {ps : List SimplePattern} {p : Place} {t u v : Text} {o : Nat}

/-! The matches kept in mind never change what is found. -/

/-- The match behind a place that goes before all others, each pattern searched anew. -/
def first? (ps : List SimplePattern) (p : Place) : Option (Interval × SimplePattern) :=
  best (ps.map fun s => (s, Lookahead.ofSearch (next? s p)))

/-- The matches behind a place, each of them searched anew. -/
def walk (ps : List SimplePattern) : Nat → Place → List SimpleMatch
  | 0, _ => []
  | fuel + 1, p =>
    match first? ps p with
    | none => []
    | some (i, s) => ⟨i.start, i.stop, s⟩ :: walk ps fuel (p.forward (i.stop - p.offset))

theorem mem_of_best {known : List (SimplePattern × Lookahead)} {i : Interval} {s : SimplePattern}
    (h : best known = some (i, s)) : ∃ l, (s, l) ∈ known ∧ l.match? = some i := by
  induction known generalizing i s with
  | nil => simp [best] at h
  | cons first rest ih =>
    obtain ⟨q, l⟩ := first
    have later {j : Interval} {r : SimplePattern} (hj : best rest = some (j, r)) :
        ∃ l', (r, l') ∈ (q, l) :: rest ∧ l'.match? = some j := by
      obtain ⟨l', hm, hl⟩ := ih hj
      exact ⟨l', List.mem_cons_of_mem _ hm, hl⟩
    rw [best] at h
    split at h
    · exact later h
    · rename_i hl _
      simp only [Option.some.injEq, Prod.mk.injEq] at h
      obtain ⟨rfl, rfl⟩ := h
      exact ⟨l, List.mem_cons_self, hl⟩
    · rename_i hl hr
      split at h <;> simp only [Option.some.injEq, Prod.mk.injEq] at h <;> obtain ⟨rfl, rfl⟩ := h
      · exact later hr
      · exact ⟨l, List.mem_cons_self, hl⟩

theorem search_of_best {f : SimplePattern → Option Interval} {i : Interval} {s : SimplePattern}
    (h : best (ps.map fun s => (s, Lookahead.ofSearch (f s))) = some (i, s)) :
    s ∈ ps ∧ f s = some i := by
  obtain ⟨l, hm, hl⟩ := mem_of_best h
  obtain ⟨q, hq, heq⟩ := List.mem_map.1 hm
  simp only [Prod.mk.injEq] at heq
  obtain ⟨rfl, rfl⟩ := heq
  exact ⟨hq, by rwa [Lookahead.match?_ofSearch] at hl⟩

theorem next?_of_first? {i : Interval} {s : SimplePattern} (h : first? ps p = some (i, s)) :
    s ∈ ps ∧ next? s p = some i := search_of_best h

theorem first?_bounds {i : Interval} {s : SimplePattern} (h : first? ps p = some (i, s)) :
    p.offset ≤ i.start ∧ i.start < i.stop ∧ i.stop ≤ p.offset + p.after.length :=
  Matcher.find_bounds (next?_of_first? h).2

theorem collectFrom_eq {known : List Lookahead}
    (h : Lookahead.AllHold SimplePattern.matcher (fun _ => true) ps known p) (fuel : Nat) :
    collectFrom ps fuel known p = walk ps fuel p := by
  induction fuel generalizing known p with
  | zero => rfl
  | succ fuel ih =>
    have hrefreshed : Lookahead.AllHold SimplePattern.matcher (fun _ => true) ps
        (ps.map fun s => Lookahead.ofSearch (next? s p)) p := Lookahead.allHold_refreshed p
    have hfirst : best (ps.zip (ps.map fun s => Lookahead.ofSearch (next? s p))) = first? ps p := by
      rw [List.zip_map_right, List.zip_eq_zipWith, List.zipWith_self, List.map_map]
      rfl
    rw [collectFrom, walk, show List.zipWith (fun s l => l.refresh (next? s) p) ps known = _ from
      h.refresh_eq]
    rw [show best (ps.zip (ps.map fun a => Lookahead.ofSearch (a.matcher.find (fun _ => true) p))) =
      first? ps p from hfirst]
    cases hf : first? ps p with
    | none => rfl
    | some r =>
      have hb := first?_bounds hf
      exact congrArg (_ :: ·) (ih (hrefreshed.forward (by omega)))

theorem collect_eq (ps : List SimplePattern) (p : Place) (stop : Nat) :
    collect ps p stop = walk ps ((p.endingAt stop).after.length + 1) (p.endingAt stop) :=
  collectFrom_eq (Lookahead.allHold_unknown _) _

theorem mem_walk {fuel : Nat} {m : SimpleMatch} (h : m ∈ walk ps fuel p) :
    m.pattern ∈ ps ∧ p.offset ≤ m.start ∧ m.start < m.stop ∧
      m.stop ≤ p.offset + p.after.length := by
  induction fuel generalizing p with
  | zero => cases h
  | succ fuel ih =>
    rw [walk] at h
    cases hf : first? ps p with
    | none =>
      rw [hf] at h
      cases h
    | some r =>
      have hb := first?_bounds hf
      rw [hf] at h
      rcases List.mem_cons.1 h with rfl | h
      · exact ⟨(next?_of_first? hf).1, hb⟩
      · have hlater := ih h
        rw [Place.offset_forward (by omega), Place.after_forward, List.length_drop] at hlater
        exact ⟨hlater.1, by omega⟩

/-- There are no more matches than characters. -/
theorem walk_fuel {fuel fuel' : Nat} (h : p.after.length < fuel) (h' : p.after.length < fuel') :
    walk ps fuel p = walk ps fuel' p := by
  induction fuel generalizing p fuel' with
  | zero => omega
  | succ fuel ih =>
    obtain ⟨fuel', rfl⟩ : ∃ n, fuel' = n + 1 := ⟨fuel' - 1, by omega⟩
    rw [walk, walk]
    cases hf : first? ps p with
    | none => rfl
    | some r =>
      have hb := first?_bounds hf
      have hlen : (p.forward (r.1.stop - p.offset)).after.length < fuel ∧
          (p.forward (r.1.stop - p.offset)).after.length < fuel' := by
        rw [Place.after_forward, List.length_drop]
        omega
      exact congrArg (_ :: ·) (ih hlen.1 hlen.2)

/-! Words in lines are found in one line after the other. -/

theorem next?_eq {s : SimplePattern} {w : Text} (hw : w ≠ []) (hs : s.matcher.Finds w)
    (p : Place) :
    next? s p = Place.leastMatch (Place.wordAt w) p.offset p.before p.after := by
  have hproper : s.matcher.properAt (fun _ => true) = Place.wordAt w := by
    funext q
    apply Option.ext
    intro n
    rw [Matcher.properAt_eq_some_iff, hs.lengthAt_eq]
    refine ⟨fun h => h.1, fun h => ⟨h, ?_, rfl⟩⟩
    rw [Place.wordAt, Option.ite_none_right_eq_some, Option.some.injEq] at h
    rw [← h.2]
    exact List.length_pos_iff.2 hw
  rw [next?, Matcher.find_eq, hproper]

/-- Of matches in two ranges the best one in the first range goes before all others. -/
theorem best_or {f g : SimplePattern → Option Interval} {m : Nat}
    (hf : ∀ s ∈ ps, ∀ i, f s = some i → i.start < m)
    (hg : ∀ s ∈ ps, ∀ i, g s = some i → m ≤ i.start) :
    best (ps.map fun s => (s, Lookahead.ofSearch ((f s).or (g s)))) =
      (best (ps.map fun s => (s, Lookahead.ofSearch (f s)))).or
        (best (ps.map fun s => (s, Lookahead.ofSearch (g s)))) := by
  induction ps with
  | nil => rfl
  | cons s ps ih =>
    have hrest := ih (fun q hq => hf q (List.mem_cons_of_mem s hq))
      (fun q hq => hg q (List.mem_cons_of_mem s hq))
    have hfs := hf s List.mem_cons_self
    have hgs := hg s List.mem_cons_self
    have hfr (j : Interval) (q : SimplePattern)
        (h : best (ps.map fun s => (s, Lookahead.ofSearch (f s))) = some (j, q)) : j.start < m :=
      hf q (List.mem_cons_of_mem s (search_of_best h).1) j (search_of_best h).2
    have hgr (j : Interval) (q : SimplePattern)
        (h : best (ps.map fun s => (s, Lookahead.ofSearch (g s))) = some (j, q)) : m ≤ j.start :=
      hg q (List.mem_cons_of_mem s (search_of_best h).1) j (search_of_best h).2
    simp only [List.map_cons, best, Lookahead.match?_ofSearch, hrest]
    generalize best (ps.map fun s => (s, Lookahead.ofSearch (f s))) = bf at hfr ⊢
    generalize best (ps.map fun s => (s, Lookahead.ofSearch (g s))) = bg at hgr ⊢
    cases hfi : f s with
    | some i =>
      have hi := hfs i hfi
      obtain _ | ⟨j, q⟩ := bf
      · obtain _ | ⟨k, r⟩ := bg
        · rfl
        · have hk := hgr k r rfl
          have hlate : goesBefore k i = false := by
            simp only [goesBefore, Bool.or_eq_false_iff, Bool.and_eq_false_iff,
              decide_eq_false_iff_not, beq_eq_false_iff_ne]
            omega
          simp [hlate]
      · simp only [Option.some_or]
        split <;> rfl
    | none =>
      obtain _ | ⟨j, q⟩ := bf
      · rfl
      · cases hgi : g s with
        | none => rfl
        | some i =>
          have hi := hgs i hgi
          have hj := hfr j q rfl
          have hearly : goesBefore j i = true := by
            simp only [goesBefore, Bool.or_eq_true, decide_eq_true_eq]
            omega
          simp [hearly]

section
variable (hps : ∀ s ∈ ps, s.IsPlain)
include hps

theorem first?_append (hu : v = [] ∨ u.Closed) (o : Nat) (before : Text) :
    first? ps ⟨o, before, u ++ v⟩ =
      (first? ps (.front o u)).or (first? ps (.front (o + u.length) v)) := by
  have hnext : ∀ s ∈ ps, next? s ⟨o, before, u ++ v⟩ =
      (next? s (.front o u)).or (next? s (.front (o + u.length) v)) := by
    intro s hs
    obtain ⟨w, hw, hfinds⟩ := hps s hs
    rw [next?_eq hw.1 hfinds, next?_eq hw.1 hfinds, next?_eq hw.1 hfinds]
    exact Place.leastMatch_wordAt_append hw hu o before
  have hmap : (ps.map fun s => (s, Lookahead.ofSearch (next? s ⟨o, before, u ++ v⟩))) =
      ps.map fun s => (s, Lookahead.ofSearch
        ((next? s (.front o u)).or (next? s (.front (o + u.length) v)))) :=
    List.map_congr_left fun s hs => by rw [hnext s hs]
  rw [first?, hmap]
  refine best_or (m := o + u.length) (fun s _ i hi => ?_) (fun s _ i hi => ?_)
  · have hb := Matcher.find_bounds hi
    simp only [Place.front] at hb
    omega
  · exact (Matcher.find_bounds hi).1

theorem first?_front (p : Place) : first? ps p = first? ps (.front p.offset p.after) := by
  have hwhole := first?_append hps (u := p.after) (.inl rfl) p.offset p.before
  have hself := first?_append hps (u := p.after) (.inl rfl) p.offset []
  rw [List.append_nil] at hwhole hself
  exact hwhole.trans hself.symm

/-- What stands before a place does not matter. -/
theorem walk_front (fuel : Nat) (p : Place) :
    walk ps fuel p = walk ps fuel (.front p.offset p.after) := by
  induction fuel generalizing p with
  | zero => rfl
  | succ fuel ih =>
    rw [walk, walk, first?_front hps p]
    cases hf : first? ps (.front p.offset p.after) with
    | none => rfl
    | some r =>
      have hb := first?_bounds hf
      simp only [Place.front] at hb
      have hsame : walk ps fuel (p.forward (r.1.stop - p.offset)) =
          walk ps fuel ((Place.front p.offset p.after).forward (r.1.stop - p.offset)) := by
        rw [ih (p.forward _), ih ((Place.front p.offset p.after).forward _),
          Place.offset_forward (by omega), Place.offset_forward (by simp only [Place.front]; omega),
          Place.after_forward, Place.after_forward]
        rfl
      exact congrArg (_ :: ·) hsame

theorem walk_forward (fuel : Nat) (o : Nat) {k : Nat} (hk : k ≤ t.length) :
    walk ps fuel ((Place.front o t).forward k) = walk ps fuel (.front (o + k) (t.drop k)) := by
  rw [walk_front hps, Place.offset_forward (by simpa [Place.front] using hk), Place.after_forward]
  rfl

/-- The matches in a text that ends a line, then those in what follows. -/
theorem walk_append (hu : v = [] ∨ u.Closed) (o : Nat) {fuel : Nat}
    (hfuel : u.length + v.length < fuel) :
    walk ps fuel (.front o (u ++ v)) =
      walk ps (u.length + 1) (.front o u) ++
        walk ps (v.length + 1) (.front (o + u.length) v) := by
  induction fuel generalizing o u with
  | zero => omega
  | succ fuel ih =>
    have hfirst := first?_append hps hu o []
    rw [walk, walk, show first? ps (.front o (u ++ v)) = _ from hfirst]
    cases hf : first? ps (.front o u) with
    | some r =>
      obtain ⟨i, s⟩ := r
      have hb := first?_bounds hf
      simp only [Place.front] at hb
      obtain ⟨k, hk⟩ : ∃ k, k = i.stop - o := ⟨_, rfl⟩
      have hrest := ih (u := u.drop k) (hu.imp_right fun h => h.drop k) (o + k)
        (by rw [List.length_drop]; omega)
      have hend : o + k + (u.drop k).length = o + u.length := by
        rw [List.length_drop]
        omega
      simp only [Option.some_or, Place.front, List.cons_append] at hrest ⊢
      rw [← hk]
      refine congrArg (_ :: ·) ?_
      rw [show (⟨o, [], u ++ v⟩ : Place) = .front o (u ++ v) from rfl,
        show (⟨o, [], u⟩ : Place) = .front o u from rfl,
        walk_forward hps fuel o (by rw [List.length_append]; omega),
        walk_forward hps u.length o (by omega), List.drop_append_of_le_length (by omega),
        @walk_fuel ps _ u.length ((u.drop k).length + 1)
          (by simp only [Place.front, List.length_drop]; omega) (Nat.lt_succ_self _)]
      rw [hend] at hrest
      exact hrest
    | none =>
      rw [Option.none_or]
      simp only [List.nil_append]
      rw [walk]
      cases hg : first? ps (.front (o + u.length) v) with
      | none => rfl
      | some r =>
        obtain ⟨i, s⟩ := r
        have hb := first?_bounds hg
        simp only [Place.front] at hb
        simp only [Place.front]
        refine congrArg (_ :: ·) ?_
        have hskip : i.stop - o = u.length + (i.stop - (o + u.length)) := by omega
        rw [show (⟨o, [], u ++ v⟩ : Place) = .front o (u ++ v) from rfl,
          show (⟨o + u.length, [], v⟩ : Place) = .front (o + u.length) v from rfl,
          walk_forward hps fuel o (by rw [List.length_append]; omega),
          walk_forward hps v.length _ (by omega), hskip, List.drop_length_add_append,
          ← Nat.add_assoc]
        exact walk_fuel (by simp only [Place.front, List.length_drop]; omega)
          (by simp only [Place.front, List.length_drop]; omega)

end

/-! The matches in a range of a text -/

/-- The matches in a range of a text. -/
def matchesIn (ps : List SimplePattern) (t : Text) (start stop : Nat) : List SimpleMatch :=
  collect ps (.front start (t.drop start)) stop

theorem matchesIn_eq (ps : List SimplePattern) (t : Text) (start stop : Nat) :
    matchesIn ps t start stop = walk ps (((t.drop start).take (stop - start)).length + 1)
      (.front start ((t.drop start).take (stop - start))) := collect_eq _ _ _

theorem mem_matchesIn {start stop : Nat} {m : SimpleMatch} (h : m ∈ matchesIn ps t start stop) :
    m.pattern ∈ ps ∧ start ≤ m.start ∧ m.start < m.stop ∧ m.stop ≤ stop := by
  rw [matchesIn_eq] at h
  have hm := mem_walk h
  simp only [Place.front, List.length_take] at hm
  exact ⟨hm.1, by omega⟩

variable (hps : ∀ s ∈ ps, s.IsPlain)
include hps

/-- The matches before `stop` in a range around it, begun anywhere. -/
theorem collect_eq_matchesIn {b stop : Nat} (hp : p.after = (t.take b).drop p.offset)
    (hstop : stop ≤ b) : collect ps p stop = matchesIn ps t p.offset stop := by
  have hafter : p.after.take (stop - p.offset) = (t.drop p.offset).take (stop - p.offset) := by
    rw [hp, List.drop_take, List.take_take, Nat.min_eq_left (by omega)]
  rw [collect_eq, matchesIn_eq, walk_front hps]
  simp only [Place.endingAt, hafter]

/-- At a line's end the matches in a range fall into two. -/
theorem matchesIn_split {start m stop : Nat} (hm : t.IsSeam m) (hlo : start ≤ m)
    (hhi : m ≤ stop) :
    matchesIn ps t start stop = matchesIn ps t start m ++ matchesIn ps t m stop := by
  by_cases hlen : t.length ≤ m
  · have hempty : (t.drop m).take (stop - m) = [] := by
      rw [List.drop_eq_nil_of_le hlen, List.take_nil]
    have hsame : (t.drop start).take (stop - start) = (t.drop start).take (m - start) := by
      rw [List.take_of_length_le (by rw [List.length_drop]; omega),
        List.take_of_length_le (by rw [List.length_drop]; omega)]
    have hnone : matchesIn ps t m stop = [] := by
      rw [matchesIn_eq, hempty]
      apply List.eq_nil_iff_forall_not_mem.2
      intro x hx
      have := mem_walk hx
      simp only [Place.front, List.length_nil] at this
      omega
    rw [hnone, List.append_nil, matchesIn_eq, matchesIn_eq, hsame]
  · have hclosed : Text.Closed ((t.drop start).take (m - start)) := by
      have hbefore : Text.Closed (t.take m) := hm.resolve_left hlen
      rw [← List.drop_take]
      exact hbefore.drop start
    have hparts : (t.drop start).take (stop - start) =
        (t.drop start).take (m - start) ++ (t.drop m).take (stop - m) := by
      rw [show stop - start = (m - start) + (stop - m) by omega, List.take_add, List.drop_drop,
        Nat.add_sub_cancel' hlo]
    have hlength : start + ((t.drop start).take (m - start)).length = m := by
      rw [List.length_take, List.length_drop]
      omega
    have hwalk := walk_append hps (v := (t.drop m).take (stop - m)) (.inr hclosed) start
      (Nat.lt_succ_self _)
    rw [hlength] at hwalk
    rw [matchesIn_eq, matchesIn_eq, matchesIn_eq, hparts, List.length_append]
    exact hwalk

end SimpleMatch
end CodeBuffer
