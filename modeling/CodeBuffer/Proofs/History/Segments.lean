import Mathlib.Data.List.SplitBy
import CodeBuffer.Proofs.History.Timeline

namespace CodeBuffer

/-- Between these two characters one step ends and another one begins. -/
def cutBetween (c d : Char) : Bool :=
  c == '\n' || d == '\n' || (Action.isBlank d && !Action.isBlank c)

theorem cutBetween_iff {c d : Char} :
    cutBetween c d = true ↔ c = '\n' ∨ d = '\n' ∨ Action.continues c d = false := by
  simp [cutBetween, Action.continues, or_assoc]

theorem cutBetween_eq_false_iff {c d : Char} :
    cutBetween c d = false ↔ c ≠ '\n' ∧ d ≠ '\n' ∧ Action.continues c d = true := by
  rw [← Bool.not_eq_true, cutBetween_iff]
  simp [not_or]

namespace Text

/-- The pieces into which a text that is typed or erased falls. -/
def segments (s : Text) : List Text := s.splitBy fun c d => !cutBetween c d

variable {s g : Text} {gs : List Text} {c d : Char}

theorem flatten_segments (s : Text) : s.segments.flatten = s := List.flatten_splitBy _ s

theorem segments_ne_nil (h : s ≠ []) : s.segments ≠ [] := List.splitBy_ne_nil.2 h

theorem ne_nil_of_mem_segments (h : g ∈ s.segments) : g ≠ [] := List.ne_nil_of_mem_splitBy h

theorem not_cut_of_mem_segments (h : g ∈ s.segments) :
    g.IsChain fun c d => cutBetween c d = false := by
  simpa only [Bool.not_eq_true'] using List.isChain_of_mem_splitBy h

theorem exists_last_segment (h : s ≠ []) : ∃ gs g c, s.segments = gs ++ [g] ∧
    g.getLast? = some c ∧ s.getLast? = some c ∧ s.length = gs.flatten.length + g.length := by
  obtain ⟨gs, g, hlast⟩ := (List.eq_nil_or_concat s.segments).resolve_left (segments_ne_nil h)
  rw [List.concat_eq_append] at hlast
  have hg : g ≠ [] := ne_nil_of_mem_segments (by simp [hlast] : g ∈ s.segments)
  have hs : s = gs.flatten ++ g := by
    rw [← s.flatten_segments, hlast]
    simp
  refine ⟨gs, g, g.getLast hg, hlast, List.getLast?_eq_some_getLast hg, ?_, ?_⟩
  · rw [hs, List.getLast?_append_of_ne_nil _ hg, List.getLast?_eq_some_getLast hg]
  · rw [hs, List.length_append]

theorem exists_first_segment (h : s ≠ []) :
    ∃ g gs d, s.segments = g :: gs ∧ g.head? = some d ∧ s.head? = some d := by
  obtain ⟨g, gs, hfirst⟩ := List.exists_cons_of_ne_nil (segments_ne_nil h)
  have hg : g ≠ [] := ne_nil_of_mem_segments (by simp [hfirst] : g ∈ s.segments)
  obtain ⟨d, g', rfl⟩ := List.exists_cons_of_ne_nil hg
  have hs : s = d :: (g' ++ gs.flatten) := by
    rw [← s.flatten_segments, hfirst]
    simp
  refine ⟨d :: g', gs, d, hfirst, rfl, ?_⟩
  rw [hs, List.head?_cons]

/-- A line feed at the end of a piece is all of it. -/
theorem eq_of_lineFeed_last (h : g ∈ s.segments) (hlast : g.getLast? = some '\n') : g = ['\n'] := by
  obtain ⟨g', rfl⟩ := List.getLast?_eq_some_iff.1 hlast
  rcases List.eq_nil_or_concat g' with rfl | ⟨g', c, rfl⟩
  · rfl
  · have hcut := (List.isChain_append.1 (not_cut_of_mem_segments h)).2.2 c (by simp) '\n' rfl
    simp [cutBetween] at hcut

/-- A line feed at the beginning of a piece is all of it. -/
theorem eq_of_lineFeed_head (h : g ∈ s.segments) (hhead : g.head? = some '\n') : g = ['\n'] := by
  obtain ⟨g', rfl⟩ := List.head?_eq_some_iff.1 hhead
  rcases g' with _ | ⟨d, g'⟩
  · rfl
  · have hcut := (List.isChain_cons.1 (not_cut_of_mem_segments h)).1 d rfl
    simp [cutBetween] at hcut

theorem segments_concat_of_cut (hc : s.getLast? = some c) (h : cutBetween c d = true) :
    segments (s ++ [d]) = s.segments ++ [[d]] := by
  have hcut : ∀ x ∈ s.getLast?, (!cutBetween x d) = false := by
    intro x hx
    obtain rfl : c = x := Option.some.inj (hc.symm.trans hx)
    rw [h, Bool.not_true]
  exact List.splitBy_append_cons [] hcut

theorem segments_cons_of_cut (hd : s.head? = some d) (h : cutBetween c d = true) :
    segments (c :: s) = [c] :: s.segments := by
  have hcut : ∀ x ∈ [c].getLast?, ∀ y ∈ s.head?, (!cutBetween x y) = false := by
    intro x hx y hy
    obtain rfl : c = x := Option.some.inj hx
    obtain rfl : d = y := Option.some.inj (hd.symm.trans hy)
    rw [h, Bool.not_true]
  exact List.splitBy_append hcut

/-- Without a cut the last piece grows. -/
theorem segments_concat_of_not_cut (hs : s.segments = gs ++ [g]) (hc : g.getLast? = some c)
    (h : cutBetween c d = false) : segments (s ++ [d]) = gs ++ [g ++ [d]] := by
  obtain ⟨hflat, hne, hchain, hcuts⟩ := List.splitBy_eq_iff.1 hs
  obtain ⟨hinit, -, hlast⟩ := List.isChain_append.1 hcuts
  refine List.splitBy_eq_iff.2 ⟨?_, ?_, ?_, ?_⟩
  · rw [hflat]
    simp
  · have hgs : [] ∉ gs := fun hmem => hne (List.mem_append_left [g] hmem)
    simp [hgs]
  · intro m hm
    rcases List.mem_append.1 hm with hm | hm
    · exact hchain m (List.mem_append_left [g] hm)
    · rw [List.mem_singleton.1 hm]
      refine List.isChain_append.2 ⟨hchain g (by simp), .singleton d, fun x hx y hy => ?_⟩
      obtain rfl : c = x := Option.some.inj (hc.symm.trans hx)
      obtain rfl : d = y := Option.some.inj hy
      rw [h, Bool.not_false]
  · refine List.isChain_append.2 ⟨hinit, .singleton _, fun x hx y hy => ?_⟩
    obtain ⟨hxne, hgne, hcut⟩ := hlast x hx g rfl
    obtain rfl : g ++ [d] = y := Option.some.inj hy
    refine ⟨hxne, by simp, ?_⟩
    rw [List.head_append_of_ne_nil hgne]
    exact hcut

/-- Without a cut the first piece grows. -/
theorem segments_cons_of_not_cut (hs : s.segments = g :: gs) (hd : g.head? = some d)
    (h : cutBetween c d = false) : segments (c :: s) = (c :: g) :: gs := by
  obtain ⟨hflat, hne, hchain, hcuts⟩ := List.splitBy_eq_iff.1 hs
  obtain ⟨hfirst, htail⟩ := List.isChain_cons.1 hcuts
  refine List.splitBy_eq_iff.2 ⟨?_, ?_, ?_, ?_⟩
  · rw [hflat]
    simp
  · have hgs : [] ∉ gs := fun hmem => hne (List.mem_cons_of_mem g hmem)
    simp [hgs]
  · intro m hm
    rcases List.mem_cons.1 hm with rfl | hm
    · refine List.isChain_cons.2 ⟨fun y hy => ?_, hchain g List.mem_cons_self⟩
      obtain rfl : d = y := Option.some.inj (hd.symm.trans hy)
      rw [h, Bool.not_false]
    · exact hchain m (List.mem_cons_of_mem g hm)
  · refine List.isChain_cons.2 ⟨fun y hy => ?_, htail⟩
    obtain ⟨hgne, hyne, hcut⟩ := hfirst y hy
    refine ⟨List.cons_ne_nil c g, hyne, ?_⟩
    rw [List.getLast_cons hgne]
    exact hcut

end Text

namespace History

variable {as : List Action} {a x c : Action}

/-- One step for each action, of which only the newest may grow, unless it is a line feed. -/
def stepsOf (as : List Action) : List Step :=
  as.dropLast.map (⟨[·], true⟩) ++ (as.getLast?.map fun a => ⟨[a], a.text == ['\n']⟩).toList

/-- An unlimited history of which every action is a step. -/
def ofActions (as : List Action) : History :=
  { empty with steps := stepsOf as, location := as.length }

theorem stepsOf_concat (as : List Action) (a : Action) :
    stepsOf (as ++ [a]) = as.map (⟨[·], true⟩) ++ [⟨[a], a.text == ['\n']⟩] := by
  rw [stepsOf, List.dropLast_concat, List.getLast?_concat]
  rfl

theorem map_actions_stepsOf (as : List Action) :
    (stepsOf as).map Step.actions = as.map ([·]) := by
  rcases List.eq_nil_or_concat as with rfl | ⟨as, a, rfl⟩
  · rfl
  · rw [List.concat_eq_append, stepsOf_concat]
    simp

theorem length_stepsOf (as : List Action) : (stepsOf as).length = as.length := by
  simpa using congrArg List.length (map_actions_stepsOf as)

theorem sealed_stepsOf (as : List Action) : sealed (stepsOf as) = as.map (⟨[·], true⟩) := by
  rcases List.eq_nil_or_concat as with rfl | ⟨as, a, rfl⟩
  · rfl
  · rw [List.concat_eq_append, stepsOf_concat, sealed_concat]
    simp

/-- A user action of a single edit. -/
def keyed (h : History) (a : Action) : History := (h.beginUserAction.push a).finishUserAction

/-- An edit of one character goes into the newest step, or it is a step of its own. -/
theorem keyed_ofActions (as : List Action) (hx : x.stop - x.start ≤ 1) {g : History}
    (hg : g = { ofActions as with inUserAction := true }) :
    (ofActions as).keyed x =
      { (g.mergeLast? ⟨[x], x.text == ['\n']⟩).getD (g.extended ⟨[x], x.text == ['\n']⟩) with
        inUserAction := false } := by
  obtain ⟨h, hh⟩ : ∃ h : History, h = { g with pending := some ⟨[x], x.text == ['\n']⟩ } :=
    ⟨_, rfl⟩
  have hpush : (ofActions as).beginUserAction.push x = h := by
    have hshort : decide (1 < x.stop - x.start) = false := decide_eq_false (Nat.not_lt_of_le hx)
    rw [hh, hg]
    simp [push, beginUserAction, ofActions, Step.push, hshort, empty]
  have hall : g = { h with pending := none }.forgetUndone := by
    have hend : (stepsOf as).length ≤ as.length := (length_stepsOf as).le
    rw [hh, hg, forgetUndone]
    simp [ofActions, hend, empty]
  have htrim (step : Step) : (g.extended step).trim = g.extended step := by
    have hunlimited : (g.extended step).limit < 0 := by
      rw [hg]
      exact Int.negSucc_lt_zero 0
    rw [trim, if_pos hunlimited]
  rw [keyed, hpush, finishUserAction, h.closePending_of_some (by rw [hh]) (by simp) hall, htrim]

theorem keyed_of_mergeLast?_eq_none (hx : x.stop - x.start ≤ 1)
    (hnone : { ofActions as with inUserAction := true }.mergeLast? ⟨[x], x.text == ['\n']⟩ = none) :
    (ofActions as).keyed x = ofActions (as ++ [x]) := by
  rw [keyed_ofActions as hx rfl, hnone, Option.getD_none, extended, ofActions]
  simp only [sealed_stepsOf, length_stepsOf, ofActions, stepsOf_concat, List.length_append,
    List.length_singleton]
  rfl

theorem keyed_first (hx : x.stop - x.start ≤ 1) : (ofActions []).keyed x = ofActions [x] :=
  keyed_of_mergeLast?_eq_none hx rfl

theorem mergeLast?_ofActions_concat (as : List Action) (a : Action) (step : Step) :
    { ofActions (as ++ [a]) with inUserAction := true }.mergeLast? step =
      (Step.merge? ⟨[a], a.text == ['\n']⟩ step).map fun both =>
        { ofActions (as ++ [a]) with
          inUserAction := true, steps := as.map (⟨[·], true⟩) ++ [both] } := by
  have hsaved : some 0 ≠ some (stepsOf (as ++ [a])).length := by simp [length_stepsOf]
  rw [mergeLast?, if_neg]
  · simp [ofActions, stepsOf_concat]
  · exact hsaved

variable {d e : Char}

/-- Across a cut there is no merging. -/
theorem keyed_of_cut (hx : x.stop - x.start ≤ 1) (hcut : cutBetween d e = true)
    (hfeed : d = '\n' ∨ e = '\n' → a.text = ['\n'] ∨ x.text = ['\n'])
    (hm : a.merge? x = if Action.continues d e then some c else none) :
    (ofActions (as ++ [a])).keyed x = ofActions (as ++ [a] ++ [x]) := by
  apply keyed_of_mergeLast?_eq_none hx
  rw [mergeLast?_ofActions_concat, Option.map_eq_none_iff]
  simp only [Step.merge?]
  split
  · rfl
  · rename_i hopen
    have hclosed : ¬(a.text = ['\n'] ∨ x.text = ['\n']) := by simpa using hopen
    have hstop := ((or_assoc.2 (cutBetween_iff.1 hcut)).resolve_left fun h => hclosed (hfeed h))
    rw [hm, hstop]
    rfl

/-- Elsewhere there is. -/
theorem keyed_of_not_cut (hx : x.stop - x.start ≤ 1) (hcut : cutBetween d e = false)
    (hfeed : a.text = ['\n'] ∨ x.text = ['\n'] → d = '\n' ∨ e = '\n')
    (hm : a.merge? x = if Action.continues d e then some c else none) (hc : c.text ≠ ['\n']) :
    (ofActions (as ++ [a])).keyed x = ofActions (as ++ [c]) := by
  obtain ⟨hd, he, hgo⟩ := cutBetween_eq_false_iff.1 hcut
  obtain ⟨ha, hnl⟩ := not_or.1 fun h => (hfeed h).elim hd he
  rw [keyed_ofActions _ hx rfl, mergeLast?_ofActions_concat]
  simp [Step.merge?, ha, hnl, hm, hgo, ofActions, stepsOf_concat, hc, empty]

end History

/-! Where the pieces stand. -/

/-- An action for each piece, with the offset of the piece. -/
def placed (place : Nat → Text → Action) : Nat → List Text → List Action
  | _, [] => []
  | k, g :: gs => place k g :: placed place (k + g.length) gs

variable {place : Nat → Text → Action} {k : Nat} {gs : List Text} {g u : Text} {c d : Char}

theorem placed_concat (k : Nat) (gs : List Text) (g : Text) :
    placed place k (gs ++ [g]) = placed place k gs ++ [place (k + gs.flatten.length) g] := by
  induction gs generalizing k with
  | nil => rfl
  | cons f gs ih => simp [placed, ih, Nat.add_assoc]

theorem length_placed (k : Nat) (gs : List Text) : (placed place k gs).length = gs.length := by
  induction gs generalizing k with
  | nil => rfl
  | cons f gs ih => rw [placed, List.length_cons, ih, List.length_cons]

theorem getElem?_placed (k : Nat) (gs : List Text) (i : Nat) :
    (placed place k gs)[i]? = gs[i]?.map (place (k + (gs.take i).flatten.length)) := by
  induction gs generalizing k i with
  | nil => rfl
  | cons f gs ih =>
    cases i with
    | zero => rfl
    | succ i => simp [placed, ih, Nat.add_assoc]

theorem placed_ne_nil (k : Nat) (hu : u ≠ []) : placed place k u.segments ≠ [] := by
  rw [ne_eq, ← List.length_eq_zero_iff, length_placed, List.length_eq_zero_iff]
  exact Text.segments_ne_nil hu

theorem map_text_placed (hplace : ∀ k g, (place k g).text = g) (k : Nat) (gs : List Text) :
    (placed place k gs).map Action.text = gs := by
  induction gs generalizing k with
  | nil => rfl
  | cons g gs ih => rw [placed, List.map_cons, hplace, ih]

/-- The actions of typing, or of the delete key: they are merged with what is behind them. -/
structure Grows (place : Nat → Text → Action) : Prop where
  text (k : Nat) (g : Text) : (place k g).text = g
  single (k : Nat) (d : Char) : (place k [d]).stop - (place k [d]).start ≤ 1
  merge (k : Nat) (g : Text) (c d : Char) (hc : g.getLast? = some c) :
    (place k g).merge? (place (k + g.length) [d]) =
      if Action.continues c d then some (place k (g ++ [d])) else none

/-- A character behind the others. -/
theorem Grows.keyed_placed (hg : Grows place) (k : Nat) (u : Text) (d : Char) :
    (History.ofActions (placed place k u.segments)).keyed (place (k + u.length) [d]) =
      .ofActions (placed place k (Text.segments (u ++ [d]))) := by
  by_cases hu : u = []
  · rw [hu]
    exact History.keyed_first (hg.single k d)
  · obtain ⟨gs, g, c, hsegments, hc, huc, hlength⟩ := Text.exists_last_segment hu
    have hmem : g ∈ u.segments := by simp [hsegments]
    have hmerge := hg.merge (k + gs.flatten.length) g c d hc
    rw [hlength, ← Nat.add_assoc, hsegments, placed_concat]
    cases hcut : cutBetween c d with
    | true =>
      rw [Text.segments_concat_of_cut huc hcut, hsegments, placed_concat, placed_concat]
      have hplace : k + (gs ++ [g]).flatten.length = k + gs.flatten.length + g.length := by
        simp [Nat.add_assoc]
      rw [hplace]
      refine History.keyed_of_cut (hg.single _ d) hcut (fun hfeed => ?_) hmerge
      rw [hg.text, hg.text]
      rcases hfeed with rfl | rfl
      · exact .inl (Text.eq_of_lineFeed_last hmem hc)
      · exact .inr rfl
    | false =>
      rw [Text.segments_concat_of_not_cut hsegments hc hcut, placed_concat]
      refine History.keyed_of_not_cut (hg.single _ d) hcut (fun hfeed => ?_) hmerge ?_
      · rw [hg.text, hg.text] at hfeed
        rcases hfeed with rfl | hd
        · exact .inl (Option.some.inj hc).symm
        · exact .inr (List.singleton_injective hd)
      · rw [hg.text]
        intro heq
        have hne := congrArg List.length heq
        have hpos := List.length_pos_of_ne_nil (Text.ne_nil_of_mem_segments hmem)
        simp only [List.length_append, List.length_singleton] at hne
        omega

/-- What is typed at an offset. -/
def typedAt (k : Nat) (g : Text) : Action := ⟨.insertion, k, k + g.length, g, some (k, k)⟩

/-- What backspace takes from behind an offset. -/
def backspacedAt (k : Nat) (g : Text) : Action :=
  ⟨.deletion, k, k + g.length, g, some (k + g.length, k + g.length)⟩

/-- What the delete key takes from behind the beginning. -/
def keyDeleted (g : Text) : Action := ⟨.deletion, 0, g.length, g, some (0, 0)⟩

theorem grows_typedAt : Grows typedAt where
  text _ _ := rfl
  single k d := by simp [typedAt]
  merge k g c d hc := by
    simp [Action.merge?, typedAt, Action.continuesBetween, hc, Nat.add_assoc]

theorem grows_keyDeleted : Grows fun _ => keyDeleted where
  text _ _ := rfl
  single k d := by simp [keyDeleted]
  merge k g c d hc := by
    have hne : ¬0 = g.length := by
      intro hzero
      rw [List.eq_nil_of_length_eq_zero hzero.symm] at hc
      cases hc
    have hkind : (keyDeleted g).deletionKind = .deleteKey := by
      simp [Action.deletionKind, DeletionKind.infer, keyDeleted, hne]
    have hkind' : (keyDeleted [d]).deletionKind = .deleteKey := rfl
    simp only [Action.merge?, hkind, hkind']
    simp [keyDeleted, Action.continuesBetween, hc]

theorem merge?_backspacedAt (k : Nat) (c : Char) {d : Char} (hd : g.head? = some d) :
    (backspacedAt (k + 1) g).merge? (backspacedAt k [c]) =
      if Action.continues c d then some (backspacedAt k (c :: g)) else none := by
  have hkind (k : Nat) (g : Text) : (backspacedAt k g).deletionKind = .backspace := by
    simp [Action.deletionKind, DeletionKind.infer, backspacedAt]
  simp only [Action.merge?, hkind]
  simp [backspacedAt, hd, Nat.add_assoc, Nat.add_comm 1]

/-- A character before the others. -/
theorem keyed_backspacedAt (k : Nat) (u : Text) (c : Char) :
    (History.ofActions (placed backspacedAt (k + 1) u.segments).reverse).keyed
        (backspacedAt k [c]) =
      .ofActions (placed backspacedAt k (Text.segments (c :: u))).reverse := by
  have hsingle : (backspacedAt k [c]).stop - (backspacedAt k [c]).start ≤ 1 := by
    simp [backspacedAt]
  by_cases hu : u = []
  · rw [hu]
    exact History.keyed_first hsingle
  · obtain ⟨g, gs, d, hsegments, hd, hud⟩ := Text.exists_first_segment hu
    have hmem : g ∈ u.segments := by simp [hsegments]
    have hmerge := merge?_backspacedAt k c hd
    cases hcut : cutBetween c d with
    | true =>
      rw [Text.segments_cons_of_cut hud hcut, hsegments]
      simp only [placed, List.reverse_cons, List.length_singleton]
      refine History.keyed_of_cut hsingle hcut (fun hfeed => ?_) hmerge
      rcases hfeed with rfl | rfl
      · exact .inr rfl
      · exact .inl (Text.eq_of_lineFeed_head hmem hd)
    | false =>
      rw [Text.segments_cons_of_not_cut hsegments hd hcut, hsegments]
      simp only [placed, List.reverse_cons, List.length_cons, Nat.add_assoc, Nat.add_comm 1]
      refine History.keyed_of_not_cut hsingle hcut (fun hfeed => ?_) hmerge ?_
      · rcases hfeed with hg | hc
        · rw [show g = ['\n'] from hg] at hd
          exact .inr (Option.some.inj hd).symm
        · exact .inl (List.singleton_injective hc)
      · intro heq
        obtain ⟨-, hnil⟩ := List.cons.inj (show c :: g = ['\n'] from heq)
        exact Text.ne_nil_of_mem_segments hmem hnil

/-! From text to text. -/

variable {a : Action} {x y : Text}

theorem leads_typed {i : Nat} (h : (placed typedAt x.length gs)[i]? = some a) :
    a.Leads (x ++ (gs.take i).flatten ++ y) (x ++ (gs.take (i + 1)).flatten ++ y) := by
  rw [getElem?_placed] at h
  obtain ⟨g, hg, rfl⟩ := Option.map_eq_some_iff.1 h
  refine ⟨rfl, x ++ (gs.take i).flatten, y, List.length_append, rfl, ?_⟩
  rw [List.take_add_one, hg]
  simp [typedAt]

theorem leads_keyDeleted {i : Nat} (h : (placed (fun _ => keyDeleted) 0 gs)[i]? = some a) :
    a.Leads (gs.drop i).flatten (gs.drop (i + 1)).flatten := by
  rw [getElem?_placed] at h
  obtain ⟨g, hg, rfl⟩ := Option.map_eq_some_iff.1 h
  obtain ⟨hlt, rfl⟩ := List.getElem?_eq_some_iff.1 hg
  refine ⟨(Nat.zero_add _).symm, [], (gs.drop (i + 1)).flatten, rfl, rfl, ?_⟩
  rw [List.drop_eq_getElem_cons hlt, List.flatten_cons]
  rfl

theorem leads_backspaced {i : Nat} (h : (placed backspacedAt 0 gs).reverse[i]? = some a) :
    a.Leads (gs.take (gs.length - i)).flatten (gs.take (gs.length - (i + 1))).flatten := by
  have hi : i < gs.length := by
    have := (List.getElem?_eq_some_iff.1 h).1
    simpa [length_placed] using this
  obtain ⟨j, hj⟩ : ∃ j, j = gs.length - (i + 1) := ⟨_, rfl⟩
  have hj' : gs.length - i = j + 1 := by omega
  rw [List.getElem?_reverse (by simpa [length_placed] using hi), length_placed, Nat.sub_sub,
    Nat.add_comm 1 i, ← hj, getElem?_placed] at h
  obtain ⟨g, hg, rfl⟩ := Option.map_eq_some_iff.1 h
  rw [← hj, hj']
  refine ⟨rfl, (gs.take j).flatten, [], (Nat.zero_add _).symm, (List.append_nil _).symm, ?_⟩
  rw [List.take_add_one, hg]
  simp [backspacedAt]

end CodeBuffer
