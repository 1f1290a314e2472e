import CodeBuffer.Proofs.Plain.Building
import CodeBuffer.Proofs.Plain.Turning

namespace CodeBuffer

open Delimiter DelimiterTable

/-- Moving delimiters along, some of which may go, keeps their order around an offset. -/
theorem takeWhile_filterMap {ds es : List Delimiter} {f : Delimiter → Option Delimiter}
    {p q : Delimiter → Bool} (hds : ∀ d ∈ ds, p d = true) (hes : ∀ d ∈ es, p d = false)
    (hf : ∀ d d', f d = some d' → q d' = p d) :
    ((ds ++ es).filterMap f).takeWhile q = ds.filterMap f ∧
      ((ds ++ es).filterMap f).dropWhile q = es.filterMap f := by
  have before : ∀ d ∈ ds.filterMap f, q d = true := by
    intro d' hd'
    obtain ⟨d, hd, hmap⟩ := List.mem_filterMap.1 hd'
    rw [hf d d' hmap, hds d hd]
  have behind : ∀ d ∈ es.filterMap f, q d = false := by
    intro d' hd'
    obtain ⟨d, hd, hmap⟩ := List.mem_filterMap.1 hd'
    rw [hf d d' hmap, hes d hd]
  rw [List.filterMap_append, List.takeWhile_append_of_pos before,
    List.dropWhile_append_of_pos before]
  generalize es.filterMap f = rest at behind
  cases rest with
  | nil => simp
  | cons d rest =>
    have hd := behind d List.mem_cons_self
    rw [List.takeWhile_cons_of_neg (by simp [hd]), List.dropWhile_cons_of_neg (by simp [hd])]
    simp

/-- Where the frontier is after an edit before it. -/
theorem Edit.mapOffset_eq {e : Edit} {s f : Nat} (hs : e.stop ≤ s) (hlt : e.offset < f)
    (hle : e.back s ≤ f) : e.mapOffset f = s + (f - e.back s) := by
  cases e <;> simp only [stop, offset, back, mapOffset] at *
  · rw [if_pos hlt]
    omega
  · rw [if_pos (by omega)]
    omega

/-- Where the frontier is after an edit. -/
def Frontier.after (e : Edit) : Frontier → Frontier
  | complete => complete
  | pending f => pending (e.mapOffset f)

/-- The table with what lies behind a line start moved along. -/
def DelimiterTable.moved (T : DelimiterTable) (e : Edit) (head : Nat) : DelimiterTable :=
  { entries := T.entries.takeWhile (withinLines head) ++
      (T.entries.dropWhile (withinLines head)).filterMap e.map?
    old := T.old.map fun old => { old with entries := old.entries.filterMap e.map? }
    frontier := T.frontier.after e }

theorem DelimiterTable.oldEntries_moved (T : DelimiterTable) (e : Edit) (head : Nat) :
    (T.moved e head).oldEntries = T.oldEntries.filterMap e.map? := by
  unfold moved oldEntries
  cases T.old <;> rfl

theorem DelimiterTable.applyEdit_eq (T : DelimiterTable) (e : Edit) (head s : Nat)
    (fresh : List Delimiter) :
    T.applyEdit e head s fresh =
      let kept := T.entries.takeWhile (withinLines head)
      let behind := T.entries.dropWhile (withinLines head)
      let tail := behind.filterMap e.map?
      if !(behind.any fun d => (e.map? d).isNone) && (T.frontier.after e).covers s &&
          tail.takeWhile (withinLines s) == fresh then
        (true, T.moved e head)
      else
        (false, ⟨kept,
          if (tail.dropWhile (withinLines s)).isEmpty then none
          else some ⟨tail.dropWhile (withinLines s), 0⟩, .pending head⟩) := by
  simp only [applyEdit, keptBefore, beforeLine_eq, drop_length_takeWhile]
  rfl

/-- What an edit of the analysed text comes to: everything moves along, or the table is cut. -/
theorem DelimiterTable.applyEdit_cases (T : DelimiterTable) (e : Edit) (head s : Nat)
    (fresh : List Delimiter) :
    ((∀ d ∈ T.entries.dropWhile (withinLines head), (e.map? d).isSome = true) ∧
      (T.frontier.after e).covers s = true ∧
      ((T.entries.dropWhile (withinLines head)).filterMap e.map?).takeWhile
          (withinLines s) = fresh ∧
        T.applyEdit e head s fresh = (true, T.moved e head)) ∨
      ∃ old, T.applyEdit e head s fresh =
          (false, ⟨T.entries.takeWhile (withinLines head), old, .pending head⟩) ∧
        old.elim [] (·.entries) =
          ((T.entries.dropWhile (withinLines head)).filterMap e.map?).dropWhile
            (withinLines s) := by
  rw [applyEdit_eq]
  generalize T.entries.dropWhile (withinLines head) = behind
  dsimp only
  split
  · rename_i hsurvives
    simp only [Bool.and_eq_true, Bool.not_eq_true', List.any_eq_false, beq_iff_eq] at hsurvives
    obtain ⟨⟨hnone, hcovers⟩, hfresh⟩ := hsurvives
    refine .inl ⟨?_, hcovers, hfresh, rfl⟩
    intro d hd
    simpa [Option.isSome_iff_ne_none] using hnone d hd
  · refine .inr ⟨_, rfl, ?_⟩
    cases (behind.filterMap e.map?).dropWhile (withinLines s) <;> rfl

/-- What becomes of the entries and the frontier has nothing to do with old delimiters. -/
theorem DelimiterTable.applyEdit_forget (T : DelimiterTable) (e : Edit) (head s : Nat)
    (fresh : List Delimiter) {survives : Bool} {table : DelimiterTable}
    (h : T.applyEdit e head s fresh = (survives, table)) :
    ({ T with old := none } : DelimiterTable).applyEdit e head s fresh =
      (survives, if survives then { table with old := none } else table) := by
  rw [applyEdit_eq] at h ⊢
  dsimp only at h ⊢
  split at h
  · rename_i hsurvives
    obtain ⟨rfl, rfl⟩ := Prod.mk.inj h
    rw [if_pos hsurvives]
    rfl
  · rename_i hcut
    obtain ⟨rfl, rfl⟩ := Prod.mk.inj h
    rw [if_neg hcut]
    rfl

theorem stateFrom_filterMap {e : Edit} {state : Option PatternKey} {ds : List Delimiter}
    (h : ∀ d ∈ ds, (e.map? d).isSome = true) :
    stateFrom state (ds.filterMap e.map?) = stateFrom state ds := by
  induction ds generalizing state with
  | nil => rfl
  | cons d ds ih =>
    obtain ⟨d', hd'⟩ := Option.isSome_iff_exists.1 (h d List.mem_cons_self)
    rw [List.filterMap_cons_some hd']
    simp only [stateFrom, List.foldl_cons, Edit.key_map? hd'] at ih ⊢
    exact ih fun d hd => h d (List.mem_cons_of_mem _ hd)

namespace PlainLanguage

variable {L : PlainLanguage} {t t' : Text} {e : Edit} {state : Option PatternKey}
  {ds : List Delimiter} {s start stop : Nat}

theorem filterMap_shift (hs : e.stop ≤ s) (h : ∀ d ∈ ds, withinLines 0 d = false) :
    (ds.map (Delimiter.shift (e.back s))).filterMap e.map? = ds.map (Delimiter.shift s) := by
  rw [List.filterMap_map, ← List.filterMap_eq_map]
  exact List.filterMap_congr fun d hd => Edit.map?_shift hs (h d hd)

/-- What is seen behind the edited lines is seen there after the edit, too. -/
theorem Explores.moved (he : e.Turns t t') (hs : s = t'.nextLineStart e.stop)
    (h : L.Explores t (e.back s + start) state ds (e.back s + stop)) :
    L.Explores t' (s + start) state (ds.filterMap e.map?) (s + stop) := by
  have hstop : e.stop ≤ s := hs ▸ t'.le_nextLineStart _ he.stop_le
  have hdrop := he.drop_eq hstop
  have hlen : t'.length - s = t.length - e.back s := by
    simpa using congrArg List.length hdrop
  by_cases hend : t'.length ≤ s
  · -- the edited lines are the last ones
    have hnil : ds = [] := h.eq_nil (by omega)
    subst hnil
    refine ⟨by have := h.1; omega, fun o ho hlt => Option.eq_none_iff_forall_not_mem.2 ?_⟩
    intro σ hσ
    have := sightingAt_bounds hσ
    omega
  · have hclosed : Text.Closed (t'.take s) :=
      (hs ▸ t'.isSeam_nextLineStart e.stop : t'.IsSeam s).resolve_left hend
    have hclosed' : Text.Closed (t.take (e.back s)) :=
      (hs ▸ he.isSeam_back : t.IsSeam (e.back s)).resolve_left (by omega)
    have hlen₁ : (t.take (e.back s)).length = e.back s := by
      rw [List.length_take]
      omega
    have hlen₂ : (t'.take s).length = s := by
      rw [List.length_take]
      omega
    have hwhole : L.Explores (t.take (e.back s) ++ t.drop (e.back s))
        ((t.take (e.back s)).length + start) state ds ((t.take (e.back s)).length + stop) := by
      rwa [hlen₁, List.take_append_drop]
    obtain ⟨es, rfl, hes⟩ := hwhole.behind hclosed'
    have hmoved := hes.prepend hclosed
    have houtside : ∀ d ∈ es, withinLines 0 d = false := fun d hd => by
      have := (hes.within d hd).1
      rw [← Bool.not_eq_true] at this ⊢
      exact fun h0 => this (withinLines_mono (Nat.zero_le _) h0)
    rw [hlen₁, filterMap_shift hstop houtside]
    rwa [hlen₂, ← hdrop, List.take_append_drop] at hmoved

variable {T : DelimiterTable} {head f : Nat} {kept behind fresh : List Delimiter}

/-- The delimiters behind the edited lines after the edit, where none of them is lost before. -/
theorem filterMap_cut (he : e.Turns t t') (hs : s = t'.nextLineStart e.stop)
    (h : L.Explores t head state behind f) :
    (behind.filterMap e.map?).takeWhile (withinLines s) =
        (behind.takeWhile (withinLines (e.back s))).filterMap e.map? ∧
      (behind.filterMap e.map?).dropWhile (withinLines s) =
        (behind.dropWhile (withinLines (e.back s))).filterMap e.map? := by
  have hstop : e.stop ≤ s := hs ▸ t'.le_nextLineStart _ he.stop_le
  have hclean : L.Clean t (e.back s) := clean_of_isSeam (hs ▸ he.isSeam_back)
  obtain ⟨o, ho, state', stop', hlater⟩ := h.dropWithin hclean
  have hout : ∀ d ∈ behind.dropWhile (withinLines (e.back s)),
      withinLines (e.back s) d = false := by
    intro d hd
    have := (hlater.within d hd).1
    rw [← Bool.not_eq_true] at this ⊢
    exact fun hin => this (withinLines_mono ho hin)
  have hin : ∀ d ∈ behind.takeWhile (withinLines (e.back s)), withinLines (e.back s) d = true :=
    fun d hd => List.mem_takeWhile_imp hd
  have cut := takeWhile_filterMap hin hout fun d d' => Edit.withinLines_map? hstop (e := e)
  rwa [List.takeWhile_append_dropWhile] at cut

/-- When the table is cut, the old delimiters are seen behind the edited lines. -/
theorem old_of_cut (he : e.Turns t t') (hs : s = t'.nextLineStart e.stop)
    (h : L.Explores t head state behind f) :
    ∃ o ≥ s, ∃ state' stop', L.Explores t' o state'
      ((behind.filterMap e.map?).dropWhile (withinLines s)) stop' := by
  have hclean : L.Clean t (e.back s) := clean_of_isSeam (hs ▸ he.isSeam_back)
  obtain ⟨o, ho, state', stop', hlater⟩ := h.dropWithin hclean
  have hle := hlater.le
  rw [show o = e.back s + (o - e.back s) by omega,
    show stop' = e.back s + (stop' - e.back s) by omega] at hlater
  rw [(filterMap_cut he hs h).2]
  exact ⟨_, Nat.le_add_right _ _, state', _, hlater.moved he hs⟩

/-- When the table survives, its entries are seen again, up to where the frontier has moved. -/
theorem entries_of_survival (he : e.Turns t t') (hs : s = t'.nextLineStart e.stop)
    (h : L.Explores t head state behind f) (hhead : head ≤ e.offset) (hle : e.back s ≤ f)
    (hkept : ∀ d ∈ behind, (e.map? d).isSome = true)
    (hfresh : L.Explores t' head state
      ((behind.filterMap e.map?).takeWhile (withinLines s)) s) :
    L.Explores t' head state (behind.filterMap e.map?) (s + (f - e.back s)) := by
  have hstop : e.stop ≤ s := hs ▸ t'.le_nextLineStart _ he.stop_le
  have hclean : L.Clean t (e.back s) := clean_of_isSeam (hs ▸ he.isSeam_back)
  have hhead' : head ≤ e.back s := hhead.trans (Edit.offset_le_back hstop)
  have hbehind := (h.split hclean hhead' hle).2
  rw [show f = e.back s + (f - e.back s) by omega] at hbehind
  have hmoved : L.Explores t' (s + 0) _ (_ : List Delimiter) _ := Explores.moved he hs hbehind
  obtain ⟨hfirst, hlast⟩ := filterMap_cut he hs h
  have hstate : stateFrom state ((behind.filterMap e.map?).takeWhile (withinLines s)) =
      stateFrom state (behind.takeWhile (withinLines (e.back s))) := by
    rw [hfirst]
    exact stateFrom_filterMap fun d hd => hkept d (List.takeWhile_subset _ hd)
  rw [← List.takeWhile_append_dropWhile (p := withinLines s) (l := behind.filterMap e.map?)]
  refine hfresh.append ?_
  rw [hstate, hlast]
  exact hmoved

/-- When an edit before the frontier leaves the frontier on edited lines, it has deleted the tail
of the text. -/
theorem tail_deleted (he : e.Turns t t') (hs : s = t'.nextLineStart e.stop) (hlt : e.offset < f)
    (hcovers : s ≤ e.mapOffset f) (hle : f < e.back s) :
    ∃ o n, e = .deletion o n ∧ s = o ∧ t.length = o + n ∧ t'.length = o ∧ e.mapOffset f = o := by
  have hstop := he.stop_le
  have hge := t'.le_nextLineStart _ hstop
  have hback := he.back_length
  cases e with
  | insertion o n =>
    simp only [Edit.offset, Edit.stop, Edit.back, Edit.mapOffset] at *
    rw [if_pos hlt] at hcovers
    omega
  | deletion o n =>
    simp only [Edit.offset, Edit.stop, Edit.back, Edit.mapOffset] at *
    have hcut : ¬o + n ≤ f := by
      intro hmoved
      rw [if_pos hmoved] at hcovers
      omega
    rw [if_neg hcut, Nat.min_eq_right (by omega)] at hcovers
    have hend : t'.length = o := by
      by_contra hne
      have := t'.lt_nextLineStart o (by omega)
      omega
    refine ⟨o, n, rfl, by omega, by omega, hend, ?_⟩
    rw [if_neg hcut, Nat.min_eq_right (by omega)]

theorem offset_lt_of_pending (hin : T.isBeyondFrontier e = false) (hf : T.frontier = .pending f) :
    e.offset < f := by
  rw [isBeyondFrontier, hf] at hin
  exact Nat.lt_of_not_le (of_decide_eq_false hin)

/-- Where the frontier is after an edit, if the edited lines were before it. -/
theorem reach_after (he : e.Turns t t') (hin : T.isBeyondFrontier e = false) (hstop : e.stop ≤ s)
    (hle : s ≤ t'.length) (hu : e.back s ≤ T.frontier.reach t) :
    (T.frontier.after e).reach t' = s + (T.frontier.reach t - e.back s) := by
  cases hf : T.frontier with
  | complete =>
    have := congrArg List.length (he.drop_eq hstop)
    simp only [List.length_drop] at this
    simp only [Frontier.after, Frontier.reach]
    omega
  | pending f =>
    rw [hf] at hu
    exact Edit.mapOffset_eq hstop (offset_lt_of_pending hin hf) hu

/-- Before the edited lines the table holds what is seen there in the new text, too. -/
theorem Tracks.split_head (hT : L.Tracks t [] 0 T) (he : e.Turns t t')
    (hin : T.isBeyondFrontier e = false) (hhead : head = t'.lineStartOf e.offset) :
    L.Explores t' 0 none (T.entries.takeWhile (withinLines head)) head ∧
      L.Explores t head (stateFrom none (T.entries.takeWhile (withinLines head)))
        (T.entries.dropWhile (withinLines head)) (T.frontier.reach t) := by
  have hle : head ≤ e.offset := by
    have := t'.lineStartOf_le e.offset
    omega
  have hreach : head ≤ T.frontier.reach t := by
    have := he.offset_le
    cases hf : T.frontier with
    | complete => exact hle.trans this
    | pending f => exact hle.trans (Nat.le_of_lt (offset_lt_of_pending hin hf))
  have htake := he.take_eq hle
  have hseam : t'.IsSeam head := hhead ▸ t'.isSeam_lineStartOf _
  have hclosed : Text.Closed (t'.take head) := hhead ▸ t'.closed_lineStartOf _
  have hclean : L.Clean t head := clean_of_isSeam (.inr (htake ▸ hclosed))
  obtain ⟨ds, hds, hseen⟩ := hT.entries
  rw [List.nil_append] at hds
  rw [← hds] at hseen
  obtain ⟨hkept, hbehind⟩ := hseen.split hclean (Nat.zero_le _) hreach
  exact ⟨hkept.congr (Nat.le_refl _) htake.symm hclean (clean_of_isSeam hseam), hbehind⟩

/-- The table survives an edit of lines that are analysed to their end. -/
theorem Tracks.moved (hT : L.Tracks t [] 0 T) (he : e.Turns t t')
    (hin : T.isBeyondFrontier e = false) (hhead : head = t'.lineStartOf e.offset)
    (hs : s = t'.nextLineStart e.stop) (hu : e.back s ≤ T.frontier.reach t)
    (hall : ∀ d ∈ T.entries.dropWhile (withinLines head), (e.map? d).isSome = true)
    (hfresh : L.Explores t' head (stateFrom none (T.entries.takeWhile (withinLines head)))
      (((T.entries.dropWhile (withinLines head)).filterMap e.map?).takeWhile (withinLines s)) s) :
    L.Tracks t' [] 0 (T.moved e head) := by
  have hstop : e.stop ≤ s := hs ▸ t'.le_nextLineStart _ he.stop_le
  have hle : s ≤ t'.length := hs ▸ t'.nextLineStart_le _
  have hheadle : head ≤ e.offset := by
    have := t'.lineStartOf_le e.offset
    omega
  have hreach := reach_after he hin hstop hle hu
  have hreachle := hT.reach_le
  obtain ⟨hkept, hbehind⟩ := hT.split_head he hin hhead
  obtain ⟨o, ho, state, stop, hlater⟩ := hT.old
  have hlaterle := hlater.le
  refine ⟨?_, ⟨_, rfl, ?_⟩, ?_⟩
  · have := congrArg List.length (he.drop_eq hstop)
    simp only [List.length_drop] at this
    simp only [DelimiterTable.moved, hreach]
    omega
  · simp only [DelimiterTable.moved, hreach]
    exact hkept.append (entries_of_survival he hs hbehind hheadle hu hall hfresh)
  · rw [oldEntries_moved]
    simp only [DelimiterTable.moved, hreach]
    rw [show o = e.back s + (o - e.back s) by omega,
      show stop = e.back s + (stop - e.back s) by omega] at hlater
    exact ⟨_, by omega, state, _, hlater.moved he hs⟩

/-- No old delimiter is left where the tail of the text is deleted. -/
theorem filterMap_tail {o n m stop : Nat} {state : Option PatternKey} {ds : List Delimiter}
    (h : L.Explores t m state ds stop) (hm : o < m) (hlen : t.length = o + n) :
    ds.filterMap (Edit.deletion o n).map? = [] := by
  refine List.filterMap_eq_nil_iff.2 ?_
  intro d hd
  have hbefore := (h.within d hd).1
  have hwithin := h.within_length d hd
  rw [← Bool.not_eq_true, withinLines_iff] at hbefore
  rw [withinLines_iff] at hwithin
  rw [Edit.map?, if_pos]
  cases hopens : d.opens <;> simp only [hopens, if_true, Bool.false_eq_true, if_false,
    Bool.and_eq_true, decide_eq_true_eq] at hbefore hwithin ⊢ <;> omega

/-- The table survives although the edited lines go on behind the frontier: the tail of the text is
deleted, and all that was to be analysed with it. -/
theorem Tracks.moved_tail (hT : L.Tracks t [] 0 T) (he : e.Turns t t')
    (hin : T.isBeyondFrontier e = false) (hhead : head = t'.lineStartOf e.offset)
    (hs : s = t'.nextLineStart e.stop) (hu : ¬e.back s ≤ T.frontier.reach t)
    (hcovers : (T.frontier.after e).covers s = true)
    (hfresh : L.Explores t' head (stateFrom none (T.entries.takeWhile (withinLines head)))
      (((T.entries.dropWhile (withinLines head)).filterMap e.map?).takeWhile (withinLines s)) s) :
    L.Tracks t' [] 0 (T.moved e head) := by
  have hle : s ≤ t'.length := hs ▸ t'.nextLineStart_le _
  obtain ⟨hkept, hbehind⟩ := hT.split_head he hin hhead
  obtain ⟨o, ho, state, stop, hlater⟩ := hT.old
  obtain ⟨f, hf⟩ : ∃ f, T.frontier = .pending f := by
    cases hf : T.frontier with
    | complete =>
      rw [hf] at hu
      exact absurd (he.back_le hle) hu
    | pending f => exact ⟨f, rfl⟩
  rw [hf, Frontier.after, Frontier.covers, decide_eq_true_eq] at hcovers
  rw [hf, Frontier.reach] at hu hbehind ho
  have hlt := offset_lt_of_pending hin hf
  obtain ⟨p, n, rfl, hsp, hlen, hlen', hmap⟩ := tail_deleted he hs hlt hcovers (by omega)
  have hreach : (T.frontier.after (.deletion p n)).reach t' = s := by
    rw [hf, Frontier.after, Frontier.reach, hmap, hsp]
  have hnone : ((T.entries.dropWhile (withinLines head)).filterMap
      (Edit.deletion p n).map?).dropWhile (withinLines s) = [] := by
    rw [(filterMap_cut he hs hbehind).2]
    have hall : (T.entries.dropWhile (withinLines head)).dropWhile
        (withinLines ((Edit.deletion p n).back s)) = [] := by
      refine List.dropWhile_eq_nil_iff.2 ?_
      intro d hd
      exact withinLines_mono (by omega) (hbehind.within d hd).2
    rw [hall]
    rfl
  simp only [Edit.offset] at hlt
  refine ⟨?_, ⟨_, rfl, ?_⟩, ?_⟩
  · simp only [DelimiterTable.moved, hreach]
    exact hle
  · simp only [DelimiterTable.moved, hreach]
    refine hkept.append ?_
    rw [← List.takeWhile_append_dropWhile (p := withinLines s) (l := List.filterMap _ _), hnone,
      List.append_nil]
    exact hfresh
  · rw [oldEntries_moved, filterMap_tail hlater (by omega) hlen]
    simp only [DelimiterTable.moved, hreach]
    exact ⟨s, Nat.le_refl _, none, s, .nothing _ _⟩

/-- The table is cut at the edited lines. -/
theorem Tracks.cut (hT : L.Tracks t [] 0 T) (he : e.Turns t t')
    (hin : T.isBeyondFrontier e = false) (hhead : head = t'.lineStartOf e.offset)
    (hs : s = t'.nextLineStart e.stop) {old : Option Leftovers}
    (hold : old.elim [] (·.entries) =
      ((T.entries.dropWhile (withinLines head)).filterMap e.map?).dropWhile (withinLines s)) :
    L.Tracks t' [] 0 ⟨T.entries.takeWhile (withinLines head), old, .pending head⟩ := by
  have hstop : e.stop ≤ s := hs ▸ t'.le_nextLineStart _ he.stop_le
  have hle := t'.lineStartOf_le e.offset
  obtain ⟨hkept, hbehind⟩ := hT.split_head he hin hhead
  obtain ⟨o, ho, state, stop, hlater⟩ := old_of_cut he hs hbehind
  refine ⟨?_, ⟨_, rfl, hkept⟩, o, ?_, state, stop, ?_⟩
  · simp only [Frontier.reach]
    omega
  · have := e.offset_le_stop
    simp only [Frontier.reach]
    omega
  · rw [oldEntries, hold]
    exact hlater

/-- An edit of the analysed text, with what is found anew in the edited lines, leaves a table that
says what is seen in the new text. -/
theorem Tracks.applyEdit (hT : L.Tracks t [] 0 T) (he : e.Turns t t')
    (hin : T.isBeyondFrontier e = false) (hhead : head = t'.lineStartOf e.offset)
    (hs : s = t'.nextLineStart e.stop)
    (hfresh : L.Explores t' head (T.stateBefore head) fresh s) :
    L.Tracks t' [] 0 (T.applyEdit e head s fresh).2 := by
  rw [stateBefore, stateAfter_eq, keptBefore, beforeLine_eq] at hfresh
  rcases T.applyEdit_cases e head s fresh with
    ⟨hall, hcovers, htouched, hresult⟩ | ⟨old, hresult, hold⟩
  · rw [hresult]
    rw [← htouched] at hfresh
    by_cases hu : e.back s ≤ T.frontier.reach t
    · exact hT.moved he hin hhead hs hu hall hfresh
    · exact hT.moved_tail he hin hhead hs hu hcovers hfresh
  · rw [hresult]
    exact hT.cut he hin hhead hs hold

end PlainLanguage
end CodeBuffer
