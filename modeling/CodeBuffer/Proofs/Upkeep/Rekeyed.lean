import CodeBuffer.Highlighter.Service
import CodeBuffer.Proofs.Painting.Renamed

namespace CodeBuffer

open Delimiter DelimiterTable

/-! A highlighter that knows its patterns by other keys does the same. -/

variable {f : PatternKey → PatternKey}

namespace Delimiter

@[simp] theorem opens_rekey (f : PatternKey → PatternKey) (d : Delimiter) :
    (d.rekey f).opens = d.opens := by
  simp [opens]

theorem rekey_inj (hf : Function.Injective f) {d e : Delimiter} :
    d.rekey f = e.rekey f ↔ d = e := by
  refine ⟨fun h => ?_, fun h => by rw [h]⟩
  obtain ⟨o, key, depth⟩ := d
  obtain ⟨o', key', depth'⟩ := e
  simp only [rekey, mk.injEq] at h
  rw [Option.map_injective hf h.2.1, h.1, h.2.2]

theorem map_rekey_beq (hf : Function.Injective f) (ds es : List Delimiter) :
    (ds.map (·.rekey f) == es.map (·.rekey f)) = (ds == es) := by
  have hinj : Function.Injective (Delimiter.rekey f) := fun d e => (rekey_inj hf).1
  rw [Bool.eq_iff_iff, beq_iff_eq, beq_iff_eq]
  exact (List.map_injective_iff.2 hinj).eq_iff

end Delimiter

theorem Edit.map?_rekey (f : PatternKey → PatternKey) (e : Edit) (d : Delimiter) :
    e.map? (d.rekey f) = (e.map? d).map (·.rekey f) := by
  cases e with
  | insertion pos n =>
    simp only [map?, opens_rekey, offset_rekey, Option.map_some]
    rw [apply_ite (Delimiter.rekey f)]
    rfl
  | deletion pos n =>
    simp only [map?, opens_rekey, offset_rekey]
    rw [apply_ite (Option.map _), Option.map_none, Option.map_some, apply_ite (Delimiter.rekey f)]
    rfl

def Leftovers.rekey (f : PatternKey → PatternKey) (old : Leftovers) : Leftovers :=
  { old with entries := old.entries.map (·.rekey f) }

namespace DelimiterTable

def rekey (f : PatternKey → PatternKey) (T : DelimiterTable) : DelimiterTable :=
  { T with entries := T.entries.map (·.rekey f), old := T.old.map (·.rekey f) }

@[simp] theorem frontier_rekey (f : PatternKey → PatternKey) (T : DelimiterTable) :
    (T.rekey f).frontier = T.frontier := rfl

@[simp] theorem isComplete_rekey (f : PatternKey → PatternKey) (T : DelimiterTable) :
    (T.rekey f).isComplete = T.isComplete := rfl

@[simp] theorem isBeyondFrontier_rekey (f : PatternKey → PatternKey) (T : DelimiterTable)
    (e : Edit) : (T.rekey f).isBeyondFrontier e = T.isBeyondFrontier e := rfl

theorem stateAfter_rekey (f : PatternKey → PatternKey) (ds : List Delimiter) :
    stateAfter (ds.map (·.rekey f)) = (stateAfter ds).map f := by
  rw [stateAfter, stateAfter, List.getLast?_map]
  cases ds.getLast? <;> rfl

theorem lastState_rekey (f : PatternKey → PatternKey) (T : DelimiterTable) :
    (T.rekey f).lastState = T.lastState.map f := stateAfter_rekey f T.entries

theorem withinLines_rekey (f : PatternKey → PatternKey) (stop : Nat) :
    withinLines stop ∘ Delimiter.rekey f = withinLines stop := by
  funext d
  simp only [Function.comp_apply, withinLines, opens_rekey]
  rfl

theorem keptBefore_rekey (f : PatternKey → PatternKey) (T : DelimiterTable) (head : Nat) :
    (T.rekey f).keptBefore head = (T.keptBefore head).map (·.rekey f) := by
  rw [keptBefore, beforeLine_eq, rekey, List.takeWhile_map, withinLines_rekey, keptBefore,
    beforeLine_eq]

theorem stateBefore_rekey (f : PatternKey → PatternKey) (T : DelimiterTable) (head : Nat) :
    (T.rekey f).stateBefore head = (T.stateBefore head).map f := by
  rw [stateBefore, keptBefore_rekey, stateAfter_rekey, stateBefore]

theorem table_spans_rekey (f : PatternKey → PatternKey) (T : DelimiterTable) (start stop : Nat) :
    (T.rekey f).spans start stop = (T.spans start stop).map (·.rekey f) :=
  spans_rekey f T.entries (T.old.map (·.rekey f)) T.frontier start stop

theorem truncateOld_rekey (f : PatternKey → PatternKey) (T : DelimiterTable) (head : Nat) :
    (T.rekey f).truncateOld head = (T.truncateOld head).rekey f := by
  have hsame : (fun d : Delimiter => decide (d.offset < head)) ∘ Delimiter.rekey f =
      fun d => decide (d.offset < head) := rfl
  obtain ⟨entries, _ | old, frontier⟩ := T
  · rfl
  · simp only [truncateOld, rekey, Option.map_some, Option.bind_some, Leftovers.rekey,
      List.takeWhile_map, hsame, List.isEmpty_map]
    split <;> rfl

theorem filterMap_map?_rekey (f : PatternKey → PatternKey) (e : Edit) (ds : List Delimiter) :
    (ds.map (·.rekey f)).filterMap e.map? = (ds.filterMap e.map?).map (·.rekey f) := by
  rw [List.filterMap_map, List.map_filterMap]
  congr 1
  funext d
  exact Edit.map?_rekey f e d

theorem takeWhile_withinLines_rekey (f : PatternKey → PatternKey) (stop : Nat)
    (ds : List Delimiter) :
    (ds.map (·.rekey f)).takeWhile (withinLines stop) =
      (ds.takeWhile (withinLines stop)).map (·.rekey f) := by
  rw [List.takeWhile_map, withinLines_rekey]

theorem dropWhile_withinLines_rekey (f : PatternKey → PatternKey) (stop : Nat)
    (ds : List Delimiter) :
    (ds.map (·.rekey f)).dropWhile (withinLines stop) =
      (ds.dropWhile (withinLines stop)).map (·.rekey f) := by
  rw [List.dropWhile_map, withinLines_rekey]

theorem moved_rekey (f : PatternKey → PatternKey) (T : DelimiterTable) (e : Edit) (head : Nat) :
    (T.rekey f).moved e head = (T.moved e head).rekey f := by
  obtain ⟨entries, old, frontier⟩ := T
  simp only [moved, rekey, takeWhile_withinLines_rekey, dropWhile_withinLines_rekey,
    filterMap_map?_rekey, List.map_append, Option.map_map, DelimiterTable.mk.injEq, true_and,
    and_true]
  congr 1
  funext old
  simp only [Function.comp_apply, Leftovers.rekey, filterMap_map?_rekey]

theorem applyEdit_rekey (hf : Function.Injective f) (T : DelimiterTable) (e : Edit)
    (head scanStop : Nat) (fresh : List Delimiter) :
    (T.rekey f).applyEdit e head scanStop (fresh.map (·.rekey f)) =
      ((T.applyEdit e head scanStop fresh).1, (T.applyEdit e head scanStop fresh).2.rekey f) := by
  have hlost : (fun d => (e.map? d).isNone) ∘ Delimiter.rekey f = fun d => (e.map? d).isNone := by
    funext d
    rw [Function.comp_apply, Edit.map?_rekey, Option.isNone_map]
  have hentries : (T.rekey f).entries = T.entries.map (·.rekey f) := rfl
  rw [applyEdit_eq, applyEdit_eq]
  simp only [hentries, takeWhile_withinLines_rekey, dropWhile_withinLines_rekey,
    filterMap_map?_rekey, List.any_map, hlost, map_rekey_beq hf, List.isEmpty_map, moved_rekey,
    frontier_rekey]
  split
  · rfl
  · dsimp only
    split <;> rfl

/-- Whether a delimiter that is found shows that an old one is not there any more. -/
def isPassed (d e : Delimiter) : Bool :=
  decide (e.offset < d.offset) || (e.offset == d.offset && e != d)

/-- What taking in a delimiter does with old ones. -/
theorem push_some (entries : List Delimiter) (old : Leftovers) (frontier : Frontier)
    (d : Delimiter) (start : Nat) :
    push ⟨entries, some old, frontier⟩ d start =
      let skipped := (old.entries.takeWhile (isPassed d)).length
      let passed := old.passed + skipped
      match old.entries.drop skipped with
      | e :: rest =>
        if e = d then
          if (rest.getLast?.getD d).offset ≤ start then (false, ⟨entries ++ [d], none, frontier⟩)
          else
            (true,
              ⟨if (entries ++ [d] ++ rest).getLast?.any (·.opens)
                then (entries ++ [d] ++ rest).dropLast else entries ++ [d] ++ rest,
                none, .pending (rest.getLast?.getD d).offset⟩)
        else
          (false, ⟨entries ++ [d], if 1 < passed then none else some ⟨e :: rest, passed⟩, frontier⟩)
      | [] =>
        (false, ⟨entries ++ [d], if 1 < passed then none else some ⟨[], passed⟩, frontier⟩) := rfl

theorem isPassed_rekey (hf : Function.Injective f) (d : Delimiter) :
    isPassed (d.rekey f) ∘ Delimiter.rekey f = isPassed d := by
  funext e
  have hne : (e.rekey f != d.rekey f) = (e != d) := by
    rw [Bool.eq_iff_iff, bne_iff_ne, bne_iff_ne, ne_eq, rekey_inj hf]
  simp only [Function.comp_apply, isPassed, hne]
  rfl

theorem push_rekey (hf : Function.Injective f) (T : DelimiterTable) (d : Delimiter) (start : Nat) :
    (T.rekey f).push (d.rekey f) start = ((T.push d start).1, (T.push d start).2.rekey f) := by
  obtain ⟨entries, _ | old, frontier⟩ := T
  · simp [push, rekey]
  · have hrekey : (rekey f ⟨entries, some old, frontier⟩) =
        ⟨entries.map (·.rekey f), some (old.rekey f), frontier⟩ := rfl
    rw [hrekey, push_some, push_some]
    simp only [Leftovers.rekey, List.takeWhile_map, isPassed_rekey hf, List.length_map,
      ← List.map_drop]
    generalize (old.entries.takeWhile (isPassed d)).length = skipped
    cases old.entries.drop skipped with
    | nil =>
      simp only [List.map_nil, rekey, List.map_append, List.map_cons]
      split <;> rfl
    | cons e rest =>
      have hlast : ((rest.getLast?.map (·.rekey f)).getD (d.rekey f)).offset =
          (rest.getLast?.getD d).offset := by
        cases rest.getLast? <;> rfl
      have hentries :
          entries.map (·.rekey f) ++ [d.rekey f] = (entries ++ [d]).map (·.rekey f) := by
        simp
      simp only [List.map_cons, rekey_inj hf, hlast, hentries, ← List.map_append,
        List.getLast?_map, Option.any_map, opens_rekey, ← List.map_dropLast]
      by_cases hed : e = d
      · simp only [if_pos hed]
        split
        · rfl
        · simp only [rekey, Option.map_none]
          split <;> rfl
      · simp only [if_neg hed]
        split <;> rfl

theorem pushAll_rekey (hf : Function.Injective f) (T : DelimiterTable) (start : Nat)
    (ds : List Delimiter) :
    (T.rekey f).pushAll start (ds.map (·.rekey f)) =
      ((T.pushAll start ds).1, (T.pushAll start ds).2.rekey f) := by
  induction ds generalizing T with
  | nil => rfl
  | cons d ds ih =>
    have hnone : (T.rekey f).old.isNone = T.old.isNone := Option.isNone_map
    rw [List.map_cons, pushAll, pushAll, hnone]
    split
    · simp [rekey]
    · rw [push_rekey hf]
      obtain ⟨_ | _, T'⟩ := T.push d start
      · exact ih T'
      · rfl

theorem finishBatch_rekey (f : PatternKey → PatternKey) (T : DelimiterTable) (stop : Nat)
    (complete : Bool) :
    (T.rekey f).finishBatch stop complete = (T.finishBatch stop complete).rekey f := by
  obtain ⟨entries, _ | old, frontier⟩ := T
  · rfl
  · simp only [finishBatch, rekey, Option.map_some, Option.bind_some, Leftovers.rekey,
      beforeLine_eq, takeWhile_withinLines_rekey, List.length_map, ← List.map_drop,
      List.isEmpty_map]
    split <;> rfl

end DelimiterTable

namespace Highlighter

variable {h : Highlighter}

/-- The same highlighter with other keys for its patterns. -/
def rekey (f : PatternKey → PatternKey) (h : Highlighter) : Highlighter :=
  { h with
    patterns := h.patterns.map (·.rekey f), nextKey := f h.nextKey, table := h.table.rekey f }

@[simp] theorem table_rekey (f : PatternKey → PatternKey) (h : Highlighter) :
    (h.rekey f).table = h.table.rekey f := rfl

@[simp] theorem escape_rekey (f : PatternKey → PatternKey) (h : Highlighter) :
    (h.rekey f).escape = h.escape := rfl

theorem rekeyed (hf : Function.Injective f) (h : Highlighter) : Rekeyed f h (h.rekey f) :=
  ⟨hf, rfl, rfl⟩

@[simp] theorem hasDelimited_rekey (f : PatternKey → PatternKey) (h : Highlighter) :
    (h.rekey f).hasDelimited = h.hasDelimited := by
  rw [hasDelimited, rekey, List.any_map, hasDelimited]
  congr 1
  funext p
  exact Pattern.isDelimited_rekey f p

theorem refreshRange_rekey (f : PatternKey → PatternKey) (h : Highlighter) (start stop : Nat) :
    (h.rekey f).refreshRange start stop = (h.refreshRange start stop).rekey f := by
  unfold refreshRange
  split <;> rfl

theorem refreshAll_rekey (f : PatternKey → PatternKey) (h : Highlighter) :
    (h.rekey f).refreshAll = h.refreshAll.rekey f := by
  rw [refreshAll, refreshAll, apply_ite (rekey f), ← refreshRange_rekey]
  rfl

theorem invalidateAll_rekey (f : PatternKey → PatternKey) (h : Highlighter) :
    (h.rekey f).invalidateAll = h.invalidateAll.rekey f := by
  rw [invalidateAll, invalidateAll, hasDelimited_rekey, ← refreshAll_rekey]
  rfl

theorem resetState_rekey (f : PatternKey → PatternKey) (h : Highlighter) :
    (h.rekey f).resetState = h.resetState.rekey f := by
  rw [resetState, resetState, hasDelimited_rekey]
  rfl

/-! Analysis -/

theorem collect_rekey (hf : Function.Injective f) (h : Highlighter) (c : Chunk) (pos : Nat)
    (inside : Option PatternKey) :
    c.collect (delimitedOf (h.rekey f).patterns) pos (inside.map f) =
      (c.collect (delimitedOf h.patterns) pos inside).map (·.rekey f) := by
  rw [rekey, delimitedOf_rekey, Chunk.collect_rekey hf]

theorem updateTable_rekey (hf : Function.Injective f) (h : Highlighter) (t : Text) (e : Edit) :
    (h.rekey f).updateTable t e = (h.updateTable t e).rekey f := by
  simp only [updateTable, refreshRange_rekey, hasDelimited_rekey, table_rekey, escape_rekey,
    isBeyondFrontier_rekey, truncateOld_rekey, stateBefore_rekey, collect_rekey hf,
    applyEdit_rekey hf]
  split
  · rfl
  · split <;> rfl

theorem edited_rekey (hf : Function.Injective f) (h : Highlighter) (t : Text) (e : Edit) :
    (h.rekey f).edited t e = (h.edited t e).rekey f := by
  rw [edited, edited, ← updateTable_rekey hf]
  cases e <;> rfl

theorem reestimate_rekey (f : PatternKey → PatternKey) (h : Highlighter) (analysed : Nat) :
    (h.rekey f).reestimate analysed = (h.reestimate analysed).rekey f := by
  unfold reestimate
  cases analysed with
  | zero => rfl
  | succ n =>
    have hsame : (h.rekey f).estimates = h.estimates := rfl
    rw [hsame]
    cases h.estimates <;> rfl

theorem build_rekey (hf : Function.Injective f) (h : Highlighter) (t : Text) (needed : Nat) :
    (h.rekey f).build t needed = (h.build t needed).rekey f := by
  have hstop (start : Nat) :
      (h.rekey f).batchStop t start needed = h.batchStop t start needed := rfl
  simp only [build, table_rekey, frontier_rekey, escape_rekey, hstop, lastState_rekey,
    collect_rekey hf, pushAll_rekey hf]
  cases h.table.frontier with
  | complete => rfl
  | pending start =>
    simp only
    rw [← refreshRange_rekey, ← reestimate_rekey]
    generalize h.table.pushAll start _ = result
    obtain ⟨_ | _, T⟩ := result
    · simp only [finishBatch_rekey]
      rfl
    · rfl

theorem buildUntil_rekey (hf : Function.Injective f) (h : Highlighter) (t : Text) (o fuel : Nat) :
    (h.rekey f).buildUntil t o fuel = (h.buildUntil t o fuel).rekey f := by
  induction fuel generalizing h with
  | zero => rfl
  | succ fuel ih =>
    simp only [buildUntil, build_rekey hf, table_rekey, frontier_rekey, ih]
    split
    · rfl
    · split <;> rfl

/-! Painting -/

/-- The work with other keys, on the same document. -/
def rekeyWork (f : PatternKey → PatternKey) (s : Work) : Work := (s.1.rekey f, s.2)

theorem patternTag_rekey (f : PatternKey → PatternKey) (h : Highlighter) (d : Document)
    (id style : String) :
    (h.rekey f).patternTag d id style =
      ((h.patternTag d id style).1, rekeyWork f (h.patternTag d id style).2) := by
  have htags : (h.rekey f).patternTags = h.patternTags := rfl
  unfold patternTag
  rw [htags]
  cases h.patternTags.lookup id <;> rfl

theorem classTag_rekey (f : PatternKey → PatternKey) (h : Highlighter) (d : Document) (c : String) :
    (h.rekey f).classTag d c = ((h.classTag d c).1, rekeyWork f (h.classTag d c).2) := by
  have htags : (h.rekey f).classTags = h.classTags := rfl
  unfold classTag
  rw [htags]
  cases h.classTags.lookup c <;> rfl

theorem labelTag_rekey (f : PatternKey → PatternKey) (h : Highlighter) (d : Document) (l : Label) :
    (h.rekey f).labelTag d l = ((h.labelTag d l).1, rekeyWork f (h.labelTag d l).2) := by
  cases l with
  | pattern id style => exact patternTag_rekey f h d id style
  | contextClass c => exact classTag_rekey f h d c

theorem resolveTags_rekey (f : PatternKey → PatternKey) (h : Highlighter) (d : Document) :
    (h.rekey f).resolveTags d = rekeyWork f (h.resolveTags d) := by
  have hfold (ps : List Pattern) (s : Work) :
      (ps.map (·.rekey f)).foldl (fun s p => (s.1.patternTag s.2 p.id p.style).2) (rekeyWork f s) =
        rekeyWork f (ps.foldl (fun s p => (s.1.patternTag s.2 p.id p.style).2) s) := by
    induction ps generalizing s with
    | nil => rfl
    | cons p ps ih =>
      rw [List.map_cons, List.foldl_cons, List.foldl_cons, ← ih]
      simp only [rekeyWork, patternTag_rekey, Pattern.id_rekey, Pattern.style_rekey]
  exact hfold h.patterns (h.dropStaleTags d)

theorem strokes_rekey (hf : Function.Injective f) (h : Highlighter) (p : Place)
    (spans : List Span) :
    (h.rekey f).strokes p (spans.map (·.rekey f)) = h.strokes p spans := by
  induction spans generalizing p with
  | nil => rfl
  | cons span spans ih =>
    rw [List.map_cons, strokes, strokes, (rekeyed hf h).spanStrokes_eq]
    exact congrArg _ (ih _)

theorem paint_rekey (f : PatternKey → PatternKey) (ks : List Stroke) (s : Work) :
    paint ks (rekeyWork f s) = rekeyWork f (paint ks s) := by
  have hplace (acc : List (TagId × Interval) × Work) (k : Stroke) :
      place (acc.1, rekeyWork f acc.2) k = ((place acc k).1, rekeyWork f (place acc k).2) := by
    simp only [place, rekeyWork, labelTag_rekey]
  have hfold (acc : List (TagId × Interval) × Work) :
      ks.foldl place (acc.1, rekeyWork f acc.2) =
        ((ks.foldl place acc).1, rekeyWork f (ks.foldl place acc).2) := by
    induction ks generalizing acc with
    | nil => rfl
    | cons k ks ih =>
      rw [List.foldl_cons, List.foldl_cons, hplace]
      exact ih (place acc k)
  have hplaced := hfold ([], s)
  dsimp only at hplaced
  rw [paint_eq, paint_eq, hplaced]
  rfl

theorem highlightRegion_rekey (hf : Function.Injective f) (h : Highlighter) (d : Document)
    (start stop : Nat) :
    (h.rekey f).highlightRegion d start stop = rekeyWork f (h.highlightRegion d start stop) := by
  have hdrop : (h.rekey f).dropStaleTags d = rekeyWork f (h.dropStaleTags d) := rfl
  simp only [highlightRegion, hdrop]
  rw [← paint_rekey]
  simp only [rekeyWork, table_rekey, table_spans_rekey, strokes_rekey hf]
  rfl

theorem highlightLines_rekey (hf : Function.Injective f) (s : Work) (i : Interval) :
    highlightLines (rekeyWork f s) i = rekeyWork f (highlightLines s i) := by
  simp only [highlightLines, rekeyWork, table_rekey, frontier_rekey, highlightRegion_rekey hf]
  cases s.1.table.frontier <;> simp only <;> split <;> rfl

theorem ensureHighlighted_rekey (hf : Function.Injective f) (h : Highlighter) (d : Document)
    (start stop : Nat) :
    (h.rekey f).ensureHighlighted d start stop =
      rekeyWork f (h.ensureHighlighted d start stop) := by
  have hfold (is : List Interval) (s : Work) :
      is.foldl highlightLines (rekeyWork f s) = rekeyWork f (is.foldl highlightLines s) := by
    induction is generalizing s with
    | nil => rfl
    | cons i is ih => rw [List.foldl_cons, List.foldl_cons, highlightLines_rekey hf, ih]
  exact hfold _ (h, d)

/-! Service -/

theorem isAttachedTo_rekey (f : PatternKey → PatternKey) (h : Highlighter) (d : Document) :
    (h.rekey f).isAttachedTo d = h.isAttachedTo d := rfl

theorem attach_rekey (f : PatternKey → PatternKey) (h : Highlighter) (d : Document) :
    (h.rekey f).attach d = rekeyWork f (h.attach d) := by
  have hreset : ({ (h.rekey f).resetState with
      attached := some d.id, bufferLength := d.length } : Highlighter) =
        rekey f { h.resetState with attached := some d.id, bufferLength := d.length } := by
    rw [resetState_rekey]
    rfl
  simp only [attach, hreset, resolveTags_rekey, rekeyWork, ← refreshRange_rekey]
  rfl

theorem detach_rekey (f : PatternKey → PatternKey) (h : Highlighter) (d : Document) :
    (h.rekey f).detach d = rekeyWork f (h.detach d) := by
  have hreset : ({ h.rekey f with
      patternTags := [], classTags := [], staleTags := [] } : Highlighter).resetState =
        rekey f ({ h with patternTags := [], classTags := [], staleTags := [] }.resetState) :=
    resetState_rekey f { h with patternTags := [], classTags := [], staleTags := [] }
  simp only [detach, isAttachedTo_rekey, hreset]
  split <;> rfl

theorem editedBy_rekey (hf : Function.Injective f) (h : Highlighter) (d : Document) (e : Edit) :
    (h.rekey f).editedBy d e = rekeyWork f (h.editedBy d e) := by
  simp only [editedBy, isAttachedTo_rekey, edited_rekey hf, rekeyWork]
  split <;> rfl

theorem syncTags_rekey (f : PatternKey → PatternKey) (h : Highlighter) (d : Document) :
    (h.rekey f).syncTags d = rekeyWork f (h.syncTags d) := by
  simp only [syncTags, isAttachedTo_rekey, resolveTags_rekey]
  split <;> rfl

theorem schemeChanged_rekey (f : PatternKey → PatternKey) (h : Highlighter) (d : Document) :
    (h.rekey f).schemeChanged d = rekeyWork f (h.schemeChanged d) := by
  rw [schemeChanged, schemeChanged, isAttachedTo_rekey]
  cases h.isAttachedTo d <;> rfl

theorem updateHighlight_rekey (hf : Function.Injective f) (h : Highlighter) (d : Document)
    (start stop : Nat) (synchronous : Bool) :
    (h.rekey f).updateHighlight d start stop synchronous =
      rekeyWork f (h.updateHighlight d start stop synchronous) := by
  -- the last batch that is owed makes no difference
  have serviced (g : Highlighter) (start stop needed : Nat) :
      (if (g.rekey f).table.frontier.covers needed then (g.rekey f).ensureHighlighted d start stop
        else if synchronous then
          ((g.rekey f).buildUntil d.text needed (d.length + 2)).ensureHighlighted d start stop
        else ({ g.rekey f with requests := (g.rekey f).requests.add start stop }, d)) =
      rekeyWork f (if g.table.frontier.covers needed then g.ensureHighlighted d start stop
        else if synchronous then
          (g.buildUntil d.text needed (d.length + 2)).ensureHighlighted d start stop
        else ({ g with requests := g.requests.add start stop }, d)) := by
    simp only [table_rekey, frontier_rekey, ensureHighlighted_rekey hf, buildUntil_rekey hf]
    split
    · rfl
    · split <;> rfl
  rw [updateHighlight, updateHighlight, isAttachedTo_rekey]
  cases h.isAttachedTo d with
  | false => rfl
  | true =>
    simp only [if_true, build_rekey hf, ← apply_ite (rekey f)]
    exact serviced _ _ _ _

theorem serve_rekey (hf : Function.Injective f) (is : List Interval) (s : Work) :
    serve is (rekeyWork f s) = rekeyWork f (serve is s) := by
  induction is generalizing s with
  | nil => rfl
  | cons i is ih =>
    obtain ⟨h, d⟩ := s
    have served (limit : Nat) :
        (if limit ≤ i.start then (h.rekey f, d)
          else
            let s := ({ h.rekey f with
              requests := (h.rekey f).requests.subtract i.start limit }).ensureHighlighted d
              i.start limit
            if limit < i.stop then s else serve is s) =
        rekeyWork f (if limit ≤ i.start then (h, d)
          else
            let s := ({ h with
              requests := h.requests.subtract i.start limit }).ensureHighlighted d i.start limit
            if limit < i.stop then s else serve is s) := by
      have hfirst := ensureHighlighted_rekey hf
        { h with requests := h.requests.subtract i.start limit } d i.start limit
      dsimp only
      split
      · rfl
      · split
        · exact hfirst
        · exact (congrArg (serve is) hfirst).trans (ih _)
    rw [rekeyWork, serve, serve]
    exact served _

theorem runIdleSlice_rekey (hf : Function.Injective f) (h : Highlighter) (d : Document) :
    (h.rekey f).runIdleSlice d = ((h.runIdleSlice d).1, rekeyWork f (h.runIdleSlice d).2) := by
  have served (g : Highlighter) :
      serve (g.rekey f).requests.intervals (g.rekey f, d) =
        rekeyWork f (serve g.requests.intervals (g, d)) :=
    serve_rekey hf g.requests.intervals (g, d)
  rw [runIdleSlice, runIdleSlice, isAttachedTo_rekey]
  cases h.isAttachedTo d with
  | false => rfl
  | true =>
    simp only [if_true, table_rekey, isComplete_rekey, build_rekey hf, ← apply_ite (rekey f),
      served]
    rfl

end Highlighter

end CodeBuffer
