import CodeBuffer.Proofs.Observing.Painted
import CodeBuffer.Proofs.Upkeep.Engine

namespace CodeBuffer

open Delimiter DelimiterTable

/-- All delimiters of a table are ones of the patterns. -/
def DelimiterTable.Shaped (keys : List PatternKey) (T : DelimiterTable) : Prop :=
  ∀ d ∈ T.entries ++ T.oldEntries, d.Shaped keys

namespace DelimiterTable.Shaped

variable {keys : List PatternKey} {T : DelimiterTable}

theorem of_subset {T' : DelimiterTable} (hT : T.Shaped keys)
    (hentries : ∀ d ∈ T'.entries, d.Shaped keys) (hold : T'.oldEntries ⊆ T.oldEntries) :
    T'.Shaped keys := by
  intro d hd
  rcases List.mem_append.1 hd with hd | hd
  · exact hentries d hd
  · exact hT d (List.mem_append_right _ (hold hd))

theorem reset (complete : Bool) : (DelimiterTable.reset complete).Shaped keys := by
  simp [Shaped, DelimiterTable.reset, oldEntries]

theorem truncateOld (hT : T.Shaped keys) (head : Nat) : (T.truncateOld head).Shaped keys := by
  refine hT.of_subset (fun d hd => hT d (List.mem_append_left _ hd)) ?_
  rw [oldEntries_truncateOld]
  exact List.takeWhile_subset _

theorem filterMap {e : Edit} {ds : List Delimiter} (hds : ∀ d ∈ ds, d.Shaped keys) :
    ∀ d ∈ ds.filterMap e.map?, d.Shaped keys := by
  intro d hd
  obtain ⟨d', hd', hmap⟩ := List.mem_filterMap.1 hd
  exact (hds d' hd').map? hmap

theorem applyEdit (hT : T.Shaped keys) (e : Edit) (head scanStop : Nat) (fresh : List Delimiter) :
    (T.applyEdit e head scanStop fresh).2.Shaped keys := by
  have hentries : ∀ d ∈ T.entries, d.Shaped keys := fun d hd => hT d (List.mem_append_left _ hd)
  have hkept : ∀ d ∈ T.entries.takeWhile (withinLines head), d.Shaped keys :=
    fun d hd => hentries d (List.takeWhile_subset _ hd)
  have htail : ∀ d ∈ (T.entries.dropWhile (withinLines head)).filterMap e.map?, d.Shaped keys :=
    filterMap fun d hd => hentries d (List.dropWhile_subset _ hd)
  rcases T.applyEdit_cases e head scanStop fresh with ⟨-, -, -, heq⟩ | ⟨old, heq, hold⟩ <;> rw [heq]
  · intro d hd
    rcases List.mem_append.1 hd with hd | hd
    · exact (List.mem_append.1 hd).elim (hkept d) (htail d)
    · rw [oldEntries_moved] at hd
      exact filterMap (fun d hd => hT d (List.mem_append_right _ hd)) d hd
  · intro d hd
    rcases List.mem_append.1 hd with hd | hd
    · exact hkept d hd
    · rw [oldEntries, hold] at hd
      exact htail d (List.dropWhile_subset _ hd)

theorem pushAll (hT : T.Shaped keys) (start : Nat) {found : List Delimiter}
    (hfound : ∀ d ∈ found, d.Shaped keys) : (T.pushAll start found).2.Shaped keys := by
  have hentries : ∀ d ∈ T.entries, d.Shaped keys := fun d hd => hT d (List.mem_append_left _ hd)
  rcases T.pushAll_cases start found with
    ⟨before, d, behind, cs, rest, es, e, rfl, hold, hes, -, heq⟩ | ⟨old, hsuffix, heq⟩ <;> rw [heq]
  · have hall : ∀ d ∈ es ++ [e], d.Shaped keys := by
      rw [← hes]
      intro c hc
      rcases List.mem_append.1 hc with hc | hc
      · exact (List.mem_append.1 hc).elim (hentries c)
          fun hc => hfound c (List.mem_append_left _ hc)
      · refine hT c (List.mem_append_right _ ?_)
        rw [hold]
        exact List.mem_append_right _ hc
    intro c hc
    simp only [oldEntries, Option.elim_none, List.append_nil] at hc
    split at hc
    · exact hall c (List.mem_append_left _ hc)
    · exact hall c hc
  · refine hT.of_subset (fun d hd => ?_) (suffix_elim hsuffix).subset
    exact (List.mem_append.1 hd).elim (hentries d) (hfound d)

theorem finishBatch (hT : T.Shaped keys) (stop : Nat) (complete : Bool) :
    (T.finishBatch stop complete).Shaped keys := by
  refine hT.of_subset (fun d hd => hT d (List.mem_append_left _ hd)) ?_
  rcases T.oldEntries_finishBatch stop complete with hold | hold <;> rw [hold]
  · exact List.nil_subset _
  · exact List.dropWhile_subset _

end DelimiterTable.Shaped

namespace Highlighter

variable {h h' h'' : Highlighter}

theorem shaped_collect (h : Highlighter) (c : Chunk) (pos : Nat) (inside : Option PatternKey) :
    ∀ d ∈ c.collect (delimitedOf h.patterns) pos inside, d.Shaped h.keys := by
  rw [Chunk.collect_eq]
  exact fun d hd => ((Chunk.alternate_walk c _ _ _ inside).2 d hd).2

/-- The patterns stay, and what is known of the text are delimiters of theirs if it was. -/
structure Serves (h h' : Highlighter) : Prop where
  patterns : h'.patterns = h.patterns
  nextKey : h'.nextKey = h.nextKey
  table : h.table.Shaped h.keys → h'.table.Shaped h.keys

namespace Serves

theorem refl (h : Highlighter) : h.Serves h := ⟨rfl, rfl, id⟩

theorem trans (hs : h.Serves h') (hs' : h'.Serves h'') : h.Serves h'' := by
  refine ⟨hs'.patterns.trans hs.patterns, hs'.nextKey.trans hs.nextKey, fun hT => ?_⟩
  have hkeys : h'.keys = h.keys := by rw [keys, hs.patterns, keys]
  exact hkeys ▸ hs'.table (hkeys.symm ▸ hs.table hT)

theorem of_sameButTags (hs : h.SameButTags h') : h.Serves h' := by
  obtain ⟨_, _, _, rfl⟩ := hs
  exact ⟨rfl, rfl, id⟩

end Serves

theorem serves_refreshRange (h : Highlighter) (start stop : Nat) :
    h.Serves (h.refreshRange start stop) := by
  obtain ⟨refresh, announced, heq⟩ := h.refreshRange_eq start stop
  rw [heq]
  exact ⟨rfl, rfl, id⟩

theorem serves_build (h : Highlighter) (t : Text) (needed : Nat) : h.Serves (h.build t needed) := by
  obtain ⟨table, refresh, batchSize, estimates, announced, heq⟩ := h.build_same t needed
  refine ⟨by rw [heq], by rw [heq], fun hT => ?_⟩
  rw [build]
  cases h.table.frontier with
  | complete => exact hT
  | pending start =>
    simp only [table_refreshRange, table_reestimate]
    have hpushed := hT.pushAll start (h.shaped_collect
      (Chunk.ofRange t start (h.batchStop t start needed) h.escape) start h.table.lastState)
    revert hpushed
    generalize h.table.pushAll start _ = result
    obtain ⟨_ | _, T⟩ := result
    · exact fun hpushed => hpushed.finishBatch _ _
    · exact id

theorem serves_buildAll (h : Highlighter) (t : Text) (needs : List Nat) :
    h.Serves (h.buildAll t needs) := by
  induction needs generalizing h with
  | nil => exact .refl h
  | cons needed needs ih => exact (h.serves_build t needed).trans (ih _)

theorem serves_shiftRegions (h : Highlighter) (length : Nat) (e : Edit) :
    h.Serves ({ h with bufferLength := length }.shiftRegions e) := by
  cases e <;> exact ⟨rfl, rfl, id⟩

theorem serves_updateTable (h : Highlighter) (t : Text) (e : Edit) :
    h.Serves (h.updateTable t e) := by
  refine (h.serves_refreshRange (t.lineStartOf e.offset) (t.nextLineStart e.stop)).trans ?_
  unfold updateTable
  dsimp only
  generalize h.refreshRange (t.lineStartOf e.offset) (t.nextLineStart e.stop) = g
  split
  · exact .refl g
  · split
    · exact ⟨rfl, rfl, fun hT => hT.truncateOld _⟩
    · exact ⟨rfl, rfl, fun hT => hT.applyEdit _ _ _ _⟩

theorem serves_edited (h : Highlighter) (t : Text) (e : Edit) : h.Serves (h.edited t e) :=
  (h.serves_shiftRegions t.length e).trans (serves_updateTable _ t e)

theorem serves_highlightLines (s : Work) (i : Interval) : s.1.Serves (highlightLines s i).1 := by
  refine iteInduction (motive := fun s' : Work => s.1.Serves s'.1) (fun _ => ?_) (fun _ => .refl _)
  exact (Serves.of_sameButTags (sameButTags_highlightRegion s.1 s.2 _ _)).trans ⟨rfl, rfl, id⟩

theorem serves_ensureHighlighted (h : Highlighter) (d : Document) (start stop : Nat) :
    h.Serves (h.ensureHighlighted d start stop).1 := by
  have hfold (is : List Interval) (s : Work) : s.1.Serves (is.foldl highlightLines s).1 := by
    induction is generalizing s with
    | nil => exact .refl _
    | cons i is ih => exact (serves_highlightLines s i).trans (ih _)
  exact hfold _ (h, d)

theorem serves_serve (is : List Interval) (s : Work) : s.1.Serves (serve is s).1 := by
  induction is generalizing s with
  | nil => exact .refl _
  | cons i is ih =>
    obtain ⟨h, d⟩ := s
    have served (limit : Nat) : h.Serves ({ h with
        requests := h.requests.subtract i.start limit }.ensureHighlighted d i.start limit).1 :=
      have first : h.Serves { h with requests := h.requests.subtract i.start limit } :=
        ⟨rfl, rfl, id⟩
      first.trans (serves_ensureHighlighted _ d i.start limit)
    rw [serve]
    refine iteInduction (motive := fun s : Work => h.Serves s.1) (fun _ => .refl h) (fun _ => ?_)
    exact iteInduction (motive := fun s : Work => h.Serves s.1) (fun _ => served _)
      (fun _ => (served _).trans (ih _))

theorem serves_resetState (h : Highlighter) : h.Serves h.resetState :=
  ⟨rfl, rfl, fun _ => .reset _⟩

theorem serves_attach (h : Highlighter) (d : Document) : h.Serves (h.attach d).1 := by
  have first : h.Serves { h.resetState with attached := some d.id, bufferLength := d.length } :=
    h.serves_resetState.trans ⟨rfl, rfl, id⟩
  exact (first.trans (.of_sameButTags (sameButTags_resolveTags _ d))).trans
    (serves_refreshRange _ _ _)

theorem serves_detach (h : Highlighter) (d : Document) : h.Serves (h.detach d).1 := by
  refine iteInduction (motive := fun s : Work => h.Serves s.1) (fun _ => ?_) (fun _ => .refl h)
  have first : h.Serves { h with patternTags := [], classTags := [], staleTags := [] } :=
    ⟨rfl, rfl, id⟩
  exact first.trans (serves_resetState _)

theorem serves_updateHighlight (h : Highlighter) (d : Document) (start stop : Nat)
    (synchronous : Bool) : h.Serves (h.updateHighlight d start stop synchronous).1 := by
  have hs := h.highlights_updateHighlight d start stop synchronous
  generalize h.updateHighlight d start stop synchronous = s at hs
  cases hs with
  | nothing => exact .refl h
  | tagged needs start stop =>
    exact (h.serves_buildAll d.text needs).trans (serves_ensureHighlighted _ d start stop)
  | asked needs start hstop => exact (h.serves_buildAll d.text needs).trans ⟨rfl, rfl, id⟩

theorem serves_runIdleSlice (h : Highlighter) (d : Document) :
    h.Serves (h.runIdleSlice d).2.1 := by
  unfold runIdleSlice
  split
  · dsimp only
    split
    · exact serves_serve h.requests.intervals (h, d)
    · exact (h.serves_build d.text 0).trans
        (serves_serve (h.build d.text 0).requests.intervals (h.build d.text 0, d))
  · exact .refl h

end Highlighter

end CodeBuffer
