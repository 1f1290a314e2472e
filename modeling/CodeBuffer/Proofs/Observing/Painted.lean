import CodeBuffer.Highlighter.Service

namespace CodeBuffer

/-- Nothing but the tags of a document changes. -/
def Document.SameButTags (d d' : Document) : Prop := ∃ tags, d' = { d with tags }

namespace Document.SameButTags

variable {d d' d'' : Document}

theorem refl (d : Document) : d.SameButTags d := ⟨d.tags, rfl⟩

theorem trans (h : d.SameButTags d') (h' : d'.SameButTags d'') : d.SameButTags d'' := by
  obtain ⟨tags, rfl⟩ := h
  obtain ⟨tags', rfl⟩ := h'
  exact ⟨tags', rfl⟩

theorem text_eq (h : d.SameButTags d') : d'.text = d.text := by
  obtain ⟨tags, rfl⟩ := h
  rfl

theorem modified_eq (h : d.SameButTags d') : d'.modified = d.modified := by
  obtain ⟨tags, rfl⟩ := h
  rfl

theorem id_eq (h : d.SameButTags d') : d'.id = d.id := by
  obtain ⟨tags, rfl⟩ := h
  rfl

theorem cursor_eq (h : d.SameButTags d') : d'.cursor = d.cursor := by
  obtain ⟨tags, rfl⟩ := h
  rfl

theorem clearTag (d : Document) (tag : TagId) : d.SameButTags (d.clearTag tag) := ⟨_, rfl⟩

theorem removeTag (d : Document) (tag : TagId) (start stop : Nat) :
    d.SameButTags (d.removeTag tag start stop) := ⟨_, rfl⟩

theorem applyTags (d : Document) (placed : List (TagId × Interval)) :
    d.SameButTags (d.applyTags placed) := ⟨_, rfl⟩

theorem createTag (d : Document) (name : String) (style : Option String) :
    d.SameButTags (d.createTag name style).2 := ⟨_, rfl⟩

theorem foldl {α : Type} {f : Document → α → Document}
    (hf : ∀ (d : Document) a, d.SameButTags (f d a)) (as : List α) (d : Document) :
    d.SameButTags (as.foldl f d) := by
  induction as generalizing d with
  | nil => exact refl d
  | cons a as ih => exact (hf d a).trans (ih (f d a))

end Document.SameButTags

/-- The same patterns for the same document. -/
structure Highlighter.SameSetup (h h' : Highlighter) : Prop where
  patterns : h'.patterns = h.patterns
  escape : h'.escape = h.escape
  attached : h'.attached = h.attached

namespace Highlighter.SameSetup

variable {h h' h'' : Highlighter}

theorem refl (h : Highlighter) : h.SameSetup h := ⟨rfl, rfl, rfl⟩

theorem trans (hs : h.SameSetup h') (hs' : h'.SameSetup h'') : h.SameSetup h'' :=
  ⟨hs'.patterns.trans hs.patterns, hs'.escape.trans hs.escape, hs'.attached.trans hs.attached⟩

theorem hasDelimited_eq (hs : h.SameSetup h') : h'.hasDelimited = h.hasDelimited := by
  rw [hasDelimited, hs.patterns, hasDelimited]

end Highlighter.SameSetup

/-- Tags are put on a document, or noted as out of date. What is known of the enclosures stays. -/
structure Painted (s s' : Work) : Prop where
  setup : s.1.SameSetup s'.1
  table : s'.1.table = s.1.table
  document : s.2.SameButTags s'.2

namespace Painted

variable {s s' s'' : Work}

theorem refl (s : Work) : Painted s s := ⟨.refl _, rfl, .refl _⟩

theorem trans (h : Painted s s') (h' : Painted s' s'') : Painted s s'' :=
  ⟨h.setup.trans h'.setup, h'.table.trans h.table, h.document.trans h'.document⟩

theorem foldl {α : Type} {f : Work → α → Work} (hf : ∀ s a, Painted s (f s a)) (as : List α)
    (s : Work) : Painted s (as.foldl f s) := by
  induction as generalizing s with
  | nil => exact refl s
  | cons a as ih => exact (hf s a).trans (ih (f s a))

end Painted

namespace Highlighter

variable (h : Highlighter) (d : Document)

theorem sameSetup_refreshRange (start stop : Nat) : h.SameSetup (h.refreshRange start stop) := by
  unfold refreshRange
  split <;> exact ⟨rfl, rfl, rfl⟩

theorem sameSetup_build (t : Text) (needed : Nat) : h.SameSetup (h.build t needed) := by
  have step (table : DelimiterTable) (start stop : Nat) :
      h.SameSetup (({ h with table }.reestimate (stop - start)).refreshRange start stop) := by
    obtain ⟨batchSize, estimates, heq⟩ := reestimate_eq { h with table } (stop - start)
    have first : h.SameSetup { h with table, batchSize, estimates } := ⟨rfl, rfl, rfl⟩
    rw [heq]
    exact first.trans (sameSetup_refreshRange _ start stop)
  unfold build
  split
  · exact .refl h
  · exact step _ _ _

theorem sameSetup_shiftRegions (length : Nat) (e : Edit) :
    h.SameSetup ({ h with bufferLength := length }.shiftRegions e) := by
  cases e <;> exact ⟨rfl, rfl, rfl⟩

theorem sameSetup_updateTable (t : Text) (e : Edit) : h.SameSetup (h.updateTable t e) :=
  .trans (h.sameSetup_refreshRange _ _)
    (iteInduction (fun _ => .refl _) fun _ =>
      iteInduction (fun _ => ⟨rfl, rfl, rfl⟩) fun _ => ⟨rfl, rfl, rfl⟩)

theorem sameSetup_edited (t : Text) (e : Edit) : h.SameSetup (h.edited t e) :=
  (h.sameSetup_shiftRegions t.length e).trans (sameSetup_updateTable _ t e)

/-- Batches one after the other. -/
def buildAll (t : Text) (needs : List Nat) : Highlighter :=
  needs.foldl (fun h needed => h.build t needed) h

theorem sameSetup_buildAll (t : Text) (needs : List Nat) : h.SameSetup (h.buildAll t needs) := by
  induction needs generalizing h with
  | nil => exact .refl h
  | cons needed needs ih => exact (h.sameSetup_build t needed).trans (ih _)

theorem buildUntil_eq_buildAll (t : Text) (o fuel : Nat) :
    ∃ needs, h.buildUntil t o fuel = h.buildAll t needs := by
  induction fuel generalizing h with
  | zero => exact ⟨[], rfl⟩
  | succ fuel ih =>
    rw [buildUntil]
    split
    · exact ⟨[], rfl⟩
    · dsimp only
      split
      · exact ⟨[o], rfl⟩
      · obtain ⟨needs, hneeds⟩ := ih (h.build t o)
        exact ⟨o :: needs, hneeds⟩

theorem painted_patternTag (id style : String) : Painted (h, d) (h.patternTag d id style).2 := by
  unfold patternTag
  split
  · exact .refl _
  · exact ⟨⟨rfl, rfl, rfl⟩, rfl, .createTag d id (some style)⟩

theorem painted_classTag (c : String) : Painted (h, d) (h.classTag d c).2 := by
  unfold classTag
  split
  · exact .refl _
  · exact ⟨⟨rfl, rfl, rfl⟩, rfl, .createTag d _ none⟩

theorem painted_labelTag (label : Label) : Painted (h, d) (h.labelTag d label).2 := by
  cases label with
  | pattern id style => exact h.painted_patternTag d id style
  | contextClass c => exact h.painted_classTag d c

theorem painted_dropStaleTags : Painted (h, d) (h.dropStaleTags d) :=
  ⟨⟨rfl, rfl, rfl⟩, rfl, .foldl Document.SameButTags.clearTag _ d⟩

theorem painted_resolveTags : Painted (h, d) (h.resolveTags d) :=
  (h.painted_dropStaleTags d).trans
    (.foldl (fun s (p : Pattern) => s.1.painted_patternTag s.2 p.id p.style) _ _)

/-- Notes where a stroke goes, and makes the tag for it if there is none. -/
def place (acc : List (TagId × Interval) × Work) (k : Stroke) : List (TagId × Interval) × Work :=
  let s := acc.2.1.labelTag acc.2.2 k.label
  (if s.2.2.tags.has s.1 then (s.1, ⟨k.start, k.stop⟩) :: acc.1 else acc.1, s.2)

theorem paint_eq (strokes : List Stroke) (s : Work) :
    paint strokes s =
      let placed := strokes.foldl place ([], s)
      (placed.2.1, placed.2.2.applyTags placed.1.reverse) := rfl

theorem painted_paint (strokes : List Stroke) (s : Work) : Painted s (paint strokes s) := by
  have placed (acc : List (TagId × Interval) × Work) :
      Painted acc.2 (strokes.foldl place acc).2 := by
    induction strokes generalizing acc with
    | nil => exact .refl _
    | cons k strokes ih =>
      rw [List.foldl_cons]
      exact (painted_labelTag acc.2.1 acc.2.2 k.label).trans (ih (place acc k))
  rw [paint_eq]
  exact (placed ([], s)).trans ⟨⟨rfl, rfl, rfl⟩, rfl, .applyTags _ _⟩

theorem painted_highlightRegion (start stop : Nat) :
    Painted (h, d) (h.highlightRegion d start stop) := by
  refine (h.painted_dropStaleTags d).trans (.trans ?_ (painted_paint _ _))
  exact ⟨⟨rfl, rfl, rfl⟩, rfl, .foldl (fun d tag => .removeTag d tag start stop) _ _⟩

theorem painted_highlightLines (s : Work) (i : Interval) : Painted s (highlightLines s i) := by
  obtain ⟨h, d⟩ := s
  refine iteInduction (motive := Painted (h, d)) (fun _ => ?_) (fun _ => .refl _)
  exact (h.painted_highlightRegion d _ _).trans ⟨⟨rfl, rfl, rfl⟩, rfl, .refl _⟩

theorem painted_ensureHighlighted (start stop : Nat) :
    Painted (h, d) (h.ensureHighlighted d start stop) :=
  .foldl painted_highlightLines _ (h, d)

theorem painted_serve (requests : List Interval) (s : Work) : Painted s (serve requests s) := by
  induction requests generalizing s with
  | nil => exact .refl s
  | cons request requests ih =>
    obtain ⟨h, d⟩ := s
    rw [serve]
    have served (limit : Nat) : Painted (h, d)
        ({ h with requests := h.requests.subtract request.start limit }.ensureHighlighted d
          request.start limit) :=
      have first : Painted (h, d)
          ({ h with requests := h.requests.subtract request.start limit }, d) :=
        ⟨⟨rfl, rfl, rfl⟩, rfl, .refl d⟩
      first.trans (painted_ensureHighlighted _ d request.start limit)
    refine iteInduction (motive := Painted (h, d)) (fun _ => .refl _) (fun _ => ?_)
    exact iteInduction (motive := Painted (h, d)) (fun _ => served _)
      (fun _ => (served _).trans (ih _))

/-- What highlighting a range comes to: batches, and then it is tagged or asked for. -/
inductive Highlights : Work → Prop where
  | nothing : Highlights (h, d)
  | tagged (needs : List Nat) (start stop : Nat) :
      Highlights ((h.buildAll d.text needs).ensureHighlighted d start stop)
  | asked (needs : List Nat) (start : Nat) {stop : Nat} (hstop : stop ≤ d.length) :
      Highlights ({ h.buildAll d.text needs with
        requests := (h.buildAll d.text needs).requests.add start stop }, d)

theorem highlights_updateHighlight (start stop : Nat) (synchronous : Bool) :
    h.Highlights d (h.updateHighlight d start stop synchronous) := by
  -- the batch that may be owed first, then those up to the range
  have later (g : Highlighter) (hg : ∃ needs, g = h.buildAll d.text needs) (start o : Nat)
      {stop : Nat} (hstop : stop ≤ d.length) :
      h.Highlights d (if g.table.frontier.covers o then g.ensureHighlighted d start stop
        else if synchronous then
          (g.buildUntil d.text o (d.length + 2)).ensureHighlighted d start stop
        else ({ g with requests := g.requests.add start stop }, d)) := by
    obtain ⟨needs, rfl⟩ := hg
    split
    · exact .tagged needs start stop
    · split
      · obtain ⟨needs', hneeds'⟩ := (h.buildAll d.text needs).buildUntil_eq_buildAll d.text o
          (d.length + 2)
        rw [hneeds', buildAll, buildAll, ← List.foldl_append]
        exact .tagged (needs ++ needs') start stop
      · exact .asked needs start hstop
  unfold updateHighlight
  split
  · refine later _ ?_ _ _ (Nat.min_le_right _ _)
    exact iteInduction (motive := fun g => ∃ needs, g = h.buildAll d.text needs)
      (fun _ => ⟨[_], rfl⟩) (fun _ => ⟨[], rfl⟩)
  · exact .nothing

theorem Highlights.exists_painted {h : Highlighter} {d : Document} {s : Work}
    (hs : h.Highlights d s) : ∃ needs, Painted (h.buildAll d.text needs, d) s := by
  cases hs with
  | nothing => exact ⟨[], .refl _⟩
  | tagged needs start stop => exact ⟨needs, painted_ensureHighlighted _ d start stop⟩
  | asked needs start hstop => exact ⟨needs, ⟨rfl, rfl, rfl⟩, rfl, .refl _⟩

theorem updateHighlight_eq (start stop : Nat) (synchronous : Bool) :
    ∃ needs, Painted (h.buildAll d.text needs, d) (h.updateHighlight d start stop synchronous) :=
  (h.highlights_updateHighlight d start stop synchronous).exists_painted

/-- An idle slice takes a batch at most, then tags. -/
theorem runIdleSlice_eq :
    ∃ needs, Painted (h.buildAll d.text needs, d) (h.runIdleSlice d).2 := by
  unfold runIdleSlice
  split
  · dsimp only
    split
    · exact ⟨[], painted_serve _ _⟩
    · exact ⟨[0], painted_serve _ _⟩
  · exact ⟨[], .refl _⟩

end Highlighter
end CodeBuffer
