import CodeBuffer.Proofs.Painting.Reattached

namespace CodeBuffer

namespace Document

variable {N : String → Prop} {d : Document} {n : String} {id : TagId}

theorem spares_refl (N : String → Prop) (d : Document) : d.Spares N d := spares_of_tags rfl rfl rfl

theorem spares_removeTag (hid : d.tags.name? id = some n) (hn : ¬N n) (start stop : Nat) :
    d.Spares N (d.removeTag id start stop) :=
  spares_modifyRanges hid hn fun r hr => (Region.PartOf.subtract r start stop).below hr

/-- Tags with other names change one after the other. -/
theorem spares_foldl {f : Document → TagId → Document}
    (hf : ∀ (d : Document) id n, d.tags.name? id = some n → ¬N n → d.Spares N (f d id))
    {ids : List TagId}
    (hids : ∀ id ∈ ids, ∃ n, d.tags.name? id = some n ∧ ¬N n) : d.Spares N (ids.foldl f d) := by
  induction ids generalizing d with
  | nil => exact spares_refl N d
  | cons id ids ih =>
    obtain ⟨n, hname, hn⟩ := hids id List.mem_cons_self
    have hfirst := hf d id n hname hn
    refine hfirst.trans (ih fun id' hid' => ?_)
    obtain ⟨m, hname', hm⟩ := hids id' (List.mem_cons_of_mem id hid')
    exact ⟨m, hfirst.names _ _ hname', hm⟩

theorem spares_applyTags {placed : List (TagId × Interval)}
    (hplaced : ∀ e ∈ placed, ∃ n, d.tags.name? e.1 = some n ∧ ¬N n) :
    d.Spares N (d.applyTags placed) := by
  refine ⟨rfl, rfl, fun id m hm => ?_, fun id m _ _ => TagTable.style?_addRanges _ _ id,
    fun ht => tidy_applyTags ht placed, fun m hN p => ?_⟩
  · exact (TagTable.name?_addRanges _ _ id).trans hm
  · refine TagTable.marks_addRanges.trans (or_iff_left ?_)
    rintro ⟨e', he', hname, -⟩
    obtain ⟨e, he, rfl⟩ := List.mem_map.1 he'
    obtain ⟨n, hname', hn⟩ := hplaced e he
    exact hn (Option.some.inj (hname'.symm.trans hname) ▸ hN)

end Document

namespace Highlighter

variable {M M' : String → Prop} {h g : Highlighter} {d d' : Document} {s s' s'' : Work}

/-- A highlighter keeps tags in mind that are on the document under names in `M`, and puts tags of
no other names on a text. -/
structure Framed (M : String → Prop) (s : Work) : Prop where
  tidy : s.2.tags.Tidy s.2.length
  own : ∀ tag ∈ s.1.ownTags, ∃ n, s.2.tags.name? tag = some n ∧ M n
  paints : ∀ n, s.1.Paints n → M n

/-- Tags with names in `M` change on a document, and nothing else does. -/
structure Touches (M : String → Prop) (s s' : Work) : Prop where
  framed : Framed M s'
  document : s.2.SameButTags s'.2
  spares : s.2.Spares (fun n => ¬M n) s'.2

namespace Touches

theorem refl (hs : Framed M s) : Touches M s s := ⟨hs, .refl _, Document.spares_refl _ _⟩

theorem trans (ht : Touches M s s') (ht' : Touches M s' s'') : Touches M s s'' :=
  ⟨ht'.framed, ht.document.trans ht'.document, ht.spares.trans ht'.spares⟩

/-- Whose name is not in `M`, that tag lies where it lay. -/
theorem rangesOf_eq (ht : Touches M s s') (hs : s.2.tags.Tidy s.2.length) {n : String}
    (hn : ¬M n) : s'.2.tags.rangesOf n = s.2.tags.rangesOf n :=
  (ht.spares.tidy hs).rangesOf_eq hs fun p _ => ht.spares.marks n hn p

end Touches

theorem paints_congr (hpatterns : g.patterns = h.patterns) (n : String) :
    g.Paints n ↔ h.Paints n := by
  rw [Paints, hpatterns, Paints]

namespace Framed

theorem mono (hs : Framed M s) (hM : ∀ n, M n → M' n) : Framed M' s := by
  refine ⟨hs.tidy, fun tag htag => ?_, fun n hn => hM n (hs.paints n hn)⟩
  obtain ⟨n, hname, hn⟩ := hs.own tag htag
  exact ⟨n, hname, hM n hn⟩

theorem spares {N : String → Prop} (hs : Framed M (h, d)) (hd : d.Spares N d') :
    Framed M (h, d') := by
  refine ⟨?_, fun tag htag => ?_, hs.paints⟩
  · dsimp only
    rw [hd.length_eq]
    exact hd.tidy hs.tidy
  · obtain ⟨n, hname, hn⟩ := hs.own tag htag
    exact ⟨n, hd.names tag n hname, hn⟩

theorem movedBy {e : Edit} (hs : Framed M (h, d)) (hd : d.MovedBy e d') : Framed M (h, d') := by
  refine ⟨hd.tidy hs.tidy, fun tag htag => ?_, hs.paints⟩
  obtain ⟨n, hname, hn⟩ := hs.own tag htag
  exact ⟨n, (hd.relaid.name tag).trans hname, hn⟩

/-- Only the tags and the patterns of a highlighter matter. -/
theorem of_own (hs : Framed M (h, d)) (hown : g.ownTags ⊆ h.ownTags)
    (hpaints : ∀ n, g.Paints n → M n) : Framed M (g, d) :=
  ⟨hs.tidy, fun tag htag => hs.own tag (hown htag), hpaints⟩

theorem of_same (hs : Framed M (h, d)) (hown : g.ownTags = h.ownTags)
    (hpatterns : g.patterns = h.patterns) : Framed M (g, d) :=
  hs.of_own (hown ▸ List.Subset.refl _) fun n hn => hs.paints n ((paints_congr hpatterns n).1 hn)

theorem touches (hs : Framed M (h, d)) (hsame : d.SameButTags d')
    (hd : d.Spares (fun n => ¬M n) d') : Touches M (h, d) (h, d') :=
  ⟨hs.spares hd, hsame, hd⟩

/-- Its tags are not those with names outside of `M`. -/
theorem own_not (hs : Framed M s) :
    ∀ tag ∈ s.1.ownTags, ∃ n, s.2.tags.name? tag = some n ∧ ¬¬M n := by
  intro tag htag
  obtain ⟨n, hname, hn⟩ := hs.own tag htag
  exact ⟨n, hname, not_not_intro hn⟩

/-- The tag of a label is kept in mind already, or is found or made. -/
theorem labelTag (hs : Framed M s) {label : Label} (hlabel : M label.name) :
    Touches M s (s.1.labelTag s.2 label).2 ∧
      (s.1.labelTag s.2 label).1 ∈ (s.1.labelTag s.2 label).2.1.ownTags := by
  obtain ⟨h, d⟩ := s
  dsimp only
  rcases h.labelTag_cases d label with ⟨tag, htag, heq⟩ |
    ⟨style, patternTags, classTags, -, -, hhandles, heq⟩ <;> rw [heq]
  · exact ⟨.refl hs, mem_ownTags_iff.2 (.inl ⟨_, htag, rfl⟩)⟩
  · have hspares := d.spares_createTag (N := fun n => ¬M n) (not_not_intro hlabel) style
    have hname := d.tags.name?_create_self label.name style
    refine ⟨⟨⟨?_, fun tag htag => ?_, hs.paints⟩, .createTag d _ _, hspares⟩,
      mem_ownTags_iff.2 (.inl ⟨_, (hhandles _).2 (.inr rfl), rfl⟩)⟩
    · exact hs.tidy.create label.name style
    · have hold : tag ∈ h.ownTags ∨ tag = (d.createTag label.name style).1 := by
        rcases mem_ownTags_iff.1 htag with ⟨e, he, rfl⟩ | htag
        · rcases (hhandles e).1 he with he | rfl
          · exact .inl (mem_ownTags_iff.2 (.inl ⟨e, he, rfl⟩))
          · exact .inr rfl
        · exact .inl (mem_ownTags_iff.2 (.inr htag))
      rcases hold with hold | rfl
      · obtain ⟨n, hname, hn⟩ := hs.own tag hold
        exact ⟨n, hspares.names tag n hname, hn⟩
      · exact ⟨label.name, hname, hlabel⟩

theorem dropStaleTags (hs : Framed M (h, d)) : Touches M (h, d) (h.dropStaleTags d) := by
  have hstale : h.staleTags ⊆ h.ownTags := List.subset_append_right _ _
  have hspares : d.Spares (fun n => ¬M n) (h.staleTags.foldl Document.clearTag d) :=
    Document.spares_foldl (fun _ _ _ => Document.spares_clearTag)
      fun tag htag => hs.own_not tag (hstale htag)
  have hframed : Framed M ({ h with staleTags := [] }, h.staleTags.foldl Document.clearTag d) := by
    refine (hs.spares hspares).of_own (fun tag htag => ?_) hs.paints
    rw [ownTags, List.append_nil] at htag
    exact List.mem_append_left _ htag
  exact ⟨hframed, .foldl .clearTag _ d, hspares⟩

theorem resolveTags (hs : Framed M (h, d)) : Touches M (h, d) (h.resolveTags d) := by
  have made (ps : List Pattern) (s : Work) (hs : Framed M s) (hps : ∀ p ∈ ps, M p.id) :
      Touches M s (ps.foldl (fun s p => (s.1.patternTag s.2 p.id p.style).2) s) := by
    induction ps generalizing s with
    | nil => exact .refl hs
    | cons p ps ih =>
      have hlabel : M (Label.pattern p.id p.style).name := hps p List.mem_cons_self
      have hfirst := (hs.labelTag hlabel).1
      exact hfirst.trans (ih _ hfirst.framed fun q hq => hps q (List.mem_cons_of_mem p hq))
  have hdropped := hs.dropStaleTags
  have hmade := made h.patterns _ hdropped.framed fun p hp => hs.paints _ (.inl ⟨p, hp, rfl⟩)
  exact hdropped.trans hmade

/-- What is painted with labels in `M` touches the tags of these. -/
theorem paint (hs : Framed M s) {strokes : List Stroke} (hstrokes : ∀ k ∈ strokes, M k.label.name) :
    Touches M s (paint strokes s) := by
  have placed (acc : List (TagId × Interval) × Work) (hs : Framed M acc.2)
      (hacc : ∀ e ∈ acc.1, ∃ n, acc.2.2.tags.name? e.1 = some n ∧ ¬¬M n) :
      Touches M acc.2 (strokes.foldl place acc).2 ∧ ∀ e ∈ (strokes.foldl place acc).1,
        ∃ n, (strokes.foldl place acc).2.2.tags.name? e.1 = some n ∧ ¬¬M n := by
    induction strokes generalizing acc with
    | nil => exact ⟨.refl hs, hacc⟩
    | cons k strokes ih =>
      obtain ⟨hfirst, hown⟩ := hs.labelTag (hstrokes k List.mem_cons_self)
      have hnoted : ∀ e ∈ (place acc k).1,
          ∃ n, (place acc k).2.2.tags.name? e.1 = some n ∧ ¬¬M n := by
        have hkept : ∀ e ∈ acc.1, ∃ n, (place acc k).2.2.tags.name? e.1 = some n ∧ ¬¬M n := by
          intro e he
          obtain ⟨n, hname, hn⟩ := hacc e he
          exact ⟨n, hfirst.spares.names _ _ hname, hn⟩
        intro e he
        dsimp only [place] at he
        split at he
        · rcases List.mem_cons.1 he with rfl | he
          · exact hfirst.framed.own_not _ hown
          · exact hkept e he
        · exact hkept e he
      obtain ⟨hrest, hall⟩ := ih (fun k' hk' => hstrokes k' (List.mem_cons_of_mem k hk'))
        (place acc k) hfirst.framed hnoted
      exact ⟨hfirst.trans hrest, hall⟩
  obtain ⟨htouches, hnamed⟩ := placed ([], s) hs (by simp)
  rw [paint_eq]
  refine htouches.trans (htouches.framed.touches (.applyTags _ _) ?_)
  exact Document.spares_applyTags fun e he => hnamed e (List.mem_reverse.1 he)

theorem highlightRegion (hs : Framed M (h, d)) (start stop : Nat) :
    Touches M (h, d) (h.highlightRegion d start stop) := by
  have hdropped := hs.dropStaleTags
  unfold Highlighter.highlightRegion
  dsimp only
  generalize h.dropStaleTags d = s at hdropped
  obtain ⟨g, d'⟩ := s
  have hframed := hdropped.framed
  have hown : ∀ tag ∈ g.patternTags.map (·.2) ++ g.classTags.map (·.2),
      ∃ n, d'.tags.name? tag = some n ∧ ¬¬M n := fun tag htag =>
    hframed.own_not tag (List.mem_append_left _ htag)
  have hremoved := hframed.touches
    (.foldl (fun d tag => Document.SameButTags.removeTag d tag start stop) _ d')
    (Document.spares_foldl (fun _ _ _ hid hn => Document.spares_removeTag hid hn start stop) hown)
  exact (hdropped.trans hremoved).trans
    (hremoved.framed.paint fun k hk => hframed.paints _ (paints_of_mem_strokes hk))

end Framed

/-- What a highlighter does between commands touches its tags only. -/
theorem working_touches (M : String → Prop) (s : Work) : Working (Touches M s) where
  build s' ht needed := by
    obtain ⟨h, d⟩ := s'
    obtain ⟨table, refresh, batchSize, estimates, announced, heq⟩ := h.build_same d.text needed
    have hframed : Framed M (h.build d.text needed, d) := by
      rw [heq]
      exact ht.framed.of_same rfl rfl
    exact ⟨hframed, ht.document, ht.spares⟩
  highlightLines s' ht i := by
    rw [highlightLines_eq]
    dsimp only
    split
    · have hregion := ht.framed.highlightRegion (s'.2.text.lineStartOf i.start)
        (s'.1.paintStop s'.2.text i.stop)
      exact ⟨hregion.framed.of_same rfl rfl, ht.document.trans hregion.document,
        ht.spares.trans hregion.spares⟩
    · exact ht
  request s' ht requests _ := ⟨ht.framed.of_same rfl rfl, ht.document, ht.spares⟩

/-- What a highlighter is asked to do with its document. -/
inductive Task where
  | attach
  | detach
  | edited (e : Edit)
  | syncTags
  | schemeChanged
  | updateHighlight (start stop : Nat) (synchronous : Bool)
  | runIdleSlice

def Task.perform : Task → Work → Work
  | attach, s => s.1.attach s.2
  | detach, s => s.1.detach s.2
  | edited e, s => s.1.editedBy s.2 e
  | syncTags, s => s.1.syncTags s.2
  | schemeChanged, s => s.1.schemeChanged s.2
  | updateHighlight start stop synchronous, s => s.1.updateHighlight s.2 start stop synchronous
  | runIdleSlice, s => (s.1.runIdleSlice s.2).2

namespace Framed

theorem attach (hs : Framed M (h, d)) : Touches M (h, d) (h.attach d) := by
  have harrived : Framed M (h.arrived d, d) := hs.of_same rfl rfl
  have hresolved := harrived.resolveTags
  obtain ⟨refresh, announced, heq⟩ := h.attach_same d
  rw [heq]
  exact ⟨hresolved.framed.of_same rfl rfl, hresolved.document, hresolved.spares⟩

theorem detach (hs : Framed M (h, d)) : Touches M (h, d) (h.detach d) := by
  refine iteInduction (motive := Touches M (h, d)) (fun _ => ?_) (fun _ => .refl hs)
  have hspares : d.Spares (fun n => ¬M n) (h.ownTags.foldl Document.clearTag d) :=
    Document.spares_foldl (fun _ _ _ => Document.spares_clearTag) hs.own_not
  refine ⟨(hs.spares hspares).of_own ?_ hs.paints, .foldl .clearTag _ d, hspares⟩
  exact List.nil_subset _

/-- Whatever a highlighter does, it touches its own tags and nothing else. -/
theorem perform (hs : Framed M s) (task : Task) : Touches M s (task.perform s) := by
  obtain ⟨h, d⟩ := s
  cases task with
  | attach => exact hs.attach
  | detach => exact hs.detach
  | edited e =>
    refine ⟨?_, .refl d, Document.spares_refl _ d⟩
    refine iteInduction (motive := fun g => Framed M (g, d)) (fun _ => ?_) (fun _ => hs)
    obtain ⟨_, _, _, _, _, heq⟩ := h.edited_same d.text e
    rw [heq]
    exact hs.of_same rfl rfl
  | syncTags =>
    exact iteInduction (motive := Touches M (h, d)) (fun _ => hs.resolveTags) (fun _ => .refl hs)
  | schemeChanged =>
    refine ⟨?_, .refl d, Document.spares_refl _ d⟩
    exact iteInduction (motive := fun g => Framed M (g, d)) (fun _ => hs.of_same rfl rfl)
      (fun _ => hs)
  | updateHighlight start stop synchronous =>
    exact (working_touches M (h, d)).updateHighlight (.refl hs) start stop synchronous
  | runIdleSlice => exact (working_touches M (h, d)).runIdleSlice (.refl hs)

end Framed
end Highlighter
end CodeBuffer
