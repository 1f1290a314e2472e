import CodeBuffer.Proofs.Painting.Tagged

namespace CodeBuffer

/-- A name that was not there before is the one of the tag that is made. -/
theorem TagTable.name?_create_iff {t : TagTable} {name n : String} {style : Option String}
    {id : TagId} :
    (t.create name style).2.name? id = some n ↔
      t.name? id = some n ∨ name = n ∧ id = (t.create name style).1 := by
  constructor
  · intro h
    rcases t.create_cases name style with ⟨id', hid', hcreate⟩ | ⟨-, hcreate⟩ <;> rw [hcreate] at h
    · left
      simpa only [name?_withTags] using h
    · rw [hcreate]
      by_cases hlt : id < t.tags.length
      · rw [name?, tags_append, List.getElem?_append_left hlt] at h
        exact .inl h
      · obtain ⟨tag, htag, hname⟩ := Option.map_eq_some_iff.1 h
        have hbound := (List.getElem?_eq_some_iff.1 htag).1
        rw [tags_append] at htag hbound
        rw [List.length_append, List.length_singleton] at hbound
        have hlast : id = t.tags.length :=
          Nat.le_antisymm (Nat.le_of_lt_succ hbound) (Nat.le_of_not_lt hlt)
        rw [hlast, List.getElem?_concat_length] at htag
        obtain rfl := Option.some.inj htag
        exact .inr ⟨hname, hlast⟩
  · rintro (h | ⟨rfl, rfl⟩)
    · exact name?_create h name style
    · exact t.name?_create_self name style

namespace Highlighter

/-! What a highlighter keeps in mind of the tags, and what comes of it on a document that it may not
have been meant for. -/

/-- The tags that a highlighter keeps in mind, each under the name that it takes the tag to have. -/
def handles (h : Highlighter) : List (String × TagId) :=
  h.patternTags ++ h.classTags.map fun e => (Document.classTagName e.1, e.2)

/-- A highlighter is not mistaken about the tag of a name: under this name it keeps that tag in mind
and no other one, and that tag under no other name. While there is no such tag, all that is kept in
mind is some other tag of the document. -/
structure Knows (n : String) (s : Work) : Prop where
  held : ∀ e ∈ s.1.handles, e.1 = n ↔ s.2.tags.name? e.2 = some n
  room : (∀ id, s.2.tags.name? id ≠ some n) → ∀ e ∈ s.1.handles, ∃ m, s.2.tags.name? e.2 = some m

variable {h : Highlighter} {d : Document} {s : Work} {n : String} {p : Nat}

theorem mem_ownTags_iff {tag : TagId} :
    tag ∈ h.ownTags ↔ (∃ e ∈ h.handles, e.2 = tag) ∨ tag ∈ h.staleTags := by
  simp only [ownTags, handles, List.mem_append, List.mem_map, or_and_right, exists_or,
    exists_exists_and_eq_and]

theorem Knows.of_handles {g : Highlighter} (hk : Knows n (h, d)) (hg : g.handles = h.handles) :
    Knows n (g, d) :=
  ⟨hg ▸ hk.held, hg ▸ hk.room⟩

/-- Other ranges and styles of the same tags do not matter. -/
theorem Knows.of_names {d' : Document} (hk : Knows n (h, d))
    (hnames : ∀ id, d'.tags.name? id = d.tags.name? id) : Knows n (h, d') := by
  refine ⟨fun e he => ?_, fun hnone e he => ?_⟩
  · rw [hnames]
    exact hk.held e he
  · rw [hnames]
    exact hk.room (fun id => hnames id ▸ hnone id) e he

/-- The tag of a name is kept in mind under that name, or waits to be cleared. -/
theorem Knows.exists_ownTags_iff (hk : Knows n (h, d)) :
    (∃ tag ∈ h.ownTags, d.tags.name? tag = some n) ↔
      (∃ e ∈ h.handles, e.1 = n) ∨ ∃ tag ∈ h.staleTags, d.tags.name? tag = some n := by
  have hkept : (∃ e ∈ h.handles, d.tags.name? e.2 = some n) ↔ ∃ e ∈ h.handles, e.1 = n :=
    exists_congr fun e => and_congr_right fun he => (hk.held e he).symm
  simp only [mem_ownTags_iff, or_and_right, exists_or, exists_exists_and_eq_and, hkept]

theorem Knows.create (hk : Knows n (h, d)) {name : String} {style : Option String}
    {patternTags classTags : List (String × TagId)}
    (hhandles : ∀ e, e ∈ ({ h with patternTags, classTags } : Highlighter).handles ↔
      e ∈ h.handles ∨ e = (name, (d.createTag name style).1)) :
    Knows n ({ h with patternTags, classTags }, (d.createTag name style).2) := by
  refine ⟨fun e he => ?_, fun hnone e he => ?_⟩
  · refine Iff.trans ?_ TagTable.name?_create_iff.symm
    rcases (hhandles e).1 he with he | rfl
    · refine (hk.held e he).trans (or_iff_left_of_imp ?_).symm
      rintro ⟨rfl, hid⟩
      rcases d.tags.create_cases name style with ⟨id, hname, hcreate⟩ | ⟨hnew, hcreate⟩
      · rwa [hid, hcreate]
      · -- a new tag is none that is kept in mind already
        obtain ⟨m, hm⟩ := hk.room hnew e he
        obtain ⟨tag, htag, -⟩ := Option.map_eq_some_iff.1 hm
        have hlt := (List.getElem?_eq_some_iff.1 htag).1
        rw [hid, hcreate] at hlt
        exact absurd hlt (Nat.lt_irrefl _)
    · have hname := d.tags.name?_create_self name style
      constructor
      · rintro rfl
        exact .inr ⟨rfl, rfl⟩
      · rintro (hold | ⟨hsame, -⟩)
        · have hkept := TagTable.name?_create hold name style
          exact Option.some.inj (hname.symm.trans hkept)
        · exact hsame
  · have hbefore : ∀ id, d.tags.name? id ≠ some n := fun id hid =>
      hnone id (TagTable.name?_create hid name style)
    rcases (hhandles e).1 he with he | rfl
    · obtain ⟨m, hm⟩ := hk.room hbefore e he
      exact ⟨m, TagTable.name?_create hm name style⟩
    · exact ⟨name, d.tags.name?_create_self name style⟩

/-- The tag of a label is one that is kept in mind, or is found or made and kept in mind. -/
theorem labelTag_cases (h : Highlighter) (d : Document) (label : Label) :
    (∃ tag, (label.name, tag) ∈ h.handles ∧ h.labelTag d label = (tag, h, d)) ∨
      ∃ style patternTags classTags, h.patternTags ⊆ patternTags ∧ h.classTags ⊆ classTags ∧
        (∀ e, e ∈ ({ h with patternTags, classTags } : Highlighter).handles ↔
          e ∈ h.handles ∨ e = (label.name, (d.createTag label.name style).1)) ∧
        h.labelTag d label = ((d.createTag label.name style).1,
          { h with patternTags, classTags }, (d.createTag label.name style).2) := by
  cases label with
  | pattern id style =>
    simp only [labelTag, patternTag, Label.name]
    cases hfound : h.patternTags.lookup id with
    | some tag => exact .inl ⟨tag, List.mem_append_left _ (mem_of_lookup hfound), rfl⟩
    | none =>
      refine .inr ⟨some style, _, h.classTags, List.subset_append_left _ _, List.Subset.refl _,
        fun e => ?_, rfl⟩
      simp only [handles, List.mem_append, List.mem_singleton]
      exact or_right_comm
  | contextClass c =>
    simp only [labelTag, classTag, Label.name]
    cases hfound : h.classTags.lookup c with
    | some tag =>
      exact .inl ⟨tag, List.mem_append_right _ (List.mem_map_of_mem (mem_of_lookup hfound)), rfl⟩
    | none =>
      refine .inr ⟨none, h.patternTags, _, List.Subset.refl _, List.subset_append_left _ _,
        fun e => ?_, rfl⟩
      simp only [handles, List.map_append, List.map_cons, List.map_nil, List.mem_append,
        List.mem_singleton, or_assoc]
      rfl

/-- Tags are made, and none of them is mistaken for the tag of a name. -/
structure Learns (n : String) (s s' : Work) : Prop where
  knows : Knows n s'
  makes : Makes s s'
  tidy : s'.2.tags.Tidy s'.2.length

theorem Learns.trans {s' s'' : Work} (h : Learns n s s') (h' : Learns n s' s'') :
    Learns n s s'' :=
  ⟨h'.knows, h.makes.trans h'.makes, h'.tidy⟩

/-- Of all labels those of the name get its tag. -/
theorem Knows.labelTag (hk : Knows n s) (hd : s.2.tags.Tidy s.2.length) (label : Label) :
    Learns n s (s.1.labelTag s.2 label).2 ∧
      ((s.1.labelTag s.2 label).2.2.tags.name? (s.1.labelTag s.2 label).1 = some n ↔
        label.name = n) ∧
      ∀ m, (∃ e ∈ (s.1.labelTag s.2 label).2.1.handles, e.1 = m) ↔
        (∃ e ∈ s.1.handles, e.1 = m) ∨ label.name = m := by
  obtain ⟨h, d⟩ := s
  dsimp only
  rcases h.labelTag_cases d label with
    ⟨tag, hmem, heq⟩ | ⟨style, patternTags, classTags, hpatterns, hclasses, hhandles, heq⟩
  · rw [heq]
    refine ⟨⟨hk, .refl _, hd⟩, (hk.held _ hmem).symm, fun m => ?_⟩
    rw [iff_self_or]
    rintro rfl
    exact ⟨_, hmem, rfl⟩
  · rw [heq]
    have hk' := hk.create hhandles
    refine ⟨⟨hk', makes_create h d _ style hpatterns hclasses, hd.create _ style⟩, ?_, fun m => ?_⟩
    · exact (hk'.held _ ((hhandles _).2 (.inr rfl))).symm
    · simp only [hhandles, or_and_right, exists_or, exists_eq_left]

/-! Strokes -/

/-- What is noted so far, by a highlighter that is not mistaken about the tag of a name. -/
structure Sketched (n : String) (acc : List (TagId × Interval) × Work) : Prop where
  knows : Knows n acc.2
  tidy : acc.2.2.tags.Tidy acc.2.2.length
  named : ∀ e ∈ acc.1, ∃ m, acc.2.2.tags.name? e.1 = some m

variable {acc : List (TagId × Interval) × Work}

theorem Sketched.place (ha : Sketched n acc) (k : Stroke) :
    Sketched n (place acc k) ∧ Makes acc.2 (Highlighter.place acc k).2 ∧
      ∀ p, Placed (Highlighter.place acc k) n p ↔ Placed acc n p ∨ k.Marks n p := by
  obtain ⟨hlearns, hname, -⟩ := ha.knows.labelTag ha.tidy k.label
  have hold : ∀ e ∈ acc.1,
      ∃ m, (acc.2.1.labelTag acc.2.2 k.label).2.2.tags.name? e.1 = some m := by
    intro e he
    obtain ⟨m, hm⟩ := ha.named e he
    exact ⟨m, hlearns.makes.names _ _ hm⟩
  have hsame : ∀ p, Placed (acc.1, (acc.2.1.labelTag acc.2.2 k.label).2) n p ↔ Placed acc n p := by
    intro p
    refine exists_congr fun e => and_congr_right fun he => ?_
    obtain ⟨m, hm⟩ := ha.named e he
    rw [hlearns.makes.name?_iff hm]
  rw [Highlighter.place]
  dsimp only
  split
  · rename_i hhas
    refine ⟨⟨hlearns.knows, hlearns.tidy, ?_⟩, hlearns.makes, fun p => ?_⟩
    · refine List.forall_mem_cons.2 ⟨?_, hold⟩
      have hlt := of_decide_eq_true hhas
      exact ⟨_, by rw [TagTable.name?, List.getElem?_eq_getElem hlt, Option.map_some]⟩
    · rw [← hsame p, or_comm]
      simp only [Placed, List.mem_cons, exists_eq_or_imp, hname, Stroke.Marks]
  · rename_i hmissing
    refine ⟨⟨hlearns.knows, hlearns.tidy, hold⟩, hlearns.makes, fun p => ?_⟩
    rw [hsame, iff_self_or]
    rintro ⟨hlabel, -⟩
    exact absurd (TagTable.has_of_name? (hname.2 hlabel)) hmissing

theorem Sketched.foldl (ha : Sketched n acc) (strokes : List Stroke) :
    Sketched n (strokes.foldl Highlighter.place acc) ∧
      Makes acc.2 (strokes.foldl Highlighter.place acc).2 ∧
        ∀ p, Placed (strokes.foldl Highlighter.place acc) n p ↔
          Placed acc n p ∨ ∃ k ∈ strokes, k.Marks n p := by
  induction strokes generalizing acc with
  | nil => exact ⟨ha, .refl _, by simp⟩
  | cons k strokes ih =>
    obtain ⟨hk, hmakes, hplaced⟩ := ha.place k
    obtain ⟨hrest, hmakes', hplaced'⟩ := ih hk
    refine ⟨hrest, hmakes.trans hmakes', fun p => ?_⟩
    rw [List.foldl_cons, hplaced', hplaced, or_assoc]
    simp only [List.mem_cons, exists_eq_or_imp]

/-- The strokes of a name put its tag where they go. -/
theorem Knows.paint (hk : Knows n s) (hd : s.2.tags.Tidy s.2.length) (strokes : List Stroke) :
    (paint strokes s).2.tags.Tidy s.2.length ∧ ∀ p < s.2.length,
      (Highlighter.paint strokes s).2.tags.Marks n p ↔
        s.2.tags.Marks n p ∨ ∃ k ∈ strokes, k.Marks n p := by
  have hstart : Sketched n ([], s) := ⟨hk, hd, by simp⟩
  obtain ⟨hsketched, hmakes, hplaced⟩ := hstart.foldl strokes
  rw [paint_eq]
  dsimp only
  generalize strokes.foldl Highlighter.place ([], s) = acc at hsketched hmakes hplaced
  obtain ⟨placed, h, d⟩ := acc
  have hlen : d.length = s.2.length := congrArg List.length hmakes.document.text_eq
  rw [← hlen]
  refine ⟨Document.tidy_applyTags hsketched.tidy placed.reverse, fun p hp => ?_⟩
  rw [Document.marks_applyTags hp, hmakes.marks]
  have hnoted := hplaced p
  simp only [Placed, List.not_mem_nil, false_and, exists_false, false_or] at hnoted
  simp only [List.mem_reverse, hnoted]

/-- To highlight a region takes the tags off it that are kept in mind, and puts on those of its
spans. -/
theorem Knows.highlightRegion (hk : Knows n (h, d)) (hd : d.tags.Tidy d.length)
    (hstale : h.staleTags = []) (start stop : Nat) :
    (h.highlightRegion d start stop).2.tags.Tidy d.length ∧ ∀ p < d.length,
      (h.highlightRegion d start stop).2.tags.Marks n p ↔
        (d.tags.Marks n p ∧ ¬((∃ e ∈ h.handles, e.1 = n) ∧ start ≤ p ∧ p < stop)) ∨
          ∃ k ∈ h.strokes (.front start (d.text.slice start stop)) (h.table.spans start stop),
            k.Marks n p := by
  obtain ⟨d', hd'⟩ : ∃ d' : Document, d' =
    { d with tags := d.tags.modifyEach h.ownTags (·.subtract start stop) } := ⟨_, rfl⟩
  obtain ⟨htidy, hmarks⟩ := hd.subtractEach h.ownTags start stop
  have hnames : ∀ id, d'.tags.name? id = d.tags.name? id := by
    intro id
    rw [hd']
    exact d.tags.name?_modifyEach h.ownTags _ id
  have hkept : (∃ id ∈ h.ownTags, d.tags.name? id = some n) ↔ ∃ e ∈ h.handles, e.1 = n := by
    rw [hk.exists_ownTags_iff, hstale]
    simp only [List.not_mem_nil, false_and, exists_false, or_false]
  have hlen : d'.length = d.length := by rw [hd']; rfl
  have htidy' : d'.tags.Tidy d'.length := by
    rw [hlen, hd']
    exact htidy
  obtain ⟨hfinal, hpainted⟩ := (hk.of_names hnames).paint htidy'
    (h.strokes (.front start (d.text.slice start stop)) (h.table.spans start stop))
  rw [highlightRegion_eq hstale, ← hd']
  dsimp only at hfinal hpainted
  rw [hlen] at hfinal hpainted
  refine ⟨hfinal, fun p hp => ?_⟩
  rw [hpainted p hp, ← hkept, ← hmarks n p, hd']

/-! Tags that are made in advance -/

theorem Knows.patternTags (hk : Knows n s) (hd : s.2.tags.Tidy s.2.length) (ps : List Pattern) :
    let s' := ps.foldl (fun s p => (s.1.patternTag s.2 p.id p.style).2) s
    Learns n s s' ∧ ((∃ e ∈ s'.1.handles, e.1 = n) ↔
      (∃ e ∈ s.1.handles, e.1 = n) ∨ ∃ q ∈ ps, q.id = n) := by
  induction ps generalizing s with
  | nil => exact ⟨⟨hk, .refl s, hd⟩, by simp⟩
  | cons q ps ih =>
    obtain ⟨hlearns, -, hheld⟩ := hk.labelTag hd (.pattern q.id q.style)
    obtain ⟨hlearns', hheld'⟩ := ih hlearns.knows hlearns.tidy
    refine ⟨hlearns.trans hlearns', hheld'.trans ?_⟩
    simp only [hheld, or_assoc, List.mem_cons, exists_eq_or_imp]
    rfl

/-- The tags of patterns that are gone are cleared, whatever they are on this document. -/
theorem Knows.resolveTags (hk : Knows n (h, d)) (hd : d.tags.Tidy d.length) :
    Knows n (h.resolveTags d) ∧ (h.resolveTags d).2.tags.Tidy d.length ∧
      (h.resolveTags d).1.staleTags = [] ∧
      ((∃ e ∈ (h.resolveTags d).1.handles, e.1 = n) ↔
        (∃ e ∈ h.handles, e.1 = n) ∨ ∃ q ∈ h.patterns, q.id = n) ∧
      ∀ p, (h.resolveTags d).2.tags.Marks n p ↔
        d.tags.Marks n p ∧ ¬∃ id ∈ h.staleTags, d.tags.name? id = some n := by
  obtain ⟨htidy, hmarks⟩ := hd.clearEach h.staleTags
  obtain ⟨d', hd'⟩ : ∃ d' : Document, d' =
    { d with tags := d.tags.modifyEach h.staleTags fun _ => .empty } := ⟨_, rfl⟩
  have hdropped : h.dropStaleTags d = ({ h with staleTags := [] }, d') := by
    rw [Highlighter.dropStaleTags, Document.foldl_clearTag, hd']
  have hnames : ∀ id, d'.tags.name? id = d.tags.name? id := by
    intro id
    rw [hd']
    exact d.tags.name?_modifyEach h.staleTags _ id
  have htidy' : d'.tags.Tidy d'.length := by
    rw [hd']
    exact htidy
  have hk' : Knows n ({ h with staleTags := [] }, d') :=
    (hk.of_names hnames).of_handles rfl
  obtain ⟨hlearns, hheld⟩ := hk'.patternTags htidy' h.patterns
  have hresolved : h.resolveTags d = h.patterns.foldl
      (fun s p => (s.1.patternTag s.2 p.id p.style).2) ({ h with staleTags := [] }, d') := by
    rw [Highlighter.resolveTags, hdropped]
  rw [← hresolved] at hlearns hheld
  have hlen : (h.resolveTags d).2.length = d.length :=
    congrArg List.length (h.painted_resolveTags d).document.text_eq
  refine ⟨hlearns.knows, hlen ▸ hlearns.tidy, hlearns.makes.stale, hheld, fun p => ?_⟩
  rw [hlearns.makes.marks, ← hmarks n p, hd']

end Highlighter
end CodeBuffer
