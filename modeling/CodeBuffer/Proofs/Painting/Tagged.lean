import CodeBuffer.Proofs.Painting.Marks
import CodeBuffer.Proofs.Painting.Shades

namespace CodeBuffer

/-! The same change to several tags of a document -/

theorem Document.foldl_removeTag (d : Document) (ids : List TagId) (start stop : Nat) :
    ids.foldl (fun d tag => d.removeTag tag start stop) d =
      { d with tags := d.tags.modifyEach ids (·.subtract start stop) } := by
  induction ids generalizing d with
  | nil => rfl
  | cons id ids ih => exact ih (d.removeTag id start stop)

theorem Document.foldl_clearTag (d : Document) (ids : List TagId) :
    ids.foldl Document.clearTag d = { d with tags := d.tags.modifyEach ids fun _ => .empty } := by
  induction ids generalizing d with
  | nil => rfl
  | cons id ids ih => exact ih (d.clearTag id)

theorem TagTable.Tidy.subtractEach {t : TagTable} {length : Nat} (h : t.Tidy length)
    (ids : List TagId) (start stop : Nat) :
    (t.modifyEach ids (·.subtract start stop)).Tidy length ∧ ∀ n p,
      (t.modifyEach ids (·.subtract start stop)).Marks n p ↔
        t.Marks n p ∧ ¬((∃ id ∈ ids, t.name? id = some n) ∧ start ≤ p ∧ p < stop) := by
  have hb (r : Region) (hr : r.Below length) : (r.subtract start stop).Below length :=
    (Region.PartOf.subtract r start stop).below hr
  exact ⟨h.modifyEach hb ids, fun n p => h.marks_modifyEach hb fun _ _ => Region.contains_subtract⟩

theorem TagTable.Tidy.clearEach {t : TagTable} {length : Nat} (h : t.Tidy length)
    (ids : List TagId) :
    (t.modifyEach ids fun _ => .empty).Tidy length ∧ ∀ n p,
      (t.modifyEach ids fun _ => .empty).Marks n p ↔
        t.Marks n p ∧ ¬∃ id ∈ ids, t.name? id = some n := by
  have hb (r : Region) (_ : r.Below length) : Region.empty.Below length := Region.below_empty length
  refine ⟨h.modifyEach hb ids, fun n p => ?_⟩
  have hall (r : Region) (p : Nat) :
      Region.empty.contains p = true ↔ r.contains p = true ∧ ¬True := by
    simp [Region.contains, Region.empty]
  rw [h.marks_modifyEach hb hall]
  simp only [and_true]

theorem mem_of_lookup {entries : List (String × TagId)} {key : String} {tag : TagId}
    (h : entries.lookup key = some tag) : (key, tag) ∈ entries := by
  obtain ⟨before, behind, rfl, -⟩ := List.lookup_eq_some_iff.1 h
  exact List.mem_append_right _ List.mem_cons_self

theorem ne_of_lookup_eq_none {entries : List (String × TagId)} {key : String}
    (h : entries.lookup key = none) : ∀ e ∈ entries, e.1 ≠ key := by
  intro e he heq
  have hne := List.lookup_eq_none_iff.1 h e he
  simp [heq] at hne

namespace Highlighter

/-- The tags that a highlighter may have put somewhere. -/
def ownTags (h : Highlighter) : List TagId :=
  h.patternTags.map (·.2) ++ h.classTags.map (·.2) ++ h.staleTags

/-- A highlighter knows all tags with names in `N` that lie on a document, and those of its patterns
have their style. -/
structure TaggedIn (N : String → Prop) (s : Work) : Prop where
  tidy : s.2.tags.Tidy s.2.length
  pattern : ∀ e ∈ s.1.patternTags, s.2.tags.name? e.2 = some e.1 ∧
    ∃ p ∈ s.1.patterns, p.id = e.1 ∧ (N e.1 → s.2.tags.style? e.2 = some p.style)
  context : ∀ e ∈ s.1.classTags, s.2.tags.name? e.2 = some (Document.classTagName e.1)
  own : ∀ n, N n → ∀ p, s.2.tags.Marks n p → ∃ id ∈ s.1.ownTags, s.2.tags.name? id = some n

/-- Nobody else puts tags on the document. -/
abbrev Tagged (s : Work) : Prop := TaggedIn (fun _ => True) s

variable {N : String → Prop}

/-- Other ranges of the same tags leave it so, if the tags that lie somewhere are known. -/
theorem TaggedIn.relaid {h : Highlighter} {d : Document} (hs : TaggedIn N (h, d)) {tags : TagTable}
    (hsame : d.tags.Relaid tags) (htidy : tags.Tidy d.length) {staleTags : List TagId}
    (hown : ∀ n, N n → ∀ p, tags.Marks n p →
      ∃ id ∈ ({ h with staleTags } : Highlighter).ownTags, d.tags.name? id = some n) :
    TaggedIn N ({ h with staleTags }, { d with tags }) := by
  refine ⟨htidy, fun e he => ?_, fun e he => (hsame.name e.2).trans (hs.context e he),
    fun n hn p hp => ?_⟩
  · obtain ⟨hname, q, hq, hid, hstyle⟩ := hs.pattern e he
    exact ⟨(hsame.name e.2).trans hname, q, hq, hid,
      fun hn => (hsame.style e.2).trans (hstyle hn)⟩
  · obtain ⟨id, hid, hname⟩ := hown n hn p hp
    exact ⟨id, hid, (hsame.name id).trans hname⟩

/-- A label of one of the patterns. -/
def Label.Fits (ps : List Pattern) : Label → Prop
  | pattern id style => ∃ p ∈ ps, p.id = id ∧ p.style = style
  | contextClass _ => True

/-- Tags are made, and none is put anywhere. -/
structure Makes (s s' : Work) : Prop where
  highlighter : s.1.SameButTags s'.1
  document : s.2.SameButTags s'.2
  stale : s'.1.staleTags = s.1.staleTags
  patternTags : s.1.patternTags ⊆ s'.1.patternTags
  own : s.1.ownTags ⊆ s'.1.ownTags
  names : ∀ id n, s.2.tags.name? id = some n → s'.2.tags.name? id = some n
  marks : ∀ n p, s'.2.tags.Marks n p ↔ s.2.tags.Marks n p

namespace Makes

variable {s s' s'' : Work}

theorem refl (s : Work) : Makes s s :=
  ⟨.refl _, .refl _, rfl, fun _ h => h, fun _ h => h, fun _ _ h => h, fun _ _ => Iff.rfl⟩

theorem trans (h : Makes s s') (h' : Makes s' s'') : Makes s s'' :=
  ⟨h.highlighter.trans h'.highlighter, h.document.trans h'.document, h'.stale.trans h.stale,
    fun _ he => h'.patternTags (h.patternTags he), fun _ hid => h'.own (h.own hid),
    fun id n hid => h'.names id n (h.names id n hid),
    fun n p => (h'.marks n p).trans (h.marks n p)⟩

theorem patterns (h : Makes s s') : s'.1.patterns = s.1.patterns := by
  obtain ⟨_, _, _, heq⟩ := h.highlighter
  rw [heq]

/-- A tag that is there keeps its name. -/
theorem name?_iff (h : Makes s s') {id : TagId} {m n : String} (hid : s.2.tags.name? id = some m) :
    s'.2.tags.name? id = some n ↔ s.2.tags.name? id = some n := by
  rw [h.names id m hid, hid]

end Makes

variable {s : Work} {h : Highlighter} {d : Document} {n : String} {p : Nat}

theorem mem_ownTags_of_pattern {id : String} {tag : TagId} (hmem : (id, tag) ∈ h.patternTags) :
    tag ∈ h.ownTags :=
  List.mem_append_left _ (List.mem_append_left _ (List.mem_map_of_mem (f := (·.2)) hmem))

theorem mem_ownTags_of_context {c : String} {tag : TagId} (hmem : (c, tag) ∈ h.classTags) :
    tag ∈ h.ownTags :=
  List.mem_append_left _ (List.mem_append_right _ (List.mem_map_of_mem (f := (·.2)) hmem))

/-- The tag of a label is found or made. -/
structure Finds (N : String → Prop) (s s' : Work) (tag : TagId) (label : Label) : Prop where
  tagged : TaggedIn N s'
  makes : Makes s s'
  name : s'.2.tags.name? tag = some label.name
  own : tag ∈ s'.1.ownTags

/-- A tag that is made and kept in mind lies nowhere. -/
theorem makes_create (h : Highlighter) (d : Document) (name : String) (style : Option String)
    {patternTags classTags : List (String × TagId)} (hpatterns : h.patternTags ⊆ patternTags)
    (hclasses : h.classTags ⊆ classTags) :
    Makes (h, d) ({ h with patternTags, classTags }, (d.createTag name style).2) := by
  have hown : h.ownTags ⊆ ({ h with patternTags, classTags } : Highlighter).ownTags := by
    intro tag htag
    rcases List.mem_append.1 htag with htag | htag
    · rcases List.mem_append.1 htag with htag | htag
      · obtain ⟨e, he, rfl⟩ := List.mem_map.1 htag
        exact mem_ownTags_of_pattern (hpatterns he)
      · obtain ⟨e, he, rfl⟩ := List.mem_map.1 htag
        exact mem_ownTags_of_context (hclasses he)
    · exact List.mem_append_right _ htag
  exact ⟨⟨_, _, _, rfl⟩, .createTag d name style, rfl, hpatterns, hown,
    fun tag m hm => TagTable.name?_create hm _ _, fun n p => TagTable.marks_create⟩

/-- A tag is made and kept in mind. -/
theorem TaggedIn.create (hs : TaggedIn N (h, d)) {name : String} {style : Option String}
    {patternTags classTags : List (String × TagId)}
    (hpatterns : h.patternTags ⊆ patternTags) (hclasses : h.classTags ⊆ classTags)
    (hpattern : ∀ e ∈ patternTags, (d.createTag name style).2.tags.name? e.2 = some e.1 ∧
      ∃ p ∈ h.patterns, p.id = e.1 ∧
        (N e.1 → (d.createTag name style).2.tags.style? e.2 = some p.style))
    (hcontext : ∀ e ∈ classTags,
      (d.createTag name style).2.tags.name? e.2 = some (Document.classTagName e.1)) :
    TaggedIn N ({ h with patternTags, classTags }, (d.createTag name style).2) ∧
      Makes (h, d) ({ h with patternTags, classTags }, (d.createTag name style).2) := by
  have hmakes := makes_create h d name style hpatterns hclasses
  refine ⟨⟨hs.tidy.create name style, hpattern, hcontext, fun n hn p hp => ?_⟩, hmakes⟩
  obtain ⟨tag, htag, hname⟩ := hs.own n hn p ((hmakes.marks n p).1 hp)
  exact ⟨tag, hmakes.own htag, hmakes.names tag n hname⟩

theorem TaggedIn.patternTag (hs : TaggedIn N (h, d)) {id style : String}
    (hfits : ∃ p ∈ h.patterns, p.id = id ∧ p.style = style) :
    Finds N (h, d) (h.patternTag d id style).2 (h.patternTag d id style).1 (.pattern id style) ∧
      (id, (h.patternTag d id style).1) ∈ (h.patternTag d id style).2.1.patternTags := by
  unfold Highlighter.patternTag
  cases hfound : h.patternTags.lookup id with
  | some tag =>
    have hmem := mem_of_lookup hfound
    exact ⟨⟨hs, .refl _, (hs.pattern _ hmem).1, mem_ownTags_of_pattern hmem⟩, hmem⟩
  | none =>
    have hnew := ne_of_lookup_eq_none hfound
    obtain ⟨q, hq, hqid, hqstyle⟩ := hfits
    have hname := d.tags.name?_create_self id (some style)
    have hmade : (id, (d.createTag id (some style)).1) ∈
        h.patternTags ++ [(id, (d.createTag id (some style)).1)] :=
      List.mem_append_right _ (List.mem_singleton.2 rfl)
    have hown : (d.createTag id (some style)).1 ∈
        ({ h with patternTags := h.patternTags ++ [(id, (d.createTag id (some style)).1)] } :
          Highlighter).ownTags := mem_ownTags_of_pattern hmade
    have hpattern : ∀ e ∈ h.patternTags ++ [(id, (d.createTag id (some style)).1)],
        (d.createTag id (some style)).2.tags.name? e.2 = some e.1 ∧ ∃ p ∈ h.patterns,
          p.id = e.1 ∧
            (N e.1 → (d.createTag id (some style)).2.tags.style? e.2 = some p.style) := by
      intro e he
      rcases List.mem_append.1 he with he | he
      · obtain ⟨hname, r, hr, hrid, hstyle⟩ := hs.pattern e he
        exact ⟨TagTable.name?_create hname id (some style), r, hr, hrid, fun hn =>
          (TagTable.style?_create hname (some style) (.inl (hnew e he))).trans (hstyle hn)⟩
      · rw [List.mem_singleton.1 he]
        refine ⟨hname, q, hq, hqid, fun _ => ?_⟩
        rw [hqstyle]
        exact TagTable.style?_create_self _ _ _
    obtain ⟨htagged, hmakes⟩ := hs.create (List.subset_append_left _ _)
      (List.Subset.refl h.classTags) hpattern fun e he =>
        TagTable.name?_create (hs.context e he) id (some style)
    exact ⟨⟨htagged, hmakes, hname, hown⟩, hmade⟩

theorem TaggedIn.classTag (hs : TaggedIn N (h, d)) (c : String) :
    Finds N (h, d) (h.classTag d c).2 (h.classTag d c).1 (.contextClass c) := by
  unfold Highlighter.classTag
  cases hfound : h.classTags.lookup c with
  | some tag =>
    have hmem := mem_of_lookup hfound
    exact ⟨hs, .refl _, hs.context _ hmem, mem_ownTags_of_context hmem⟩
  | none =>
    have hname := d.tags.name?_create_self (Document.classTagName c) none
    have hmade : (c, (d.classTag c).1) ∈ h.classTags ++ [(c, (d.classTag c).1)] :=
      List.mem_append_right _ (List.mem_singleton.2 rfl)
    have hown : (d.classTag c).1 ∈
        ({ h with classTags := h.classTags ++ [(c, (d.classTag c).1)] } : Highlighter).ownTags :=
      mem_ownTags_of_context hmade
    have hpattern : ∀ e ∈ h.patternTags, (d.classTag c).2.tags.name? e.2 = some e.1 ∧
        ∃ p ∈ h.patterns, p.id = e.1 ∧
          (N e.1 → (d.classTag c).2.tags.style? e.2 = some p.style) := by
      intro e he
      obtain ⟨hnamed, r, hr, hrid, hstyle⟩ := hs.pattern e he
      exact ⟨TagTable.name?_create hnamed (Document.classTagName c) none, r, hr, hrid, fun hn =>
        (TagTable.style?_create hnamed none (.inr rfl)).trans (hstyle hn)⟩
    have hcontext : ∀ e ∈ h.classTags ++ [(c, (d.classTag c).1)],
        (d.classTag c).2.tags.name? e.2 = some (Document.classTagName e.1) := by
      intro e he
      rcases List.mem_append.1 he with he | he
      · exact TagTable.name?_create (hs.context e he) (Document.classTagName c) none
      · rw [List.mem_singleton.1 he]
        exact hname
    obtain ⟨htagged, hmakes⟩ := hs.create (List.Subset.refl h.patternTags)
      (List.subset_append_left _ _) hpattern hcontext
    exact ⟨htagged, hmakes, hname, hown⟩

theorem TaggedIn.labelTag (hs : TaggedIn N s) {label : Label} (hfits : label.Fits s.1.patterns) :
    Finds N s (s.1.labelTag s.2 label).2 (s.1.labelTag s.2 label).1 label := by
  cases label with
  | pattern id style => exact (hs.patternTag hfits).1
  | contextClass c => exact hs.classTag c

/-! Strokes -/

/-- What is noted puts the tag of that name on an offset. -/
def Placed (acc : List (TagId × Interval) × Work) (n : String) (p : Nat) : Prop :=
  ∃ e ∈ acc.1, acc.2.2.tags.name? e.1 = some n ∧ e.2.start ≤ p ∧ p < e.2.stop

/-- All tags that are noted are there. -/
structure Noted (N : String → Prop) (acc : List (TagId × Interval) × Work) : Prop where
  tagged : TaggedIn N acc.2
  known : ∀ e ∈ acc.1, e.1 ∈ acc.2.1.ownTags ∧ ∃ n, acc.2.2.tags.name? e.1 = some n

variable {acc : List (TagId × Interval) × Work}

theorem Noted.place (ha : Noted N acc) {k : Stroke} (hfits : k.label.Fits acc.2.1.patterns) :
    Noted N (place acc k) ∧ Makes acc.2 (place acc k).2 ∧
      ∀ n p, Placed (Highlighter.place acc k) n p ↔ Placed acc n p ∨ k.Marks n p := by
  have hfound := ha.tagged.labelTag hfits
  have hplace : Highlighter.place acc k =
      (((acc.2.1.labelTag acc.2.2 k.label).1, ⟨k.start, k.stop⟩) :: acc.1,
        (acc.2.1.labelTag acc.2.2 k.label).2) := by
    simp only [Highlighter.place, TagTable.has_of_name? hfound.name, if_true]
  rw [hplace]
  refine ⟨⟨hfound.tagged, ?_⟩, hfound.makes, fun n p => ?_⟩
  · refine List.forall_mem_cons.2 ⟨⟨hfound.own, _, hfound.name⟩, fun e he => ?_⟩
    obtain ⟨hown, m, hm⟩ := ha.known e he
    exact ⟨hfound.makes.own hown, m, hfound.makes.names _ _ hm⟩
  · simp only [Placed, List.mem_cons, exists_eq_or_imp, hfound.name, Option.some.injEq]
    rw [or_comm]
    refine or_congr (exists_congr fun e => ?_) Iff.rfl
    refine and_congr_right fun he => ?_
    obtain ⟨-, m, hm⟩ := ha.known e he
    rw [hfound.makes.name?_iff hm]

theorem Noted.foldl {strokes : List Stroke} (ha : Noted N acc)
    (hfits : ∀ k ∈ strokes, k.label.Fits acc.2.1.patterns) :
    Noted N (strokes.foldl Highlighter.place acc) ∧
      Makes acc.2 (strokes.foldl Highlighter.place acc).2 ∧
        ∀ n p, Placed (strokes.foldl Highlighter.place acc) n p ↔
          Placed acc n p ∨ ∃ k ∈ strokes, k.Marks n p := by
  induction strokes generalizing acc with
  | nil => exact ⟨ha, .refl _, by simp⟩
  | cons k strokes ih =>
    obtain ⟨hnoted, hmakes, hplaced⟩ := ha.place (hfits k List.mem_cons_self)
    obtain ⟨hnoted', hmakes', hplaced'⟩ := ih hnoted fun k' hk' => by
      rw [hmakes.patterns]
      exact hfits k' (List.mem_cons_of_mem k hk')
    refine ⟨hnoted', hmakes.trans hmakes', fun n p => ?_⟩
    rw [List.foldl_cons, hplaced', hplaced, or_assoc]
    simp only [List.mem_cons, exists_eq_or_imp]

/-- What is put on a document, tag by tag. -/
structure Brushed (N : String → Prop) (s s' : Work) (shaded : String → Nat → Prop) : Prop where
  tagged : TaggedIn N s'
  highlighter : s.1.SameButTags s'.1
  document : s.2.SameButTags s'.2
  stale : s'.1.staleTags = s.1.staleTags
  patternTags : s.1.patternTags ⊆ s'.1.patternTags
  marks : ∀ n, N n → ∀ p < s.2.length, s'.2.tags.Marks n p ↔ shaded n p

/-- Strokes put their tags where they go, and nowhere else. -/
theorem TaggedIn.paint (hs : TaggedIn N s) {strokes : List Stroke}
    (hfits : ∀ k ∈ strokes, k.label.Fits s.1.patterns) :
    Brushed N s (paint strokes s) fun n p => s.2.tags.Marks n p ∨ ∃ k ∈ strokes, k.Marks n p := by
  have hstart : Noted N ([], s) := ⟨hs, by simp⟩
  obtain ⟨hnoted, hmakes, hplaced⟩ := hstart.foldl hfits
  rw [paint_eq]
  dsimp only
  generalize strokes.foldl Highlighter.place ([], s) = acc at hnoted hmakes hplaced
  obtain ⟨placed, h, d⟩ := acc
  obtain ⟨hT, hknown⟩ := hnoted
  have hlen : d.length = s.2.length := congrArg List.length hmakes.document.text_eq
  have htidy := Document.tidy_applyTags hT.tidy placed.reverse
  have hmarks {n : String} {p : Nat} (hp : p < d.length) :
      (d.applyTags placed.reverse).tags.Marks n p ↔
        d.tags.Marks n p ∨ Placed (placed, h, d) n p := by
    rw [Document.marks_applyTags hp]
    simp only [List.mem_reverse, Placed]
  have htagged : TaggedIn N (h, d.applyTags placed.reverse) := by
    refine hT.relaid (TagTable.relaid_addRanges _ _) htidy fun n hn p hp => ?_
    have hlt : p < d.length := Nat.lt_of_not_le fun hle => htidy.not_marks hle hp
    rcases (hmarks hlt).1 hp with hp | ⟨e, he, hname, -⟩
    · exact hT.own n hn p hp
    · exact ⟨e.1, (hknown e he).1, hname⟩
  refine ⟨htagged, hmakes.highlighter, hmakes.document.trans (.applyTags d _), hmakes.stale,
    hmakes.patternTags, fun n _ p hp => ?_⟩
  rw [hmarks (hlen ▸ hp), hplaced, hmakes.marks]
  simp [Placed]

theorem exists_span_of_mem_strokes {place : Place} {spans : List Span} {k : Stroke}
    (hk : k ∈ h.strokes place spans) : ∃ place', ∃ span ∈ spans, k ∈ h.spanStrokes place' span := by
  induction spans generalizing place with
  | nil => cases hk
  | cons span spans ih =>
    rcases List.mem_append.1 hk with hk | hk
    · exact ⟨_, span, List.mem_cons_self, hk⟩
    · obtain ⟨place', span', hspan', hk'⟩ := ih hk
      exact ⟨place', span', List.mem_cons_of_mem span hspan', hk'⟩

/-- The strokes of spans are those of the patterns. -/
theorem fits_of_mem_strokes {place : Place} {spans : List Span} {k : Stroke}
    (hk : k ∈ h.strokes place spans) : k.label.Fits h.patterns := by
  obtain ⟨place', ⟨start, stop, key⟩, -, hk⟩ := exists_span_of_mem_strokes hk
  cases key with
  | some key =>
    obtain ⟨q, hq, rfl | ⟨c, -, rfl⟩⟩ := mem_spanStrokes_some.1 hk
    · obtain ⟨r, hr, hrq⟩ := List.mem_filterMap.1 (List.mem_of_find?_eq_some hq)
      cases r with
      | simple s => cases hrq
      | delimited r =>
        obtain rfl := Option.some.inj hrq
        exact ⟨_, hr, rfl, rfl⟩
    · trivial
  | none =>
    simp only [spanStrokes, List.mem_map] at hk
    obtain ⟨m, hm, rfl⟩ := hk
    rw [SimpleMatch.collect_eq] at hm
    obtain ⟨r, hr, hrs⟩ := List.mem_filterMap.1 (SimpleMatch.mem_walk hm).1
    cases r with
    | simple s =>
      obtain rfl := Option.some.inj hrs
      exact ⟨_, hr, rfl, rfl⟩
    | delimited r => cases hrs

theorem dropStaleTags_nil (hstale : h.staleTags = []) (d : Document) :
    h.dropStaleTags d = (h, d) := by
  have hsame : { h with staleTags := [] } = h := by
    rw [← hstale]
  rw [dropStaleTags, hsame, hstale]
  rfl

/-- What is kept in mind is taken off a region before its strokes are painted. -/
theorem highlightRegion_eq (hstale : h.staleTags = []) (d : Document) (start stop : Nat) :
    h.highlightRegion d start stop =
      Highlighter.paint
        (h.strokes (.front start (d.text.slice start stop)) (h.table.spans start stop))
        (h, { d with tags := d.tags.modifyEach h.ownTags (·.subtract start stop) }) := by
  have hown : h.ownTags = h.patternTags.map (·.2) ++ h.classTags.map (·.2) := by
    rw [ownTags, hstale, List.append_nil]
  rw [Highlighter.highlightRegion, dropStaleTags_nil hstale]
  simp only [← hown, Document.foldl_removeTag]

/-- To highlight a region takes all tags off it and puts on those of its spans. -/
theorem TaggedIn.highlightRegion (hs : TaggedIn N (h, d)) (hstale : h.staleTags = [])
    (start stop : Nat) :
    Brushed N (h, d) (h.highlightRegion d start stop) fun n p =>
      (d.tags.Marks n p ∧ ¬(start ≤ p ∧ p < stop)) ∨
        ∃ k ∈ h.strokes (.front start (d.text.slice start stop)) (h.table.spans start stop),
          k.Marks n p := by
  obtain ⟨d', hd'⟩ : ∃ d' : Document, d' =
    { d with tags := d.tags.modifyEach h.ownTags (·.subtract start stop) } := ⟨_, rfl⟩
  obtain ⟨htidy, hmarks⟩ := hs.tidy.subtractEach h.ownTags start stop
  have htagged : TaggedIn N (h, d') := by
    rw [hd']
    exact hs.relaid (TagTable.relaid_modifyEach _ _ _) htidy fun n hn p hp =>
      hs.own n hn p ((hmarks n p).1 hp).1
  have hfits : ∀ k ∈ h.strokes (.front start (d.text.slice start stop)) (h.table.spans start stop),
      k.label.Fits h.patterns := fun k hk => fits_of_mem_strokes hk
  have hpainted := htagged.paint hfits
  rw [highlightRegion_eq hstale, ← hd']
  refine ⟨hpainted.tagged, hpainted.highlighter, ?_, hpainted.stale, hpainted.patternTags,
    fun n hn p hp => ?_⟩
  · exact Document.SameButTags.trans ⟨_, hd'⟩ hpainted.document
  · rw [hpainted.marks n hn p (by rw [hd']; exact hp)]
    refine or_congr ?_ Iff.rfl
    rw [hd']
    dsimp only
    rw [hmarks]
    refine and_congr_right fun hm => not_congr ?_
    rw [and_iff_right_iff_imp]
    intro _
    exact hs.own n hn p hm

/-! Tags come and go with the patterns. -/

/-- Every pattern has its tag. -/
def AllTagged (h : Highlighter) : Prop := ∀ p ∈ h.patterns, ∃ tag, (p.id, tag) ∈ h.patternTags

/-- The tags of patterns that are gone are cleared. -/
theorem TaggedIn.dropStaleTags (hs : TaggedIn N (h, d)) :
    TaggedIn N (h.dropStaleTags d) ∧ ∀ n p, (h.dropStaleTags d).2.tags.Marks n p ↔
      d.tags.Marks n p ∧ ¬∃ id ∈ h.staleTags, d.tags.name? id = some n := by
  obtain ⟨htidy, hmarks⟩ := hs.tidy.clearEach h.staleTags
  rw [Highlighter.dropStaleTags, Document.foldl_clearTag]
  refine ⟨hs.relaid (TagTable.relaid_modifyEach _ _ _) htidy fun n hn p hp => ?_, hmarks⟩
  obtain ⟨hp, hgone⟩ := (hmarks n p).1 hp
  obtain ⟨id, hid, hname⟩ := hs.own n hn p hp
  rcases List.mem_append.1 hid with hid | hid
  · exact ⟨id, List.mem_append_left _ hid, hname⟩
  · exact absurd ⟨id, hid, hname⟩ hgone

/-- Patterns get their tags one after the other. -/
theorem TaggedIn.patternTags {ps : List Pattern} (hs : TaggedIn N s)
    (hps : ∀ p ∈ ps, p ∈ s.1.patterns) :
    let s' := ps.foldl (fun s p => (s.1.patternTag s.2 p.id p.style).2) s
    TaggedIn N s' ∧ Makes s s' ∧ ∀ p ∈ ps, ∃ tag, (p.id, tag) ∈ s'.1.patternTags := by
  induction ps generalizing s with
  | nil => exact ⟨hs, .refl s, by simp⟩
  | cons q ps ih =>
    obtain ⟨hfound, hmem⟩ := hs.patternTag ⟨q, hps q List.mem_cons_self, rfl, rfl⟩
    obtain ⟨hT, hmakes, hall⟩ := ih hfound.tagged fun p hp => by
      rw [hfound.makes.patterns]
      exact hps p (List.mem_cons_of_mem q hp)
    exact ⟨hT, hfound.makes.trans hmakes,
      List.forall_mem_cons.2 ⟨⟨_, hmakes.patternTags hmem⟩, hall⟩⟩

/-- The tags of patterns that are gone are cleared, and those of new ones made. -/
theorem TaggedIn.resolveTags (hs : TaggedIn N (h, d)) :
    TaggedIn N (h.resolveTags d) ∧ (h.resolveTags d).1.staleTags = [] ∧
      (h.resolveTags d).1.AllTagged ∧ ∀ n p, (h.resolveTags d).2.tags.Marks n p ↔
        d.tags.Marks n p ∧ ¬∃ id ∈ h.staleTags, d.tags.name? id = some n := by
  obtain ⟨hdropped, hmarks⟩ := hs.dropStaleTags
  have hps : ∀ p ∈ h.patterns, p ∈ (h.dropStaleTags d).1.patterns := fun p hp => hp
  obtain ⟨hT, hmakes, hall⟩ := hdropped.patternTags hps
  refine ⟨hT, hmakes.stale, ?_, fun n p => (hmakes.marks n p).trans (hmarks n p)⟩
  have hpatterns : (h.resolveTags d).1.patterns = h.patterns := hmakes.patterns
  rw [AllTagged, hpatterns]
  exact hall

end Highlighter
end CodeBuffer
