import CodeBuffer.Proofs.Context.Kept
import CodeBuffer.Proofs.Painting.Handles
import CodeBuffer.Proofs.Painting.Independence

namespace CodeBuffer

open Delimiter DelimiterTable

/-! A highlighter that comes to a document without having left another one. -/

theorem Chunk.collect_nil (c : Chunk) (pos : Nat) (inside : Option PatternKey) :
    c.collect [] pos inside = [] := by
  cases inside <;> rfl

namespace Highlighter

variable {h g : Highlighter} {d : Document} {n : String} {p : Nat}

/-- Comes to a document and highlights all of it. -/
def takeOver (h : Highlighter) (d : Document) : Work :=
  let s := h.attach d
  s.1.highlightAll s.2

/-- One batch up to the end of the text finds what one scan of it finds. -/
theorem table_build_of_reset (htable : g.table = .reset false) (t : Text) :
    (g.build t t.length).table = g.scratchTable t := by
  have hpending : g.table.frontier = .pending 0 := by
    rw [htable]
    rfl
  rcases g.build_cases t t.length hpending rfl with
    ⟨before, c, behind, cs, rest, es, e, -, hold, -⟩ | ⟨old, -, hbuild⟩
  · rw [htable] at hold
    simp [reset, oldEntries] at hold
  · rw [hbuild, batchStop_length, htable]
    cases old <;>
      simp [DelimiterTable.finishBatch, reset, scratchTable, scratch, lastState, stateAfter]

/-- Who waits for all of a text that nothing is known of waits for one batch at most. -/
theorem catchUp_of_reset {t : Text} (hs : g.Sound t) (htable : g.table = .reset !g.hasDelimited) :
    ∃ refresh batchSize estimates announced, g.catchUp t t.length =
        { g with table := g.scratchTable t, refresh, batchSize, estimates, announced } ∧
      refresh.Below t.length ∧ ∀ p, g.refresh.contains p = true → refresh.contains p = true := by
  cases hdelimited : g.hasDelimited with
  | false =>
    have hscratch : g.scratchTable t = g.table := by
      rw [htable, hdelimited, scratchTable, scratch, hasDelimited_eq_false_iff.1 hdelimited,
        Chunk.collect_nil]
      rfl
    have hcomplete : g.table.frontier = .complete := by
      rw [htable, hdelimited]
      rfl
    refine ⟨g.refresh, g.batchSize, g.estimates, g.announced, ?_, hs.refresh, fun p hp => hp⟩
    rw [catchUp, owesLast, hcomplete, hscratch]
    exact buildUntil_of_covers g t (by rw [hcomplete]; rfl) _
  | true =>
    rw [hdelimited, Bool.not_true] at htable
    have hpending : g.table.frontier = .pending 0 := by
      rw [htable]
      rfl
    have htable' := table_build_of_reset htable t
    have hcomplete : (g.build t t.length).table.frontier = .complete := by
      rw [htable']
      rfl
    have hcatch : g.catchUp t t.length = g.build t t.length := by
      have hdone := buildUntil_of_covers (g.build t t.length) t (o := t.length)
        (by rw [hcomplete]; rfl)
      have howes : g.owesLast t = decide (t.length ≤ 0) := by
        rw [owesLast, hpending]
      rw [catchUp, howes]
      by_cases hempty : t.length ≤ 0
      · rw [decide_eq_true hempty, if_pos rfl, hdone]
      · have hcovers : g.table.frontier.covers t.length = false := by
          rw [hpending]
          exact decide_eq_false hempty
        rw [decide_eq_false hempty, if_neg Bool.false_ne_true,
          buildUntil_succ hcovers (.inl hcomplete), hdone]
    have hbelow := (hs.build t.length).refresh
    have hkept (p : Nat) (hp : g.refresh.contains p = true) :
        (g.build t t.length).refresh.contains p = true :=
      (contains_refresh_build hs.refresh.1 hpending t.length p).2 (.inr hp)
    obtain ⟨table, refresh, batchSize, estimates, announced, hbuild⟩ := g.build_same t t.length
    rw [hbuild] at htable' hbelow hkept
    refine ⟨refresh, batchSize, estimates, announced, ?_, hbelow, hkept⟩
    rw [hcatch, hbuild, ← htable']

/-- Where all is analysed and out of date, all is highlighted at once. -/
theorem ensureHighlighted_all (hcomplete : h.table.frontier = .complete)
    (hbelow : h.refresh.Below d.length) (hdirty : ∀ p < d.length, h.refresh.contains p = true) :
    d.length = 0 ∧ (h.ensureHighlighted d 0 d.length).2 = d ∨
      (h.ensureHighlighted d 0 d.length).2 = (h.highlightRegion d 0 d.length).2 := by
  have hcontains (p : Nat) :
      (h.refresh.intersect 0 d.length).contains p = true ↔ p < d.length := by
    rw [Region.contains_intersect]
    exact ⟨fun hp => hp.2.2, fun hp => ⟨hdirty p hp, Nat.zero_le p, hp⟩⟩
  have hwell := Region.wellFormed_intersect hbelow.1 0 d.length
  rcases Nat.eq_zero_or_pos d.length with hempty | hpos
  · left
    have hnone : h.refresh.intersect 0 d.length = .empty := by
      apply eq_empty_of_contains hwell
      intro p
      rw [← Bool.not_eq_true, hcontains]
      omega
    rw [ensureHighlighted, hnone]
    exact ⟨hempty, rfl⟩
  · right
    have hone : h.refresh.intersect 0 d.length = ⟨[⟨0, d.length⟩]⟩ := by
      apply Region.eq_of_contains hwell
      · simpa [Region.WellFormed, Region.Separated] using hpos
      · intro p
        rw [hcontains]
        simp [Region.contains, Interval.contains]
    have hstart : d.text.lineStartOf 0 = 0 := by
      have := d.text.lineStartOf_le 0
      omega
    have hstop : h.paintStop d.text d.length = d.length := by
      rw [paintStop, hcomplete]
      exact d.text.lineBoundary_length
    rw [ensureHighlighted, hone, List.foldl_cons, List.foldl_nil, highlightLines_eq]
    dsimp only
    rw [hstart, hstop, if_pos hpos]

/-- To highlight lines changes nothing of a highlighter but its tags and what is out of date. -/
theorem ensureHighlighted_same (h : Highlighter) (d : Document) (start stop : Nat) :
    ∃ refresh patternTags classTags staleTags, (h.ensureHighlighted d start stop).1 =
      { h with refresh, patternTags, classTags, staleTags } := by
  have lines (is : List Interval) (s : Work) :
      ∃ refresh patternTags classTags staleTags, (is.foldl highlightLines s).1 =
        { s.1 with refresh, patternTags, classTags, staleTags } := by
    induction is generalizing s with
    | nil => exact ⟨_, _, _, _, rfl⟩
    | cons i is ih =>
      obtain ⟨_, _, _, _, hrest⟩ := ih (highlightLines s i)
      obtain ⟨_, _, _, hsame⟩ := s.1.sameButTags_highlightRegion s.2
        (s.2.text.lineStartOf i.start) (s.1.paintStop s.2.text i.stop)
      rw [List.foldl_cons, hrest, highlightLines_eq]
      dsimp only
      split
      · rw [hsame]
        exact ⟨_, _, _, _, rfl⟩
      · exact ⟨_, _, _, _, rfl⟩
  exact lines _ (h, d)

theorem takeOver_eq (h : Highlighter) (d : Document) :
    ∃ refresh batchSize estimates announced, h.takeOver d =
        ({ (h.attach d).1 with
          table := h.scratchTable d.text, refresh, batchSize, estimates, announced } :
            Highlighter).ensureHighlighted (h.attach d).2 0 d.length ∧
      refresh.Below d.length ∧ ∀ p < d.length, refresh.contains p = true := by
  have hbegun := h.begun_attach d
  have hdocument : d.SameButTags (h.attach d).2 :=
    ((h.arrived d).painted_resolveTags d).document
  obtain ⟨hpatterns, hescape, -⟩ := h.rules_attach d
  obtain ⟨refresh, batchSize, estimates, announced, hcatch, hbelow, hkept⟩ :=
    catchUp_of_reset hbegun.sound hbegun.table
  have hlength : (h.attach d).2.length = d.length := congrArg List.length hdocument.text_eq
  have hscratch : (h.attach d).1.scratchTable d.text = h.scratchTable d.text := by
    rw [scratchTable, scratch, hpatterns, hescape, scratchTable, scratch]
  have hdirty := hbegun.dirty
  rw [hlength] at hdirty
  rw [hdocument.text_eq] at hcatch hbelow
  refine ⟨refresh, batchSize, estimates, announced, ?_, hbelow, fun p hp => hkept p (hdirty p hp)⟩
  have hall := updateHighlight_eq_catchUp hbegun.attached 0 (h.attach d).2.length
  rw [Nat.min_self, Nat.zero_min, hdocument.text_eq, hlength] at hall
  rw [takeOver, highlightAll, hlength, hall]
  have hboundary : d.text.lineBoundary d.length = d.text.length := d.text.lineBoundary_length
  rw [hboundary, hcatch, hscratch]

/-- Of what a highlighter knew before, only its rules and its tags are left. -/
theorem takeOver_same (h : Highlighter) (d : Document) :
    ∃ batchSize estimates patternTags classTags staleTags announced, (h.takeOver d).1 =
      { h.arrived d with
        table := h.scratchTable d.text, refresh := .empty, batchSize, estimates, patternTags,
        classTags, staleTags, announced } := by
  obtain ⟨refresh, batchSize, estimates, announced, htake, hbelow, -⟩ := h.takeOver_eq d
  obtain ⟨_, _, hattach⟩ := h.attach_same d
  obtain ⟨_, _, _, hresolved⟩ := (h.arrived d).sameButTags_resolveTags d
  have hlength : (h.attach d).2.length = d.length :=
    congrArg List.length ((h.arrived d).painted_resolveTags d).document.text_eq
  obtain ⟨k, hk⟩ : ∃ k : Highlighter, k =
    { (h.attach d).1 with
      table := h.scratchTable d.text, refresh, batchSize, estimates, announced } := ⟨_, rfl⟩
  rw [← hk] at htake
  have hkbelow : k.refresh.Below d.length := by rw [hk]; exact hbelow
  have hcovers : k.table.frontier.covers d.length = true := by rw [hk]; rfl
  have hempty : (k.ensureHighlighted (h.attach d).2 0 d.length).1.refresh = .empty := by
    have hwell := (relieved_ensureHighlighted k (h.attach d).2 0 d.length).refresh.1 hkbelow.1
    refine eq_empty_of_contains hwell fun p => Bool.eq_false_iff.2 fun hp => ?_
    obtain ⟨hold, hout⟩ := refresh_ensureHighlighted (Nat.le_of_eq hlength.symm) hcovers p hp
    exact hout ⟨Nat.zero_le p, hkbelow.2 p hold⟩
  obtain ⟨_, patternTags, classTags, staleTags, hpainted⟩ :=
    k.ensureHighlighted_same (h.attach d).2 0 d.length
  refine ⟨batchSize, estimates, patternTags, classTags, staleTags, announced, ?_⟩
  rw [hpainted] at hempty
  dsimp only at hempty
  rw [htake, hpainted, hempty, hk, hattach]
  dsimp only
  rw [hresolved]

theorem strokes_congr (hpatterns : g.patterns = h.patterns) (place : Place) (spans : List Span) :
    g.strokes place spans = h.strokes place spans := by
  induction spans generalizing place with
  | nil => rfl
  | cons span spans ih => rw [strokes, strokes, ih, spanStrokes, spanStrokes, hpatterns]

theorem Rekeyed.strokes_eq {f : PatternKey → PatternKey} (hr : Rekeyed f g h) (place : Place)
    (spans : List Span) :
    h.strokes place (spans.map (·.rekey f)) = g.strokes place spans := by
  induction spans generalizing place with
  | nil => rfl
  | cons span spans ih =>
    rw [List.map_cons, strokes, strokes, hr.spanStrokes_eq]
    exact congrArg _ (ih _)

/-- What all of a text is tagged with. -/
def allStrokes (h : Highlighter) (t : Text) : List Stroke :=
  h.strokes (.front 0 t) ((h.scratchTable t).spans 0 t.length)

theorem Rekeyed.allStrokes_eq {f : PatternKey → PatternKey} (hr : Rekeyed f g h) (t : Text) :
    h.allStrokes t = g.allStrokes t := by
  rw [allStrokes, scratchTable, hr.scratch_eq, spans_rekey, hr.strokes_eq]
  rfl

/-- On a document that is taken over the tag of a name lies where the strokes of the name go. Where
it was before it stays, unless it is the tag of a pattern or was kept in mind. -/
theorem Knows.takeOver (hk : Knows n (h, d)) (hd : d.tags.Tidy d.length) :
    (h.takeOver d).2.tags.Tidy d.length ∧ ∀ p < d.length, (h.takeOver d).2.tags.Marks n p ↔
      (d.tags.Marks n p ∧ ¬(∃ q ∈ h.patterns, q.id = n) ∧
          ¬∃ tag ∈ h.ownTags, d.tags.name? tag = some n) ∨
        ∃ k ∈ h.allStrokes d.text, k.Marks n p := by
  have harrived : Knows n (h.arrived d, d) := hk.of_handles rfl
  obtain ⟨hknows, htidy, hstale, hheld, hmarks⟩ := harrived.resolveTags hd
  obtain ⟨refresh, announced, hattach⟩ := h.attach_same d
  obtain ⟨refresh', batchSize, estimates, announced', htake, hbelow, hdirty⟩ := h.takeOver_eq d
  obtain ⟨hpatterns, -, -⟩ := h.rules_attach d
  have htext := ((h.arrived d).painted_resolveTags d).document.text_eq
  rw [hattach] at htake hpatterns
  generalize (h.arrived d).resolveTags d = s
    at hknows htidy hstale hheld hmarks htake hpatterns htext
  obtain ⟨g, d'⟩ := s
  dsimp only at hknows htidy hstale hheld hmarks htake hpatterns htext
  have hlength : d'.length = d.length := congrArg List.length htext
  obtain ⟨k, hkdef⟩ : ∃ k : Highlighter, k =
    { g with
      table := h.scratchTable d.text, refresh := refresh', batchSize, estimates,
      announced := announced' } := ⟨_, rfl⟩
  have hhandles : k.handles = g.handles := by rw [hkdef]; rfl
  have hkstale : k.staleTags = [] := by rw [hkdef]; exact hstale
  have hkpatterns : k.patterns = h.patterns := by rw [hkdef]; exact hpatterns
  have hktable : k.table = h.scratchTable d.text := by rw [hkdef]
  have hkrefresh : k.refresh = refresh' := by rw [hkdef]
  rw [← hkdef, ← hlength] at htake
  rw [← hkrefresh, ← hlength] at hbelow hdirty
  rw [← hlength] at htidy ⊢
  have hcomplete : k.table.frontier = .complete := by rw [hktable]; rfl
  obtain ⟨hfinal, hpainted⟩ :=
    (hknows.of_handles hhandles).highlightRegion htidy hkstale 0 d'.length
  have hkstrokes : k.strokes (.front 0 (d'.text.slice 0 d'.length)) (k.table.spans 0 d'.length) =
      h.allStrokes d.text := by
    have hslice : d'.text.slice 0 d'.length = d'.text := List.take_length
    rw [hslice, htext, hlength, hktable, strokes_congr hkpatterns]
    rfl
  rw [htake]
  rcases ensureHighlighted_all hcomplete hbelow hdirty with ⟨hempty, hensure⟩ | hensure
  · rw [hensure]
    refine ⟨htidy, fun p hp => ?_⟩
    omega
  · rw [hensure]
    refine ⟨hfinal, fun p hp => ?_⟩
    -- what is kept in mind on arrival comes off before the strokes are painted
    have hcleared : (∃ e ∈ k.handles, e.1 = n) ∧ 0 ≤ p ∧ p < d'.length ↔
        (∃ e ∈ h.handles, e.1 = n) ∨ ∃ q ∈ h.patterns, q.id = n := by
      rw [and_iff_left ⟨Nat.zero_le p, hp⟩, hhandles]
      exact hheld
    have hold : d'.tags.Marks n p ↔
        d.tags.Marks n p ∧ ¬∃ id ∈ h.staleTags, d.tags.name? id = some n := hmarks p
    rw [hpainted p hp, hkstrokes, hcleared, hold, hk.exists_ownTags_iff]
    refine or_congr_left ?_
    rw [not_or, not_or, and_assoc]
    exact and_congr_right fun _ => ⟨fun ⟨hstale, hheld, hq⟩ => ⟨hq, hheld, hstale⟩,
      fun ⟨hq, hheld, hstale⟩ => ⟨hstale, hheld, hq⟩⟩

/-- The names under which a highlighter puts tags on a text. -/
def Paints (h : Highlighter) (n : String) : Prop :=
  (∃ q ∈ h.patterns, q.id = n) ∨
    ∃ q ∈ delimitedOf h.patterns, ∃ c, q.contextClass = some c ∧ Document.classTagName c = n

theorem paints_of_mem_strokes {place : Place} {spans : List Span} {k : Stroke}
    (hk : k ∈ h.strokes place spans) : h.Paints k.label.name := by
  have hfits := fits_of_mem_strokes hk
  obtain ⟨place', ⟨start, stop, key⟩, -, hk⟩ := exists_span_of_mem_strokes hk
  cases key with
  | some key =>
    obtain ⟨q, hq, rfl | ⟨c, hc, rfl⟩⟩ := mem_spanStrokes_some.1 hk
    · obtain ⟨r, hr, hid, -⟩ := hfits
      exact .inl ⟨r, hr, hid⟩
    · exact .inr ⟨q, List.mem_of_find?_eq_some hq, c, hc, rfl⟩
  | none =>
    simp only [spanStrokes, List.mem_map] at hk
    obtain ⟨m, -, rfl⟩ := hk
    obtain ⟨r, hr, hid, -⟩ := hfits
    exact .inl ⟨r, hr, hid⟩

/-- Who keeps no tags in mind is mistaken about none. -/
theorem knows_of_handles_nil (hnone : h.handles = []) (n : String) (d : Document) :
    Knows n (h, d) := by
  refine ⟨fun e he => ?_, fun _ e he => ?_⟩ <;>
  · rw [hnone] at he
    cases he

theorem tagless_of_ofLanguage [PatternEngine] {config : BatchConfig} {l : Language}
    (hg : ofLanguage config l = .ok g) : g.handles = [] ∧ g.ownTags = [] := by
  have haway : AwayIn (fun _ => False) ((ofConfig config).tuneAll [.setLanguage l], .new 0 []) :=
    (away_new config 0 []).tuneAll _
  rw [← eq_tuneAll_of_ofLanguage hg] at haway
  obtain ⟨hpattern, hclass, hstale⟩ := haway.none
  rw [handles, ownTags, hpattern, hclass, hstale]
  exact ⟨rfl, rfl⟩

/-- A highlighter that has highlighted all of a document, with nothing left to do. -/
structure Served (d : Document) (s : Work) : Prop where
  document : d.SameButTags s.2
  attached : s.1.isAttachedTo s.2 = true
  complete : s.1.table.frontier = .complete
  refresh : s.1.refresh = .empty
  requests : s.1.requests = .empty

theorem served_takeOver (h : Highlighter) (d : Document) : Served d (h.takeOver d) := by
  obtain ⟨_, _, _, _, _, _, hsame⟩ := h.takeOver_same d
  obtain ⟨_, _, _, _, htake, -, -⟩ := h.takeOver_eq d
  have hdocument : d.SameButTags (h.takeOver d).2 := by
    rw [htake]
    exact ((h.arrived d).painted_resolveTags d).document.trans
      (painted_ensureHighlighted _ _ _ _).document
  rw [← Prod.eta (h.takeOver d), hsame]
  refine ⟨hdocument, ?_, rfl, rfl, rfl⟩
  rw [isAttachedTo, hdocument.id_eq]
  exact beq_self_eq_true _

/-- A highlighter may come from a document that it has not left. On the new one all is found that a
new highlighter with the same patterns and escape character finds, and of every name it is not
mistaken about the tag lies where the new highlighter puts it, unless it lay somewhere before and is
kept in mind without a pattern. A tag of which no pattern knows stays. -/
theorem Reachable.takenOver_as_fresh [PatternEngine] {d₀ : Document} (hs : Reachable (h, d₀))
    (hd : d.tags.Tidy d.length) (config : BatchConfig) (id name : String) :
    ∃ g, ofLanguage config (h.language id name) = .ok g ∧
      let final := h.takeOver d
      let fresh := g.takeOver d
      Served d final ∧ Served d fresh ∧ final.1.delimiters = fresh.1.delimiters ∧
        ∀ n, Knows n (h, d) →
          ((∃ q ∈ h.patterns, q.id = n) ∨ (∀ p, ¬d.tags.Marks n p) ∨
            ∀ tag ∈ h.ownTags, d.tags.name? tag ≠ some n) →
          final.2.tags.rangesOf n = fresh.2.tags.rangesOf n ∧
            (¬h.Paints n → final.2.tags.rangesOf n = d.tags.rangesOf n) := by
  obtain ⟨g, hg, f, hr⟩ := hs.registered.exists_ofLanguage config id name
  obtain ⟨hhandles, hown⟩ := tagless_of_ofLanguage hg
  refine ⟨g, hg, h.served_takeOver d, g.served_takeOver d, ?_, fun n hk hspared => ?_⟩
  · obtain ⟨_, _, _, _, _, _, hsame⟩ := h.takeOver_same d
    obtain ⟨_, _, _, _, _, _, hsame'⟩ := g.takeOver_same d
    have hr' : Rekeyed f (g.takeOver d).1 (h.takeOver d).1 := by
      rw [hsame, hsame']
      exact ⟨hr.injective, hr.patterns, hr.escape⟩
    refine hr'.delimiters_eq ?_
    rw [hsame, hsame']
    exact hr.scratch_eq d.text
  · obtain ⟨htidy, hmarks⟩ := hk.takeOver hd
    obtain ⟨htidy', hmarks'⟩ := (knows_of_handles_nil hhandles n d).takeOver hd
    have hnamed : (∃ q ∈ g.patterns, q.id = n) ↔ ∃ q ∈ h.patterns, q.id = n := by
      rw [hr.patterns]
      simp only [List.mem_map, exists_exists_and_eq_and, Pattern.id_rekey]
    have hcleared {p : Nat} (hp : d.tags.Marks n p) (hq : ¬∃ q ∈ h.patterns, q.id = n) :
        ¬∃ tag ∈ h.ownTags, d.tags.name? tag = some n := by
      rintro ⟨tag, htag, hname⟩
      rcases hspared with hpattern | hempty | hforeign
      · exact hq hpattern
      · exact hempty p hp
      · exact hforeign tag htag hname
    refine ⟨htidy.rangesOf_eq htidy' fun p hp => ?_, fun hpaints =>
      htidy.rangesOf_eq hd fun p hp => ?_⟩
    · rw [hmarks p hp, hmarks' p hp, hr.allStrokes_eq, hnamed, hown]
      simp only [List.not_mem_nil, false_and, exists_false, not_false_eq_true, and_true]
      exact or_congr_left (and_congr_right fun hold =>
        and_iff_left_of_imp fun hq => hcleared hold hq)
    · have hpattern : ¬∃ q ∈ h.patterns, q.id = n := fun hq => hpaints (.inl hq)
      have hstroke : ¬∃ k ∈ h.allStrokes d.text, k.Marks n p := by
        rintro ⟨k, hmem, rfl, -⟩
        exact hpaints (paints_of_mem_strokes hmem)
      rw [hmarks p hp, or_iff_left hstroke]
      exact and_iff_left_of_imp fun hold => ⟨hpattern, hcleared hold hpattern⟩

/-! A highlighter of a keyword that is taken from one document to another -/

theorem Reachable.takeOver [PatternEngine] {d : Document} (hs : Reachable (h, d)) :
    Reachable (h.takeOver d) :=
  (hs.step (.attach h d)).step (.updateHighlight (h.attach d).1 (h.attach d).2 0 _ true)

open scoped Regex

def keywordPattern : Pattern :=
  .simple ⟨"keyword", "s", .ofLengthAt "if" (Place.wordAt ['i', 'f']) Place.wordAt_le⟩

def keywordHighlighter : Highlighter := { ofConfig {} with patterns := [keywordPattern] }

theorem compile_keyword : compile 0 (.simple "keyword" "s" "if") = .ok keywordPattern := by
  have hread : Regex.read? "if" = some (.literal ['i', 'f']) := by decide +kernel
  exact compile_iff.2 (.simple (Matcher.compileMatcher_of_literal hread (by decide +kernel)))

theorem tune_keyword :
    (ofConfig {}).tune (.addPattern (.simple "keyword" "s" "if")) = keywordHighlighter := by
  have hcompiled : compile (ofConfig {}).nextKey (.simple "keyword" "s" "if") =
      .ok keywordPattern := compile_keyword
  change ((ofConfig {}).addPattern _).1 = _
  rw [addPattern, hcompiled]
  rfl

theorem ofLanguage_keyword (id name : String) :
    ofLanguage {} (keywordHighlighter.language id name) = .ok keywordHighlighter := by
  have hall : compileAll (ofConfig {}).nextKey [] (keywordHighlighter.language id name).patterns =
      (0, .ok keywordHighlighter.patterns) := by
    change compileAll 0 [] [.simple "keyword" "s" "if"] = _
    rw [compileAll, compile_keyword]
    rfl
  rw [ofLanguage, setLanguage, hall]
  rfl

/-- The highlighter on the document that it comes from. -/
def keywordWork : Work := keywordHighlighter.takeOver (.new 0 ['i', 'f'])

theorem reachable_keywordWork : Reachable keywordWork := by
  have htuned := (Reachable.fresh {} (.new 0 ['i', 'f'])).step
    (.tune _ _ (.addPattern (.simple "keyword" "s" "if")))
  rw [tune_keyword] at htuned
  exact htuned.takeOver

theorem ofLanguage_keywordWork (id name : String) :
    ofLanguage {} (keywordWork.1.language id name) = .ok keywordHighlighter := by
  obtain ⟨_, _, _, _, _, _, hsame⟩ := keywordHighlighter.takeOver_same (.new 0 ['i', 'f'])
  have hlanguage : keywordWork.1.language id name = keywordHighlighter.language id name := by
    rw [keywordWork, hsame]
    rfl
  rw [hlanguage, ofLanguage_keyword]

/-- A document on which the tag of the keyword is the first one, too, but lies elsewhere. -/
def searchedDocument : Document :=
  { Document.new 1 ['i', 'f', ' ', 'x'] with
    tags := ((TagTable.empty.create "keyword" (some "s")).2.create "search" none).2.addRanges
      [(0, ⟨2, 4⟩), (1, ⟨1, 3⟩)] }

theorem tidy_searchedDocument : searchedDocument.tags.Tidy searchedDocument.length := by
  have hempty : TagTable.empty.Tidy 4 :=
    (away_new (N := fun _ => True) {} 1 ['i', 'f', ' ', 'x']).tagged.tidy
  exact ((hempty.create "keyword" _).create "search" _).addRanges (by decide)

theorem takenOver_as_fresh_searched :
    (Reachable keywordWork ∧ searchedDocument.tags.Tidy searchedDocument.length ∧
      Knows "keyword" (keywordWork.1, searchedDocument) ∧
      Knows "search" (keywordWork.1, searchedDocument)) ∧
    ∃ g, ofLanguage {} (keywordWork.1.language "words" "Words") = .ok g ∧
      (keywordWork.1.takeOver searchedDocument).2.tags.rangesOf "keyword" =
        (g.takeOver searchedDocument).2.tags.rangesOf "keyword" ∧
      (keywordWork.1.takeOver searchedDocument).2.tags.rangesOf "search" =
        searchedDocument.tags.rangesOf "search" := by
  have hhandles : keywordWork.1.handles = [("keyword", 0)] := by decide +kernel
  have hfirst : searchedDocument.tags.name? 0 = some "keyword" := by decide +kernel
  have hknows (n : String) : Knows n (keywordWork.1, searchedDocument) := by
    refine ⟨fun e he => ?_, fun _ e he => ?_⟩ <;> rw [hhandles, List.mem_singleton] at he
    · rw [he, hfirst, Option.some.injEq]
    · exact ⟨"keyword", by rw [he, hfirst]⟩
  obtain ⟨g, hg, -, -, -, hranges⟩ := Reachable.takenOver_as_fresh reachable_keywordWork
    tidy_searchedDocument {} "words" "Words"
  have hids : keywordWork.1.patterns.map (·.id) = ["keyword"] := by decide +kernel
  have hdelimited : delimitedOf keywordWork.1.patterns = [] := rfl
  obtain ⟨q, hq, hid⟩ := List.mem_map.1 (hids ▸ List.mem_singleton_self "keyword")
  have hforeign : ∀ tag ∈ keywordWork.1.ownTags,
      searchedDocument.tags.name? tag ≠ some "search" := by
    decide +kernel
  have hpaints : ¬keywordWork.1.Paints "search" := by
    rintro (⟨q, hq, hid⟩ | ⟨q, hq, -⟩)
    · have hmem := List.mem_map_of_mem (f := (·.id)) hq
      rw [hids, List.mem_singleton, hid] at hmem
      exact absurd hmem (by decide)
    · rw [hdelimited] at hq
      cases hq
  refine ⟨⟨reachable_keywordWork, tidy_searchedDocument, hknows _, hknows _⟩, g, hg, ?_, ?_⟩
  · exact (hranges "keyword" (hknows _) (.inl ⟨q, hq, hid⟩)).1
  · exact (hranges "search" (hknows _) (.inr (.inr hforeign))).2 hpaints

/-- On a document without tags the highlighter takes the tag of the keyword to be there, and puts
none on the text. Where another tag is the first one, this one is put on the keyword instead. -/
theorem not_takenOver_as_fresh_keyword :
    (Reachable keywordWork ∧ keywordWork.1.isAttachedTo keywordWork.2 = true) ∧
    ∃ g, ofLanguage {} (keywordWork.1.language "words" "Words") = .ok g ∧
      (∃ d : Document, d.tags = .empty ∧
        (keywordWork.1.takeOver d).2.tags.rangesOf "keyword" = .empty ∧
        (g.takeOver d).2.tags.rangesOf "keyword" = ⟨[⟨0, 2⟩]⟩) ∧
      ∃ d : Document, d.tags = (TagTable.empty.create "search" none).2 ∧
        (keywordWork.1.takeOver d).2.tags.rangesOf "search" = ⟨[⟨0, 2⟩]⟩ ∧
        (g.takeOver d).2.tags.rangesOf "search" = .empty := by
  refine ⟨⟨reachable_keywordWork, by decide +kernel⟩, keywordHighlighter,
    ofLanguage_keywordWork _ _, ⟨.new 1 ['i', 'f'], rfl, by decide +kernel, by decide +kernel⟩, ?_⟩
  exact ⟨{ Document.new 1 ['i', 'f'] with tags := (TagTable.empty.create "search" none).2 }, rfl,
    by decide +kernel, by decide +kernel⟩

end Highlighter
end CodeBuffer
