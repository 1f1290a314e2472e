import CodeBuffer.Proofs.Painting.Upkept

namespace CodeBuffer

open Delimiter DelimiterTable PlainLanguage

namespace Highlighter

variable {N : String → Prop} {h g k : Highlighter} {d : Document} {c : Tuning} {void : Bool}

/-! Patterns that go leave their tags to be cleared. -/

/-- The tags of the patterns, and of those that are gone. -/
def patternOwn (h : Highlighter) : List TagId := h.patternTags.map (·.2) ++ h.staleTags

theorem mem_ownTags_iff_patternOwn {tag : TagId} :
    tag ∈ h.ownTags ↔ tag ∈ h.patternOwn ∨ tag ∈ h.classTags.map (·.2) := by
  simp only [ownTags, patternOwn, List.mem_append]
  exact or_right_comm

/-- Tags of patterns are kept in mind, or wait to be cleared from then on. -/
structure Sheds (h g : Highlighter) : Prop where
  patternTags : g.patternTags ⊆ h.patternTags
  classTags : g.classTags = h.classTags
  own : ∀ tag, tag ∈ g.patternOwn ↔ tag ∈ h.patternOwn

namespace Sheds

theorem refl (h : Highlighter) : h.Sheds h := ⟨List.Subset.refl _, rfl, fun _ => Iff.rfl⟩

theorem trans (hs : h.Sheds g) (hs' : g.Sheds k) : h.Sheds k :=
  ⟨List.Subset.trans hs'.patternTags hs.patternTags, hs'.classTags.trans hs.classTags,
    fun tag => (hs'.own tag).trans (hs.own tag)⟩

theorem mem_ownTags_iff (hs : h.Sheds g) {tag : TagId} : tag ∈ g.ownTags ↔ tag ∈ h.ownTags := by
  rw [mem_ownTags_iff_patternOwn, hs.own, hs.classTags, mem_ownTags_iff_patternOwn]

end Sheds

/-! On a document -/

/-- Where all is out of date, only the enclosures need to be right. -/
theorem upkept_of_dirty (ha : g.isAttachedTo d = true) (hsound : g.Sound d.text)
    (htagged : Tagged (g, d)) (hunheld : g.table.old = none)
    (hseam : d.text.IsSeam (g.table.frontier.reach d.text))
    (htracks : ∀ L : PlainLanguage, L.SpokenBy g → L.Tracks d.text [] 0 g.table)
    (hall : ∀ p < d.text.length, g.refresh.contains p = true) : Upkept (g, d) := by
  refine ⟨ha, hsound, htagged, hunheld, hseam, htracks, .inr hall, fun L hL hps p hp hclean n => ?_⟩
  have hdirty := hall p (Nat.lt_of_lt_of_le hp hsound.table.reach_le)
  rw [hdirty] at hclean
  cases hclean

/-- A table that knows nothing has all that is seen as far as it goes. -/
theorem tracks_reset (t : Text) {L : PlainLanguage} (hL : L.SpokenBy h) :
    L.Tracks t [] 0 (.reset !h.hasDelimited) := by
  cases hd : h.hasDelimited with
  | true => exact tracks_of_explores (Nat.zero_le _) (.nothing 0 none)
  | false =>
    have hnone : L.pairs = [] := by
      have hsearch := hL.1
      rw [hasDelimited_eq_false_iff.1 hd] at hsearch
      exact List.forall₂_nil_left_iff.1 hsearch
    refine tracks_of_explores (Nat.le_refl _) ⟨Nat.zero_le _, fun o _ _ => ?_⟩
    rw [sightingAt, sought, hnone]
    rfl

theorem isSeam_reset (t : Text) (complete : Bool) :
    t.IsSeam ((DelimiterTable.reset complete).frontier.reach t) := by
  cases complete with
  | true => exact .inl (Nat.le_refl _)
  | false => exact .inr (.inl rfl)

/-- With the patterns all is out of date. -/
theorem dirty_retuned (ha : g.isAttached = true) (hw : g.refresh.WellFormed) (void : Bool) {p : Nat}
    (hp : p < g.bufferLength) :
    (if void then g.invalidateAll else g.refreshAll).refresh.contains p = true := by
  have hall (k : Highlighter) (hk : k.isAttached = true) (hkw : k.refresh.WellFormed)
      (hkp : p < k.bufferLength) : k.refreshAll.refresh.contains p = true := by
    rw [refreshAll, if_pos hk]
    exact (contains_refreshRange hkw _ _ _).2 (.inl ⟨Nat.zero_le p, hkp⟩)
  cases void with
  | false => exact hall g ha hw hp
  | true => exact hall { g with table := .reset !g.hasDelimited } ha hw hp

/-- When the tags follow the patterns, what was highlighted stays so. -/
theorem Upkept.syncTags (hs : Upkept (h, d)) : Settled (h.syncTags d) := by
  have hsync : h.syncTags d = h.resolveTags d := if_pos hs.attached
  rw [hsync]
  obtain ⟨htagged, hstale, hall, hmarks⟩ := hs.tagged.resolveTags
  have hdocument := (h.painted_resolveTags d).document
  have hsame := h.sameButTags_resolveTags d
  have hsound := hs.sound.relieved (.of_sameButTags hsame)
  generalize h.resolveTags d = s at htagged hstale hall hmarks hdocument hsame hsound
  obtain ⟨g, d'⟩ := s
  obtain ⟨patternTags, classTags, staleTags, rfl⟩ := hsame
  obtain ⟨tags, rfl⟩ := hdocument
  refine ⟨⟨hs.attached, hsound, htagged, hs.unheld, hs.seam, hs.tracks, .inl hstale,
    fun L hL hps p hp hclean n => ?_⟩, hstale, hall⟩
  -- where something is up to date no tag waits to be cleared
  have hnone : h.staleTags = [] := hs.stale.resolve_right fun hdirty => by
    have hp := hdirty p (Nat.lt_of_lt_of_le hp hs.sound.table.reach_le)
    rw [hp] at hclean
    cases hclean
  refine (hmarks n p).trans ?_
  rw [hnone]
  simp only [List.not_mem_nil, false_and, exists_false, not_false_eq_true, and_true]
  exact (hs.painted L hL hps p hp hclean n).trans (shade_congr rfl rfl).symm

/-- A highlighter that is attached to nothing has no tags. -/
structure AwayIn (N : String → Prop) (s : Work) : Prop where
  attached : s.1.attached = none
  none : s.1.patternTags = [] ∧ s.1.classTags = [] ∧ s.1.staleTags = []
  tagged : TaggedIn N s

/-- And there are no others. -/
abbrev Away (s : Work) : Prop := AwayIn (fun _ => True) s

/-- A highlighter that has come to a document and done nothing yet. -/
def arrived (h : Highlighter) (d : Document) : Highlighter :=
  { h.resetState with attached := some d.id, bufferLength := d.length }

theorem attach_eq (h : Highlighter) (d : Document) :
    h.attach d =
      let s := (h.arrived d).resolveTags d
      (s.1.refreshRange 0 s.1.bufferLength, s.2) := rfl

theorem attach_same (h : Highlighter) (d : Document) :
    ∃ refresh announced, h.attach d =
      let s := (h.arrived d).resolveTags d
      ({ s.1 with refresh, announced }, s.2) := by
  obtain ⟨refresh, announced, heq⟩ := ((h.arrived d).resolveTags d).1.refreshRange_eq 0
    ((h.arrived d).resolveTags d).1.bufferLength
  refine ⟨refresh, announced, ?_⟩
  rw [attach_eq]
  dsimp only
  rw [← heq]

/-- What an arrival leaves of a highlighter, whatever its tags are. -/
structure Begun (s : Work) : Prop where
  attached : s.1.isAttachedTo s.2 = true
  sound : s.1.Sound s.2.text
  table : s.1.table = .reset !s.1.hasDelimited
  requests : s.1.requests = .empty
  dirty : ∀ p < s.2.length, s.1.refresh.contains p = true

theorem begun_attach (h : Highlighter) (d : Document) : Begun (h.attach d) := by
  obtain ⟨hsound, hattached⟩ := h.sound_attach d
  have hdocument : d.SameButTags (h.attach d).2 :=
    ((h.arrived d).painted_resolveTags d).document
  obtain ⟨patternTags, classTags, staleTags, hsame⟩ := (h.arrived d).sameButTags_resolveTags d
  obtain ⟨refresh, announced, heq⟩ := h.attach_same d
  refine ⟨?_, ?_, ?_, ?_, fun p hp => ?_⟩
  · rw [isAttachedTo, hattached, hdocument.id_eq]
    exact beq_self_eq_true _
  · rw [hdocument.text_eq]
    exact hsound
  · rw [heq]
    dsimp only
    rw [hsame]
    rfl
  · rw [heq]
    dsimp only
    rw [hsame]
    rfl
  · have hlength : p < d.length := by
      rwa [Document.length, hdocument.text_eq] at hp
    rw [attach_eq]
    dsimp only
    rw [hsame]
    exact (contains_refreshRange Region.wellFormed_empty _ _ _).2 (.inl ⟨Nat.zero_le p, hlength⟩)

/-- A highlighter that comes to a document has all to do. -/
structure Arrived (N : String → Prop) (s : Work) : Prop where
  attached : s.1.isAttachedTo s.2 = true
  sound : s.1.Sound s.2.text
  tagged : TaggedIn N s
  settled : s.1.staleTags = []
  all : s.1.AllTagged
  table : s.1.table = .reset !s.1.hasDelimited
  dirty : ∀ p < s.2.text.length, s.1.refresh.contains p = true

theorem AwayIn.arrived (hs : AwayIn N (h, d)) : Arrived N (h.attach d) := by
  have hbegin : TaggedIn N (h.arrived d, d) :=
    ⟨hs.tagged.tidy, hs.tagged.pattern, hs.tagged.context, hs.tagged.own⟩
  obtain ⟨htagged, hstale, hall, -⟩ := hbegin.resolveTags
  have hbegun := h.begun_attach d
  obtain ⟨refresh, announced, hattach⟩ := h.attach_same d
  rw [hattach] at hbegun ⊢
  exact ⟨hbegun.attached, hbegun.sound,
    ⟨htagged.tidy, htagged.pattern, htagged.context, htagged.own⟩, hstale, hall, hbegun.table,
    hbegun.dirty⟩

theorem Away.attach (hs : Away (h, d)) : Settled (h.attach d) := by
  have ha := AwayIn.arrived hs
  generalize h.attach d = s at ha ⊢
  obtain ⟨g, d'⟩ := s
  refine ⟨upkept_of_dirty ha.attached ha.sound ha.tagged ?_ ?_ (fun L hL => ?_) ha.dirty,
    ha.settled, ha.all⟩
  · rw [ha.table]
    rfl
  · rw [ha.table]
    exact isSeam_reset _ _
  · rw [ha.table]
    exact tracks_reset d'.text (h := g) hL

/-- A highlighter that leaves a document takes all its tags off it. -/
theorem TaggedIn.detach (hs : TaggedIn N (h, d)) (ha : h.isAttachedTo d = true) :
    AwayIn N (h.detach d) := by
  have hdetach : h.detach d =
      ({ h with patternTags := [], classTags := [], staleTags := [] }.resetState,
        { d with tags := d.tags.modifyEach h.ownTags fun _ => .empty }) := by
    rw [Highlighter.detach, if_pos ha, ownTags, ← Document.foldl_clearTag]
  obtain ⟨htidy, hmarks⟩ := hs.tidy.clearEach h.ownTags
  rw [hdetach]
  refine ⟨rfl, ⟨rfl, rfl, rfl⟩, htidy, by simp [resetState], by simp [resetState],
    fun n hn p hp => ?_⟩
  obtain ⟨hp, hgone⟩ := (hmarks n p).1 hp
  exact absurd (hs.own n hn p hp) hgone

/-- A new highlighter is attached to nothing, and a new document has no tags. -/
theorem away_new (config : BatchConfig) (id : Nat) (t : Text) :
    AwayIn N (ofConfig config, Document.new id t) := by
  refine ⟨rfl, ⟨rfl, rfl, rfl⟩, ⟨.nil, ?_⟩, by simp [ofConfig], by simp [ofConfig], ?_⟩
  · rintro id r hr
    cases hr
  · rintro n - p ⟨id, r, hname, -⟩
    cases hname

/-- The rules of a highlighter go with it from document to document. -/
theorem rules_attach (h : Highlighter) (d : Document) :
    (h.attach d).1.patterns = h.patterns ∧ (h.attach d).1.escape = h.escape ∧
      (h.attach d).1.nextKey = h.nextKey := by
  obtain ⟨_, _, _, hsame⟩ := (h.arrived d).sameButTags_resolveTags d
  obtain ⟨refresh, announced, hattach⟩ := h.attach_same d
  rw [hattach]
  dsimp only
  rw [hsame]
  exact ⟨rfl, rfl, rfl⟩

/-! Other patterns -/

variable [PatternEngine]

/-- Tags of patterns that are gone wait to be cleared. -/
theorem TaggedIn.sheds_retunes (hs : TaggedIn N (h, d)) (hg : Retunes h c void g) : h.Sheds g := by
  cases hg with
  | addPattern hnew hq => exact ⟨List.Subset.refl _, rfl, fun _ => Iff.rfl⟩
  | @removePattern id p hp =>
    refine ⟨List.filter_subset_self _, rfl, fun tag => ?_⟩
    simp only [patternOwn, List.mem_append, Option.mem_toList]
    constructor
    · rintro (htag | htag | htag)
      · obtain ⟨e, he, rfl⟩ := List.mem_map.1 htag
        exact .inl (List.mem_map_of_mem (List.mem_filter.1 he).1)
      · exact .inr htag
      · exact .inl (List.mem_map_of_mem (f := (·.2)) (mem_of_lookup htag))
    · rintro (htag | htag)
      · obtain ⟨e, he, rfl⟩ := List.mem_map.1 htag
        by_cases heid : e.1 = id
        · -- all tags of that name are one
          cases hfound : h.patternTags.lookup id with
          | none => exact absurd heid (ne_of_lookup_eq_none hfound e he)
          | some tag =>
            have hsame : e.2 = tag := hs.tidy.name?_inj (heid ▸ (hs.pattern e he).1)
              (hs.pattern _ (mem_of_lookup hfound)).1
            exact .inr (.inr (by rw [hsame]))
        · refine .inl (List.mem_map_of_mem (List.mem_filter.2 ⟨he, ?_⟩))
          simpa using heid
      · exact .inr (.inl htag)
  | setEscape escape => exact ⟨List.Subset.refl _, rfl, fun _ => Iff.rfl⟩
  | setLanguage hcompiled =>
    refine ⟨List.nil_subset _, rfl, fun tag => ?_⟩
    simp only [patternOwn, List.mem_append, List.map_nil, List.not_mem_nil, false_or]
    exact or_comm

theorem TaggedIn.retunes (hs : TaggedIn N (h, d)) (hg : Retunes h c void g) :
    TaggedIn N (g, d) := by
  have hsheds := hs.sheds_retunes hg
  refine ⟨hs.tidy, fun e he => ?_, fun e he => ?_, fun n hn p hp => ?_⟩
  · obtain ⟨hname, r, hr, hrid, hstyle⟩ := hs.pattern e (hsheds.patternTags he)
    refine ⟨hname, r, ?_, hrid, hstyle⟩
    cases hg with
    | addPattern hnew hq => exact List.mem_append_left _ hr
    | @removePattern id p hp =>
      have hne := (List.mem_filter.1 he).2
      have hkeeps : (r.id == id) = false := by
        rw [hrid]
        simpa using hne
      exact (List.mem_eraseP_of_neg (by simp [hkeeps])).2 hr
    | setEscape escape => exact hr
    | setLanguage hcompiled => cases he
  · rw [hsheds.classTags] at he
    exact hs.context e he
  · obtain ⟨tag, htag, hname⟩ := hs.own n hn p hp
    exact ⟨tag, hsheds.mem_ownTags_iff.2 htag, hname⟩

theorem TaggedIn.tune (hs : TaggedIn N (h, d)) (c : Tuning) : TaggedIn N (h.tune c, d) := by
  rcases h.tune_eq c with ⟨nextKey, -, heq⟩ | ⟨void, g, hg, heq⟩
  · rw [heq]
    exact ⟨hs.tidy, hs.pattern, hs.context, hs.own⟩
  · obtain ⟨table, refresh, announced, heq', -⟩ := g.retuned_eq void
    have hg := hs.retunes hg
    rw [heq, heq']
    exact ⟨hg.tidy, hg.pattern, hg.context, hg.own⟩

theorem Retunes.dirty (hg : Retunes h c void g) (hs : h.Sound d.text)
    (ha : h.isAttachedTo d = true) {p : Nat} (hp : p < d.text.length) :
    (if void then g.invalidateAll else g.refreshAll).refresh.contains p = true := by
  have hretuned := hg.retuned
  have hattached : g.isAttached = true := by
    rw [isAttached, hretuned.attached, beq_iff_eq.1 ha]
    rfl
  refine dirty_retuned hattached (hretuned.refresh ▸ hs.refresh.1) void ?_
  rwa [hretuned.bufferLength, hs.bufferLength]

/-- Other patterns leave all to be highlighted anew. -/
theorem Upkept.tune (hs : Upkept (h, d)) (c : Tuning) : Upkept (h.tune c, d) := by
  have hsound := hs.sound.tune c
  have htagged := hs.tagged.tune c
  have ha : (h.tune c).isAttachedTo d = true := by
    rw [isAttachedTo, attached_tune]
    exact hs.attached
  rcases h.tune_eq c with ⟨nextKey, -, heq⟩ | ⟨void, g, hg, heq⟩
  · rw [heq] at hsound htagged ha ⊢
    exact hs.of_same ⟨rfl, rfl, rfl⟩ hsound htagged rfl rfl rfl
  · have hall (p : Nat) (hp : p < d.text.length) : (h.tune c).refresh.contains p = true := by
      rw [heq]
      exact hg.dirty hs.sound hs.attached hp
    obtain ⟨table, refresh, announced, hsame, htable⟩ := g.retuned_eq void
    rw [heq, hsame] at hsound htagged ha hall ⊢
    cases void with
    | true =>
      rw [if_pos rfl] at htable
      obtain rfl := htable
      exact upkept_of_dirty ha hsound htagged rfl (isSeam_reset _ _)
        (fun L hL => tracks_reset d.text (h := g) hL) hall
    | false =>
      obtain ⟨hdelimited, hescape⟩ := hg.delimited_eq
      rw [if_neg Bool.false_ne_true, hg.retuned.table] at htable
      obtain rfl := htable
      refine upkept_of_dirty ha hsound htagged hs.unheld hs.seam (fun L hL => ?_) hall
      have hL' : L.SpokenBy h := ⟨hdelimited ▸ hL.1, hescape ▸ hL.2⟩
      exact hs.tracks L hL'

theorem AwayIn.tune (hs : AwayIn N (h, d)) (c : Tuning) : AwayIn N (h.tune c, d) := by
  refine ⟨(attached_tune h c).trans hs.attached, ?_, hs.tagged.tune c⟩
  obtain ⟨hpatterns, hclasses, hstale⟩ := hs.none
  rcases h.tune_eq c with ⟨nextKey, -, heq⟩ | ⟨void, g, hg, heq⟩
  · rw [heq]
    exact hs.none
  · obtain ⟨table, refresh, announced, hsame, -⟩ := g.retuned_eq void
    rw [heq, hsame]
    cases hg with
    | addPattern hnew hq => exact hs.none
    | removePattern hp =>
      dsimp only at hpatterns hclasses hstale ⊢
      rw [hpatterns, hstale]
      exact ⟨rfl, hclasses, rfl⟩
    | setEscape escape => exact hs.none
    | setLanguage hcompiled =>
      dsimp only at hpatterns hclasses hstale ⊢
      rw [hpatterns, hstale]
      exact ⟨rfl, hclasses, rfl⟩

/-! The patterns stay while a highlighter works. -/

theorem working_registered : Working fun s => s.1.Registered where
  build s hs needed := by
    obtain ⟨table, refresh, batchSize, estimates, announced, heq⟩ := s.1.build_same s.2.text needed
    dsimp only
    rw [heq]
    exact hs
  highlightLines s hs i := by
    obtain ⟨_, _, _, hsame⟩ := s.1.sameButTags_highlightRegion s.2 (s.2.text.lineStartOf i.start)
      (s.1.paintStop s.2.text i.stop)
    rw [highlightLines_eq]
    dsimp only
    split
    · rw [hsame]
      exact hs
    · exact hs
  request s hs requests _ := hs

theorem Registered.sameButTags (hr : h.Registered) (hs : h.SameButTags g) : g.Registered := by
  obtain ⟨_, _, _, rfl⟩ := hs
  exact hr

theorem Registered.attach (hr : h.Registered) (d : Document) : (h.attach d).1.Registered := by
  obtain ⟨hpatterns, -, hnext⟩ := h.rules_attach d
  rw [Registered, hpatterns, hnext]
  exact hr

theorem Registered.detach (hr : h.Registered) (d : Document) : (h.detach d).1.Registered := by
  refine iteInduction (motive := fun s : Work => s.1.Registered) (fun _ => ?_) (fun _ => hr)
  exact hr

theorem Upkept.tuneAll (hs : Upkept (h, d)) (cs : List Tuning) : Upkept (h.tuneAll cs, d) := by
  induction cs generalizing h with
  | nil => exact hs
  | cons c cs ih => exact ih (hs.tune c)

theorem AwayIn.tuneAll (hs : AwayIn N (h, d)) (cs : List Tuning) :
    AwayIn N (h.tuneAll cs, d) := by
  induction cs generalizing h with
  | nil => exact hs
  | cons c cs ih => exact ih (hs.tune c)

end Highlighter
end CodeBuffer
