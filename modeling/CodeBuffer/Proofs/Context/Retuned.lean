import CodeBuffer.Proofs.Context.Edited

namespace CodeBuffer

open Delimiter DelimiterTable

/-- A change of other tags: those with names in `N` stay where they are and what they are. -/
structure Document.Spares (N : String → Prop) (d d' : Document) : Prop where
  text : d'.text = d.text
  id : d'.id = d.id
  names : ∀ id n, d.tags.name? id = some n → d'.tags.name? id = some n
  styles : ∀ id n, N n → d.tags.name? id = some n → d'.tags.style? id = d.tags.style? id
  tidy : d.tags.Tidy d.length → d'.tags.Tidy d.length
  marks : ∀ n, N n → ∀ p, d'.tags.Marks n p ↔ d.tags.Marks n p

theorem Document.spares_of_tags {N : String → Prop} {d d' : Document} (htext : d'.text = d.text)
    (hid : d'.id = d.id) (htags : d'.tags = d.tags) : d.Spares N d' := by
  refine ⟨htext, hid, fun id n h => ?_, fun id n _ _ => ?_, fun h => ?_, fun n _ p => ?_⟩
  · rw [htags]
    exact h
  · rw [htags]
  · rw [htags]
    exact h
  · rw [htags]

theorem TagTable.marks_modifyRanges_of_ne {t : TagTable} {id : TagId} {n : String} {p : Nat}
    (h : t.name? id ≠ some n) (f : Region → Region) :
    (t.modifyRanges id f).Marks n p ↔ t.Marks n p := by
  simp only [Marks, name?_modifyRanges, ranges?_modifyRanges]
  refine exists_congr fun id' => exists_congr fun r => and_congr_right fun hname => ?_
  have hne : id ≠ id' := fun heq => h (heq ▸ hname)
  rw [if_neg hne]

namespace Highlighter

variable {N : String → Prop} {h g : Highlighter} {d d' : Document} {e : Edit}

/-! Work on the document that is not the highlighter's -/

theorem TaggedIn.spares (hs : TaggedIn N (h, d)) (hd : d.Spares N d') : TaggedIn N (h, d') := by
  have hlength : d'.length = d.length := congrArg List.length hd.text
  refine ⟨?_, fun c hc => ?_, fun c hc => hd.names c.2 _ (hs.context c hc), fun n hn p hp => ?_⟩
  · dsimp only
    rw [hlength]
    exact hd.tidy hs.tidy
  · obtain ⟨hname, q, hq, hid, hstyle⟩ := hs.pattern c hc
    exact ⟨hd.names c.2 _ hname, q, hq, hid,
      fun hn => (hd.styles c.2 _ hn hname).trans (hstyle hn)⟩
  · obtain ⟨id, hid, hname⟩ := hs.own n hn p ((hd.marks n hn p).1 hp)
    exact ⟨id, hid, hd.names id n hname⟩

theorem Reliable.spares (hs : Reliable N (h, d)) (hd : d.Spares N d') : Reliable N (h, d') := by
  have hshows (p : Nat) (state : Option PatternKey) (hp : Shows N (h, d) p state) :
      Shows N (h, d') p state := hp.congr rfl fun n hn => hd.marks n hn p
  refine ⟨⟨?_, ?_, hs.tagged.spares hd, .inl hs.settled, fun p hp hclean => ?_,
    fun p hfirst hlast hclean => hshows p _ (hs.held p hfirst hlast hclean)⟩, hs.settled⟩
  · rw [isAttachedTo, hd.id]
    exact hs.attached
  · dsimp only
    rw [hd.text]
    exact hs.sound
  · dsimp only at hp
    rw [hd.text] at hp
    exact hshows p _ (hs.painted p hp hclean)

theorem AwayIn.spares (hs : AwayIn N (h, d)) (hd : d.Spares N d') : AwayIn N (h, d') :=
  ⟨hs.attached, hs.none, hs.tagged.spares hd⟩

/-- An edit that the highlighter is not told of. -/
theorem AwayIn.movedBy (hs : AwayIn N (h, d)) (hm : d.MovedBy e d') : AwayIn N (h, d') := by
  obtain ⟨hpatterns, hclasses, hstale⟩ := hs.none
  dsimp only at hpatterns hclasses hstale
  refine ⟨hs.attached, hs.none, hm.tidy hs.tagged.tidy, ?_, ?_, fun n hn p hp => ?_⟩
  · dsimp only
    rw [hpatterns]
    simp
  · dsimp only
    rw [hclasses]
    simp
  · obtain ⟨q, hq⟩ := hm.source hs.tagged.tidy n p hp
    obtain ⟨id, hid, hname⟩ := hs.tagged.own n hn q hq
    exact ⟨id, hid, (hm.relaid.name id).trans hname⟩

theorem AwayIn.resize (hs : AwayIn N (h, d)) (batchSize : Nat) (estimates : List Nat) :
    AwayIn N ({ h with batchSize, estimates }, d) :=
  ⟨hs.attached, hs.none, hs.tagged.tidy, hs.tagged.pattern, hs.tagged.context, hs.tagged.own⟩

theorem Reliable.schemeChanged (hs : Reliable N (h, d)) : Reliable N (h.schemeChanged d) := by
  have hsound : (h.announce 0 h.bufferLength).Sound d.text := { hs.sound with }
  have htagged : TaggedIn N (h.announce 0 h.bufferLength, d) :=
    ⟨hs.tagged.tidy, hs.tagged.pattern, hs.tagged.context, hs.tagged.own⟩
  rw [Highlighter.schemeChanged, if_pos hs.attached]
  exact ⟨hs.toFaithful.of_same ⟨rfl, rfl, rfl⟩ hsound htagged rfl rfl rfl, hs.settled⟩

theorem AwayIn.schemeChanged (hs : AwayIn N (h, d)) : AwayIn N (h.schemeChanged d) := by
  have ha : h.attached = .none := hs.attached
  have hnot : h.isAttachedTo d = false := by
    rw [isAttachedTo, ha]
    rfl
  rw [Highlighter.schemeChanged, hnot]
  exact hs

/-! Other patterns -/

/-- Where all is out of date, nothing is said of where tags lie. -/
theorem faithful_of_dirty (ha : g.isAttachedTo d = true) (hsound : g.Sound d.text)
    (htagged : TaggedIn N (g, d)) (hall : ∀ p < d.text.length, g.refresh.contains p = true) :
    Faithful N (g, d) := by
  have hnone (p : Nat) (hp : p < d.text.length) (hclean : g.refresh.contains p = false) :
      False := by
    rw [hall p hp] at hclean
    cases hclean
  refine ⟨ha, hsound, htagged, .inr hall, fun p hp hclean => ?_, fun p _ hlast hclean => ?_⟩
  · exact (hnone p (Nat.lt_of_lt_of_le hp hsound.table.reach_le) hclean).elim
  · obtain ⟨c, hc, hpc⟩ := hlast
    have hle := offset_le_of_rank_le (hsound.table.old_before c hc)
    exact (hnone p (Nat.lt_of_lt_of_le hpc hle) hclean).elim

/-- When the tags follow the patterns, what was highlighted stays so. -/
theorem Faithful.syncTags (hs : Faithful N (h, d)) : Reliable N (h.syncTags d) := by
  have hsync : h.syncTags d = h.resolveTags d := if_pos hs.attached
  rw [hsync]
  obtain ⟨htagged, hstale, -, hmarks⟩ := hs.tagged.resolveTags
  have hdocument := (h.painted_resolveTags d).document
  have hsame := h.sameButTags_resolveTags d
  have hsound := hs.sound.relieved (.of_sameButTags hsame)
  generalize h.resolveTags d = s at htagged hstale hmarks hdocument hsame hsound
  obtain ⟨g, d'⟩ := s
  obtain ⟨patternTags, classTags, staleTags, rfl⟩ := hsame
  obtain ⟨tags, rfl⟩ := hdocument
  rcases hs.stale with hnone | hdirty
  · have hnone : h.staleTags = [] := hnone
    have hshows (p : Nat) (state : Option PatternKey) (hp : Shows N (h, d) p state) :
        Shows N ({ h with patternTags, classTags, staleTags }, { d with tags }) p state := by
      refine hp.congr rfl fun n _ => ?_
      rw [hmarks, hnone]
      simp
    exact ⟨⟨hs.attached, hsound, htagged, .inl hstale,
      fun p hp hclean => hshows p _ (hs.painted p hp hclean),
      fun p hfirst hlast hclean => hshows p _ (hs.held p hfirst hlast hclean)⟩, hstale⟩
  · exact ⟨faithful_of_dirty hs.attached hsound htagged hdirty, hstale⟩

/-- A highlighter that comes to a document has all to do. -/
theorem AwayIn.attach (hs : AwayIn N (h, d)) : Reliable N (h.attach d) := by
  have ha := hs.arrived
  generalize h.attach d = s at ha ⊢
  exact ⟨faithful_of_dirty ha.attached ha.sound ha.tagged ha.dirty, ha.settled⟩

variable [PatternEngine]

theorem Faithful.tune (hs : Faithful N (h, d)) (c : Tuning) : Faithful N (h.tune c, d) := by
  have hsound := hs.sound.tune c
  have htagged := hs.tagged.tune c
  have ha : (h.tune c).isAttachedTo d = true := by
    rw [isAttachedTo, attached_tune]
    exact hs.attached
  rcases h.tune_eq c with ⟨nextKey, -, heq⟩ | ⟨void, g, hg, heq⟩
  · rw [heq] at hsound htagged ha ⊢
    exact hs.of_same ⟨rfl, rfl, rfl⟩ hsound htagged rfl rfl rfl
  · apply faithful_of_dirty ha hsound htagged
    intro p hp
    rw [heq]
    exact hg.dirty hs.sound hs.attached hp

theorem Faithful.tuneAll (hs : Faithful N (h, d)) (cs : List Tuning) :
    Faithful N (h.tuneAll cs, d) := by
  induction cs generalizing h with
  | nil => exact hs
  | cons c cs ih => exact ih (hs.tune c)

end Highlighter
end CodeBuffer
