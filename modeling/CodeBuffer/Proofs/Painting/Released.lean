import CodeBuffer.Proofs.Painting.Framed
import CodeBuffer.Proofs.Upkeep.Refused

namespace CodeBuffer

open Highlighter

/-- What lies nowhere has no ranges. -/
theorem TagTable.Tidy.rangesOf_eq_empty {t : TagTable} {length : Nat} {n : String}
    (ht : t.Tidy length) (hn : ∀ p, ¬t.Marks n p) : t.rangesOf n = .empty := by
  refine eq_empty_of_contains (ht.wellFormed_rangesOf n) fun p => Bool.eq_false_iff.2 fun hp => ?_
  exact hn p (ht.contains_rangesOf.1 hp)

namespace Highlighter

variable {M M' N : String → Prop} {h : Highlighter} {d d' : Document} {s s' : Work} {n : String}
  {c : Tuning} {cs : List Tuning}

/-! Tags that are cleared -/

/-- A highlighter that leaves a document leaves no tag behind. -/
theorem TaggedIn.rangesOf_detach (hs : TaggedIn N (h, d)) (ha : h.isAttachedTo d = true)
    (hn : N n ∨ ∃ tag ∈ h.ownTags, d.tags.name? tag = some n) :
    (h.detach d).2.tags.rangesOf n = .empty := by
  have hdetach : (h.detach d).2 =
      { d with tags := d.tags.modifyEach h.ownTags fun _ => .empty } := by
    rw [Highlighter.detach, if_pos ha, ← Document.foldl_clearTag]
    rfl
  obtain ⟨htidy, hmarks⟩ := hs.tidy.clearEach h.ownTags
  rw [hdetach]
  refine htidy.rangesOf_eq_empty fun p hp => ?_
  obtain ⟨hp, hgone⟩ := (hmarks n p).1 hp
  rcases hn with hN | hown
  · exact hgone (hs.own n hN p hp)
  · exact hgone hown

theorem AwayIn.ownTags_eq_nil (hs : AwayIn N (h, d)) : h.ownTags = [] := by
  obtain ⟨hpatterns, hclasses, hstale⟩ := hs.none
  dsimp only at hpatterns hclasses hstale
  rw [ownTags, hpatterns, hclasses, hstale]
  rfl

/-- And while it is away there is none. -/
theorem AwayIn.rangesOf_eq_empty (hs : AwayIn N (h, d)) (hn : N n) :
    d.tags.rangesOf n = .empty := by
  refine hs.tagged.tidy.rangesOf_eq_empty fun p hp => ?_
  obtain ⟨tag, htag, -⟩ := hs.tagged.own n hn p hp
  rw [hs.ownTags_eq_nil] at htag
  cases htag

/-! In a buffer -/

/-- A highlighter that keeps tags in mind under names in `M`, knows where those of names in `N` lie,
and has one for each of its patterns. -/
structure Stewards (M N : String → Prop) (s : Work) : Prop where
  framed : Framed M s
  reliable : Reliable N s
  all : s.1.AllTagged

/-- A highlighter that has left. -/
structure Parted (M N : String → Prop) (s : Work) : Prop where
  framed : Framed M s
  away : AwayIn N s

theorem working_allTagged (N : String → Prop) : Working fun s => Reliable N s ∧ s.1.AllTagged where
  build s hs needed := by
    refine ⟨(working_reliable N).build s hs.1 needed, ?_⟩
    obtain ⟨table, refresh, batchSize, estimates, announced, heq⟩ := s.1.build_same s.2.text needed
    rw [heq]
    exact hs.2
  highlightLines s hs i := by
    refine ⟨(working_reliable N).highlightLines s hs.1 i, ?_⟩
    rw [highlightLines_eq]
    dsimp only
    split
    · have hbrushed := hs.1.tagged.highlightRegion hs.1.settled (s.2.text.lineStartOf i.start)
        (s.1.paintStop s.2.text i.stop)
      intro q hq
      obtain ⟨_, _, _, hsame⟩ := hbrushed.highlighter
      have hpatterns : (s.1.highlightRegion s.2 (s.2.text.lineStartOf i.start)
          (s.1.paintStop s.2.text i.stop)).1.patterns = s.1.patterns := by rw [hsame]
      obtain ⟨tag, htag⟩ := hs.2 q (hpatterns ▸ hq)
      exact ⟨tag, hbrushed.patternTags htag⟩
    · exact hs.2
  request s hs requests hbelow := ⟨(working_reliable N).request s hs.1 requests hbelow, hs.2⟩

theorem Stewards.mono (hs : Stewards M N s) (hM : ∀ n, M n → M' n) : Stewards M' N s :=
  ⟨hs.framed.mono hM, hs.reliable, hs.all⟩

theorem Parted.mono (hs : Parted M N s) (hM : ∀ n, M n → M' n) : Parted M' N s :=
  ⟨hs.framed.mono hM, hs.away⟩

theorem Parted.attach (hs : Parted M N (h, d)) : Stewards M N (h.attach d) := by
  have harrived := hs.away.arrived
  exact ⟨hs.framed.attach.framed, hs.away.attach, harrived.all⟩

theorem Stewards.detach (hs : Stewards M N (h, d)) : Parted M N (h.detach d) :=
  ⟨hs.framed.detach.framed, hs.reliable.tagged.detach hs.reliable.attached⟩

theorem Stewards.movedBy {e : Edit} (hs : Stewards M N (h, d)) (he : d.MovedBy e d') :
    Stewards M N (h.editedBy d' e) := by
  refine ⟨((hs.framed.movedBy he).perform (.edited e)).framed, hs.reliable.editedBy he, ?_⟩
  refine iteInduction (motive := fun g : Highlighter => g.AllTagged) (fun _ => ?_) (fun _ => hs.all)
  obtain ⟨_, _, _, _, _, heq⟩ := h.edited_same d'.text e
  rw [heq]
  exact hs.all

theorem Stewards.schemeChanged (hs : Stewards M N (h, d)) : Stewards M N (h.schemeChanged d) := by
  refine ⟨(hs.framed.perform .schemeChanged).framed, hs.reliable.schemeChanged, ?_⟩
  exact iteInduction (motive := fun g : Highlighter => g.AllTagged) (fun _ => hs.all)
    (fun _ => hs.all)

theorem Parted.schemeChanged (hs : Parted M N (h, d)) : Parted M N (h.schemeChanged d) :=
  ⟨(hs.framed.perform .schemeChanged).framed, hs.away.schemeChanged⟩

theorem Stewards.updateHighlight (hs : Stewards M N (h, d)) (start stop : Nat)
    (synchronous : Bool) : Stewards M N (h.updateHighlight d start stop synchronous) := by
  obtain ⟨hreliable, hall⟩ :=
    (working_allTagged N).updateHighlight ⟨hs.reliable, hs.all⟩ start stop synchronous
  exact ⟨(hs.framed.perform (.updateHighlight start stop synchronous)).framed, hreliable, hall⟩

theorem Stewards.runIdleSlice (hs : Stewards M N (h, d)) : Stewards M N (h.runIdleSlice d).2 := by
  obtain ⟨hreliable, hall⟩ := (working_allTagged N).runIdleSlice ⟨hs.reliable, hs.all⟩
  exact ⟨(hs.framed.perform .runIdleSlice).framed, hreliable, hall⟩

/-- What a highlighter and a document come to in the midst of the work: the text is edited and tags
with names outside of `N` change, and the highlighter is told or asked to do something. -/
inductive Amid (N : String → Prop) (s : Work) : Work → Prop where
  | here : Amid N s s
  | edit {h : Highlighter} {d d' : Document} {e : Edit} (before : Amid N s (h, d))
      (he : d.MovedBy e d') : Amid N s (h, d')
  | change {h : Highlighter} {d d' : Document} (before : Amid N s (h, d)) (hd : d.Spares N d') :
      Amid N s (h, d')
  | task {s' : Work} (before : Amid N s s') (task : Task) : Amid N s (task.perform s')

theorem Framed.amid (hs : Framed M s) (hamid : Amid N s s') : Framed M s' := by
  induction hamid with
  | here => exact hs
  | edit _ he ih => exact ih.movedBy he
  | change _ hd ih => exact ih.spares hd
  | task _ task ih => exact (ih.perform task).framed

/-! Patterns that are taken away -/

variable [PatternEngine]

theorem TaggedIn.sheds_tune (hs : TaggedIn N (h, d)) (c : Tuning) : h.Sheds (h.tune c) := by
  rcases h.tune_eq c with ⟨nextKey, -, heq⟩ | ⟨void, g, hg, heq⟩
  · rw [heq]
    exact ⟨List.Subset.refl _, rfl, fun _ => Iff.rfl⟩
  · obtain ⟨table, refresh, announced, heq', -⟩ := g.retuned_eq void
    rw [heq, heq']
    have hsheds := hs.sheds_retunes hg
    exact ⟨hsheds.patternTags, hsheds.classTags, hsheds.own⟩

theorem TaggedIn.tuneAll (hs : TaggedIn N (h, d)) (cs : List Tuning) :
    TaggedIn N (h.tuneAll cs, d) := by
  induction cs generalizing h with
  | nil => exact hs
  | cons c cs ih => exact ih (hs.tune c)

theorem TaggedIn.sheds_tuneAll (hs : TaggedIn N (h, d)) (cs : List Tuning) :
    h.Sheds (h.tuneAll cs) := by
  induction cs generalizing h with
  | nil => exact .refl h
  | cons c cs ih => exact (hs.sheds_tune c).trans (ih (hs.tune c))

/-- A change that takes a pattern away, or puts those of a language in its place. -/
def Dismisses (h : Highlighter) (c : Tuning) (n : String) : Prop :=
  n ∈ h.patterns.map (·.id) ∧
    match c with
    | .removePattern id => id = n
    | .setLanguage l => (h.setLanguage l).2 = .ok ()
    | _ => False

/-- One of some changes takes the pattern of that name away. -/
def Dismissed (h : Highlighter) (cs : List Tuning) (n : String) : Prop :=
  ∃ ahead c behind, cs = ahead ++ c :: behind ∧ (h.tuneAll ahead).Dismisses c n

theorem Dismisses.forgets (hn : h.Dismisses c n) : ∀ e ∈ (h.tune c).patternTags, e.1 ≠ n := by
  obtain ⟨hmem, hc⟩ := hn
  cases c with
  | addPattern p => exact hc.elim
  | setEscape escape => exact hc.elim
  | removePattern id =>
    obtain rfl : id = n := hc
    rw [tune, removePattern]
    cases hfind : h.pattern? id with
    | none =>
      have hsome := isSome_pattern?_iff.2 hmem
      rw [hfind] at hsome
      cases hsome
    | some p =>
      dsimp only
      split <;> simp
  | setLanguage l =>
    have hok : (h.setLanguage l).2 = .ok () := hc
    rw [tune]
    rw [setLanguage] at hok ⊢
    split at hok
    · cases hok
    · simp

theorem TaggedIn.forgets_tuneAll (hs : TaggedIn N (h, d)) (hn : h.Dismissed cs n) :
    ∀ e ∈ (h.tuneAll cs).patternTags, e.1 ≠ n := by
  obtain ⟨ahead, c, behind, rfl, hc⟩ := hn
  have hbehind := ((hs.tuneAll ahead).tune c).sheds_tuneAll behind
  intro e he
  have hsplit : h.tuneAll (ahead ++ c :: behind) = ((h.tuneAll ahead).tune c).tuneAll behind := by
    rw [Highlighter.tuneAll, List.foldl_append, List.foldl_cons]
    rfl
  rw [hsplit] at he
  exact hc.forgets e (hbehind.patternTags he)

/-- When the tags follow the patterns, those of patterns that were taken away lie nowhere. -/
theorem TaggedIn.rangesOf_dismissed (hs : TaggedIn N (h, d)) (hall : h.AllTagged)
    (hn : h.Dismissed cs n)
    (hknown : n ∈ h.patterns.map (·.id) ∨ N n ∧ ∀ c, n ≠ Document.classTagName c) :
    ((h.tuneAll cs).resolveTags d).2.tags.rangesOf n = .empty := by
  have htuned := hs.tuneAll cs
  have hsheds := hs.sheds_tuneAll cs
  have hforgets := hs.forgets_tuneAll hn
  obtain ⟨hresolved, -, -, hmarks⟩ := htuned.resolveTags
  refine hresolved.tidy.rangesOf_eq_empty fun p hp => ?_
  obtain ⟨hp, hleft⟩ := (hmarks n p).1 hp
  -- a tag of the name that was a pattern's waits to be cleared
  have stale (tag : TagId) (htag : tag ∈ (h.tuneAll cs).patternOwn)
      (hname : d.tags.name? tag = some n) : False := by
    rcases List.mem_append.1 htag with htag | htag
    · obtain ⟨e, he, rfl⟩ := List.mem_map.1 htag
      have hsame := (htuned.pattern e he).1
      exact hforgets e he (Option.some.inj (hsame.symm.trans hname))
    · exact hleft ⟨tag, htag, hname⟩
  rcases hknown with hpattern | ⟨hN, hclass⟩
  · obtain ⟨q, hq, rfl⟩ := List.mem_map.1 hpattern
    obtain ⟨tag, htag⟩ := hall q hq
    have hown : tag ∈ h.patternOwn :=
      List.mem_append_left _ (List.mem_map_of_mem (f := (·.2)) htag)
    exact stale tag ((hsheds.own tag).2 hown) (hs.pattern _ htag).1
  · obtain ⟨tag, htag, hname⟩ := htuned.own n hN p hp
    rcases mem_ownTags_iff_patternOwn.1 htag with htag | htag
    · exact stale tag htag hname
    · obtain ⟨e, he, rfl⟩ := List.mem_map.1 htag
      exact hclass e.1 (Option.some.inj (hname.symm.trans (htuned.context e he)))

theorem Framed.tuneAll (hs : Framed M (h, d)) (htagged : TaggedIn N (h, d)) (cs : List Tuning) :
    Framed (fun n => M n ∨ (h.tuneAll cs).Paints n) (h.tuneAll cs, d) := by
  have hsheds := htagged.sheds_tuneAll cs
  have hown : (h.tuneAll cs).ownTags ⊆ h.ownTags := fun tag htag => hsheds.mem_ownTags_iff.1 htag
  exact (hs.mono fun n => .inl).of_own hown fun n => .inr

theorem Stewards.syncTags (hs : Stewards M N (h, d)) (cs : List Tuning) :
    Stewards (fun n => M n ∨ (h.tuneAll cs).Paints n) N ((h.tuneAll cs).syncTags d) := by
  have hframed := hs.framed.tuneAll hs.reliable.tagged cs
  have hfaithful := hs.reliable.toFaithful.tuneAll cs
  refine ⟨(hframed.perform .syncTags).framed, hfaithful.syncTags, ?_⟩
  have hsync : (h.tuneAll cs).syncTags d = (h.tuneAll cs).resolveTags d := if_pos hfaithful.attached
  rw [hsync]
  exact hfaithful.tagged.resolveTags.2.2.1

end Highlighter

/-- Tags with names in `N` are left to the highlighter: what is done to the document otherwise
spares them, and brackets are tagged only under another name. -/
def Use.LeavesAlone (N : String → Prop) (u : Use) : Prop :=
  u.Within (Document.Spares N) ∧ ∀ c, u = .command c → c.TagsBrackets → ¬N bracketTag

namespace Buffer

variable {M M' N : String → Prop} {b : Buffer Highlighter} {us : List Use}

theorem preserves_stewards (M N : String → Prop) :
    Preserves (¬N bracketTag) (Document.Spares N) (Stewards M N) (Parted M N) where
  same _ _ htext hid htags := Document.spares_of_tags htext hid htags
  clearTag hN _ _ htag := Document.spares_clearTag (TagTable.name?_of_lookup? htag) hN
  tagBrackets hN := spares_tagBrackets hN
  on_change _ _ _ hs hd := ⟨hs.framed.spares hd, hs.reliable.spares hd, hs.all⟩
  off_change _ _ _ hs hd := ⟨hs.framed.spares hd, hs.away.spares hd⟩
  on_edit _ _ _ _ hs he := hs.movedBy he
  off_edit _ _ _ _ hs he := ⟨hs.framed.movedBy he, hs.away.movedBy he⟩
  attach _ _ hs := hs.attach
  detach _ _ hs := hs.detach
  on_resize _ _ batchSize estimates hs :=
    ⟨hs.framed.of_same rfl rfl, hs.reliable.resize batchSize estimates, hs.all⟩
  off_resize _ _ batchSize estimates hs :=
    ⟨hs.framed.of_same rfl rfl, hs.away.resize batchSize estimates⟩
  on_scheme _ _ hs := hs.schemeChanged
  off_scheme _ _ hs := hs.schemeChanged
  update _ _ start stop synchronous hs := hs.updateHighlight start stop synchronous
  idle _ _ hs := hs.runIdleSlice

/-- A buffer whose highlighter looks after its tags. -/
abbrev Tended (M N : String → Prop) (b : Buffer Highlighter) : Prop :=
  b.Kept (¬N bracketTag) (Stewards M N) (Parted M N)

theorem Tended.mono (hb : b.Tended M N) (hM : ∀ n, M n → M' n) : b.Tended M' N :=
  ⟨fun hon => (hb.on hon).mono hM, fun hoff => (hb.off hoff).mono hM, hb.brackets⟩

theorem Tended.framed (hb : b.Tended M N) :
    Framed M (b.observer, b.doc) ∧ TaggedIn N (b.observer, b.doc) := by
  cases hon : b.highlightSyntax with
  | true => exact ⟨(hb.on hon).framed, (hb.on hon).reliable.tagged⟩
  | false => exact ⟨(hb.off hon).framed, (hb.off hon).away.tagged⟩

theorem paints_syncTags (h : Highlighter) (d : Document) (n : String) :
    (h.syncTags d).1.Paints n ↔ h.Paints n := by
  refine iteInduction (motive := fun s : Work => s.1.Paints n ↔ h.Paints n) (fun _ => ?_)
    (fun _ => Iff.rfl)
  obtain ⟨_, _, _, heq⟩ := h.sameButTags_resolveTags d
  rw [heq]
  exact Iff.rfl

theorem Tended.rangesOf_switchedOff (hb : b.Tended M N) {n : String}
    (hn : N n ∨ ∃ tag ∈ b.observer.ownTags, b.doc.tags.name? tag = some n) :
    (b.setHighlightSyntax false).doc.tags.rangesOf n = .empty := by
  unfold Buffer.setHighlightSyntax
  split
  · rename_i hoff
    have haway := (hb.off hoff).away
    rcases hn with hN | ⟨tag, htag, -⟩
    · exact haway.rangesOf_eq_empty hN
    · rw [haway.ownTags_eq_nil] at htag
      cases htag
  · rename_i hon
    have hs := hb.on (Bool.not_eq_false _ ▸ hon)
    exact hs.reliable.tagged.rangesOf_detach hs.reliable.attached hn

variable [PatternEngine]

/-- With other patterns there may be tags of other names. -/
theorem Tended.tune (hb : b.Tended M N) (cs : List Tuning) :
    (b.use (.tune cs)).Tended (fun n => M n ∨ (b.use (.tune cs)).observer.Paints n) N := by
  cases hon : b.highlightSyntax with
  | true =>
    have hsynced := (hb.on hon).syncTags cs
    rw [use_tune_of_on hon]
    refine ⟨fun _ => hsynced.mono fun n hn => ?_, fun hoff => (by cases hon.symm.trans hoff),
      hb.brackets⟩
    exact hn.imp_right (paints_syncTags _ _ n).2
  | false =>
    have hparted := hb.off hon
    rw [use_tune_of_off hon]
    exact ⟨fun h => (by cases hon.symm.trans h), fun _ =>
      ⟨hparted.framed.tuneAll hparted.away.tagged cs, hparted.away.tuneAll cs⟩, hb.brackets⟩

theorem Tended.use (hb : b.Tended M N) {u : Use} (hu : u.LeavesAlone N) :
    (b.use u).Tended (fun n => M n ∨ (b.use u).observer.Paints n) N := by
  have hkeeps := preserves_stewards M N
  cases u with
  | command c => exact Tended.mono (hkeeps.perform hb hu.1 (hu.2 c rfl)) fun n => .inl
  | tune cs => exact hb.tune cs
  | resize batchSize estimates =>
    exact Tended.mono (hkeeps.resize hb batchSize estimates) fun n => .inl
  | annotate f =>
    have hdone : (b.use (.annotate f)).Tended M N := hkeeps.change hb rfl rfl rfl (hu.1 b.doc)
    exact hdone.mono fun n => .inl

theorem Tended.useAll (hb : b.Tended M N) (hus : ∀ u ∈ us, u.LeavesAlone N) :
    (b.useAll us).Tended
      (fun n => M n ∨ ∃ ahead, ahead <+: us ∧ (b.useAll ahead).observer.Paints n) N := by
  induction us generalizing b M with
  | nil => exact hb.mono fun n => .inl
  | cons u us ih =>
    have hrest := ih (hb.use (hus u List.mem_cons_self)) fun v hv =>
      hus v (List.mem_cons_of_mem u hv)
    refine Tended.mono hrest fun n hn => ?_
    rcases hn with (hn | hn) | ⟨ahead, hahead, hn⟩
    · exact .inl hn
    · exact .inr ⟨[u], by simp, hn⟩
    · exact .inr ⟨u :: ahead, List.cons_prefix_cons.2 ⟨rfl, hahead⟩, hn⟩

/-- In the midst of an edit or a change of the patterns its tags are those that it had. -/
theorem Tended.amid (hb : b.Tended M N) {cs : List Tuning} {s : Work}
    (hamid : Amid N (b.observer.tuneAll cs, b.doc) s) :
    Framed (fun n => M n ∨ (b.observer.tuneAll cs).Paints n) s := by
  obtain ⟨hframed, htagged⟩ := hb.framed
  exact (hframed.tuneAll htagged cs).amid hamid

theorem Tended.rangesOf_dismissed (hb : b.Tended M N) (hon : b.highlightSyntax = true)
    {cs : List Tuning} {n : String} (hn : b.observer.Dismissed cs n)
    (hknown : n ∈ b.observer.patterns.map (·.id) ∨ N n ∧ ∀ c, n ≠ Document.classTagName c) :
    (b.use (.tune cs)).doc.tags.rangesOf n = .empty := by
  have hs := hb.on hon
  have hfaithful := hs.reliable.toFaithful.tuneAll cs
  have hsync : (b.observer.tuneAll cs).syncTags b.doc =
      (b.observer.tuneAll cs).resolveTags b.doc := if_pos hfaithful.attached
  rw [use_tune_of_on hon, hsync]
  exact hs.reliable.tagged.rangesOf_dismissed hs.all hn hknown

theorem tended_new (config : BatchConfig) (cs : List Tuning) (id : Nat) (t : Text) :
    let b := Buffer.new id t ((ofConfig config).tuneAll cs)
    b.Tended (fun n => b.observer.Paints n) N := by
  have haway : AwayIn N ((ofConfig config).tuneAll cs, Document.new id t) :=
    (away_new config id t).tuneAll cs
  have hparted : Parted (fun n => ((ofConfig config).tuneAll cs).Paints n) N
      ((ofConfig config).tuneAll cs, Document.new id t) :=
    ⟨⟨haway.tagged.tidy, by simp [haway.ownTags_eq_nil], fun _ hn => hn⟩, haway⟩
  have hrules := (((ofConfig config).tuneAll cs).rules_attach (Document.new id t)).1
  exact ⟨fun _ => hparted.attach.mono fun n => (paints_congr hrules n).2, nofun, nofun⟩

/-- What a highlighter does with the document of a buffer touches the tags that it has put there and
nothing else, whatever was done with the buffer before, and in the midst of an edit or a change of
the patterns as well. While it is switched on, the tags of patterns that are taken away or replaced
lie nowhere when the patterns have been changed; text stays in the classes of their contexts until
it is highlighted anew. Once it is switched off, none of its tags lies anywhere. Names in `N` are
those of tags that nobody else touches. -/
theorem leaves_no_tags (config : BatchConfig) (cs₀ : List Tuning) (id : Nat) (t : Text)
    {us : List Use} (hus : ∀ u ∈ us, u.LeavesAlone N) :
    let start := Buffer.new id t ((ofConfig config).tuneAll cs₀)
    let b := start.useAll us
    (∀ cs s, Amid N (b.observer.tuneAll cs, b.doc) s → ∀ task : Task,
      s.2.SameButTags (task.perform s).2 ∧ ∀ n, ¬(b.observer.tuneAll cs).Paints n →
        (∀ ahead, ahead <+: us → ¬(start.useAll ahead).observer.Paints n) →
          (task.perform s).2.tags.rangesOf n = s.2.tags.rangesOf n) ∧
    (b.highlightSyntax = true → ∀ cs n, b.observer.Dismissed cs n →
      (n ∈ b.observer.patterns.map (·.id) ∨ N n ∧ ∀ c, n ≠ Document.classTagName c) →
        (b.use (.tune cs)).doc.tags.rangesOf n = .empty) ∧
    ∀ n, (N n ∨ ∃ tag ∈ b.observer.ownTags, b.doc.tags.name? tag = some n) →
      (b.setHighlightSyntax false).doc.tags.rangesOf n = .empty := by
  intro start b
  have htended := (tended_new (N := N) config cs₀ id t).useAll hus
  refine ⟨fun cs s hamid task => ?_, fun hon cs n => htended.rangesOf_dismissed hon,
    fun n => htended.rangesOf_switchedOff⟩
  have hframed := htended.amid hamid
  have htouches := hframed.perform task
  refine ⟨htouches.document, fun n hnew hnone => htouches.rangesOf_eq hframed.tidy ?_⟩
  rintro ((hn | ⟨ahead, hahead, hn⟩) | hn)
  · exact hnone [] List.nil_prefix hn
  · exact hnone ahead hahead hn
  · exact hnew hn

end Buffer

open scoped Regex

namespace Buffer

/-- All of a text with a keyword is highlighted. -/
def keywordUses : List Use := [.command (.ensureHighlighted 0 2)]

def keywordBuffer : Buffer Highlighter :=
  (Buffer.new 0 ['i', 'f']
    ((ofConfig {}).tuneAll [.addPattern (.simple "keyword" "s" "if")])).useAll keywordUses

theorem keywordBuffer_eq :
    keywordBuffer = (Buffer.new 0 ['i', 'f'] keywordHighlighter).useAll keywordUses := by
  have htuned : (ofConfig {}).tuneAll [.addPattern (.simple "keyword" "s" "if")] =
      keywordHighlighter := tune_keyword
  rw [keywordBuffer, htuned]

theorem leaves_no_tags_keyword :
    (∀ u ∈ keywordUses, u.LeavesAlone fun _ => True) ∧
      keywordBuffer.doc.tags.rangesOf "keyword" = ⟨[⟨0, 2⟩]⟩ ∧
      (∀ task : Task, keywordBuffer.doc.SameButTags
        (task.perform (keywordBuffer.observer, keywordBuffer.doc)).2) ∧
      (keywordBuffer.use (.tune [.removePattern "keyword"])).doc.tags.rangesOf "keyword" = .empty ∧
      (keywordBuffer.setHighlightSyntax false).doc.tags.rangesOf "keyword" = .empty := by
  have hus : ∀ u ∈ keywordUses, u.LeavesAlone fun _ => True := by
    intro u hu
    rw [List.mem_singleton.1 hu]
    refine ⟨trivial, ?_⟩
    rintro c hc htags
    obtain rfl := Use.command.inj hc
    exact htags.elim
  have hids : keywordBuffer.observer.patterns.map (·.id) = ["keyword"] := by
    rw [keywordBuffer_eq]
    decide +kernel
  have hmem : "keyword" ∈ keywordBuffer.observer.patterns.map (·.id) := by
    rw [hids]
    exact List.mem_singleton_self _
  have hranges : keywordBuffer.doc.tags.rangesOf "keyword" = ⟨[⟨0, 2⟩]⟩ := by
    rw [keywordBuffer_eq]
    decide +kernel
  have hon : keywordBuffer.highlightSyntax = true := rfl
  obtain ⟨htasks, hdismissed, hleft⟩ := leaves_no_tags {}
    [.addPattern (.simple "keyword" "s" "if")] 0 ['i', 'f'] hus
  refine ⟨hus, hranges, fun task => (htasks [] _ .here task).1, ?_, hleft "keyword" (.inl trivial)⟩
  exact hdismissed hon [.removePattern "keyword"] "keyword"
    ⟨[], .removePattern "keyword", [], rfl, hmem, rfl⟩ (.inl hmem)

end Buffer
end CodeBuffer
