import CodeBuffer.Proofs.Painting.Plain
import CodeBuffer.Proofs.Painting.Renamed
import CodeBuffer.Proofs.Scanning.Literal

namespace CodeBuffer

open Delimiter DelimiterTable PlainLanguage Highlighter

namespace Highlighter

/-- What a highlighter looks for, written down as a language. -/
def language (h : Highlighter) (id name : String) : Language :=
  ⟨id, name, h.escape, h.patterns.map (·.definition)⟩

/-- The name of the pattern with a key. -/
def idOf? (h : Highlighter) (key : PatternKey) : Option String :=
  ((delimitedOf h.patterns).find? (·.key == key)).map (·.id)

/-- The delimiters in order, each with its offset, the name of its pattern if it opens an enclosure,
and its depth. -/
def delimiters (h : Highlighter) : List (Nat × Option String × Nat) :=
  h.table.entries.map fun d => (d.offset, d.key.bind h.idOf?, d.depth)

variable {f : PatternKey → PatternKey} {h g : Highlighter} {d : Document} {s : Work} {t : Text}

theorem Rekeyed.isPlain (hr : Rekeyed f g h) (hp : h.IsPlain) : g.IsPlain := by
  refine ⟨fun p hmem => ?_, hr.escape ▸ hp.escape⟩
  have hplain := hp.patterns (p.rekey f) (hr.patterns ▸ List.mem_map_of_mem hmem)
  cases p <;> exact hplain

theorem Rekeyed.idOf?_eq (hr : Rekeyed f g h) (key : PatternKey) :
    h.idOf? (f key) = g.idOf? key := by
  rw [idOf?, hr.find?_eq, Option.map_map, idOf?]
  rfl

theorem Rekeyed.delimiters_eq (hr : Rekeyed f g h)
    (hentries : h.table.entries = g.table.entries.map (·.rekey f)) :
    h.delimiters = g.delimiters := by
  rw [delimiters, hentries, List.map_map, delimiters]
  refine List.map_congr_left fun d _ => ?_
  have hid : (d.key.map f).bind h.idOf? = d.key.bind g.idOf? := by
    cases hk : d.key with
    | none => rfl
    | some key => exact hr.idOf?_eq key
  exact congrArg (fun id => (d.offset, id, d.depth)) hid

variable [PatternEngine]

/-- The patterns of a highlighter make up a language for another one. -/
theorem Registered.exists_ofLanguage (hr : h.Registered) (config : BatchConfig)
    (id name : String) :
    ∃ g, ofLanguage config (h.language id name) = .ok g ∧ ∃ f, Rekeyed f g h := by
  obtain ⟨f, hf, hrekey⟩ := hr.exists_rekey
  have hlisted : Listed ([] ++ h.patterns) h.nextKey := hr
  have hcompiled : (compileAll 0 [] (h.patterns.map (·.definition))).2 =
      .ok ([] ++ renumber 0 h.patterns) := hlisted.compileAll_definition 0 rfl
  obtain ⟨nextKey, hall⟩ : ∃ nextKey, compileAll 0 [] (h.patterns.map (·.definition)) =
      (nextKey, .ok (renumber 0 h.patterns)) := ⟨_, Prod.ext rfl hcompiled⟩
  obtain ⟨k, hk⟩ : ∃ k : Highlighter, k =
    { ofConfig config with nextKey, patterns := renumber 0 h.patterns, escape := h.escape } :=
    ⟨_, rfl⟩
  have hset : (ofConfig config).setLanguage (h.language id name) = (k.invalidateAll, .ok ()) := by
    have hall : compileAll (ofConfig config).nextKey [] (h.language id name).patterns =
        (nextKey, .ok (renumber 0 h.patterns)) := hall
    rw [setLanguage, hall, hk]
    rfl
  obtain ⟨table, refresh, announced, heq, -⟩ := k.retuned_eq true
  have heq : k.invalidateAll = { k with table, refresh, announced } := heq
  refine ⟨k.invalidateAll, ?_, f, hf, ?_, ?_⟩
  · rw [ofLanguage, hset]
    rfl
  · rw [heq, hk]
    exact hrekey.symm
  · rw [heq, hk]

theorem eq_tuneAll_of_ofLanguage {config : BatchConfig} {l : Language}
    (hg : ofLanguage config l = .ok g) : g = (ofConfig config).tuneAll [.setLanguage l] := by
  change g = ((ofConfig config).setLanguage l).1
  cases hset : (ofConfig config).setLanguage l with
  | mk k result =>
    rw [ofLanguage, hset] at hg
    cases result with
    | error err => cases hg
    | ok _ => exact (Except.ok.inj hg).symm

end Highlighter

/-- What is done with a buffer without editing its text. -/
def Use.KeepsText : Use → Prop
  | tune _ | resize _ _ => True
  | command (.setHighlightSyntax _) | command (.requestHighlight _ _) => True
  | command (.ensureHighlighted _ _) | command .runIdleSlice => True
  | _ => False

/-- No pattern comes in that does not search for fixed words. -/
def Use.IsPlain [PatternEngine] : Use → Prop
  | tune cs => ∀ c ∈ cs, c.IsPlain
  | _ => True

namespace Buffer

variable {t : Text} {b : Buffer Highlighter}

theorem isPlain_setHighlightSyntax (hplain : b.observer.IsPlain) (on : Bool) :
    (b.setHighlightSyntax on).observer.IsPlain := by
  unfold setHighlightSyntax
  split
  · exact hplain
  · cases on with
    | true =>
      obtain ⟨hpatterns, hescape, -⟩ := b.observer.rules_attach b.doc
      exact hplain.of_eq hpatterns hescape
    | false =>
      exact iteInduction (motive := fun s : Work => s.1.IsPlain)
        (fun _ => hplain.of_eq rfl rfl) (fun _ => hplain)

theorem isPlain_updateHighlight (hplain : b.observer.IsPlain) (start stop : Nat)
    (synchronous : Bool) :
    (b.notifyIfOn fun h d => h.updateHighlight d start stop synchronous).observer.IsPlain := by
  unfold notifyIfOn
  split
  · obtain ⟨needs, hpainted⟩ := b.observer.updateHighlight_eq b.doc start stop synchronous
    have hsetup := (b.observer.sameSetup_buildAll b.doc.text needs).trans hpainted.setup
    exact hplain.of_eq hsetup.patterns hsetup.escape
  · exact hplain

theorem isPlain_runIdleSlice (hplain : b.observer.IsPlain) : b.runIdleSlice.2.observer.IsPlain := by
  unfold runIdleSlice
  split
  · obtain ⟨needs, hpainted⟩ := b.observer.runIdleSlice_eq b.doc
    have hsetup := (b.observer.sameSetup_buildAll b.doc.text needs).trans hpainted.setup
    exact hplain.of_eq hsetup.patterns hsetup.escape
  · exact hplain

variable [PatternEngine]

/-- The buffers of a text that is never edited. -/
inductive Unedited (t : Text) : Buffer Highlighter → Prop where
  | new (config : BatchConfig) (cs : List Tuning) (id : Nat) :
      Unedited t (.new id t ((ofConfig config).tuneAll cs))
  | use {b : Buffer Highlighter} (hb : Unedited t b) {u : Use} (hu : u.KeepsText) :
      Unedited t (b.use u)

/-- A buffer of a text, with a highlighter that keeps its tags where they belong, or is away. -/
structure Upheld (t : Text) (b : Buffer Highlighter) : Prop where
  text : b.doc.text = t
  registered : b.observer.Registered
  on : b.highlightSyntax = true → Settled (b.observer, b.doc)
  off : b.highlightSyntax = false → Away (b.observer, b.doc)

namespace Upheld

theorem new (config : BatchConfig) (cs : List Tuning) (id : Nat) (t : Text) :
    (Buffer.new id t ((ofConfig config).tuneAll cs)).Upheld t := by
  have hbegin : (ofConfig config).Registered := listed_nil 0
  have hregistered := hbegin.tuneAll cs
  have hsettled := Away.attach ((away_new config id t).tuneAll cs)
  exact ⟨text_new id t _, hregistered.attach (.new id t), fun _ => hsettled, nofun⟩

/-- What works on the document while the highlighter is switched on. -/
theorem working (hb : b.Upheld t) (hon : b.highlightSyntax = true) {s : Work}
    (hs : ∀ P : Work → Prop, Working P → P (b.observer, b.doc) → P s)
    (htext : s.2.text = b.doc.text) :
    Upheld t { b with observer := s.1, doc := s.2 } :=
  ⟨htext.trans hb.text, hs _ working_registered hb.registered,
    fun _ => hs _ working_settled (hb.on hon), fun hoff => by cases hon.symm.trans hoff⟩

theorem setHighlightSyntax (hb : b.Upheld t) (on : Bool) : (b.setHighlightSyntax on).Upheld t := by
  unfold Buffer.setHighlightSyntax
  split
  · exact hb
  · rename_i hne
    cases on with
    | true =>
      have hsettled := (hb.off (Bool.not_eq_true _ ▸ hne)).attach
      have htext : (b.observer.attach b.doc).2.text = b.doc.text :=
        (painted_resolveTags _ b.doc).document.text_eq
      exact ⟨htext.trans hb.text, hb.registered.attach b.doc, fun _ => hsettled, nofun⟩
    | false =>
      have hon : b.highlightSyntax = true := by simpa using hne
      have haway := (hb.on hon).tagged.detach (hb.on hon).attached
      have htext : (b.observer.detach b.doc).2.text = b.doc.text := by
        refine iteInduction (motive := fun s : Work => s.2.text = b.doc.text) (fun _ => ?_)
          (fun _ => rfl)
        exact (Document.SameButTags.foldl .clearTag _ b.doc).text_eq
      exact ⟨htext.trans hb.text, hb.registered.detach b.doc, nofun, fun _ => haway⟩

theorem updateHighlight (hb : b.Upheld t) (start stop : Nat) (synchronous : Bool) :
    (b.notifyIfOn fun h d => h.updateHighlight d start stop synchronous).Upheld t := by
  unfold notifyIfOn
  split
  · rename_i hon
    obtain ⟨needs, hpainted⟩ := b.observer.updateHighlight_eq b.doc start stop synchronous
    exact hb.working hon (fun P hP hs => hP.updateHighlight hs start stop synchronous)
      hpainted.document.text_eq
  · exact hb

theorem runIdleSlice (hb : b.Upheld t) : b.runIdleSlice.2.Upheld t := by
  unfold Buffer.runIdleSlice
  split
  · rename_i hon
    obtain ⟨needs, hpainted⟩ := b.observer.runIdleSlice_eq b.doc
    exact hb.working hon (fun P hP hs => hP.runIdleSlice hs) hpainted.document.text_eq
  · exact hb

theorem tune (hb : b.Upheld t) (cs : List Tuning) : (b.use (.tune cs)).Upheld t := by
  have hregistered := hb.registered.tuneAll cs
  cases hon : b.highlightSyntax with
  | true =>
    have hupkept := (hb.on hon).toUpkept.tuneAll cs
    have hsettled := hupkept.syncTags
    have hresolved : (b.observer.tuneAll cs).syncTags b.doc =
        (b.observer.tuneAll cs).resolveTags b.doc := if_pos hupkept.attached
    rw [use_tune_of_on hon]
    refine ⟨?_, ?_, fun _ => hsettled, fun hoff => by cases hon.symm.trans hoff⟩
    · rw [hresolved]
      exact (painted_resolveTags _ b.doc).document.text_eq.trans hb.text
    · rw [hresolved]
      exact hregistered.sameButTags (sameButTags_resolveTags _ b.doc)
  | false =>
    rw [use_tune_of_off hon]
    exact ⟨hb.text, hregistered, fun h => (by cases hon.symm.trans h),
      fun _ => (hb.off hon).tuneAll cs⟩

theorem resize (hb : b.Upheld t) (batchSize : Nat) (estimates : List Nat) :
    (b.use (.resize batchSize estimates)).Upheld t := by
  refine ⟨hb.text, hb.registered, fun hon => (hb.on hon).resize batchSize estimates, fun hoff => ?_⟩
  have haway := hb.off hoff
  exact ⟨haway.attached, haway.none, haway.tagged.tidy, haway.tagged.pattern, haway.tagged.context,
    haway.tagged.own⟩

theorem use (hb : b.Upheld t) {u : Use} (hu : u.KeepsText) : (b.use u).Upheld t := by
  cases u with
  | command c =>
    cases c with
    | setHighlightSyntax on => exact hb.setHighlightSyntax on
    | requestHighlight start stop => exact hb.updateHighlight start stop false
    | ensureHighlighted start stop => exact hb.updateHighlight start stop true
    | runIdleSlice => exact hb.runIdleSlice
    | _ => exact hu.elim
  | tune cs => exact hb.tune cs
  | resize batchSize estimates => exact hb.resize batchSize estimates
  | annotate f => exact hu.elim

end Upheld

/-- Whatever is done with a buffer short of edits, its tags are upheld. -/
theorem Unedited.upheld (hb : Unedited t b) : b.Upheld t := by
  induction hb with
  | new config cs id => exact .new config cs id t
  | use _ hu ih => exact ih.use hu

/-- All of a text is highlighted as the patterns of a highlighter say. -/
structure AllHighlighted (h : Highlighter) (t : Text) (b : Buffer Highlighter) : Prop where
  complete : b.observer.table.frontier = .complete
  entries : b.observer.table.entries = h.scratch t
  setup : h.SameSetup b.observer
  tidy : b.doc.tags.Tidy t.length
  marks : ∀ n, ∀ p < t.length, b.doc.tags.Marks n p ↔ h.Shade t n p
  style : ∀ p ∈ h.patterns, b.doc.tags.styleOf? p.id = some p.style

theorem Upheld.ensureAll (hb : b.Upheld t) (hon : b.highlightSyntax = true)
    (hplain : b.observer.IsPlain) :
    (b.ensureHighlighted 0 t.length).AllHighlighted b.observer t := by
  obtain ⟨L, hL⟩ := hplain.exists_spokenBy hb.registered
  have hs := hb.on hon
  obtain rfl := hb.text
  obtain ⟨hcomplete, hentries, hmarks⟩ := hs.updateHighlight_all hL hplain.simple
  have hafter := working_settled.updateHighlight hs 0 b.doc.length true
  obtain ⟨needs, hpainted⟩ := b.observer.updateHighlight_eq b.doc 0 b.doc.length true
  have hsetup := (b.observer.sameSetup_buildAll b.doc.text needs).trans hpainted.setup
  have hlength : (b.observer.updateHighlight b.doc 0 b.doc.length true).2.length =
      b.doc.text.length := congrArg List.length hpainted.document.text_eq
  have htidy := hafter.tagged.tidy
  rw [hlength] at htidy
  have hensure : b.ensureHighlighted 0 b.doc.text.length = { b with
      observer := (b.observer.updateHighlight b.doc 0 b.doc.length true).1
      doc := (b.observer.updateHighlight b.doc 0 b.doc.length true).2 } := if_pos hon
  rw [hensure]
  refine ⟨hcomplete, hentries, hsetup, htidy, hmarks, fun p hp => ?_⟩
  obtain ⟨tag, htag⟩ := hafter.all p (hsetup.patterns ▸ hp)
  obtain ⟨hname, q, hq, hid, hstyle⟩ := hafter.tagged.pattern _ htag
  -- no other pattern has that name
  have hqp : q = p := List.inj_on_of_nodup_map hb.registered.ids (hsetup.patterns ▸ hq) hp hid
  rw [hqp] at hstyle
  rw [TagTable.styleOf?, hafter.tagged.tidy.lookup?_eq_some_iff.2 hname]
  exact hstyle trivial

/-- However a highlighter came to its patterns, and whatever was highlighted on the way, as long as
the text is not edited: once everything is highlighted, the delimiters are those of a highlighter
that is new to the text with the same patterns, and so is where every tag lies, be it one of a
pattern or of a context class. The tag of every pattern has its style. -/
theorem Unedited.highlighted_as_fresh (hb : Unedited t b) (hon : b.highlightSyntax = true)
    (hplain : b.observer.IsPlain) (config : BatchConfig) (id name : String) (docId : Nat) :
    ∃ g, ofLanguage config (b.observer.language id name) = .ok g ∧
      let final := b.ensureHighlighted 0 t.length
      let fresh := (Buffer.new docId t g).ensureHighlighted 0 t.length
      final.observer.table.frontier = .complete ∧ fresh.observer.table.frontier = .complete ∧
        final.observer.delimiters = fresh.observer.delimiters ∧
        (∀ n, final.doc.tags.rangesOf n = fresh.doc.tags.rangesOf n) ∧
        ∀ p ∈ b.observer.patterns, final.doc.tags.styleOf? p.id = some p.style ∧
          fresh.doc.tags.styleOf? p.id = some p.style := by
  have hupheld := hb.upheld
  obtain ⟨g, hg, f, hrekeyed⟩ := hupheld.registered.exists_ofLanguage config id name
  have hnew : (Buffer.new docId t g).Upheld t := by
    rw [eq_tuneAll_of_ofLanguage hg]
    exact .new config _ docId t
  have hr : Rekeyed f (Buffer.new docId t g).observer b.observer := by
    obtain ⟨hpatterns, hescape, -⟩ := g.rules_attach (.new docId t)
    exact ⟨hrekeyed.injective, hrekeyed.patterns.trans (congrArg _ hpatterns.symm),
      hrekeyed.escape.trans hescape.symm⟩
  have hplain' := hr.isPlain hplain
  have hfinal := hupheld.ensureAll hon hplain
  have hfresh := hnew.ensureAll rfl hplain'
  have hr' : Rekeyed f ((Buffer.new docId t g).ensureHighlighted 0 t.length).observer
      (b.ensureHighlighted 0 t.length).observer := by
    refine ⟨hr.injective, ?_, ?_⟩
    · rw [hfinal.setup.patterns, hfresh.setup.patterns, hr.patterns]
    · rw [hfinal.setup.escape, hfresh.setup.escape, hr.escape]
  refine ⟨g, hg, hfinal.complete, hfresh.complete, ?_, fun n => ?_, fun p hp => ?_⟩
  · refine hr'.delimiters_eq ?_
    rw [hfinal.entries, hfresh.entries, hr.scratch_eq]
  · refine hfinal.tidy.rangesOf_eq hfresh.tidy fun p hp => ?_
    rw [hfinal.marks n p hp, hfresh.marks n p hp, hr.shade_iff]
  · refine ⟨hfinal.style p hp, ?_⟩
    rw [hr.patterns] at hp
    obtain ⟨q, hq, rfl⟩ := List.mem_map.1 hp
    rw [Pattern.id_rekey, Pattern.style_rekey]
    exact hfresh.style q hq

/-! The runs in which every pattern is one of fixed words -/

theorem isPlain_tune (hplain : b.observer.IsPlain) {cs : List Tuning} (hcs : ∀ c ∈ cs, c.IsPlain) :
    (b.use (.tune cs)).observer.IsPlain := by
  have htuned := hplain.tuneAll hcs
  cases hon : b.highlightSyntax with
  | true =>
    rw [use_tune_of_on hon]
    refine iteInduction (motive := fun s : Work => s.1.IsPlain) (fun _ => ?_) (fun _ => htuned)
    have hsetup := ((b.observer.tuneAll cs).painted_resolveTags b.doc).setup
    exact htuned.of_eq hsetup.patterns hsetup.escape
  | false =>
    rw [use_tune_of_off hon]
    exact htuned

/-- Patterns of fixed words stay so as long as only such come in. -/
theorem isPlain_use {u : Use} (hplain : b.observer.IsPlain) (hu : u.KeepsText) (hc : u.IsPlain) :
    (b.use u).observer.IsPlain := by
  cases u with
  | command c =>
    cases c with
    | setHighlightSyntax on => exact isPlain_setHighlightSyntax hplain on
    | requestHighlight start stop => exact isPlain_updateHighlight hplain start stop false
    | ensureHighlighted start stop => exact isPlain_updateHighlight hplain start stop true
    | runIdleSlice => exact isPlain_runIdleSlice hplain
    | _ => exact hu.elim
  | tune cs => exact isPlain_tune hplain hc
  | resize batchSize estimates => exact hplain.of_eq rfl rfl
  | annotate f => exact hu.elim

/-- A run that does not edit the text and brings in patterns of fixed words only. -/
theorem unedited_useAll (hb : Unedited t b) (hplain : b.observer.IsPlain) {us : List Use}
    (hus : ∀ u ∈ us, u.KeepsText ∧ u.IsPlain) :
    Unedited t (b.useAll us) ∧ (b.useAll us).observer.IsPlain := by
  induction us generalizing b with
  | nil => exact ⟨hb, hplain⟩
  | cons u us ih =>
    obtain ⟨hu, hc⟩ := hus u List.mem_cons_self
    exact ih (.use hb hu) (isPlain_use hplain hu hc) fun v hv => hus v (List.mem_cons_of_mem u hv)

theorem isPlain_new (config : BatchConfig) {cs : List Tuning} (hcs : ∀ c ∈ cs, c.IsPlain) (id : Nat)
    (t : Text) : (Buffer.new id t ((ofConfig config).tuneAll cs)).observer.IsPlain := by
  have hbegin : (ofConfig config).IsPlain := ⟨by simp [ofConfig], by simp [ofConfig]⟩
  obtain ⟨hpatterns, hescape, -⟩ := ((ofConfig config).tuneAll cs).rules_attach (.new id t)
  exact (hbegin.tuneAll hcs).of_eq hpatterns hescape

end Buffer

open scoped Regex

namespace Buffer

theorem highlightSyntax_setHighlightSyntax (b : Buffer Highlighter) (on : Bool) :
    (b.setHighlightSyntax on).highlightSyntax = on := by
  unfold setHighlightSyntax
  split
  · rename_i hsame
    exact hsame
  · rfl

theorem highlightSyntax_notifyIfOn (b : Buffer Highlighter)
    (f : Highlighter → Document → Highlighter × Document) :
    (b.notifyIfOn f).highlightSyntax = b.highlightSyntax := by
  unfold notifyIfOn
  split <;> rfl

theorem highlightSyntax_runIdleSlice (b : Buffer Highlighter) :
    b.runIdleSlice.2.highlightSyntax = b.highlightSyntax := by
  unfold runIdleSlice
  split <;> rfl

/-- A buffer whose highlighter takes up other patterns while it is switched off, one of them under
the name of a pattern it had. -/
def retunedBuffer : Buffer Highlighter :=
  (Buffer.new 0 ['a', '"', 'c', '"', '\n', 'c'] ((ofConfig {}).tuneAll
    [.addPattern (.simple "word" "keyword" "c"),
      .addPattern (.delimited "note" "comment" "#" "\n" (some "comment"))])).useAll
    [.command .runIdleSlice, .command (.setHighlightSyntax false),
      .tune [.removePattern "word", .removePattern "note",
        .addPattern (.delimited "quote" "string" "\"" "\"" (some "string")),
        .addPattern (.simple "word" "name" "c")],
      .command (.setHighlightSyntax true), .resize 1 [2, 0], .command (.requestHighlight 0 3),
      .command .runIdleSlice]

theorem spells_of_literal {source : String} {w : Text}
    (hread : Regex.read? source = some (.literal w)) : Spells source w := fun _ hm =>
  Matcher.finds_of_literal hread hm

theorem exists_word (c : Char) {source : String} (hc : isLineBreak c = false)
    (hread : Regex.read? source = some (.literal [c])) :
    ∃ w : Text, w.InLine ∧ Spells source w := by
  refine ⟨[c], ⟨List.cons_ne_nil c [], fun c' hc' => ?_⟩, spells_of_literal hread⟩
  rwa [List.mem_singleton.1 hc']

theorem highlighted_as_fresh_retuned :
    (Unedited ['a', '"', 'c', '"', '\n', 'c'] retunedBuffer ∧
      retunedBuffer.highlightSyntax = true ∧ retunedBuffer.observer.IsPlain) ∧
      ∃ g, ofLanguage {} (retunedBuffer.observer.language "quotes" "Quotes") = .ok g ∧
        (retunedBuffer.ensureHighlighted 0 6).observer.delimiters =
          ((Buffer.new 1 ['a', '"', 'c', '"', '\n', 'c'] g).ensureHighlighted 0
            6).observer.delimiters := by
  have hword : (PatternDef.simple "word" "keyword" "c").IsPlain :=
    exists_word 'c' rfl (by decide +kernel)
  have hname : (PatternDef.simple "word" "name" "c").IsPlain := hword
  have hnote : (PatternDef.delimited "note" "comment" "#" "\n" (some "comment")).IsPlain :=
    ⟨exists_word '#' rfl (by decide +kernel), ['\n'], .inl rfl,
      spells_of_literal (by decide +kernel)⟩
  have hquote : (PatternDef.delimited "quote" "string" "\"" "\"" (some "string")).IsPlain := by
    have hread : Regex.read? "\"" = some (.literal ['"']) := by decide +kernel
    obtain ⟨w, hw, hspells⟩ := exists_word '"' rfl hread
    exact ⟨⟨w, hw, hspells⟩, w, .inr hw, hspells⟩
  obtain ⟨hb, hplain⟩ : Unedited _ retunedBuffer ∧ retunedBuffer.observer.IsPlain := by
    refine unedited_useAll (.new {} _ 0) (isPlain_new {} ?_ 0 _) ?_
    · simpa [Tuning.IsPlain] using ⟨hword, hnote⟩
    · simpa [Use.KeepsText, Use.IsPlain, Tuning.IsPlain] using ⟨hquote, hname⟩
  have hon : retunedBuffer.highlightSyntax = true := by
    change (Buffer.runIdleSlice _).2.highlightSyntax = true
    rw [highlightSyntax_runIdleSlice]
    change (Buffer.notifyIfOn _ _).highlightSyntax = true
    rw [highlightSyntax_notifyIfOn]
    exact highlightSyntax_setHighlightSyntax _ true
  obtain ⟨g, hg, -, -, hdelimiters, -⟩ :=
    hb.highlighted_as_fresh hon hplain {} "quotes" "Quotes" 1
  exact ⟨⟨hb, hon, hplain⟩, g, hg, hdelimiters⟩

end Buffer
end CodeBuffer
