import CodeBuffer.Proofs.Bracket.Nearby
import CodeBuffer.Proofs.Context.Kept
import CodeBuffer.Proofs.Context.Windowed
import CodeBuffer.Proofs.Painting.Independence

namespace CodeBuffer

open Highlighter

namespace Document

/-- The tags of comments and strings, which a search for brackets goes by. -/
def ContextTag (n : String) : Prop := n = classTagName "comment" ∨ n = classTagName "string"

theorem not_contextTag_bracketTag : ¬ContextTag bracketTag := by
  unfold ContextTag
  decide

variable {d d' : Document} {p : Nat}

/-- Where comments and strings lie tells the contexts. -/
theorem bracketContext_congr (hd : d.tags.Tidy d.length) (hd' : d'.tags.Tidy d'.length)
    (h : ∀ n, ContextTag n → (d.tags.Marks n p ↔ d'.tags.Marks n p)) :
    d.bracketContext p = d'.bracketContext p := by
  have hclass (c : String) (hc : ContextTag (classTagName c)) :
      (d.classRegion c).contains p = (d'.classRegion c).contains p := by
    rw [Bool.eq_iff_iff]
    exact hd.contains_rangesOf.trans ((h _ hc).trans hd'.contains_rangesOf.symm)
  exact congrArg₂ BracketContext.mk (hclass "comment" (.inl rfl)) (hclass "string" (.inr rfl))

end Document

namespace Highlighter

variable {s s' : Work} {p : Nat}

/-- Highlighters that say the same of an offset that both have up to date tag it alike. -/
theorem Reliable.bracketContext_eq (hs : Reliable Document.ContextTag s)
    (hs' : Reliable Document.ContextTag s')
    (hpatterns : s'.1.patterns = s.1.patterns)
    (hreserved : ∀ n, Document.ContextTag n → s.1.Reserves n)
    (hsame : s.1.table.Extends s.2.text s'.1.table) (hp : s.1.UpToDate s.2.text p)
    (hp' : s'.1.UpToDate s'.2.text p) : s.2.bracketContext p = s'.2.bracketContext p := by
  apply Document.bracketContext_congr hs.tagged.tidy hs'.tagged.tidy
  intro n hn
  have hreserved' : s'.1.Reserves n := by
    rw [Reserves, hpatterns]
    exact hreserved n hn
  rw [hs.painted p hp.2 hp.1 n hn (hreserved n hn), hs'.painted p hp'.2 hp'.1 n hn hreserved',
    dyes_congr hpatterns, hsame.stateAt_eq p hp.2]

/-- Behind the end of the text there is neither comment nor string. -/
theorem Reliable.bracketContext_behind (hs : Reliable Document.ContextTag s)
    (hs' : Reliable Document.ContextTag s') (htext : s'.2.text = s.2.text)
    (hp : s.2.text.length ≤ p) : s.2.bracketContext p = s'.2.bracketContext p := by
  apply Document.bracketContext_congr hs.tagged.tidy hs'.tagged.tidy
  intro n _
  refine iff_of_false (hs.tagged.tidy.not_marks hp) (hs'.tagged.tidy.not_marks ?_)
  rw [Document.length, htext]
  exact hp

end Highlighter

namespace Buffer

variable {b : Buffer Highlighter} {p : Nat}

/-- The buffer in which brackets are looked for, with the text around the cursor highlighted. -/
def surveyed (b : Buffer Highlighter) : Buffer Highlighter :=
  let c := b.clearBracketTag
  c.notifyIfOn fun h d => Observer.updateHighlight h d (c.doc.cursor - c.matcher.maxChars)
    (min (c.doc.cursor + c.matcher.maxChars) d.length) true

/-- An offset is analysed and highlighted. -/
def UpToDate (b : Buffer Highlighter) (p : Nat) : Prop := b.observer.UpToDate b.doc.text p

theorem updateBrackets_fst (b : Buffer Highlighter) :
    b.updateBrackets.1 = b.matcher.findMatch b.surveyed.doc b.doc.cursor := by
  have hresult : b.updateBrackets.1 =
      b.surveyed.matcher.findMatch b.surveyed.doc b.clearBracketTag.doc.cursor := by
    unfold updateBrackets
    dsimp only
    split
    · rfl
    · rfl
  have hmatcher : b.surveyed.matcher = b.clearBracketTag.matcher := matcher_notifyIfOn _ _
  obtain ⟨tags, heq⟩ := b.clearBracketTag_eq
  rw [hresult, hmatcher, heq]
  rfl

/-- To survey the text is to wait for a window around the cursor. -/
theorem surveyed_eq (b : Buffer Highlighter) :
    b.surveyed = b.clearBracketTag.ensureHighlighted (b.doc.cursor - b.matcher.maxChars)
      (min (b.doc.cursor + b.matcher.maxChars) b.doc.length) := by
  have hwindow (c : Buffer Highlighter) (start stop : Nat) :
      (c.notifyIfOn fun h d => Observer.updateHighlight h d start (min stop d.length) true) =
        c.ensureHighlighted start (min stop c.doc.length) := by
    rw [ensureHighlighted, notifyIfOn, notifyIfOn]
    split
    · simp only [notify]
    · rfl
  obtain ⟨tags, heq⟩ := b.clearBracketTag_eq
  rw [surveyed, heq]
  exact hwindow _ _ _

/-- While the highlighter is switched on, to wait is to let it work. -/
theorem ensureHighlighted_eq (hon : b.highlightSyntax = true) (start stop : Nat) :
    b.ensureHighlighted start stop = { b with
      observer := (b.observer.updateHighlight b.doc start stop true).1
      doc := (b.observer.updateHighlight b.doc start stop true).2 } := if_pos hon

/-- A buffer whose highlighter is switched on and has its tags, those of comments and strings, where
its table says. -/
structure Trusted (b : Buffer Highlighter) : Prop where
  on : b.highlightSyntax = true
  reliable : Reliable Document.ContextTag (b.observer, b.doc)

/-- The same text and cursor, of which at least as much is analysed and up to date. -/
structure Furthered (b b' : Buffer Highlighter) : Prop where
  text : b'.doc.text = b.doc.text
  cursor : b'.doc.cursor = b.doc.cursor
  matcher : b'.matcher = b.matcher
  patterns : b'.observer.patterns = b.observer.patterns
  trusted : b'.Trusted
  table : b.observer.table.Extends b.doc.text b'.observer.table
  upToDate : ∀ p, b.UpToDate p → b'.UpToDate p

theorem Furthered.trans {b' b'' : Buffer Highlighter} (h : b.Furthered b') (h' : b'.Furthered b'') :
    b.Furthered b'' := by
  refine ⟨h'.text.trans h.text, h'.cursor.trans h.cursor, h'.matcher.trans h.matcher,
    h'.patterns.trans h.patterns, h'.trusted, ?_, fun p hp => h'.upToDate p (h.upToDate p hp)⟩
  have htable := h'.table
  rw [h.text] at htable
  exact h.table.trans htable

namespace Trusted

theorem sound (hb : b.Trusted) : b.observer.Sound b.doc.text := hb.reliable.sound

theorem attached (hb : b.Trusted) : b.observer.isAttachedTo b.doc = true := hb.reliable.attached

theorem clearBracketTag (hb : b.Trusted) : b.Furthered b.clearBracketTag := by
  have hkept : b.Kept True (Reliable Document.ContextTag) (AwayIn Document.ContextTag) :=
    ⟨fun _ => hb.reliable, fun hoff => (by cases hb.on.symm.trans hoff), fun _ => trivial⟩
  have hpreserves := preserves_reliable fun _ : True => Document.not_contextTag_bracketTag
  have hcleared := hpreserves.clearBracketTag hkept trivial
  obtain ⟨tags, heq⟩ := b.clearBracketTag_eq
  rw [heq] at hcleared ⊢
  exact ⟨rfl, rfl, rfl, rfl, ⟨hb.on, hcleared.on hb.on⟩, .refl _ _, fun _ hp => hp⟩

theorem ensureHighlighted (hb : b.Trusted) (start stop : Nat) :
    b.Furthered (b.ensureHighlighted start stop) := by
  obtain ⟨needs, hpainted⟩ := b.observer.updateHighlight_eq b.doc start stop true
  have htext := hpainted.document.text_eq
  have hreliable :=
    (working_reliable Document.ContextTag).updateHighlight hb.reliable start stop true
  rw [ensureHighlighted_eq hb.on]
  refine ⟨htext, hpainted.document.cursor_eq, rfl, ?_, ⟨hb.on, hreliable⟩,
    hb.sound.extends_updateHighlight hb.attached start stop, fun p hp => ?_⟩
  · exact hpainted.setup.patterns.trans (b.observer.sameSetup_buildAll b.doc.text needs).patterns
  · have hdone := Highlighter.UpToDate.updateHighlight hp hb.sound hb.attached start stop
    unfold UpToDate
    dsimp only
    rw [htext]
    exact hdone

theorem surveyed (hb : b.Trusted) : b.Furthered b.surveyed := by
  rw [surveyed_eq]
  exact hb.clearBracketTag.trans (hb.clearBracketTag.trusted.ensureHighlighted _ _)

/-- A survey says of the text what one who waits for all of it is told. -/
theorem surveyed_extends (hb : b.Trusted) {L : PlainLanguage} (hL : L.SpokenBy b.observer) :
    b.surveyed.observer.table.Extends b.doc.text
      (b.ensureHighlighted 0 b.doc.length).observer.table := by
  have hcleared := hb.clearBracketTag.trusted
  obtain ⟨tags, heq⟩ := b.clearBracketTag_eq
  rw [surveyed_eq, ensureHighlighted_eq hb.on, ensureHighlighted_eq hcleared.on]
  rw [heq] at hcleared ⊢
  have hd : ({ b.doc with tags } : Document).SameButTags b.doc := ⟨b.doc.tags, rfl⟩
  exact hcleared.sound.updateHighlight_extends hL hcleared.attached hd _ _

/-- What is around the cursor is up to date when a search for brackets begins. -/
theorem upToDate_near (hb : b.Trusted) (hp : p < b.doc.length)
    (hlo : b.doc.cursor ≤ p + b.matcher.maxChars) (hhi : p < b.doc.cursor + b.matcher.maxChars) :
    b.surveyed.UpToDate p := by
  have hcleared := hb.clearBracketTag
  have hlength : b.clearBracketTag.doc.length = b.doc.length := congrArg List.length hcleared.text
  have htext := (hb.clearBracketTag.trusted.ensureHighlighted
    (b.doc.cursor - b.matcher.maxChars) (min (b.doc.cursor + b.matcher.maxChars) b.doc.length)).text
  rw [surveyed_eq]
  unfold UpToDate
  rw [htext, ensureHighlighted_eq hcleared.trusted.on]
  apply hcleared.trusted.sound.upToDate_window hcleared.trusted.attached
  · omega
  · omega

/-- All of the text is up to date for one who has waited for it. -/
theorem upToDate_all (hb : b.Trusted) (hp : p < b.doc.length) :
    (b.ensureHighlighted 0 b.doc.length).UpToDate p := by
  have htext := (hb.ensureHighlighted 0 b.doc.length).text
  unfold UpToDate
  rw [htext, ensureHighlighted_eq hb.on]
  apply hb.sound.upToDate_window hb.attached
  · omega
  · omega

/-- What is up to date when a search begins is in the context in which it is when all of the text is
highlighted. -/
theorem bracketContext_eq (hb : b.Trusted) {L : PlainLanguage} (hL : L.SpokenBy b.observer)
    (hreserved : ∀ n, Document.ContextTag n → b.observer.Reserves n) (hp : b.surveyed.UpToDate p) :
    b.surveyed.doc.bracketContext p =
      (b.ensureHighlighted 0 b.doc.length).surveyed.doc.bracketContext p := by
  have hwindow := hb.surveyed
  have hall := hb.ensureHighlighted 0 b.doc.length
  have hlater := hall.trusted.surveyed
  have hboth := hall.trans hlater
  have hlength : p < b.doc.length := by
    have hreach := hwindow.trusted.sound.table.reach_le
    rw [hwindow.text] at hreach
    have hlt := hp.2
    rw [hwindow.text] at hlt
    exact Nat.lt_of_lt_of_le hlt hreach
  have htable := hlater.table
  rw [hall.text] at htable
  have hsame := (hb.surveyed_extends hL).trans htable
  rw [← hwindow.text] at hsame
  refine hwindow.trusted.reliable.bracketContext_eq hboth.trusted.reliable ?_ ?_ hsame hp ?_
  · exact hboth.patterns.trans hwindow.patterns.symm
  · intro n hn
    rw [Reserves, hwindow.patterns]
    exact hreserved n hn
  · exact hlater.upToDate p (hb.upToDate_all hlength)

/-- If what a search may look at outside of the window is up to date too, the search finds what it
finds when all of the text is highlighted. -/
theorem updateBrackets_eq (hb : b.Trusted) {L : PlainLanguage} (hL : L.SpokenBy b.observer)
    (hreserved : ∀ n, Document.ContextTag n → b.observer.Reserves n)
    (hedge : ∀ p < b.doc.length, b.matcher.Examines b.doc.cursor p →
      p + b.matcher.maxChars < b.doc.cursor ∨ b.doc.cursor + b.matcher.maxChars ≤ p →
        b.surveyed.UpToDate p) :
    b.updateBrackets.1 = (b.ensureHighlighted 0 b.doc.length).updateBrackets.1 := by
  have hwindow := hb.surveyed
  have hall := hb.ensureHighlighted 0 b.doc.length
  have hboth := hall.trans hall.trusted.surveyed
  have htext := hboth.text.trans hwindow.text.symm
  rw [updateBrackets_fst, updateBrackets_fst, hall.cursor, hall.matcher]
  apply BracketMatcher.findMatch_congr htext
  intro p hp
  by_cases hlength : p < b.doc.length
  · apply hb.bracketContext_eq hL hreserved
    by_cases hlo : b.doc.cursor ≤ p + b.matcher.maxChars
    · by_cases hhi : p < b.doc.cursor + b.matcher.maxChars
      · exact hb.upToDate_near hlength hlo hhi
      · exact hedge p hlength hp (.inr (by omega))
    · exact hedge p hlength hp (.inl (by omega))
  · apply hwindow.trusted.reliable.bracketContext_behind hboth.trusted.reliable htext
    dsimp only
    rw [hwindow.text]
    exact Nat.le_of_not_lt hlength

end Trusted

/-- Whatever is done with a buffer, its highlighter can be trusted while it is switched on. -/
theorem trusted_useAll [PatternEngine] (config : BatchConfig) (cs : List Tuning) (id : Nat)
    (t : Text) {us : List Use} (hus : ∀ u ∈ us, u.Within (Document.Spares Document.ContextTag))
    (hon : ((Buffer.new id t ((ofConfig config).tuneAll cs)).useAll us).highlightSyntax = true) :
    ((Buffer.new id t ((ofConfig config).tuneAll cs)).useAll us).Trusted := by
  have hnew : (Buffer.new id t ((ofConfig config).tuneAll cs)).Kept True
      (Reliable Document.ContextTag) (AwayIn Document.ContextTag) :=
    ⟨fun _ => ((away_new config id t).tuneAll cs).attach, nofun, fun _ => trivial⟩
  have hkept := (keeps_reliable Document.not_contextTag_bracketTag).useAll hnew hus
  exact ⟨hon, hkept.on hon⟩

theorem registered_useAll [PatternEngine] (config : BatchConfig) (cs : List Tuning) (d : Document)
    {us : List Use} (hus : ∀ u ∈ us, u.Proper) :
    ((ofDocument d ((ofConfig config).tuneAll cs)).useAll us).observer.Registered :=
  ((observed_ofDocument config cs d).useAll hus).reachable.registered

/-- Whatever was done with a buffer whose patterns are fixed words now, when it looks for brackets
what lies in `[cursor - maxChars, cursor + maxChars)` is up to date. What is up to date is in the
context in which it is when all of the text is highlighted, so that the search finds the same, if
the few offsets outside of that range that it may look at are up to date as well. -/
theorem updateBrackets_useAll [PatternEngine] (config : BatchConfig) (cs : List Tuning) (id : Nat)
    (t : Text) {us : List Use} (hus : ∀ u ∈ us, u.Within (Document.Spares Document.ContextTag)) :
    let b := (Buffer.new id t ((ofConfig config).tuneAll cs)).useAll us
    let all := b.ensureHighlighted 0 b.doc.length
    let cursor := b.doc.cursor
    let maxChars := b.matcher.maxChars
    b.highlightSyntax = true → b.observer.IsPlain →
      (∀ n, Document.ContextTag n → b.observer.Reserves n) →
      (∀ p < b.doc.length, cursor ≤ p + maxChars → p < cursor + maxChars →
        b.surveyed.UpToDate p) ∧
      (∀ p, b.surveyed.UpToDate p →
        b.surveyed.doc.bracketContext p = all.surveyed.doc.bracketContext p) ∧
      ((∀ p < b.doc.length, b.matcher.Examines cursor p →
        p + maxChars < cursor ∨ cursor + maxChars ≤ p → b.surveyed.UpToDate p) →
          b.updateBrackets.1 = all.updateBrackets.1) := by
  intro b all cursor maxChars hon hplain hreserved
  have hproper : ∀ u ∈ us, u.Proper := by
    intro u hu
    rw [Use.proper_iff]
    exact (hus u hu).mono fun _ _ h => ⟨h.text, h.id⟩
  have hb : b.Trusted := trusted_useAll config cs id t hus hon
  obtain ⟨L, hL⟩ := hplain.exists_spokenBy (registered_useAll config cs (.new id t) hproper)
  refine ⟨?_, ?_, ?_⟩
  · intro p hp hlo hhi
    exact hb.upToDate_near hp hlo hhi
  · intro p hp
    exact hb.bracketContext_eq hL hreserved hp
  · intro hedge
    exact hb.updateBrackets_eq hL hreserved hedge

open scoped Regex

/-- Strings between quotes, as they are written down. -/
def quoteTunings : List Tuning :=
  [.addPattern (.delimited "quote" "string" "\"" "\"" (some "string"))]

/-- A pair of brackets in a string of two lines, with the cursor at the first. -/
def quoteBuffer (maxChars : Nat) : Buffer Highlighter :=
  (Buffer.new 0 ['"', '(', '\n', ')', '"'] ((ofConfig {}).tuneAll quoteTunings)).useAll
    [.command (.setMatcher ⟨maxChars⟩), .command (.placeCursor 1)]

/-- Strings between quotes, with what their matchers do. -/
def quotePattern : Pattern :=
  let quote : Matcher := .ofLengthAt "\"" (Place.wordAt ['"']) Place.wordAt_le
  .delimited ⟨"quote", "string", 0, quote, quote, some "string"⟩

def quoteHighlighter : Highlighter :=
  { ofConfig {} with nextKey := 1, patterns := [quotePattern], table := .reset false }

theorem tuneAll_quote : (ofConfig {}).tuneAll quoteTunings = quoteHighlighter := by
  have hread : Regex.read? "\"" = some (.literal ['"']) := by decide +kernel
  have hquote := Matcher.compileMatcher_of_literal hread (by decide +kernel)
  have hcompiled : compile (ofConfig {}).nextKey
      (.delimited "quote" "string" "\"" "\"" (some "string")) = .ok quotePattern :=
    compile_iff.2 (.delimited hquote hquote)
  change ((ofConfig {}).addPattern _).1 = _
  rw [addPattern, hcompiled]
  rfl

theorem quoteBuffer_eq (maxChars : Nat) : quoteBuffer maxChars =
    (Buffer.new 0 ['"', '(', '\n', ')', '"'] quoteHighlighter).useAll
      [.command (.setMatcher ⟨maxChars⟩), .command (.placeCursor 1)] := by
  rw [quoteBuffer, tuneAll_quote]

theorem rules_quoteBuffer (maxChars : Nat) :
    (quoteBuffer maxChars).highlightSyntax = true ∧
      (quoteBuffer maxChars).observer.patterns = quoteHighlighter.patterns ∧
      (quoteBuffer maxChars).observer.escape = none := by
  rw [quoteBuffer_eq]
  exact ⟨rfl, rfl, rfl⟩

theorem isPlain_quoteBuffer (maxChars : Nat) : (quoteBuffer maxChars).observer.IsPlain := by
  obtain ⟨-, hpatterns, hescape⟩ := rules_quoteBuffer maxChars
  have hword : Text.InLine ['"'] := by
    refine ⟨List.cons_ne_nil _ _, fun c hc => ?_⟩
    rw [List.mem_singleton.1 hc]
    rfl
  have hfinds := Matcher.finds_ofLengthAt "\"" ['"']
  refine ⟨fun p hp => ?_, fun c hc => ?_⟩
  · rw [hpatterns] at hp
    rw [List.mem_singleton.1 hp]
    exact ⟨['"'], ['"'], hword, .inr hword, hfinds, hfinds⟩
  · rw [hescape] at hc
    cases hc

theorem reserves_quoteBuffer (maxChars : Nat) (n : String) :
    (quoteBuffer maxChars).observer.Reserves n := by
  obtain ⟨-, hpatterns, -⟩ := rules_quoteBuffer maxChars
  rw [Reserves, hpatterns]
  intro q hq
  cases hq

theorem updateBrackets_useAll_quote :
    ((quoteBuffer 3).highlightSyntax = true ∧ (quoteBuffer 3).observer.IsPlain ∧
      ∀ n, Document.ContextTag n → (quoteBuffer 3).observer.Reserves n) ∧
    (∀ p < (quoteBuffer 3).doc.length, (quoteBuffer 3).matcher.Examines 1 p →
      p + 3 < 1 ∨ 1 + 3 ≤ p → (quoteBuffer 3).surveyed.UpToDate p) ∧
    (quoteBuffer 3).updateBrackets.1 =
      ((quoteBuffer 3).ensureHighlighted 0 (quoteBuffer 3).doc.length).updateBrackets.1 := by
  obtain ⟨hon, -⟩ := rules_quoteBuffer 3
  have hplain := isPlain_quoteBuffer 3
  have hreserved (n : String) (_ : Document.ContextTag n) := reserves_quoteBuffer 3 n
  obtain ⟨hlength, hcursor, hmatcher⟩ : (quoteBuffer 3).doc.length = 5 ∧
      (quoteBuffer 3).doc.cursor = 1 ∧ (quoteBuffer 3).matcher.maxChars = 3 := by
    rw [quoteBuffer_eq]
    decide +kernel
  have hlast : (quoteBuffer 3).surveyed.UpToDate 4 := by
    unfold UpToDate Highlighter.UpToDate
    rw [quoteBuffer_eq]
    decide +kernel
  have hedge (p : Nat) (hp : p < (quoteBuffer 3).doc.length)
      (hout : p + 3 < 1 ∨ 1 + 3 ≤ p) : (quoteBuffer 3).surveyed.UpToDate p := by
    obtain rfl : p = 4 := by omega
    exact hlast
  have hus : ∀ u ∈ [.command (.setMatcher ⟨3⟩), .command (.placeCursor 1)],
      Use.Within (Document.Spares Document.ContextTag) u := by simp [Use.Within]
  obtain ⟨-, -, hsame⟩ := updateBrackets_useAll {} quoteTunings 0 ['"', '(', '\n', ')', '"'] hus hon
    hplain hreserved
  refine ⟨⟨hon, hplain, hreserved⟩, fun p hp _ hout => hedge p hp hout, hsame fun p hp _ hout => ?_⟩
  have hout : p + (quoteBuffer 3).matcher.maxChars < (quoteBuffer 3).doc.cursor ∨
      (quoteBuffer 3).doc.cursor + (quoteBuffer 3).matcher.maxChars ≤ p := hout
  rw [hcursor, hmatcher] at hout
  exact hedge p hp hout

/-- Two places behind the cursor stands a bracket that the search looks at and that is not up to
date, so that the search ends there. -/
theorem not_updateBrackets_quote :
    ((quoteBuffer 2).highlightSyntax = true ∧ (quoteBuffer 2).observer.IsPlain ∧
      ∀ n, (quoteBuffer 2).observer.Reserves n) ∧
    ((quoteBuffer 2).matcher.Examines (quoteBuffer 2).doc.cursor 3 ∧
      ¬(quoteBuffer 2).surveyed.UpToDate 3) ∧
    (quoteBuffer 2).updateBrackets.1 = .outOfRange ∧
    ((quoteBuffer 2).ensureHighlighted 0 (quoteBuffer 2).doc.length).updateBrackets.1 =
      .found 1 3 := by
  refine ⟨⟨(rules_quoteBuffer 2).1, isPlain_quoteBuffer 2, reserves_quoteBuffer 2⟩, ?_, ?_⟩
  · unfold BracketMatcher.Examines UpToDate Highlighter.UpToDate
    rw [quoteBuffer_eq]
    decide +kernel
  · rw [quoteBuffer_eq]
    decide +kernel

end Buffer
end CodeBuffer
