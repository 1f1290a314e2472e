import CodeBuffer.Proofs.Observing.Edits
import CodeBuffer.Proofs.Plain.Engine

namespace CodeBuffer

open Delimiter DelimiterTable PlainLanguage

namespace Highlighter

variable {L : PlainLanguage} {h : Highlighter} {t : Text} {e : Edit}

/-- After one more edit, to highlight everything finds what one scan does exactly if the edit brings
no word across the frontier. -/
theorem entries_after_edit (hL : L.SpokenBy h) (hd : h.hasDelimited = true)
    (hT : L.Tracks t [] 0 h.table) {d : Document} (he : e.Turns t d.text)
    (ha : h.isAttachedTo d = true) :
    ((h.edited d.text e).updateHighlight d 0 d.length true).1.table.entries = h.scratch d.text ↔
      h.Spares L d.text e := by
  have hsetup := h.sameSetup_edited d.text e
  have hL' := hsetup.spokenBy hL
  have ha' : (h.edited d.text e).isAttachedTo d = true := by
    rw [isAttachedTo, hsetup.attached]
    exact ha
  constructor
  · intro hentries f hf hbeyond hcrossed
    obtain ⟨ds, hds, hseen⟩ := hT.entries
    rw [List.nil_append] at hds
    rw [hf, Frontier.reach, ← hds] at hseen
    have hafter : L.Tracks d.text h.table.entries f (h.edited d.text e).table := by
      rw [table_edited hd, if_pos (by rw [isBeyondFrontier, hf]; exact decide_eq_true hbeyond)]
      exact hT.truncateOld_after he hf hbeyond
    obtain ⟨hfinal, hreach, -⟩ := updateHighlight_all hL' ha' hafter
    obtain ⟨es, hes, hon⟩ := hfinal.entries
    rw [hreach] at hon
    rw [hes] at hentries
    have hall := explores_scratch hL d.text
    rw [← hentries] at hall
    exact not_meets_of_explores hseen hall hon hcrossed
  · intro hs
    obtain ⟨hfinal, hreach, -⟩ := updateHighlight_all hL' ha' (edited_tracks hL hd hT he hs)
    rw [entries_eq_scratch hL' hfinal hreach, hsetup.scratch_eq]

end Highlighter

theorem Document.turns_inserted {d : Document} {o : Nat} (h : o ≤ d.length) (t : Text) :
    (Edit.insertion o t.length).Turns d.text (d.inserted o t).text :=
  ⟨h, t, rfl, d.text_inserted o t⟩

theorem Document.turns_deleted {d : Document} {start stop : Nat} (h : start ≤ stop)
    (hs : stop ≤ d.length) :
    (Edit.deletion start (stop - start)).Turns d.text (d.deleted start stop).text := by
  refine ⟨by rw [Nat.add_sub_cancel' h]; exact hs, ?_⟩
  rw [Nat.add_sub_cancel' h]
  exact d.text_deleted start stop

/-- What is done to a buffer that is on view. The size of the batches may change at any time, and
what the clock will say of them. -/
inductive ViewCommand where
  | insert (offset : Nat) (text : Text)
  | delete (start stop : Nat)
  | undo
  | redo
  | request (start stop : Nat)
  | ensure (start stop : Nat)
  | idle
  | resize (batchSize : Nat) (estimates : List Nat)
  deriving DecidableEq, Repr

namespace Buffer

/-- A command that is refused changes nothing. -/
def view (b : Buffer Highlighter) : ViewCommand → Buffer Highlighter
  | .insert o t => b.tryInsert o t
  | .delete start stop => (b.tryDelete start stop).2
  | .undo => b.undo.toOption.getD b
  | .redo => b.redo.toOption.getD b
  | .request start stop => b.requestHighlight start stop
  | .ensure start stop => b.ensureHighlighted start stop
  | .idle => b.runIdleSlice.2
  | .resize batchSize estimates => { b with observer := { b.observer with batchSize, estimates } }

def viewAll (b : Buffer Highlighter) (cs : List ViewCommand) : Buffer Highlighter := cs.foldl view b

variable (L : PlainLanguage)

/-- An edit that the document allows brings no word across the frontier of the highlighter. -/
def SparesStep (b : Buffer Highlighter) : ReplayCommand → Prop
  | .insert o t =>
    o ≤ b.doc.length → b.observer.Spares L (b.doc.inserted o t).text (.insertion o t.length)
  | .delete start stop => start ≤ stop → stop ≤ b.doc.length →
      b.observer.Spares L (b.doc.deleted start stop).text (.deletion start (stop - start))
  | _ => True

/-- So does none of several edits. -/
def SparesReplay (b : Buffer Highlighter) : List ReplayCommand → Prop
  | [] => True
  | step :: steps => b.SparesStep L step ∧ (b.replay step).SparesReplay steps

/-- So does none of the edits of a command. -/
def SparesView (b : Buffer Highlighter) : ViewCommand → Prop
  | .insert o t => t ≠ [] → b.SparesStep L (.insert o t)
  | .delete start stop => start ≠ stop → b.SparesStep L (.delete start stop)
  | .undo => ∀ steps history, b.history.undo = .ok (steps, history) → b.SparesReplay L steps
  | .redo => ∀ steps history, b.history.redo = .ok (steps, history) → b.SparesReplay L steps
  | _ => True

/-- So does none of the edits of a run. -/
def SparesAll (b : Buffer Highlighter) : List ViewCommand → Prop
  | [] => True
  | c :: cs => b.SparesView L c ∧ (b.view c).SparesAll cs

/-- A buffer on view whose highlighter has the patterns of another and knows what is seen in the
text. -/
structure Tracked (h : Highlighter) (b : Buffer Highlighter) : Prop where
  on : b.highlightSyntax = true
  brackets : b.highlightBrackets = false
  attached : b.observer.isAttachedTo b.doc = true
  patterns : b.observer.patterns = h.patterns
  escape : b.observer.escape = h.escape
  tracks : L.Tracks b.doc.text [] 0 b.observer.table

variable {L} {h : Highlighter} {b : Buffer Highlighter}

namespace Tracked

theorem spokenBy (hb : b.Tracked L h) (hL : L.SpokenBy h) : L.SpokenBy b.observer := by
  rw [SpokenBy, hb.patterns, hb.escape]
  exact hL

theorem scratch_eq (hb : b.Tracked L h) (t : Text) : b.observer.scratch t = h.scratch t := by
  rw [Highlighter.scratch, hb.patterns, hb.escape, Highlighter.scratch]

theorem hasDelimited_eq (hb : b.Tracked L h) : b.observer.hasDelimited = h.hasDelimited := by
  rw [Highlighter.hasDelimited, hb.patterns, Highlighter.hasDelimited]

/-- Neither the history nor marks and flags have to do with it. -/
theorem of_same {b' : Buffer Highlighter} (hb : b.Tracked L h) (hon : b'.highlightSyntax = true)
    (hbrackets : b'.highlightBrackets = false) (hobserver : b'.observer = b.observer)
    (hid : b'.doc.id = b.doc.id) (htext : b'.doc.text = b.doc.text) : b'.Tracked L h := by
  refine ⟨hon, hbrackets, ?_, ?_, ?_, ?_⟩
  · rw [Highlighter.isAttachedTo, hobserver, hid]
    exact hb.attached
  · rw [hobserver, hb.patterns]
  · rw [hobserver, hb.escape]
  · rw [hobserver, htext]
    exact hb.tracks

/-- Where the highlighter takes an edit into account that brings no word across its frontier, it
still knows what is seen. -/
theorem edit (hb : b.Tracked L h) (hL : L.SpokenBy h) (hd : h.hasDelimited = true) {d : Document}
    {e : Edit} (he : e.Turns b.doc.text d.text) (hid : d.id = b.doc.id)
    (hs : b.observer.Spares L d.text e) (history : History) :
    Tracked L h ({ b with history, doc := d }.notifyIfOn fun h d => h.editedBy d e) := by
  have ha : b.observer.isAttachedTo d = true := by
    rw [Highlighter.isAttachedTo, hid]
    exact hb.attached
  have hsetup := b.observer.sameSetup_edited d.text e
  rw [notifyIfOn, if_pos hb.on, notify, Highlighter.editedBy]
  simp only [ha, if_true]
  refine ⟨hb.on, hb.brackets, ?_, ?_, ?_, ?_⟩
  · rw [Highlighter.isAttachedTo, hsetup.attached]
    exact ha
  · rw [hsetup.patterns, hb.patterns]
  · rw [hsetup.escape, hb.escape]
  · exact Highlighter.edited_tracks (hb.spokenBy hL) (hb.hasDelimited_eq.trans hd) hb.tracks he hs

/-- Where it analyses some batches and paints, too. -/
theorem paint (hb : b.Tracked L h) (hL : L.SpokenBy h) {needs : List Nat} {s : Work}
    (hs : Painted (b.observer.buildAll b.doc.text needs, b.doc) s) :
    Tracked L h { b with observer := s.1, doc := s.2 } := by
  have hsetup := (b.observer.sameSetup_buildAll b.doc.text needs).trans hs.setup
  refine ⟨hb.on, hb.brackets, ?_, ?_, ?_, ?_⟩
  · rw [Highlighter.isAttachedTo, hsetup.attached, hs.document.id_eq]
    exact hb.attached
  · rw [hsetup.patterns, hb.patterns]
  · rw [hsetup.escape, hb.escape]
  · rw [hs.document.text_eq, hs.table]
    exact Highlighter.buildAll_tracks (hb.spokenBy hL) hb.tracks needs

theorem cursorChanged (hb : b.Tracked L h) : b.cursorChanged.Tracked L h := by
  rw [b.cursorChanged_of_off hb.brackets]
  exact hb

theorem markModified (hb : b.Tracked L h) : b.markModified.Tracked L h := by
  unfold Buffer.markModified
  split
  · exact hb
  · exact hb.of_same hb.on hb.brackets rfl rfl rfl

theorem insert (hb : b.Tracked L h) (hL : L.SpokenBy h) (hd : h.hasDelimited = true) {o : Nat}
    {t : Text} (hs : b.SparesView L (.insert o t)) : (b.tryInsert o t).Tracked L h := by
  rw [tryInsert_eq]
  split
  · rename_i hdone
    exact (hb.edit hL hd (Document.turns_inserted hdone.2 t) (b.doc.id_inserted o t)
      (hs hdone.1 hdone.2) _).markModified.cursorChanged
  · exact hb

theorem delete (hb : b.Tracked L h) (hL : L.SpokenBy h) (hd : h.hasDelimited = true)
    {start stop : Nat} (hs : b.SparesView L (.delete start stop)) :
    (b.tryDelete start stop).2.Tracked L h := by
  rw [tryDelete_eq]
  split
  · rename_i hdone
    have hle := Nat.le_of_lt hdone.1
    exact (hb.edit hL hd (Document.turns_deleted hle hdone.2) (b.doc.id_deleted start stop)
      (hs (Nat.ne_of_lt hdone.1) hle hdone.2) _).markModified.cursorChanged
  · exact hb

theorem replay (hb : b.Tracked L h) (hL : L.SpokenBy h) (hd : h.hasDelimited = true)
    {step : ReplayCommand} (hs : b.SparesStep L step) : (b.replay step).Tracked L h := by
  cases step with
  | insert o t =>
    rw [replay_insert]
    split
    · rename_i ho
      exact hb.edit hL hd (Document.turns_inserted ho t) (b.doc.id_inserted o t) (hs ho) b.history
    · exact hb
  | delete start stop =>
    rw [replay_delete]
    split
    · rename_i hin
      exact hb.edit hL hd (Document.turns_deleted hin.1 hin.2) (b.doc.id_deleted start stop)
        (hs hin.1 hin.2) b.history
    · exact hb
  | placeCursor o => exact hb.of_same hb.on hb.brackets rfl rfl rfl
  | selectRange insert bound => exact hb.of_same hb.on hb.brackets rfl rfl rfl
  | setModified modified => exact hb.of_same hb.on hb.brackets rfl rfl rfl

theorem replayAll (hb : b.Tracked L h) (hL : L.SpokenBy h) (hd : h.hasDelimited = true)
    {steps : List ReplayCommand} (hs : b.SparesReplay L steps) (history : History) :
    (b.replayAll steps history).Tracked L h := by
  have hfold : (steps.foldl Buffer.replay b).Tracked L h := by
    induction steps generalizing b with
    | nil => exact hb
    | cons step steps ih => exact ih (hb.replay hL hd hs.1) hs.2
  have hdone : Tracked L h { steps.foldl Buffer.replay b with history } :=
    hfold.of_same hfold.on hfold.brackets rfl rfl rfl
  exact hdone.cursorChanged

/-- A command whose edits bring no word across the frontier. -/
theorem view (hb : b.Tracked L h) (hL : L.SpokenBy h) (hd : h.hasDelimited = true)
    {c : ViewCommand} (hs : b.SparesView L c) : (b.view c).Tracked L h := by
  have update (start stop : Nat) (synchronous : Bool) : Tracked L h (b.notifyIfOn fun h d =>
      h.updateHighlight d start stop synchronous) := by
    obtain ⟨needs, hpainted⟩ := b.observer.updateHighlight_eq b.doc start stop synchronous
    rw [notifyIfOn, if_pos hb.on]
    exact hb.paint hL hpainted
  cases c with
  | insert o t => exact hb.insert hL hd hs
  | delete start stop => exact hb.delete hL hd hs
  | undo =>
    cases hundo : b.history.undo with
    | error fault => simpa [Buffer.view, Buffer.undo, hundo, Except.map, Except.toOption] using hb
    | ok r =>
      simpa [Buffer.view, Buffer.undo, hundo, Except.map, Except.toOption] using
        hb.replayAll hL hd (hs r.1 r.2 hundo) r.2
  | redo =>
    cases hredo : b.history.redo with
    | error fault => simpa [Buffer.view, Buffer.redo, hredo, Except.map, Except.toOption] using hb
    | ok r =>
      simpa [Buffer.view, Buffer.redo, hredo, Except.map, Except.toOption] using
        hb.replayAll hL hd (hs r.1 r.2 hredo) r.2
  | request start stop => exact update start stop false
  | ensure start stop => exact update start stop true
  | idle =>
    obtain ⟨needs, hpainted⟩ := b.observer.runIdleSlice_eq b.doc
    have hslice := hb.paint hL hpainted
    unfold Buffer.view runIdleSlice
    rw [if_pos hb.on]
    exact hslice
  | resize batchSize estimates =>
    exact ⟨hb.on, hb.brackets, hb.attached, hb.patterns, hb.escape, hb.tracks⟩

/-- A run whose edits bring no word across the frontier. -/
theorem viewAll (hb : b.Tracked L h) (hL : L.SpokenBy h) (hd : h.hasDelimited = true)
    {cs : List ViewCommand} (hs : b.SparesAll L cs) : (b.viewAll cs).Tracked L h := by
  induction cs generalizing b with
  | nil => exact hb
  | cons c cs ih => exact ih (hb.view hL hd hs.1) hs.2

end Tracked

/-- A buffer is on view from the start. -/
theorem tracked_new (hd : h.hasDelimited = true) (id : Nat) (t : Text) :
    (Buffer.new id t h).Tracked L h := by
  let attached : Highlighter := { h.resetState with attached := some id, bufferLength := t.length }
  have hpainted := attached.painted_resolveTags (.new id t)
  let resolved := (attached.resolveTags (.new id t)).1
  have hsetup := hpainted.setup.trans (resolved.sameSetup_refreshRange 0 resolved.bufferLength)
  have htable : (resolved.refreshRange 0 resolved.bufferLength).table = .reset false := by
    rw [Highlighter.table_refreshRange, hpainted.table]
    simp [attached, Highlighter.resetState, hd]
  have htext := hpainted.document.text_eq
  refine ⟨rfl, rfl, ?_, hsetup.patterns, hsetup.escape, ?_⟩
  · have hid : (attached.resolveTags (.new id t)).2.id = id := hpainted.document.id_eq
    have hsame : (resolved.refreshRange 0 resolved.bufferLength).attached = some id :=
      hsetup.attached
    change (resolved.refreshRange 0 resolved.bufferLength).isAttachedTo
      (attached.resolveTags (.new id t)).2 = true
    rw [Highlighter.isAttachedTo, hsame, hid, beq_self_eq_true]
  · change L.Tracks (attached.resolveTags (.new id t)).2.text [] 0
      (resolved.refreshRange 0 resolved.bufferLength).table
    rw [htable]
    exact tracks_of_explores (Nat.zero_le _) (.nothing 0 none)

/-- To have everything highlighted finds the delimiters that a fresh highlighter finds. -/
def AnalysedAsFresh (h : Highlighter) (b : Buffer Highlighter) : Prop :=
  (b.ensureHighlighted 0 b.doc.length).observer.table.entries =
    ((Buffer.new b.doc.id b.doc.text h).ensureHighlighted 0 b.doc.length).observer.table.entries

/-- To have everything highlighted analyses everything. -/
theorem Tracked.ensureAll (hb : b.Tracked L h) (hL : L.SpokenBy h) :
    (b.ensureHighlighted 0 b.doc.length).observer.table.entries = h.scratch b.doc.text ∧
      ((b.ensureHighlighted 0 b.doc.length).observer.table.frontier = .complete ↔
        ¬b.observer.Stalls b.doc.text) := by
  have hL' := hb.spokenBy hL
  obtain ⟨htracks, hreach, hcomplete⟩ :=
    Highlighter.updateHighlight_all hL' hb.attached hb.tracks
  have hentries := Highlighter.entries_eq_scratch hL' htracks hreach
  rw [hb.scratch_eq] at hentries
  rw [ensureHighlighted, notifyIfOn, if_pos hb.on]
  exact ⟨hentries, hcomplete⟩

theorem text_new (id : Nat) (t : Text) (h : Highlighter) : (Buffer.new id t h).doc.text = t :=
  (Highlighter.painted_resolveTags _ (.new id t)).document.text_eq

theorem analysedAsFresh_iff (hL : L.SpokenBy h) (hd : h.hasDelimited = true) :
    b.AnalysedAsFresh h ↔
      (b.ensureHighlighted 0 b.doc.length).observer.table.entries = h.scratch b.doc.text := by
  have hfresh := ((tracked_new hd b.doc.id b.doc.text).ensureAll hL).1
  rw [Document.length, text_new] at hfresh
  rw [AnalysedAsFresh, Document.length, hfresh]

/-- Once the highlighter knows what is seen, one more edit leaves it so exactly if it brings no word
across the frontier. -/
theorem Tracked.analysedAsFresh_edit (hb : b.Tracked L h) (hL : L.SpokenBy h)
    (hd : h.hasDelimited = true) {d : Document} {e : Edit} (he : e.Turns b.doc.text d.text)
    (hid : d.id = b.doc.id) (history : History) :
    ({ b with history, doc := d }.notifyIfOn
      fun h d => h.editedBy d e).markModified.cursorChanged.AnalysedAsFresh h ↔
        b.observer.Spares L d.text e := by
  have ha : b.observer.isAttachedTo d = true := by
    rw [Highlighter.isAttachedTo, hid]
    exact hb.attached
  obtain ⟨b', hb'⟩ : ∃ b', b' = ({ b with history, doc := d }.notifyIfOn
      fun h d => h.editedBy d e).markModified.cursorChanged := ⟨_, rfl⟩
  have hsame : b'.highlightSyntax = true ∧ b'.observer = b.observer.edited d.text e ∧
      b'.doc.text = d.text ∧ b'.doc.id = d.id := by
    rw [hb', cursorChanged_of_off, Buffer.markModified, notifyIfOn, if_pos hb.on, notify,
      Highlighter.editedBy]
    · simp only [ha, if_true]
      split <;> exact ⟨hb.on, rfl, rfl, rfl⟩
    · rw [Buffer.markModified, apply_ite Buffer.highlightBrackets, ite_self, notifyIfOn,
        if_pos hb.on]
      exact hb.brackets
  obtain ⟨hon, hobserver, htext, hid'⟩ := hsame
  have hafter := Highlighter.entries_after_edit (d := b'.doc) (e := e) (hb.spokenBy hL)
    (hb.hasDelimited_eq.trans hd) hb.tracks (htext ▸ he)
    (by rw [Highlighter.isAttachedTo, hid']; exact ha)
  rw [htext, hb.scratch_eq] at hafter
  rw [← hb', analysedAsFresh_iff hL hd, ensureHighlighted, notifyIfOn, if_pos hon, notify,
    hobserver, htext]
  exact hafter

theorem Tracked.analysedAsFresh_view (hb : b.Tracked L h) (hL : L.SpokenBy h)
    (hd : h.hasDelimited = true) {c : ViewCommand} (hc : c ≠ .undo ∧ c ≠ .redo) :
    (b.view c).AnalysedAsFresh h ↔ b.SparesView L c := by
  have kept (hs : b.SparesView L c) : (b.view c).AnalysedAsFresh h :=
    (analysedAsFresh_iff hL hd).2 ((hb.view hL hd hs).ensureAll hL).1
  refine ⟨?_, kept⟩
  intro hfresh
  cases c with
  | insert o t =>
    intro ht ho
    rw [Buffer.view, tryInsert_eq, if_pos ⟨ht, ho⟩] at hfresh
    exact (hb.analysedAsFresh_edit hL hd (Document.turns_inserted ho t) (b.doc.id_inserted o t)
      _).1 hfresh
  | delete start stop =>
    intro hne hle hstop
    rw [Buffer.view, tryDelete_eq, if_pos ⟨by omega, hstop⟩] at hfresh
    exact (hb.analysedAsFresh_edit hL hd (Document.turns_deleted hle hstop)
      (b.doc.id_deleted start stop) _).1 hfresh
  | undo => exact absurd rfl hc.1
  | redo => exact absurd rfl hc.2
  | request start stop => trivial
  | ensure start stop => trivial
  | idle => trivial
  | resize batchSize estimates => trivial

/-- In a run whose edits bring no word across the frontier, to have everything highlighted finds
what a fresh highlighter finds, and tells so unless the last batch stalls. From there on it goes on
to do so after every edit exactly as long as no edit brings a word across the frontier. -/
theorem analysedAsFresh_viewAll (hL : L.SpokenBy h) (hd : h.hasDelimited = true) (id : Nat)
    (t : Text) {cs : List ViewCommand} (hs : (Buffer.new id t h).SparesAll L cs)
    (ds : List ViewCommand) (hds : ∀ c ∈ ds, c ≠ .undo ∧ c ≠ .redo) :
    let b := (Buffer.new id t h).viewAll cs
    b.AnalysedAsFresh h ∧
      ((b.ensureHighlighted 0 b.doc.length).observer.table.frontier = .complete ↔
        ¬b.observer.Stalls b.doc.text) ∧
      ((∀ k ≤ ds.length, (b.viewAll (ds.take k)).AnalysedAsFresh h) ↔ b.SparesAll L ds) := by
  have hb := (tracked_new hd id t).viewAll hL hd hs
  refine ⟨(analysedAsFresh_iff hL hd).2 (hb.ensureAll hL).1, (hb.ensureAll hL).2, ?_⟩
  generalize (Buffer.new id t h).viewAll cs = b at hb
  induction ds generalizing b with
  | nil =>
    exact ⟨fun _ => trivial, fun _ k _ => by
      rw [List.take_nil]
      exact (analysedAsFresh_iff hL hd).2 (hb.ensureAll hL).1⟩
  | cons c ds ih =>
    have hstep := hb.analysedAsFresh_view hL hd (hds c List.mem_cons_self)
    have hnext (hc : b.SparesView L c) := ih (fun c' hc' => hds c' (List.mem_cons_of_mem c hc'))
      (b.view c) (hb.view hL hd hc)
    constructor
    · intro hall
      have hc := hstep.1 (hall 1 (by simp))
      exact ⟨hc, (hnext hc).1 fun k hk => hall (k + 1) (by simpa using hk)⟩
    · intro hspares k hk
      cases k with
      | zero => exact (analysedAsFresh_iff hL hd).2 (hb.ensureAll hL).1
      | succ k => exact (hnext hspares.1).2 hspares.2 k (by simpa using hk)

/-- A highlighter that analyses a line at a time. -/
def lineHighlighter : Highlighter := commentsAndStrings.highlighter ⟨30, 1, 1, 1⟩

/-- A buffer of which the first line is analysed before it is joined with the second one. -/
def slashBuffer : Buffer Highlighter :=
  (Buffer.new 0 ['/', '\n', 'c', 'd'] lineHighlighter).viewAll [.idle, .delete 1 4]

theorem analysedAsFresh_viewAll_slash :
    slashBuffer.AnalysedAsFresh lineHighlighter ∧
      ((slashBuffer.ensureHighlighted 0 slashBuffer.doc.length).observer.table.frontier =
        .complete ↔ ¬slashBuffer.observer.Stalls slashBuffer.doc.text) ∧
      ((∀ k ≤ 1, (slashBuffer.viewAll (List.take k [.insert 1 ['*', 'x']])).AnalysedAsFresh
        lineHighlighter) ↔
          slashBuffer.SparesAll commentsAndStrings [.insert 1 ['*', 'x']]) := by
  have hL : commentsAndStrings.SpokenBy lineHighlighter :=
    commentsAndStrings.spokenBy_highlighter _
  have hd : lineHighlighter.hasDelimited = true := by decide +kernel
  have hs : (Buffer.new 0 ['/', '\n', 'c', 'd'] lineHighlighter).SparesAll commentsAndStrings
      [.idle, .delete 1 4] := by
    have hfrontier : ((Buffer.new 0 ['/', '\n', 'c', 'd'] lineHighlighter).view
        .idle).observer.table.frontier = .pending 2 := by decide +kernel
    refine ⟨trivial, ?_, trivial⟩
    intro _ _ _ f hf hbeyond
    rw [show f = 2 from Frontier.pending.inj (hf.symm.trans hfrontier)] at hbeyond
    exact absurd hbeyond (by decide)
  exact analysedAsFresh_viewAll hL hd 0 ['/', '\n', 'c', 'd'] hs
    [.insert 1 ['*', 'x']] (by decide)

/-- A comment that is opened across the frontier is missed, and where old delimiters take over up to
the end of the text the frontier stays pending there. -/
theorem not_analysedAsFresh_straddling :
    ¬(slashBuffer.view (.insert 1 ['*', 'x'])).AnalysedAsFresh lineHighlighter ∧
      ((((Buffer.new 0 ['x', '\n', '|', 'a', '|'] lineHighlighter).viewAll
        [.ensure 0 5, .insert 0 ['|', '|']]).ensureHighlighted 0 7).observer.table.frontier =
          .pending 7) := by
  refine ⟨?_, by decide +kernel⟩
  intro hfresh
  have hmissed : ((slashBuffer.view (.insert 1 ['*', 'x'])).ensureHighlighted 0
      3).observer.table.entries = [] := by decide +kernel
  have hfound : ((Buffer.new 0 ['/', '*', 'x'] lineHighlighter).ensureHighlighted 0
      3).observer.table.entries = [.opener 0 0] := by decide +kernel
  have htext : (slashBuffer.view (.insert 1 ['*', 'x'])).doc.text = ['/', '*', 'x'] := by
    decide +kernel
  have hid : (slashBuffer.view (.insert 1 ['*', 'x'])).doc.id = 0 := by decide +kernel
  rw [AnalysedAsFresh, Document.length, htext, hid] at hfresh
  cases (hmissed.symm.trans hfresh).trans hfound

end Buffer
end CodeBuffer
