import CodeBuffer.Proofs.History.Tracing

namespace CodeBuffer

/-- The text allows the edit, and has what a deletion takes away. -/
def Action.Fits : Action → Text → Prop
  | ⟨.insertion, start, _, _, _⟩, t => start ≤ t.length
  | ⟨.deletion, start, stop, u, _⟩, t => stop ≤ t.length ∧ u = t.slice start stop

instance : (a : Action) → (t : Text) → Decidable (a.Fits t)
  | ⟨.insertion, start, _, _, _⟩, t => inferInstanceAs (Decidable (start ≤ t.length))
  | ⟨.deletion, start, stop, u, _⟩, t =>
    inferInstanceAs (Decidable (stop ≤ t.length ∧ u = t.slice start stop))

/-- A document with the history that records its edits, and the text that was reported as saved
last. `presumed` is the text that the history takes for the saved one. -/
structure Recorder where
  doc : Document
  history : History
  saved : Text
  presumed : Text
  deriving DecidableEq, Repr

/-- What may happen to a document and its history. -/
inductive RecorderEvent where
  | edit (how : HistoryCall)
  | setModified (modified : Bool)
  | report (modified : Bool)
  | beginUserAction
  | endUserAction
  | clear
  | undo
  | redo
  deriving DecidableEq, Repr

namespace Recorder

def start (d : Document) : Recorder := ⟨d, .empty, d.text, d.text⟩

/-- The history is told that the document was changed, or that it was saved. -/
def report (s : Recorder) (modified : Bool) : Recorder :=
  let s := { s with history := s.history.modifiedChanged modified }
  if modified then s else { s with saved := s.doc.text, presumed := s.doc.text }

def setModified (s : Recorder) (modified : Bool) : Recorder :=
  { s with doc := s.doc.setModified modified }.report modified

/-- An edit is recorded just before it is made, and sets the flag. What is no edit of the text is
not made. -/
def edit (s : Recorder) (how : HistoryCall) : Recorder :=
  match how.edit? with
  | none => s
  | some a =>
    if a.Fits s.doc.text then
      let s := { s with history := s.history.call how, doc := s.doc.replay a.redo }
      if s.doc.modified then s else s.setModified true
    else s

/-- Gathered edits are overlooked, so that the present text is taken for the saved one. -/
def clear (s : Recorder) : Recorder :=
  { s with
    history := s.history.clear
    presumed := if s.history.Overlooks then s.doc.text else s.presumed }

/-- The commands are replayed onto the document. What is refused changes nothing. -/
def replay (s : Recorder) (commands : Except Fault (List ReplayCommand × History)) : Recorder :=
  match commands with
  | .ok (commands, history) =>
    { s with doc := commands.foldl Document.replay s.doc, history := history }
  | .error _ => s

def step (s : Recorder) : RecorderEvent → Recorder
  | .edit how => s.edit how
  | .setModified modified => s.setModified modified
  | .report modified => s.report modified
  | .beginUserAction => { s with history := s.history.beginUserAction }
  | .endUserAction => { s with history := s.history.endUserAction.toOption.getD s.history }
  | .clear => s.clear
  | .undo => s.replay s.history.undo
  | .redo => s.replay s.history.redo

def run (s : Recorder) (es : List RecorderEvent) : Recorder := es.foldl step s

/-- Nothing is cleared while edits are gathered that led away from the saved text, unless the saved
place was left before. -/
def Heeds (s : Recorder) : List RecorderEvent → Prop
  | [] => True
  | e :: es => (e = .clear → s.history.Overlooks → s.doc.text = s.saved) ∧ (s.step e).Heeds es

instance decidableHeeds : (s : Recorder) → (es : List RecorderEvent) → Decidable (s.Heeds es)
  | _, [] => isTrue trivial
  | s, e :: es =>
    have := decidableHeeds (s.step e) es
    inferInstanceAs (Decidable
      ((e = .clear → s.history.Overlooks → s.doc.text = s.saved) ∧ (s.step e).Heeds es))

/-- Edits are recorded, and the history leads to the text. -/
structure Sound (s : Recorder) : Prop where
  recording : s.history.isRecording = true
  history : s.history.Kept
  traces : s.history.Traces (fun _ => True) s.presumed s.doc.text

variable {s : Recorder}

theorem Sound.limit (hs : s.Sound) : s.history.limit ≠ 0 :=
  (History.isRecording_iff.1 hs.recording).2

theorem sound_start (d : Document) : (start d).Sound := by
  have hbare : History.empty.Bare := ⟨rfl, rfl, rfl, fun i hi => (Option.some.inj hi).symm⟩
  exact ⟨rfl, History.kept_empty, hbare.traces trivial fun _ => rfl⟩

/-- An edit that the text allows leads somewhere. -/
theorem exists_leads_of_edit {how : HistoryCall} {a : Action} {t : Text}
    (ha : how.edit? = some a) (hfits : a.Fits t) : ∃ t', a.Leads t t' := by
  have insertion {o : Nat} {u : Text} {selection : Option (Nat × Nat)}
      (h : Action.insertion? o u selection = some a) : ∃ t', a.Leads t t' := by
    unfold Action.insertion? at h
    split at h
    · cases h
    · obtain rfl := Option.some.inj h
      exact ⟨_, Action.leads_insertion hfits u selection⟩
  have deletion {start stop : Nat} {u : Text} {selection : Option (Nat × Nat)}
      (h : Action.deletion? start stop u selection = some a) : ∃ t', a.Leads t t' := by
    unfold Action.deletion? at h
    split at h
    · cases h
    · rename_i hlt
      obtain rfl := Option.some.inj h
      obtain ⟨hin, hslice⟩ : stop ≤ t.length ∧ u = t.slice start stop := hfits
      rw [hslice]
      exact ⟨_, Action.leads_deletion (by omega) hin selection⟩
  cases how with
  | recordInsert o u => exact insertion ha
  | recordInsertAt o u selection => exact insertion ha
  | recordKeyDelete start stop u forward => exact deletion ha
  | recordDeleteAt start stop u selection => exact deletion ha
  | _ => cases ha

/-- The same in a buffer that nobody watches. -/
def buffer (s : Recorder) : Buffer PlainText :=
  { Buffer.ofDocument s.doc PlainText.mk with history := s.history }

theorem doc_foldl_replay (b : Buffer PlainText) (commands : List ReplayCommand) :
    (commands.foldl Buffer.replay b).doc = commands.foldl Document.replay b.doc := by
  have one (b : Buffer PlainText) (c : ReplayCommand) : (b.replay c).doc = b.doc.replay c := by
    have unwatched (d : Document) (f : PlainText → Document → PlainText × Document)
        (hf : ∀ h, (f h d).2 = d) : ({ b with doc := d }.notifyIfOn f).doc = d := by
      unfold Buffer.notifyIfOn
      split
      · exact hf _
      · rfl
    cases c with
    | insert o t =>
      simp only [Buffer.replay, Document.replay]
      rcases b.doc.insert o t with ⟨d, e | ⟨⟩⟩
      · rfl
      · exact unwatched d _ fun _ => rfl
    | delete start stop =>
      simp only [Buffer.replay, Document.replay]
      rcases b.doc.delete start stop with ⟨d, e | t⟩
      · rfl
      · exact unwatched d _ fun _ => rfl
    | _ => rfl
  induction commands generalizing b with
  | nil => rfl
  | cons c commands ih =>
    rw [List.foldl_cons, List.foldl_cons, ← one b c]
    exact ih (b.replay c)

/-- The recorded edit is the one that is made. -/
theorem leads_of_edit {how : HistoryCall} {a : Action} (s : Recorder) (ha : how.edit? = some a)
    (hfits : a.Fits s.doc.text) : a.Leads s.doc.text (s.doc.replay a.redo).text := by
  obtain ⟨t', hleads⟩ := exists_leads_of_edit ha hfits
  have htext := (Buffer.Replays.redo (b := s.buffer) hleads).text
  rw [doc_foldl_replay] at htext
  rw [show (s.doc.replay a.redo).text = t' from htext]
  exact hleads

/-! What a step preserves -/

theorem Sound.report (hs : s.Sound) (modified : Bool) : (s.report modified).Sound := by
  have hmode := s.history.sameMode_modifiedChanged modified
  have hrecording := hmode.isRecording_eq.trans hs.recording
  have hkept := hs.history.modifiedChanged modified
  cases modified with
  | true => exact ⟨hrecording, hkept, hs.traces.changed⟩
  | false =>
    exact ⟨hrecording, hkept, hs.traces.save hs.recording hs.history.settled trivial⟩

theorem Sound.setModified (hs : s.Sound) (modified : Bool) : (s.setModified modified).Sound :=
  have first : { s with doc := s.doc.setModified modified }.Sound :=
    ⟨hs.recording, hs.history, hs.traces⟩
  first.report modified

theorem Sound.edit (hs : s.Sound) (how : HistoryCall) : (s.edit how).Sound := by
  unfold Recorder.edit
  split
  · exact hs
  · rename_i a ha
    split
    · rename_i hfits
      have hcall : s.history.call how = s.history.push a := by
        rw [History.call_of_edit ha, History.recordEdit, if_pos hs.recording, Option.elim_some]
      have hedited : { s with
          history := s.history.call how, doc := s.doc.replay a.redo }.Sound := by
        refine ⟨?_, hs.history.call how, ?_⟩
        · rw [hcall]
          exact (s.history.sameMode_push a).isRecording_eq.trans hs.recording
        · rw [hcall]
          exact hs.traces.push (s.leads_of_edit ha hfits) hs.limit fun _ => trivial
      dsimp only
      split
      · exact hedited
      · exact hedited.setModified true
    · exact hs

theorem Sound.clear (hs : s.Sound) : s.clear.Sound :=
  ⟨hs.recording, hs.history.clear, hs.traces.clear trivial⟩

theorem Sound.beginUserAction (hs : s.Sound) : (s.step .beginUserAction).Sound :=
  ⟨hs.recording, hs.history.call .beginUserAction, hs.traces.of_eq rfl rfl rfl rfl⟩

theorem Sound.endUserAction (hs : s.Sound) : (s.step .endUserAction).Sound := by
  have hkept := hs.history.call .endUserAction
  have hhistory : (s.step .endUserAction).history = s.history.call .endUserAction := rfl
  rw [← hhistory] at hkept
  rw [History.call_endUserAction] at hhistory
  split at hhistory
  · have hmode := s.history.sameMode_closePending
    refine ⟨?_, hkept, ?_⟩
    · rw [hhistory]
      exact hmode.isRecording_eq.trans hs.recording
    · rw [hhistory]
      exact (hs.traces.closePending hs.limit fun _ => trivial).of_eq rfl rfl rfl rfl
  · refine ⟨?_, hkept, ?_⟩
    · rw [hhistory]
      exact hs.recording
    · rw [hhistory]
      exact hs.traces

/-- A replay that leads to a place of the history. If it clears the flag, the text is the one that
is taken for the saved one. -/
structure Arrives (s : Recorder) (commands : List ReplayCommand) (history : History) : Prop where
  recording : history.isRecording = true
  traces : history.Traces (fun _ => True) s.presumed (commands.foldl Document.replay s.doc).text
  saved : .setModified false ∈ commands → (commands.foldl Document.replay s.doc).text = s.presumed

/-- What is undone, or done again. -/
theorem Sound.arrives (hs : s.Sound) {commands : List ReplayCommand} {history : History}
    (hreplay : s.history.undo = .ok (commands, history) ∨
      s.history.redo = .ok (commands, history)) : s.Arrives commands history := by
  obtain ⟨n, rfl, hreaches⟩ : ∃ n, history = { s.history with location := n } ∧
      s.buffer.Reaches (fun _ => True) s.presumed commands n := by
    rcases hreplay with hundo | hredo
    · exact Buffer.reaches_undo (b := s.buffer) hs.history hs.traces hundo
    · exact Buffer.reaches_redo (b := s.buffer) hs.history hs.traces hredo
  have htraces := hreaches.traces
  have hsaved := hreaches.saved
  rw [doc_foldl_replay] at htraces hsaved
  exact ⟨hs.recording, htraces, hsaved⟩

theorem Sound.replay (hs : s.Sound) {result : Except Fault (List ReplayCommand × History)}
    (hresult : ∀ commands history, result = .ok (commands, history) →
      history.Kept ∧ s.Arrives commands history) : (s.replay result).Sound := by
  unfold Recorder.replay
  split
  · obtain ⟨hkept, harrives⟩ := hresult _ _ rfl
    exact ⟨harrives.recording, hkept, harrives.traces⟩
  · exact hs

theorem Sound.undo (hs : s.Sound) : (s.step .undo).Sound := by
  refine hs.replay fun commands history hundo => ⟨?_, hs.arrives (.inl hundo)⟩
  have hkept := hs.history.call .undo
  rw [History.call, hundo] at hkept
  exact hkept

theorem Sound.redo (hs : s.Sound) : (s.step .redo).Sound := by
  refine hs.replay fun commands history hredo => ⟨?_, hs.arrives (.inr hredo)⟩
  have hkept := hs.history.call .redo
  rw [History.call, hredo] at hkept
  exact hkept

theorem Sound.step (hs : s.Sound) (e : RecorderEvent) : (s.step e).Sound := by
  cases e with
  | edit how => exact hs.edit how
  | setModified modified => exact hs.setModified modified
  | report modified => exact hs.report modified
  | beginUserAction => exact hs.beginUserAction
  | endUserAction => exact hs.endUserAction
  | clear => exact hs.clear
  | undo => exact hs.undo
  | redo => exact hs.redo

theorem Sound.run (hs : s.Sound) (es : List RecorderEvent) : (s.run es).Sound := by
  induction es generalizing s with
  | nil => exact hs
  | cons e es ih => exact ih (hs.step e)

/-- As long as no clearing overlooks an edit, the history takes for saved what was saved. -/
theorem presumed_eq_saved (hs : s.presumed = s.saved) {es : List RecorderEvent} (hes : s.Heeds es) :
    (s.run es).presumed = (s.run es).saved := by
  induction es generalizing s with
  | nil => exact hs
  | cons e es ih =>
    refine ih ?_ hes.2
    have hclear := hes.1
    have report (s : Recorder) (hs : s.presumed = s.saved) (modified : Bool) :
        (s.report modified).presumed = (s.report modified).saved := by
      cases modified with
      | true => exact hs
      | false => rfl
    have replay (result : Except Fault (List ReplayCommand × History)) :
        (s.replay result).presumed = (s.replay result).saved := by
      unfold Recorder.replay
      split <;> exact hs
    cases e with
    | edit how =>
      unfold Recorder.step Recorder.edit
      dsimp only
      split
      · exact hs
      · split
        · split
          · exact hs
          · exact report _ hs true
        · exact hs
    | setModified modified => exact report { s with doc := s.doc.setModified modified } hs modified
    | report modified => exact report _ hs modified
    | beginUserAction => exact hs
    | endUserAction => exact hs
    | clear =>
      unfold Recorder.step Recorder.clear
      dsimp only
      split
      · rename_i hoverlooks
        exact hclear rfl hoverlooks
      · exact hs
    | undo => exact replay _
    | redo => exact replay _

/-- Where undo or redo clears the flag, the text is the one that is taken for the saved one, and to
clear the history keeps the saved place in mind only if that is the present text, or if edits are
overlooked. It is the text that was reported as saved last unless a clearing overlooked edits that
led away from it. -/
theorem unmodified_at_presumed (d : Document) (es : List RecorderEvent) :
    let s := (start d).run es
    (∀ commands history, s.history.undo = .ok (commands, history) ∨
        s.history.redo = .ok (commands, history) → .setModified false ∈ commands →
          (commands.foldl Document.replay s.doc).text = s.presumed) ∧
      (s.history.clear.saved ≠ none → ¬s.history.Overlooks → s.doc.text = s.presumed) ∧
      ((start d).Heeds es → s.presumed = s.saved) := by
  have hs := (sound_start d).run es
  have hsaved : (start d).Heeds es → ((start d).run es).presumed = ((start d).run es).saved :=
    presumed_eq_saved rfl
  generalize (start d).run es = s at hs hsaved
  exact ⟨fun commands history hreplay => (hs.arrives hreplay).saved,
    fun hkept hnot => hs.traces.eq_saved hkept hnot, hsaved⟩

/-- A history is cleared within a user action, away from the saved text, and the text is saved and
edited after that. -/
def clearedAway : List RecorderEvent :=
  [.edit (.recordInsert 0 ['a']), .beginUserAction, .edit (.recordInsertAt 1 ['b'] (1, 1)), .clear,
    .endUserAction, .setModified false, .edit (.recordKeyDelete 0 1 ['a'] true)]

theorem unmodified_at_presumed_clearedAway :
    (∃ commands history,
      ((start (.new 0 [])).run clearedAway).history.undo = .ok (commands, history) ∧
        .setModified false ∈ commands ∧
        (commands.foldl Document.replay ((start (.new 0 [])).run clearedAway).doc).text =
          ((start (.new 0 [])).run clearedAway).presumed) ∧
      ((start (.new 0 [])).run clearedAway).presumed =
        ((start (.new 0 [])).run clearedAway).saved := by
  obtain ⟨hreplay, -, hsaved⟩ := unmodified_at_presumed (.new 0 []) clearedAway
  have hflag : .setModified false ∈ ([.insert 0 ['a'], .setModified false, .selectRange 0 0] :
      List ReplayCommand) := by decide
  have hundo : ∃ history, ((start (.new 0 [])).run clearedAway).history.undo =
      .ok ([.insert 0 ['a'], .setModified false, .selectRange 0 0], history) := ⟨_, rfl⟩
  obtain ⟨history, hundo⟩ := hundo
  exact ⟨⟨_, history, hundo, hflag, hreplay _ history (.inl hundo) hflag⟩,
    hsaved (by decide +kernel)⟩

/-- The first edit of an empty text is gathered when the history is cleared. -/
def clearedAmidst : List RecorderEvent :=
  [.beginUserAction, .edit (.recordInsertAt 0 ['a'] (0, 0)), .clear, .endUserAction,
    .edit (.recordInsertAt 1 ['b'] (1, 1))]

/-- The empty text was saved, but the flag is cleared where the text is not empty. -/
theorem not_unmodified_at_saved_clearedAmidst :
    ∃ commands history,
      ((start (.new 0 [])).run clearedAmidst).history.undo = .ok (commands, history) ∧
        .setModified false ∈ commands ∧
        (commands.foldl Document.replay ((start (.new 0 [])).run clearedAmidst).doc).text = ['a'] ∧
        ((start (.new 0 [])).run clearedAmidst).saved = [] := by
  refine ⟨[.delete 1 2, .setModified false, .placeCursor 1], _, rfl, ?_, ?_, ?_⟩
  · decide
  · decide +kernel
  · decide +kernel

end Recorder
end CodeBuffer
