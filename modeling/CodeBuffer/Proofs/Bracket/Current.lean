import CodeBuffer.Proofs.Bracket.Partner
import CodeBuffer.Proofs.Bracket.Surveyed
import CodeBuffer.Proofs.Observing.Through

namespace CodeBuffer

namespace TagTable

variable {t : TagTable} {length p : Nat} {id : TagId} {n : String} {f : Region → Region}

/-- What is added to a tag is added where its name is meant. -/
theorem Tidy.marks_modifyRanges_or (h : t.Tidy length) (hid : t.name? id = some n) {more : Prop}
    (hf : ∀ r : Region, r.Below length → ((f r).contains p = true ↔ more ∨ r.contains p = true)) :
    (t.modifyRanges id f).Marks n p ↔ more ∨ t.Marks n p := by
  obtain ⟨r, hr⟩ := exists_ranges? hid
  have hmarks : t.Marks n p ↔ r.contains p = true := by
    refine ⟨?_, fun hp => ⟨id, r, hid, hr, hp⟩⟩
    rintro ⟨id', r', hid', hr', hp⟩
    rw [h.name?_inj hid' hid, hr] at hr'
    rwa [Option.some.inj hr']
  rw [hmarks, ← hf r (h.below id r hr)]
  constructor
  · rintro ⟨id', r', hid', hr', hp⟩
    rw [name?_modifyRanges] at hid'
    rw [h.name?_inj hid' hid, ranges?_modifyRanges, if_pos rfl, hr] at hr'
    rwa [Option.some.inj hr']
  · intro hp
    refine ⟨id, f r, by rwa [name?_modifyRanges], ?_, hp⟩
    rw [ranges?_modifyRanges, if_pos rfl, hr, Option.map_some]

end TagTable

namespace Document

variable {d d' : Document} {id : TagId} {n : String} {start stop p : Nat}

theorem marks_applyTag (h : d.tags.Tidy d.length) (hid : d.tags.name? id = some n) :
    (d.applyTag id start stop).tags.Marks n p ↔
      (start ≤ p ∧ p < stop ∧ p < d.length) ∨ d.tags.Marks n p := by
  refine h.marks_modifyRanges_or hid fun r hr => ?_
  rw [Region.contains_add hr.1]
  refine or_congr_left ?_
  omega

end Document

namespace BracketMatcher

variable {m : BracketMatcher} {d d' : Document} {cursor x y : Nat}

/-- What is found lies in the text. -/
theorem lt_length_of_findMatch (h : m.findMatch d cursor = .found x y) :
    x < d.length ∧ y < d.length := by
  have inside {o : Nat} (h : m.findAt d o = .found x y) : x < d.length ∧ y < d.length := by
    obtain ⟨c, partner, forward, ⟨hc, -⟩, rfl, hpartners, -⟩ := exists_partners_of_found h
    exact ⟨(List.getElem?_eq_some_iff.1 hc).1, (List.getElem?_eq_some_iff.1 hpartners.char).1⟩
  unfold findMatch at h
  dsimp only at h
  split at h
  · exact inside h
  · rename_i hright
    split at h
    · split at h
      · exact inside h
      · cases h
    · rename_i hleft
      split at h
      · exact (hleft x y h).elim
      · exact (hright x y h).elim

/-- Tags that have nothing to do with contexts make no difference. -/
theorem findMatch_spares (hd : d.tags.Tidy d.length) (h : d.Spares Document.ContextTag d') :
    m.findMatch d' cursor = m.findMatch d cursor := by
  refine (findMatch_congr h.text fun p _ => ?_).symm
  have hd' : d'.tags.Tidy d'.length := by
    rw [h.length_eq]
    exact h.tidy hd
  exact Document.bracketContext_congr hd hd' fun n hn => (h.marks n hn p).symm

theorem findMatch_of_same (htext : d'.text = d.text) (htags : d'.tags = d.tags) :
    m.findMatch d' cursor = m.findMatch d cursor := by
  refine (findMatch_congr htext fun p _ => ?_).symm
  simp only [Document.bracketContext, Document.classRegion, htags]

end BracketMatcher

namespace Buffer

theorem marks_tagBrackets {d : Document} {x y p : Nat} (hd : d.tags.Tidy d.length)
    (hx : x < d.length) (hy : y < d.length) :
    (tagBrackets d x y).tags.Marks bracketTag p ↔ (p = x ∨ p = y) ∨ d.tags.Marks bracketTag p := by
  let id := (d.createTag bracketTag (some bracketTag)).1
  let created := (d.createTag bracketTag (some bracketTag)).2
  have hname : created.tags.name? id = some bracketTag :=
    d.tags.name?_create_self bracketTag (some bracketTag)
  have hcreated : created.tags.Tidy created.length := hd.create bracketTag (some bracketTag)
  have hfirst : (created.applyTag id x (x + 1)).tags.Tidy created.length :=
    hcreated.modifyRanges (fun _ hr => hr.add (Nat.min_le_right _ _) _) id
  have hname' : (created.applyTag id x (x + 1)).tags.name? id = some bracketTag := by
    rw [Document.applyTag, TagTable.name?_modifyRanges]
    exact hname
  have hmarks : created.tags.Marks bracketTag p ↔ d.tags.Marks bracketTag p := by
    change (d.tags.create bracketTag (some bracketTag)).2.Marks bracketTag p ↔ _
    exact TagTable.marks_create
  change ((created.applyTag id x (x + 1)).applyTag id y (y + 1)).tags.Marks bracketTag p ↔ _
  rw [Document.marks_applyTag hfirst hname', Document.marks_applyTag hcreated hname, hmarks,
    ← or_assoc]
  refine or_congr_left ?_
  change y ≤ p ∧ p < y + 1 ∧ p < d.length ∨ x ≤ p ∧ p < x + 1 ∧ p < d.length ↔ p = x ∨ p = y
  omega

section
variable {H : Type} {b b' : Buffer H}

/-- An offset is that of the bracket at the cursor, or that of its partner. -/
def AtMatch (b : Buffer H) (p : Nat) : Prop :=
  ∃ bracket partner, b.matcher.findMatch b.doc b.doc.cursor = .found bracket partner ∧
    (p = bracket ∨ p = partner)

/-- Unless brackets are highlighted, none is tagged. -/
structure Ready (b : Buffer H) : Prop where
  tidy : b.doc.tags.Tidy b.doc.length
  off : b.highlightBrackets = false → ∀ p, ¬b.doc.tags.Marks bracketTag p

/-- While brackets are highlighted and no user action is open, the match at the cursor is tagged and
nothing else is. -/
structure Current (b : Buffer H) : Prop extends b.Ready where
  on : b.highlightBrackets = true → b.actionDepth = 0 →
    ∀ p, b.doc.tags.Marks bracketTag p ↔ b.AtMatch p

theorem Ready.of_same (hb : b.Ready) (htext : b'.doc.text = b.doc.text)
    (htags : b'.doc.tags = b.doc.tags) (hon : b'.highlightBrackets = b.highlightBrackets) :
    b'.Ready := by
  refine ⟨?_, fun hoff => ?_⟩
  · rw [htags, Document.length, htext]
    exact hb.tidy
  · rw [htags]
    exact hb.off (hon ▸ hoff)

theorem Ready.disabled (hb : b.Ready) (hoff : b.highlightBrackets = false) : b.Current :=
  ⟨hb, fun hon => by rw [hoff] at hon; cases hon⟩

theorem atMatch_of_same (htext : b'.doc.text = b.doc.text) (htags : b'.doc.tags = b.doc.tags)
    (hmarks : b'.doc.marks = b.doc.marks) (hmatcher : b'.matcher = b.matcher) (p : Nat) :
    b'.AtMatch p ↔ b.AtMatch p := by
  have hcursor : b'.doc.cursor = b.doc.cursor := by
    rw [Document.cursor, Document.markOffset?, hmarks]
    rfl
  rw [AtMatch, hmatcher, hcursor, BracketMatcher.findMatch_of_same htext htags, AtMatch]

theorem Current.of_same (hb : b.Current) (htext : b'.doc.text = b.doc.text)
    (htags : b'.doc.tags = b.doc.tags) (hmarks : b'.doc.marks = b.doc.marks)
    (hmatcher : b'.matcher = b.matcher) (hon : b'.highlightBrackets = b.highlightBrackets)
    (hdepth : b'.actionDepth = 0 → b.actionDepth = 0) : b'.Current := by
  refine ⟨hb.toReady.of_same htext htags hon, fun hon' hclosed p => ?_⟩
  rw [atMatch_of_same htext htags hmarks hmatcher, htags]
  exact hb.on (hon ▸ hon') (hdepth hclosed) p

/-- Nothing is left of the tag of brackets. -/
theorem unmarked_clearBracketTag (hb : b.doc.tags.Tidy b.doc.length) :
    b.clearBracketTag.doc.tags.Tidy b.clearBracketTag.doc.length ∧
      ∀ p, ¬b.clearBracketTag.doc.tags.Marks bracketTag p := by
  unfold clearBracketTag
  split
  · rename_i tag htag
    have hname := TagTable.name?_of_lookup? htag
    refine ⟨hb.modifyRanges (fun _ _ => Region.below_empty _) tag, fun p hp => ?_⟩
    have hgone (r : Region) (q : Nat) :
        Region.empty.contains q = true ↔ r.contains q = true ∧ ¬True := by
      simp [Region.contains, Region.empty]
    exact ((hb.marks_modifyRanges hgone).1 hp).2 ⟨hname, trivial⟩
  · rename_i hnone
    refine ⟨hb, ?_⟩
    rintro p ⟨id, r, hname, -⟩
    exact TagTable.lookup?_eq_none_iff.1 hnone id hname

theorem current_clearBracketTag (hb : b.doc.tags.Tidy b.doc.length)
    (hoff : b.highlightBrackets = false) : b.clearBracketTag.Current := by
  obtain ⟨htidy, hnone⟩ := unmarked_clearBracketTag hb
  refine Ready.disabled ⟨htidy, fun _ => hnone⟩ ?_
  obtain ⟨tags, hcleared⟩ := b.clearBracketTag_eq
  rw [hcleared]
  exact hoff

/-- Where no bracket is tagged, to tag what the search finds is all that it takes: the search does
not go by that tag. -/
theorem current_tagFound (htidy : b.doc.tags.Tidy b.doc.length)
    (hnone : ∀ p, ¬b.doc.tags.Marks bracketTag p) (hon : b.highlightBrackets = true) :
    (b.tagFound (b.matcher.findMatch b.doc b.doc.cursor)).Current := by
  have missed (hmiss : ∀ x y, b.matcher.findMatch b.doc b.doc.cursor ≠ .found x y) :
      b.Current := by
    refine ⟨⟨htidy, fun _ => hnone⟩, fun _ _ p => iff_of_false (hnone p) ?_⟩
    rintro ⟨x, y, hfound, -⟩
    exact hmiss x y hfound
  cases hresult : b.matcher.findMatch b.doc b.doc.cursor with
  | found x y =>
    obtain ⟨hx, hy⟩ := BracketMatcher.lt_length_of_findMatch hresult
    have hspares := spares_tagBrackets Document.not_contextTag_bracketTag b.doc x y
    have hsame : b.matcher.findMatch (tagBrackets b.doc x y) b.doc.cursor = .found x y := by
      rw [BracketMatcher.findMatch_spares htidy hspares, hresult]
    refine ⟨⟨hspares.tidy htidy, fun hoff => ?_⟩, fun _ _ p => ?_⟩
    · exact Bool.noConfusion (hoff.symm.trans hon)
    · have hmarks := marks_tagBrackets (p := p) htidy hx hy
      rw [or_iff_left (hnone p)] at hmarks
      refine hmarks.trans ⟨fun hp => ⟨x, y, hsame, hp⟩, ?_⟩
      rintro ⟨x', y', hfound, hp⟩
      obtain ⟨rfl, rfl⟩ := BracketResult.found.inj (hsame.symm.trans hfound)
      exact hp
  | _ => exact missed fun x y hfound => by rw [hresult] at hfound; cases hfound

end

/-! Without an observer that tags -/

variable {b b' : Buffer PlainText}

/-- Who ignores everything changes nothing. -/
theorem notifyIfOn_plain {f : PlainText → Document → PlainText × Document}
    (hf : ∀ h d, f h d = (h, d)) (b : Buffer PlainText) : b.notifyIfOn f = b := by
  unfold notifyIfOn notify
  split
  · rw [hf]
  · rfl

theorem searched_plain (b : Buffer PlainText) : b.searched = b.clearBracketTag :=
  notifyIfOn_plain (fun _ _ => rfl) _

theorem current_updateBrackets (hb : b.doc.tags.Tidy b.doc.length)
    (hon : b.highlightBrackets = true) : b.updateBrackets.2.Current := by
  obtain ⟨htidy, hnone⟩ := unmarked_clearBracketTag hb
  obtain ⟨tags, hcleared⟩ := b.clearBracketTag_eq
  have hsame : b.clearBracketTag.doc.cursor = b.doc.cursor ∧
      b.clearBracketTag.matcher = b.matcher ∧
      b.clearBracketTag.highlightBrackets = b.highlightBrackets := by
    rw [hcleared]
    exact ⟨rfl, rfl, rfl⟩
  rw [updateBrackets_snd, searched_plain, ← hsame.1, ← hsame.2.1]
  exact current_tagFound htidy hnone (hsame.2.2.trans hon)

/-- Where the cursor may have moved, the tag follows. -/
theorem Ready.cursorChanged (hb : b.Ready) : b.cursorChanged.Current := by
  unfold Buffer.cursorChanged
  split
  · rename_i hon
    exact current_updateBrackets hb.tidy hon.1
  · rename_i hnot
    exact ⟨hb, fun hon hclosed => absurd ⟨hon, hclosed⟩ hnot⟩

/-- An edit puts no tag where there was none. -/
theorem Ready.edit (hb : b.Ready) {e : Edit} {d : Document} {history : History}
    {f : PlainText → Document → PlainText × Document} (he : b.doc.MovedBy e d)
    (hf : ∀ h d, f h d = (h, d)) : ({ b with history, doc := d }.notifyIfOn f).Ready := by
  rw [notifyIfOn_plain hf]
  refine ⟨he.tidy hb.tidy, fun hoff p hp => ?_⟩
  obtain ⟨q, hq⟩ := he.source hb.tidy bracketTag p hp
  exact hb.off hoff q hq

theorem Ready.markModified (hb : b.Ready) : b.markModified.Ready := by
  unfold Buffer.markModified
  split
  · exact hb
  · exact hb.of_same rfl rfl rfl

theorem Ready.replay (hb : b.Ready) (step : ReplayCommand) : (b.replay step).Ready := by
  cases step with
  | insert o t =>
    rw [replay_insert]
    split
    · rename_i ho
      exact hb.edit (Document.movedBy_inserted ho t) fun _ _ => rfl
    · exact hb
  | delete start stop =>
    rw [replay_delete]
    split
    · rename_i hin
      exact hb.edit (Document.movedBy_deleted hin.1 hin.2) fun _ _ => rfl
    · exact hb
  | placeCursor o => exact hb.of_same rfl rfl rfl
  | selectRange insert bound => exact hb.of_same rfl rfl rfl
  | setModified modified => exact hb.of_same rfl rfl rfl

theorem Ready.replayAll (hb : b.Ready) (steps : List ReplayCommand) (history : History) :
    (b.replayAll steps history).Current := by
  have hfold : (steps.foldl Buffer.replay b).Ready := by
    induction steps generalizing b with
    | nil => exact hb
    | cons step steps ih => exact ih (hb.replay step)
  have replayed : Ready { steps.foldl Buffer.replay b with history } := hfold.of_same rfl rfl rfl
  exact replayed.cursorChanged

namespace Current

theorem notifyIfOn (hb : b.Current) {f : PlainText → Document → PlainText × Document}
    (hf : ∀ h d, f h d = (h, d)) : (b.notifyIfOn f).Current := by
  rw [notifyIfOn_plain hf]
  exact hb

theorem finishUserAction (hb : b.Current) : b.finishUserAction.Current := by
  unfold Buffer.finishUserAction
  split
  · have finished : Ready { b with actionDepth := 0, history := b.history.finishUserAction } :=
      hb.toReady.of_same rfl rfl rfl
    exact finished.cursorChanged
  · rename_i hinner
    exact hb.of_same rfl rfl rfl rfl rfl fun hclosed => by dsimp only at hclosed; omega

theorem keptByEdits : KeptByEdits (Current : Buffer PlainText → Prop) where
  inserted {b o t} hb _ ho := by
    have hinserted : (b.insertedBare o t).Ready :=
      hb.toReady.edit (Document.movedBy_inserted ho t) fun _ _ => rfl
    exact hinserted.markModified.cursorChanged
  deleted {b start stop} hb hlt hstop := by
    have hdeleted : (b.deletedBare start stop).Ready :=
      hb.toReady.edit (Document.movedBy_deleted (Nat.le_of_lt hlt) hstop) fun _ _ => rfl
    exact hdeleted.markModified.cursorChanged
  begun hb := hb.of_same rfl rfl rfl rfl rfl fun hclosed => absurd hclosed (Nat.succ_ne_zero _)
  finished hb := hb.finishUserAction

theorem setHighlightBrackets (hb : b.Current) (on : Bool) :
    (b.setHighlightBrackets on).Current := by
  unfold Buffer.setHighlightBrackets
  split
  · exact hb
  · cases on with
    | true => exact current_updateBrackets hb.tidy rfl
    | false => exact current_clearBracketTag hb.tidy rfl

/-- The history has something to replay, or it refuses and nothing changes. -/
theorem replayed (hb : b.Current) (r : Except Fault (List ReplayCommand × History)) :
    ((r.map fun (steps, history) => b.replayAll steps history).toOption.getD b).Current := by
  cases r with
  | error fault => exact hb
  | ok r => exact hb.toReady.replayAll r.1 r.2

end Current

/-- What happens to the buffer at this point does not meddle with the tags of brackets, nor with how
they are found while they are highlighted. -/
def Unmeddled {H : Type} (b : Buffer H) : CourseEvent H → Prop
  | .command .updateBrackets => b.highlightBrackets = true
  | .command (.setMatcher _) => b.highlightBrackets = false
  | .command _ => True
  | .adjust f _ => (f b.doc).tags = b.doc.tags ∧ (f b.doc).marks = b.doc.marks

/-- Nothing in the course of events meddles. -/
def UnmeddledAll {H : Type} [Observer H] (b : Buffer H) : List (CourseEvent H) → Prop
  | [] => True
  | e :: es => b.Unmeddled e ∧ (b.undergo e).UnmeddledAll es

theorem Current.perform (hb : b.Current) {c : Command PlainText} (hc : b.Unmeddled (.command c)) :
    (b.perform c).Current := by
  cases c with
  | insert o t => exact keptByEdits.attempt hb (.insert o t)
  | delete start stop => exact keptByEdits.attempt hb (.delete start stop)
  | type t => exact keptByEdits.stroke hb (c := .type t) trivial
  | backspace => exact keptByEdits.stroke hb (c := .backspace) trivial
  | deleteKey => exact keptByEdits.stroke hb (c := .deleteKey) trivial
  | deleteSelection => exact keptByEdits.stroke hb (c := .deleteSelection) trivial
  | placeCursor o =>
    have placed : (b.modifyDocument (·.placeCursor o)).Ready := hb.toReady.of_same rfl rfl rfl
    exact placed.cursorChanged
  | selectRange insert bound =>
    have selected : (b.modifyDocument (·.selectRange insert bound)).Ready :=
      hb.toReady.of_same rfl rfl rfl
    exact selected.cursorChanged
  | beginUserAction => exact keptByEdits.begun hb
  | endUserAction =>
    rw [perform_endUserAction]
    split
    · exact hb
    · exact hb.finishUserAction
  | undo => exact hb.replayed b.history.undo
  | redo => exact hb.replayed b.history.redo
  | setModified modified =>
    rw [Buffer.perform, Buffer.setModified]
    split
    · exact hb
    · exact hb.of_same rfl rfl rfl rfl rfl id
  | setUndoLimit limit => exact hb.of_same rfl rfl rfl rfl rfl id
  | beginNotUndoable => exact hb.of_same rfl rfl rfl rfl rfl id
  | endNotUndoable =>
    rw [Buffer.perform, endNotUndoable]
    cases b.history.endNotUndoable with
    | error fault => exact hb
    | ok history => exact hb.of_same rfl rfl rfl rfl rfl id
  | setHighlightSyntax on =>
    rw [Buffer.perform, setHighlightSyntax]
    split
    · exact hb
    · cases on with
      | true => exact hb.of_same rfl rfl rfl rfl rfl id
      | false => exact hb.of_same rfl rfl rfl rfl rfl id
  | setHighlightBrackets on => exact hb.setHighlightBrackets on
  | updateBrackets => exact current_updateBrackets hb.tidy hc
  | setMatcher m =>
    have replaced : (b.setMatcher m).Ready := hb.toReady.of_same rfl rfl rfl
    exact replaced.disabled hc
  | setScheme s => exact hb.of_same rfl rfl rfl rfl rfl id
  | ensureHighlighted start stop => exact hb.notifyIfOn fun _ _ => rfl
  | requestHighlight start stop => exact hb.notifyIfOn fun _ _ => rfl
  | runIdleSlice =>
    rw [Buffer.perform, runIdleSlice]
    split
    · exact hb.of_same rfl rfl rfl rfl rfl id
    · exact hb
  | modifyObserver f =>
    have amended : Current { b with observer := f b.observer } :=
      hb.of_same rfl rfl rfl rfl rfl id
    exact amended.notifyIfOn fun _ _ => rfl

theorem Current.undergoAll (hb : b.Current) {es : List (CourseEvent PlainText)}
    (hes : b.UnmeddledAll es) : (b.undergoAll es).Current := by
  induction es generalizing b with
  | nil => exact hb
  | cons e es ih =>
    refine ih ?_ hes.2
    cases e with
    | command c => exact hb.perform hes.1
    | adjust f keeps => exact hb.of_same (keeps b.doc) hes.1.1 hes.1.2 rfl rfl id

/-- The tag of brackets never falls behind. The document is set up in any way that leaves it without
that tag, and then the buffer is used. Whenever brackets are highlighted and no user action is open,
the tag lies on the two offsets that a search finds at the cursor there and then, or nowhere if it
finds none; and while brackets are not highlighted it lies nowhere. -/
theorem bracketTag_current (id : Nat) (t : Text) (ops : List Document.Operation)
    (hsetup : ∀ p, ¬((Document.new id t).operateAll ops).tags.Marks bracketTag p)
    {es : List (CourseEvent PlainText)}
    (hes : (ofDocument ((Document.new id t).operateAll ops) PlainText.mk).UnmeddledAll es) :
    let b := (ofDocument ((Document.new id t).operateAll ops) PlainText.mk).undergoAll es
    (b.highlightBrackets = true → b.actionDepth = 0 → ∀ p,
      (b.doc.tags.rangesOf bracketTag).contains p = true ↔
        ∃ bracket partner, b.matcher.findMatch b.doc b.doc.cursor = .found bracket partner ∧
          (p = bracket ∨ p = partner)) ∧
      (b.highlightBrackets = false → b.doc.tags.rangesOf bracketTag = .empty) := by
  intro b
  have hstart : (ofDocument ((Document.new id t).operateAll ops) PlainText.mk).Ready :=
    ⟨((Document.consistent_new id t).operateAll ops).tags, fun _ => hsetup⟩
  have hb : b.Current := (hstart.disabled rfl).undergoAll hes
  refine ⟨fun hon hclosed p => ?_, fun hoff => ?_⟩
  · exact hb.tidy.contains_rangesOf.trans (hb.on hon hclosed p)
  · refine Region.eq_of_contains (hb.tidy.wellFormed_rangesOf bracketTag) Region.wellFormed_empty
      fun p => ?_
    rw [hb.tidy.contains_rangesOf]
    refine iff_of_false (hb.off hoff p) ?_
    simp [Region.contains, Region.empty]

/-- Brackets side by side, behind a bracket in a string. -/
def besideString : List Document.Operation :=
  [.insert 0 ['"', '(', '"', '(', ')'], .applyClass "string" 0 3]

/-- The cursor goes between the brackets and is carried along by an edit, which is undone. -/
def carried : List (CourseEvent PlainText) :=
  [.command (.setMatcher ⟨2⟩), .command (.setHighlightBrackets true), .command (.placeCursor 3),
    .command .beginUserAction, .command (.insert 3 ['(']), .command (.delete 0 1),
    .command .endUserAction, .command .undo]

theorem bracketTag_current_carried :
    let b := (ofDocument ((Document.new 0 []).operateAll besideString) PlainText.mk).undergoAll
      carried
    (∀ p, ¬((Document.new 0 []).operateAll besideString).tags.Marks bracketTag p) ∧
      (ofDocument ((Document.new 0 []).operateAll besideString) PlainText.mk).UnmeddledAll carried ∧
      b.doc.tags.rangesOf bracketTag = ⟨[⟨3, 5⟩]⟩ ∧
      ∀ p, (b.doc.tags.rangesOf bracketTag).contains p = true ↔ p = 3 ∨ p = 4 := by
  intro b
  have hsetup (p : Nat) :
      ¬((Document.new 0 []).operateAll besideString).tags.Marks bracketTag p := by
    rintro ⟨id, r, hname, -⟩
    exact TagTable.lookup?_eq_none_iff.1 (by decide +kernel) id hname
  have hes : (ofDocument ((Document.new 0 []).operateAll besideString) PlainText.mk).UnmeddledAll
      carried :=
    ⟨rfl, trivial, trivial, trivial, trivial, trivial, trivial, trivial, trivial⟩
  have hmatch : b.matcher.findMatch b.doc b.doc.cursor = .found 3 4 := by decide +kernel
  obtain ⟨hcurrent, -⟩ := bracketTag_current 0 [] besideString hsetup hes
  refine ⟨hsetup, hes, by decide +kernel, fun p => ?_⟩
  refine (hcurrent (by decide +kernel) (by decide +kernel) p).trans
    ⟨?_, fun hp => ⟨3, 4, hmatch, hp⟩⟩
  rintro ⟨bracket, partner, hfound, hp⟩
  obtain ⟨rfl, rfl⟩ := BracketResult.found.inj (hmatch.symm.trans hfound)
  exact hp

end Buffer
end CodeBuffer
