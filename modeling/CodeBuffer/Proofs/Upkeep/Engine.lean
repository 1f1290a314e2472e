import CodeBuffer.Highlighter.Registration
import CodeBuffer.Proofs.Region.Offsets
import CodeBuffer.Proofs.Upkeep.Table

namespace CodeBuffer

open Delimiter DelimiterTable

namespace Region

/-- A region with no offset from a bound on. -/
def Below (r : Region) (n : Nat) : Prop := r.WellFormed ∧ ∀ p, r.contains p = true → p < n

/-- A region that has lost some offsets. -/
def PartOf (r r' : Region) : Prop :=
  (r'.WellFormed → r.WellFormed) ∧ ∀ p, r.contains p = true → r'.contains p = true

variable {r r' r'' : Region} {n start stop : Nat}

theorem below_empty (n : Nat) : empty.Below n := ⟨wellFormed_empty, by simp [contains, empty]⟩

theorem Below.add (h : r.Below n) (hstop : stop ≤ n) (start : Nat) :
    (r.add start stop).Below n := by
  refine ⟨wellFormed_add h.1 start stop, fun p hp => ?_⟩
  rcases (contains_add h.1).1 hp with hp | hp
  · omega
  · exact h.2 p hp

theorem Below.shiftForInsertion (h : r.Below n) (pos len : Nat) :
    (r.shiftForInsertion pos len).Below (n + len) := by
  refine ⟨wellFormed_shiftForInsertion h.1 pos len, fun p hp => ?_⟩
  rcases (contains_shiftForInsertion h.1).1 hp with ⟨-, hp⟩ | ⟨-, hp⟩ | ⟨-, hlt, -, -, hp⟩
  · have := h.2 p hp
    omega
  · have := h.2 _ hp
    omega
  · have := h.2 pos hp
    omega

theorem Below.shiftForDeletion (h : r.Below n) (hstop : stop ≤ n) (hle : start ≤ stop) :
    (r.shiftForDeletion start stop).Below (n - (stop - start)) := by
  refine ⟨wellFormed_shiftForDeletion h.1 start stop, fun p hp => ?_⟩
  rcases contains_shiftForDeletion.1 hp with ⟨hlt, -⟩ | ⟨-, hp⟩
  · omega
  · have := h.2 _ hp
    omega

namespace PartOf

theorem refl (r : Region) : r.PartOf r := ⟨id, fun _ => id⟩

theorem trans (h : r.PartOf r') (h' : r'.PartOf r'') : r.PartOf r'' :=
  ⟨fun hw => h.1 (h'.1 hw), fun p hp => h'.2 p (h.2 p hp)⟩

theorem subtract (r : Region) (start stop : Nat) : (r.subtract start stop).PartOf r :=
  ⟨fun hw => wellFormed_subtract hw start stop, fun _ hp => (contains_subtract.1 hp).1⟩

theorem below (h : r.PartOf r') (hb : r'.Below n) : r.Below n :=
  ⟨h.1 hb.1, fun p hp => hb.2 p (h.2 p hp)⟩

end PartOf
end Region

namespace Highlighter

variable {h h' h'' : Highlighter} {d : Document} {t t' : Text} {e : Edit}

theorem hasDelimited_eq_false_iff : h.hasDelimited = false ↔ delimitedOf h.patterns = [] := by
  simp [hasDelimited, Pattern.isDelimited, delimitedOf]

/-! What a highlighter does to tag a document leaves all but its tags as it was. -/

/-- Nothing but the tags that a highlighter keeps changes. -/
def SameButTags (h h' : Highlighter) : Prop :=
  ∃ patternTags classTags staleTags, h' = { h with patternTags, classTags, staleTags }

namespace SameButTags

theorem refl (h : Highlighter) : h.SameButTags h := ⟨_, _, _, rfl⟩

theorem trans (hs : h.SameButTags h') (hs' : h'.SameButTags h'') : h.SameButTags h'' := by
  obtain ⟨_, _, _, rfl⟩ := hs
  obtain ⟨patternTags, classTags, staleTags, rfl⟩ := hs'
  exact ⟨patternTags, classTags, staleTags, rfl⟩

end SameButTags

theorem sameButTags_patternTag (h : Highlighter) (d : Document) (id style : String) :
    h.SameButTags (h.patternTag d id style).2.1 := by
  unfold patternTag
  split
  · exact .refl h
  · exact ⟨_, _, _, rfl⟩

theorem sameButTags_classTag (h : Highlighter) (d : Document) (c : String) :
    h.SameButTags (h.classTag d c).2.1 := by
  unfold classTag
  split
  · exact .refl h
  · exact ⟨_, _, _, rfl⟩

theorem sameButTags_labelTag (h : Highlighter) (d : Document) (label : Label) :
    h.SameButTags (h.labelTag d label).2.1 := by
  cases label with
  | pattern id style => exact h.sameButTags_patternTag d id style
  | contextClass c => exact h.sameButTags_classTag d c

theorem sameButTags_resolveTags (h : Highlighter) (d : Document) :
    h.SameButTags (h.resolveTags d).1 := by
  have resolved (ps : List Pattern) (s : Work) :
      s.1.SameButTags (ps.foldl (fun s p => (s.1.patternTag s.2 p.id p.style).2) s).1 := by
    induction ps generalizing s with
    | nil => exact .refl _
    | cons p ps ih => exact (s.1.sameButTags_patternTag s.2 p.id p.style).trans (ih _)
  have dropped : h.SameButTags (h.dropStaleTags d).1 := ⟨_, _, _, rfl⟩
  exact dropped.trans (resolved h.patterns (h.dropStaleTags d))

theorem sameButTags_paint (strokes : List Stroke) (s : Work) :
    s.1.SameButTags (paint strokes s).1 := by
  have placed (acc : List (TagId × Interval) × Work) :
      acc.2.1.SameButTags (strokes.foldl place acc).2.1 := by
    induction strokes generalizing acc with
    | nil => exact .refl _
    | cons k strokes ih =>
      exact (acc.2.1.sameButTags_labelTag acc.2.2 k.label).trans (ih (place acc k))
  exact placed ([], s)

theorem sameButTags_highlightRegion (h : Highlighter) (d : Document) (start stop : Nat) :
    h.SameButTags (h.highlightRegion d start stop).1 := by
  have dropped : h.SameButTags (h.dropStaleTags d).1 := ⟨_, _, _, rfl⟩
  exact dropped.trans (sameButTags_paint _ _)

/-! A highlighter that tags a document, or loses a simple pattern, has less to do. -/

/-- Less is out of date or asked for, and the enclosures stay what they are. -/
structure Relieved (h h' : Highlighter) : Prop where
  delimited : delimitedOf h'.patterns = delimitedOf h.patterns
  attached : h'.attached = h.attached
  table : h'.table = h.table
  bufferLength : h'.bufferLength = h.bufferLength
  refresh : h'.refresh.PartOf h.refresh
  requests : h'.requests.PartOf h.requests

namespace Relieved

theorem refl (h : Highlighter) : h.Relieved h := ⟨rfl, rfl, rfl, rfl, .refl _, .refl _⟩

theorem trans (hr : h.Relieved h') (hr' : h'.Relieved h'') : h.Relieved h'' :=
  ⟨hr'.delimited.trans hr.delimited, hr'.attached.trans hr.attached, hr'.table.trans hr.table,
    hr'.bufferLength.trans hr.bufferLength, hr'.refresh.trans hr.refresh,
    hr'.requests.trans hr.requests⟩

theorem of_sameButTags (hs : h.SameButTags h') : h.Relieved h' := by
  obtain ⟨_, _, _, rfl⟩ := hs
  exact ⟨rfl, rfl, rfl, rfl, .refl _, .refl _⟩

theorem subtractRefresh (h : Highlighter) (start stop : Nat) :
    h.Relieved { h with refresh := h.refresh.subtract start stop } :=
  ⟨rfl, rfl, rfl, rfl, .subtract _ _ _, .refl _⟩

theorem subtractRequests (h : Highlighter) (start stop : Nat) :
    h.Relieved { h with requests := h.requests.subtract start stop } :=
  ⟨rfl, rfl, rfl, rfl, .refl _, .subtract _ _ _⟩

end Relieved

theorem relieved_highlightLines (s : Work) (i : Interval) :
    s.1.Relieved (highlightLines s i).1 := by
  refine iteInduction (motive := fun s' : Work => s.1.Relieved s'.1) (fun _ => ?_)
    (fun _ => .refl _)
  exact (Relieved.of_sameButTags (s.1.sameButTags_highlightRegion s.2 _ _)).trans
    (.subtractRefresh _ _ _)

theorem relieved_ensureHighlighted (h : Highlighter) (d : Document) (start stop : Nat) :
    h.Relieved (h.ensureHighlighted d start stop).1 := by
  have lines (is : List Interval) (s : Work) : s.1.Relieved (is.foldl highlightLines s).1 := by
    induction is generalizing s with
    | nil => exact .refl _
    | cons i is ih => exact (relieved_highlightLines s i).trans (ih _)
  exact lines _ (h, d)

theorem relieved_serve (requests : List Interval) (s : Work) :
    s.1.Relieved (serve requests s).1 := by
  induction requests generalizing s with
  | nil => exact .refl _
  | cons request requests ih =>
    obtain ⟨h, d⟩ := s
    rw [serve]
    have served (limit : Nat) :
        h.Relieved ({ h with requests := h.requests.subtract request.start limit }.ensureHighlighted
          d request.start limit).1 :=
      (Relieved.subtractRequests h request.start limit).trans (relieved_ensureHighlighted _ _ _ _)
    refine iteInduction (motive := fun s' : Work => h.Relieved s'.1) (fun _ => .refl _) fun _ => ?_
    exact iteInduction (motive := fun s' : Work => h.Relieved s'.1) (fun _ => served _)
      fun _ => (served _).trans (ih _)

/-- A highlighter in order: its table is one of the text, and nothing behind the text is out of date
or asked for. -/
structure Sound (h : Highlighter) (t : Text) : Prop where
  table : h.table.Sound t h.keys
  trivial_table : h.hasDelimited = false → h.table = .reset true
  refresh : h.refresh.Below t.length
  requests : h.requests.Below t.length
  bufferLength : h.bufferLength = t.length

theorem Sound.relieved (hs : h.Sound t) (hr : h.Relieved h') : h'.Sound t := by
  refine ⟨?_, ?_, hr.refresh.below hs.refresh, hr.requests.below hs.requests,
    hr.bufferLength.trans hs.bufferLength⟩
  · rw [hr.table, keys, hr.delimited]
    exact hs.table
  · intro hd
    rw [hasDelimited_eq_false_iff, hr.delimited, ← hasDelimited_eq_false_iff] at hd
    rw [hr.table]
    exact hs.trivial_table hd

theorem Sound.addRefresh (hs : h.Sound t) {stop : Nat} (hstop : stop ≤ t.length) (start : Nat) :
    (h.refreshRange start stop).Sound t := by
  unfold refreshRange
  split
  · exact hs
  · exact { hs with refresh := hs.refresh.add hstop start }

theorem Sound.refreshAll (hs : h.Sound t) : h.refreshAll.Sound t := by
  unfold Highlighter.refreshAll
  split
  · exact hs.addRefresh (Nat.le_of_eq hs.bufferLength) 0
  · exact hs

/-- What is forgotten is in order. -/
theorem sound_invalidateAll (hrefresh : h.refresh.Below t.length)
    (hrequests : h.requests.Below t.length) (hlength : h.bufferLength = t.length) :
    h.invalidateAll.Sound t := by
  refine Sound.refreshAll ⟨sound_reset t _ _, ?_, hrefresh, hrequests, hlength⟩
  intro hd
  rw [show h.hasDelimited = false from hd]
  rfl

/-! Analysis -/

theorem refreshRange_eq (h : Highlighter) (start stop : Nat) :
    ∃ refresh announced, h.refreshRange start stop = { h with refresh, announced } := by
  unfold refreshRange
  split <;> exact ⟨_, _, rfl⟩

theorem contains_refreshRange (hr : h.refresh.WellFormed) (start stop p : Nat) :
    (h.refreshRange start stop).refresh.contains p = true ↔
      (start ≤ p ∧ p < stop) ∨ h.refresh.contains p = true := by
  unfold refreshRange
  split
  · rename_i hle
    exact ⟨.inr, fun hp => hp.resolve_left (by omega)⟩
  · exact Region.contains_add hr

/-- A batch changes the table and the size of the next one, and leaves its lines to be tagged. -/
theorem build_eq (h : Highlighter) (t : Text) (needed : Nat) {f : Nat}
    (hf : h.table.frontier = .pending f) :
    ∃ batchSize estimates, h.build t needed =
      ({ h with table := (h.build t needed).table, batchSize, estimates }).refreshRange f
        (h.batchStop t f needed) := by
  have resized (table : DelimiterTable) (stop : Nat) : ∃ batchSize estimates,
      ({ h with table }.reestimate (stop - f)).refreshRange f stop =
        ({ h with table, batchSize, estimates }).refreshRange f stop := by
    obtain ⟨batchSize, estimates, heq⟩ := reestimate_eq { h with table } (stop - f)
    exact ⟨batchSize, estimates, by rw [heq]⟩
  simp only [build, hf, table_refreshRange, table_reestimate]
  exact resized _ _

theorem contains_refresh_build (hr : h.refresh.WellFormed) {f : Nat}
    (hf : h.table.frontier = .pending f) (needed p : Nat) :
    (h.build t needed).refresh.contains p = true ↔
      (f ≤ p ∧ p < h.batchStop t f needed) ∨ h.refresh.contains p = true := by
  obtain ⟨batchSize, estimates, heq⟩ := build_eq h t needed hf
  rw [heq]
  exact contains_refreshRange
    (h := { h with table := (h.build t needed).table, batchSize, estimates }) hr _ _ _

theorem build_same (h : Highlighter) (t : Text) (needed : Nat) :
    ∃ table refresh batchSize estimates announced,
      h.build t needed = { h with table, refresh, batchSize, estimates, announced } := by
  cases hf : h.table.frontier with
  | complete =>
    rw [build, hf]
    exact ⟨_, _, _, _, _, rfl⟩
  | pending f =>
    obtain ⟨batchSize, estimates, hbuilt⟩ := build_eq h t needed hf
    obtain ⟨refresh, announced, heq⟩ :=
      ({ h with table := (h.build t needed).table, batchSize, estimates } :
        Highlighter).refreshRange_eq f (h.batchStop t f needed)
    exact ⟨_, _, _, _, _, hbuilt.trans heq⟩

theorem Sound.build (hs : h.Sound t) (needed : Nat) : (h.build t needed).Sound t := by
  cases hf : h.table.frontier with
  | complete =>
    rw [Highlighter.build, hf]
    exact hs
  | pending f =>
    have htrivial (hd : h.hasDelimited = false) : (h.build t needed).table = .reset true := by
      rw [hs.trivial_table hd] at hf
      cases hf
    obtain ⟨batchSize, estimates, heq⟩ := build_eq h t needed hf
    have hbuilt : ({ h with table := (h.build t needed).table, batchSize, estimates }).Sound t :=
      ⟨(sound_build hs.table needed).1, htrivial, hs.refresh, hs.requests, hs.bufferLength⟩
    rw [heq]
    exact hbuilt.addRefresh (t.nextLineStart_le _) f

theorem Sound.buildAll (hs : h.Sound t) (needs : List Nat) : (h.buildAll t needs).Sound t := by
  induction needs generalizing h with
  | nil => exact hs
  | cons needed needs ih => exact ih (hs.build needed)

theorem Sound.shiftRegions (hs : h.Sound t) (he : e.Turns t t') :
    (h.shiftRegions e).refresh.Below t'.length ∧ (h.shiftRegions e).requests.Below t'.length := by
  have hback := he.back_length
  have hstop := he.stop_le
  cases e with
  | insertion o n =>
    have hlen : t'.length = t.length + n := by
      simp only [Edit.back, Edit.stop] at hback hstop
      omega
    rw [hlen]
    exact ⟨hs.refresh.shiftForInsertion o n, hs.requests.shiftForInsertion o n⟩
  | deletion o n =>
    have hlen : t'.length = t.length - (o + n - o) := by
      simp only [Edit.back] at hback
      omega
    have hle : o + n ≤ t.length := he.1
    rw [hlen]
    exact ⟨hs.refresh.shiftForDeletion hle (Nat.le_add_right o n),
      hs.requests.shiftForDeletion hle (Nat.le_add_right o n)⟩

/-- An edit moves what is out of date or asked for along, adds the edited lines, and changes the
table. -/
theorem edited_eq (h : Highlighter) (t : Text) (e : Edit) :
    h.edited t e = { ({ h with bufferLength := t.length }.shiftRegions e).refreshRange
      (t.lineStartOf e.offset) (t.nextLineStart e.stop) with table := (h.edited t e).table } := by
  unfold Highlighter.edited updateTable
  dsimp only
  split
  · rfl
  · split <;> rfl

theorem table_edited_of_simple (hd : h.hasDelimited = false) (t : Text) (e : Edit) :
    (h.edited t e).table = h.table := by
  have hsetup := (h.sameSetup_shiftRegions t.length e).trans
    (sameSetup_refreshRange _ (t.lineStartOf e.offset) (t.nextLineStart e.stop))
  unfold Highlighter.edited updateTable
  dsimp only
  rw [hsetup.hasDelimited_eq, hd, Bool.not_false, if_pos rfl, table_refreshRange]
  cases e <;> rfl

/-- An edit that the highlighter is told of. -/
theorem Sound.edited (hs : h.Sound t) (he : e.Turns t t') : (h.edited t' e).Sound t' := by
  obtain ⟨hrefresh, hrequests⟩ := hs.shiftRegions he
  have htrivial (hd : h.hasDelimited = false) : (h.edited t' e).table = .reset true := by
    rw [table_edited_of_simple hd, hs.trivial_table hd]
  have htable : (h.edited t' e).table.Sound t' h.keys := by
    cases hd : h.hasDelimited with
    | false =>
      rw [htrivial hd]
      exact sound_reset t' _ true
    | true =>
      rw [table_edited hd]
      split
      · rename_i hbeyond
        cases hf : h.table.frontier with
        | complete => simp [isBeyondFrontier, hf] at hbeyond
        | pending f =>
          rw [isBeyondFrontier, hf, decide_eq_true_eq] at hbeyond
          exact hs.table.truncateOld he hf hbeyond
      · rename_i hin
        exact hs.table.applyEdit he (Bool.not_eq_true _ ▸ hin) _
  have hmoved : ({ ({ h with bufferLength := t'.length }.shiftRegions e) with
      table := (h.edited t' e).table }).Sound t' := by
    cases e <;> exact ⟨htable, htrivial, hrefresh, hrequests, rfl⟩
  have hadded := hmoved.addRefresh (t'.nextLineStart_le e.stop) (t'.lineStartOf e.offset)
  rw [edited_eq]
  unfold refreshRange at hadded ⊢
  split at hadded <;> rename_i hle <;> simp only [hle, if_true, if_false] <;> exact hadded

/-! What a highlighter is asked to do -/

theorem Sound.highlights (hs : h.Sound d.text) {s : Work} (hw : h.Highlights d s) :
    s.1.Sound d.text := by
  cases hw with
  | nothing => exact hs
  | tagged needs start stop =>
    exact (hs.buildAll needs).relieved (relieved_ensureHighlighted _ d start stop)
  | asked needs start hstop =>
    have hbuilt := hs.buildAll needs
    exact { hbuilt with requests := hbuilt.requests.add hstop start }

theorem Sound.updateHighlight (hs : h.Sound d.text) (start stop : Nat) (synchronous : Bool) :
    (h.updateHighlight d start stop synchronous).1.Sound d.text :=
  hs.highlights (h.highlights_updateHighlight d start stop synchronous)

theorem Sound.runIdleSlice (hs : h.Sound d.text) : (h.runIdleSlice d).2.1.Sound d.text := by
  unfold Highlighter.runIdleSlice
  split
  · dsimp only
    split
    · exact hs.relieved (relieved_serve _ (h, d))
    · exact (hs.build 0).relieved (relieved_serve _ (h.build d.text 0, d))
  · exact hs

theorem sound_attach (h : Highlighter) (d : Document) :
    (h.attach d).1.Sound d.text ∧ (h.attach d).1.attached = some d.id := by
  have hreset : ({ h.resetState with attached := some d.id, bufferLength := d.length }).Sound
      d.text := by
    refine ⟨sound_reset _ _ _, ?_, Region.below_empty _, Region.below_empty _, rfl⟩
    intro hd
    have hd : h.hasDelimited = false := hd
    simp only [resetState, hd, Bool.not_false]
  have hr := Relieved.of_sameButTags (sameButTags_resolveTags
    { h.resetState with attached := some d.id, bufferLength := d.length } d)
  have hresolved := hreset.relieved hr
  exact ⟨hresolved.addRefresh (Nat.le_of_eq hresolved.bufferLength) 0,
    (sameSetup_refreshRange _ _ _).attached.trans hr.attached⟩

end Highlighter
end CodeBuffer
