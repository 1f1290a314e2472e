import CodeBuffer.Proofs.Plain.Crossing
import CodeBuffer.Proofs.Plain.Scratch

namespace CodeBuffer

open Delimiter DelimiterTable PlainLanguage

namespace DelimiterTable

theorem oldEntries_truncateOld (T : DelimiterTable) (head : Nat) :
    (T.truncateOld head).oldEntries =
      T.oldEntries.takeWhile fun d => decide (d.offset < head) := by
  obtain ⟨entries, old, frontier⟩ := T
  cases old with
  | none => rfl
  | some old =>
    simp only [truncateOld, oldEntries, Option.bind_some, Option.elim_some]
    split
    · rename_i hempty
      rw [List.isEmpty_iff.1 hempty]
      rfl
    · rfl

theorem withinLines_of_offset_lt {head : Nat} {d : Delimiter} (hd : d.offset < head) :
    withinLines head d = true := by
  rw [withinLines_iff]
  split <;> omega

/-- Of the delimiters that belong to the lines before a line start, those before it come first. -/
theorem takeWhile_offset_prefix (ds : List Delimiter) (head : Nat) :
    ds.takeWhile (fun d => decide (d.offset < head)) <+: ds.takeWhile (withinLines head) := by
  induction ds with
  | nil => exact List.nil_prefix
  | cons d ds ih =>
    by_cases hd : d.offset < head
    · rw [List.takeWhile_cons_of_pos (by simpa using hd),
        List.takeWhile_cons_of_pos (withinLines_of_offset_lt hd)]
      exact (List.prefix_cons_inj d).2 ih
    · rw [List.takeWhile_cons_of_neg (by simpa using hd)]
      exact List.nil_prefix

end DelimiterTable

namespace PlainLanguage

variable {L : PlainLanguage} {t t' : Text} {e : Edit} {T : DelimiterTable} {f : Nat}
  {base : List Delimiter} {start : Nat}

/-- What is left of the old delimiters before the edited line is seen there in the new text. -/
theorem Tracks.old_truncateOld (hT : L.Tracks t base start T) (he : e.Turns t t') :
    ∃ o ≥ T.frontier.reach t, ∃ state stop, L.Explores t' o state
      (T.truncateOld (t'.lineStartOf e.offset)).oldEntries stop := by
  obtain ⟨head, hhead⟩ : ∃ head, head = t'.lineStartOf e.offset := ⟨_, rfl⟩
  have hle : head ≤ e.offset := by
    have := t'.lineStartOf_le e.offset
    omega
  have htake := he.take_eq hle
  have hclosed : Text.Closed (t'.take head) := hhead ▸ t'.closed_lineStartOf _
  have hclean : L.Clean t head := clean_of_isSeam (.inr (htake ▸ hclosed))
  have hclean' : L.Clean t' head := clean_of_isSeam (.inr hclosed)
  obtain ⟨o, ho, state, stop, hseen⟩ := hT.old
  rw [oldEntries_truncateOld, ← hhead]
  by_cases hlo : o ≤ head
  · obtain ⟨m, hm, hbefore⟩ := hseen.takeWithin hclean hlo
    obtain ⟨rest, hrest⟩ := takeWhile_offset_prefix T.oldEntries head
    rw [← hrest] at hbefore
    obtain ⟨m', hm', hfirst⟩ := hbefore.init
    exact ⟨o, ho, state, m', hfirst.congr (hm'.trans hm) htake.symm hclean hclean'⟩
  · have hnil : T.oldEntries.takeWhile (fun d => decide (d.offset < head)) = [] := by
      cases hold : T.oldEntries with
      | nil => rfl
      | cons d ds =>
        apply List.takeWhile_cons_of_neg
        intro hd
        have hout := (hseen.within d (hold ▸ List.mem_cons_self)).1
        have hin := withinLines_of_offset_lt (of_decide_eq_true hd)
        rw [withinLines_mono (by omega) hin] at hout
        cases hout
    rw [hnil]
    exact ⟨o, ho, state, o, .nothing _ _⟩

/-- An edit behind a pending frontier leaves what is seen before it, if no word of the new text lies
across it. -/
theorem Tracks.truncateOld (hT : L.Tracks t [] 0 T) (he : e.Turns t t')
    (hf : T.frontier = .pending f) (hbeyond : f ≤ e.offset) (hc : ¬L.Crossed t' f) :
    L.Tracks t' [] 0 (T.truncateOld (t'.lineStartOf e.offset)) := by
  have hreach : (T.truncateOld (t'.lineStartOf e.offset)).frontier = .pending f := hf
  have hle := he.stop_le
  have := e.offset_le_stop
  obtain ⟨ds, hds, hseen⟩ := hT.entries
  obtain ⟨o, ho, hold⟩ := hT.old_truncateOld he
  rw [hf, Frontier.reach] at hseen ho
  rw [List.nil_append] at hds
  refine ⟨?_, ⟨ds, hds, ?_⟩, o, ?_, hold⟩ <;> rw [hreach, Frontier.reach]
  · omega
  · exact (explores_iff_not_crossed hseen (he.take_eq hbeyond)).2 hc
  · exact ho

/-- What is found from a pending frontier on is seen from there in any case. -/
theorem Tracks.truncateOld_after (hT : L.Tracks t [] 0 T) (he : e.Turns t t')
    (hf : T.frontier = .pending f) (hbeyond : f ≤ e.offset) :
    L.Tracks t' T.entries f (T.truncateOld (t'.lineStartOf e.offset)) := by
  have hreach : (T.truncateOld (t'.lineStartOf e.offset)).frontier = .pending f := hf
  have hle := he.stop_le
  have := e.offset_le_stop
  obtain ⟨o, ho, hold⟩ := hT.old_truncateOld he
  rw [hf, Frontier.reach] at ho
  refine ⟨?_, ⟨[], by rw [List.append_nil]; rfl, ?_⟩, o, ?_, hold⟩ <;>
    rw [hreach, Frontier.reach]
  · omega
  · exact .nothing f _
  · exact ho

end PlainLanguage

namespace Highlighter

variable {L : PlainLanguage} {h : Highlighter} {t t' : Text} {e : Edit} {base : List Delimiter}
  {start : Nat}

/-- An edit behind a pending frontier brings no word across it. -/
def Spares (L : PlainLanguage) (h : Highlighter) (t : Text) (e : Edit) : Prop :=
  ∀ f, h.table.frontier = .pending f → f ≤ e.offset → ¬L.Crossed t f

/-- What an edit makes of the table. -/
theorem table_edited (hd : h.hasDelimited = true) (t : Text) (e : Edit) :
    (h.edited t e).table =
      if h.table.isBeyondFrontier e then h.table.truncateOld (t.lineStartOf e.offset)
      else (h.rescanned t e).2 := by
  obtain ⟨g, hg⟩ : ∃ g, g = { h with bufferLength := t.length }.shiftRegions e := ⟨_, rfl⟩
  have htable : g.table = h.table := by
    rw [hg]
    cases e <;> rfl
  have hsetup : h.SameSetup (g.refreshRange (t.lineStartOf e.offset) (t.nextLineStart e.stop)) :=
    .trans (hg ▸ h.sameSetup_shiftRegions t.length e) (sameSetup_refreshRange g _ _)
  rw [edited, ← hg, updateTable]
  simp only [hsetup.hasDelimited_eq, hd, Bool.not_true, Bool.false_eq_true, if_false,
    table_refreshRange, htable, hsetup.patterns, hsetup.escape]
  rw [apply_ite Highlighter.table]
  rfl

theorem edited_tracks (hL : L.SpokenBy h) (hd : h.hasDelimited = true)
    (hT : L.Tracks t [] 0 h.table) (he : e.Turns t t') (hs : h.Spares L t' e) :
    L.Tracks t' [] 0 (h.edited t' e).table := by
  rw [table_edited hd]
  split
  · rename_i hbeyond
    cases hf : h.table.frontier with
    | complete => simp [isBeyondFrontier, hf] at hbeyond
    | pending f =>
      rw [isBeyondFrontier, hf, decide_eq_true_eq] at hbeyond
      exact hT.truncateOld he hf hbeyond (hs f hf hbeyond)
  · rename_i hin
    exact rescanned_tracks hL hT he (Bool.not_eq_true _ ▸ hin)

theorem buildAll_tracks (hL : L.SpokenBy h) (hT : L.Tracks t base start h.table)
    (needs : List Nat) : L.Tracks t base start (h.buildAll t needs).table := by
  induction needs generalizing h with
  | nil => exact hT
  | cons needed needs ih =>
    exact ih ((h.sameSetup_build t needed).spokenBy hL) (build_tracks hL hT needed).1

/-- The next batch would end at the end of the text without finding that out, since old delimiters
take over up to there. -/
def Stalls (h : Highlighter) (t : Text) : Prop :=
  ∃ f < t.length, h.table.frontier = .pending f ∧
    (h.build t t.length).table.frontier = .pending t.length

/-- Only what is not analysed can stall. -/
theorem not_stalls_of_covers (hc : h.table.frontier.covers t.length = true) : ¬h.Stalls t := by
  rintro ⟨f, hlt, hpending, -⟩
  rw [hpending, Frontier.covers, decide_eq_true_eq] at hc
  omega

theorem batchStop_length (h : Highlighter) (t : Text) (f : Nat) :
    h.batchStop t f t.length = t.length := by
  have := t.le_nextLineStart t.length (Nat.le_refl _)
  have := t.nextLineStart_le t.length
  rw [batchStop, Nat.min_eq_right (Nat.le_max_right _ _)]
  omega

/-- A batch up to the end of the text finishes, unless old delimiters take over. -/
theorem build_length (h : Highlighter) (t : Text) {f : Nat} (hf : h.table.frontier = .pending f) :
    (h.build t t.length).table.frontier = .complete ∨
      h.table.oldEntries ≠ [] ∧ (h.build t t.length).table.oldEntries = [] := by
  rcases h.build_cases t t.length hf rfl with
    ⟨before, d, behind, cs, rest, es, e, -, hold, -, -, hbuild⟩ | ⟨old, -, hbuild⟩
  · rw [hbuild]
    exact .inr ⟨by rw [hold]; simp, rfl⟩
  · rw [hbuild, batchStop_length]
    exact .inl (by simp [DelimiterTable.finishBatch])

theorem buildUntil_of_covers (h : Highlighter) (t : Text) {o : Nat}
    (hc : h.table.frontier.covers o = true) (fuel : Nat) : h.buildUntil t o fuel = h := by
  cases fuel with
  | zero => rfl
  | succ fuel => rw [buildUntil, if_pos hc]

/-- As long as an offset is not covered, a batch that makes progress is followed by others. -/
theorem buildUntil_succ {o : Nat} (hc : h.table.frontier.covers o = false)
    (hprogress : (h.build t o).table.frontier = .complete ∨
      h.table.frontier.reach t < (h.build t o).table.frontier.reach t) (fuel : Nat) :
    h.buildUntil t o (fuel + 1) = (h.build t o).buildUntil t o fuel := by
  have hne : (h.build t o).table.frontier ≠ h.table.frontier := by
    intro heq
    rcases hprogress with hcomplete | hlt
    · rw [← heq, hcomplete] at hc
      cases hc
    · rw [heq] at hlt
      omega
  rw [buildUntil, if_neg (by rw [hc]; exact Bool.false_ne_true)]
  simp only [hne, if_false]

/-- One batch or two analyse everything that is not analysed. -/
theorem buildUntil_length (hL : L.SpokenBy h) (hT : L.Tracks t base start h.table) {f : Nat}
    (hf : h.table.frontier = .pending f) (hlt : f < t.length) (fuel : Nat) :
    (h.buildUntil t t.length (fuel + 2)).table.frontier.reach t = t.length ∧
      ((h.buildUntil t t.length (fuel + 2)).table.frontier = .complete ↔ ¬h.Stalls t) := by
  have hstalls : h.Stalls t ↔ (h.build t t.length).table.frontier = .pending t.length :=
    ⟨fun ⟨_, _, _, hs⟩ => hs, fun hs => ⟨f, hlt, hf, hs⟩⟩
  obtain ⟨hbuilt, hprogress⟩ := build_tracks hL hT t.length
  have hL' := (h.sameSetup_build t t.length).spokenBy hL
  have hreach := hbuilt.reach_le
  rw [buildUntil_succ (by simp [hf, Frontier.covers]; omega) hprogress, hstalls]
  cases hg : (h.build t t.length).table.frontier with
  | complete =>
    rw [buildUntil_of_covers _ t (by rw [hg]; rfl), hg]
    exact ⟨rfl, by simp⟩
  | pending f' =>
    rw [hg, Frontier.reach] at hreach
    by_cases hend : f' = t.length
    · rw [buildUntil_of_covers _ t (by simp [hg, Frontier.covers, hend]), hg, hend]
      exact ⟨rfl, by simp⟩
    · -- the old delimiters are used up, so that the second batch finishes
      rw [buildUntil_succ (by simp [hg, Frontier.covers]; omega)
        (build_tracks hL' hbuilt t.length).2]
      have hcomplete := ((h.build t t.length).build_length t hg).resolve_right fun hold =>
        hold.1 (((h.build_length t hf).resolve_left (by simp [hg])).2)
      rw [buildUntil_of_covers _ t (by rw [hcomplete]; rfl), hcomplete]
      exact ⟨rfl, by simp [hend]⟩

/-- To highlight everything at once analyses everything. Whether it finds that out is another
matter. -/
theorem updateHighlight_all (hL : L.SpokenBy h) {d : Document} (ha : h.isAttachedTo d = true)
    (hT : L.Tracks d.text base start h.table) :
    L.Tracks d.text base start (h.updateHighlight d 0 d.length true).1.table ∧
      (h.updateHighlight d 0 d.length true).1.table.frontier.reach d.text = d.text.length ∧
        ((h.updateHighlight d 0 d.length true).1.table.frontier = .complete ↔
          ¬h.Stalls d.text) := by
  obtain ⟨needs, hpainted⟩ := h.updateHighlight_eq d 0 d.length true
  have htracks := buildAll_tracks hL hT needs
  rw [← hpainted.table] at htracks
  refine ⟨htracks, ?_⟩
  clear hpainted htracks
  have hlen : d.length = d.text.length := rfl
  have hneeded : d.text.lineBoundary d.length = d.text.length := d.text.lineBoundary_length
  rw [updateHighlight, if_pos ha]
  simp only [Nat.min_self, Nat.zero_min, hneeded]
  cases hf : h.table.frontier with
  | complete =>
    have hdone : ¬h.Stalls d.text := not_stalls_of_covers (by rw [hf]; rfl)
    simp only [Bool.false_eq_true, if_false, hf, Frontier.covers, if_true]
    rw [(h.painted_ensureHighlighted d 0 d.length).table, hf]
    exact ⟨rfl, fun _ => hdone, fun _ => rfl⟩
  | pending f =>
    by_cases hend : d.length ≤ f
    · -- the last batch is owed
      have hdone : ¬h.Stalls d.text :=
        not_stalls_of_covers (by rw [hf, Frontier.covers, decide_eq_true_eq]; omega)
      obtain ⟨hbuilt, hprogress⟩ := build_tracks hL hT d.text.length
      have hbuiltreach := hbuilt.reach_le
      have hcomplete : (h.build d.text d.text.length).table.frontier = .complete := by
        rcases hprogress with hc | hlt
        · exact hc
        · rw [hf, Frontier.reach] at hlt
          omega
      simp only [Bool.true_and, hend, decide_true, if_true, hcomplete, Frontier.covers]
      rw [(painted_ensureHighlighted _ d 0 d.length).table, hcomplete]
      exact ⟨rfl, fun _ => hdone, fun _ => rfl⟩
    · have hfinal := buildUntil_length hL hT hf (by omega) d.length
      simp only [Bool.true_and, hend, decide_false, Bool.false_eq_true, if_false, hf,
        Frontier.covers, if_true, ← hlen]
      rw [(painted_ensureHighlighted _ d 0 d.length).table]
      exact hfinal

end Highlighter
end CodeBuffer
