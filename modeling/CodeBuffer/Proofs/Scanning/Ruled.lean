import CodeBuffer.Proofs.Scanning.Partition

namespace CodeBuffer
namespace LineIndex

open Text

/-- Lines as a rope is documented to count them. They begin at the start of the text and behind what
ends a line, a return and its feed taken together. An offset is on the last one that has begun. -/
structure Lawful (r : LineIndex) : Prop where
  startOf_lt : ∀ t l l', l < l' → l' < r.count t → r.startOf t l < r.startOf t l'
  begins_iff : ∀ t s, (∃ l < r.count t, r.startOf t l = s) ↔ s = 0 ∨ ∃ i, BreaksAt t i ∧ s = i + 1
  lineAt_lt : ∀ t, ∀ o ≤ t.length, r.lineAt t o < r.count t
  le_lineAt_iff : ∀ t, ∀ o ≤ t.length, ∀ l < r.count t, l ≤ r.lineAt t o ↔ r.startOf t l ≤ o

variable {r : LineIndex} {t : Text} {o l : Nat}

theorem startOf_lineIndex (hl : l < t.lineCount) : lineIndex.startOf t l = t.lineStart l := by
  rw [lineStart, Nat.min_eq_left (by omega)]

theorem lineAt_lineIndex (ho : o ≤ t.length) : lineIndex.lineAt t o = t.lineOf o := by
  rw [lineOf, Nat.min_eq_left ho]

theorem lawful_lineIndex : lineIndex.Lawful where
  startOf_lt t l l' hlt hl' := by
    rw [startOf_lineIndex (Nat.lt_trans hlt hl'), startOf_lineIndex hl']
    exact lineStart_lt hlt hl'
  begins_iff t s := by
    rw [← isLineStart_iff]
    exact exists_congr fun l => and_congr_right fun hl => by rw [startOf_lineIndex hl]
  lineAt_lt t o ho := by
    rw [lineAt_lineIndex ho]
    exact t.lineOf_lt o
  le_lineAt_iff t o ho l hl := by
    rw [lineAt_lineIndex ho, startOf_lineIndex hl]
    exact le_lineOf_iff ho hl

/-- The starts of the lines, in order. -/
theorem Lawful.map_startOf (hr : r.Lawful) (t : Text) :
    (List.range (r.count t)).map (r.startOf t) = t.lineStarts := by
  have hascends : ((List.range (r.count t)).map (r.startOf t)).Pairwise (· < ·) := by
    refine List.pairwise_map.2 (List.pairwise_lt_range.imp_of_mem ?_)
    intro l l' _ hl' hlt
    exact hr.startOf_lt t l l' hlt (List.mem_range.1 hl')
  have hsame (s : Nat) : s ∈ (List.range (r.count t)).map (r.startOf t) ↔ s ∈ t.lineStarts := by
    rw [← isLineStart_iff_mem, isLineStart_iff, ← hr.begins_iff]
    simp only [List.mem_map, List.mem_range]
  have hperm := (List.perm_ext_iff_of_nodup (hascends.imp Nat.ne_of_lt)
    (t.pairwise_lineStarts.imp Nat.ne_of_lt)).2 hsame
  exact hperm.eq_of_pairwise (fun a b _ _ hab hba => absurd hab (Nat.lt_asymm hba)) hascends
    t.pairwise_lineStarts

/-- Whatever the rope, if it keeps to the rule then what a text asks of it has one answer. -/
theorem Lawful.answers (hr : r.Lawful) (t : Text) :
    r.count t = t.lineCount ∧ (∀ line, r.startOf t (min line (r.count t - 1)) = t.lineStart line) ∧
      ∀ o, r.lineAt t (min o t.length) = t.lineOf o := by
  have hcount : r.count t = t.lineCount := by
    rw [← List.length_range (n := r.count t), ← List.length_map (r.startOf t), hr.map_startOf]
    rfl
  have hstart {l : Nat} (hl : l < t.lineCount) : r.startOf t l = t.lineStart l := by
    have hall : ((List.range (r.count t)).map (r.startOf t))[l]? = t.lineStarts[l]? := by
      rw [hr.map_startOf]
    rw [List.getElem?_map, List.getElem?_range (hcount ▸ hl),
      lineStarts_getElem? t (Nat.le_of_lt_succ hl)] at hall
    exact Option.some.inj hall
  have hpos : 0 < t.lineCount := Nat.succ_pos _
  refine ⟨hcount, fun line => ?_, fun o => ?_⟩
  · rw [hcount, hstart (by omega), ← startOf_lineIndex (by omega)]
    rfl
  · have ho := Nat.min_le_right o t.length
    have hlt : r.lineAt t (min o t.length) < t.lineCount := hcount ▸ hr.lineAt_lt t _ ho
    have hlt' : t.lineOf o < t.lineCount := t.lineOf_lt o
    apply Nat.le_antisymm
    · -- each of the two lines has begun, so neither is behind the other
      refine (lawful_lineIndex.le_lineAt_iff t _ ho _ hlt).2 ?_
      rw [startOf_lineIndex hlt, ← hstart hlt]
      exact (hr.le_lineAt_iff t _ ho _ (hcount ▸ hlt)).1 (Nat.le_refl _)
    · refine (hr.le_lineAt_iff t _ ho _ (hcount ▸ hlt')).2 ?_
      rw [hstart hlt', ← startOf_lineIndex hlt']
      exact (lawful_lineIndex.le_lineAt_iff t _ ho _ hlt').1 (Nat.le_refl _)

end LineIndex
end CodeBuffer
