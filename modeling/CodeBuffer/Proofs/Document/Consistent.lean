import CodeBuffer.Proofs.Painting.Marks

namespace CodeBuffer
namespace Document

/-- What may be asked of a document. Offsets and names of marks and tags are arbitrary. -/
inductive Operation where
  | insert (o : Nat) (t : Text)
  | delete (start stop : Nat)
  | createMark (o : Nat) (leftGravity : Bool)
  | moveMark (id : MarkId) (o : Nat)
  | deleteMark (id : MarkId)
  | selectRange (insert bound : Nat)
  | createTag (name : String) (style : Option String)
  | applyTag (id : TagId) (start stop : Nat)
  | removeTag (id : TagId) (start stop : Nat)
  | clearTag (id : TagId)
  | applyClass (c : String) (start stop : Nat)
  | setScheme (s : Option StyleScheme)
  | setModified (b : Bool)
  deriving DecidableEq, Repr

/-- What becomes of the document, be the operation rejected or not. -/
def operate (d : Document) : Operation → Document
  | .insert o t => (d.insert o t).1
  | .delete start stop => (d.delete start stop).1
  | .createMark o leftGravity => (d.createMark o leftGravity).2
  | .moveMark id o => d.moveMark id o
  | .deleteMark id => d.deleteMark id
  | .selectRange insert bound => d.selectRange insert bound
  | .createTag name style => (d.createTag name style).2
  | .applyTag id start stop => d.applyTag id start stop
  | .removeTag id start stop => d.removeTag id start stop
  | .clearTag id => d.clearTag id
  | .applyClass c start stop => d.applyClass c start stop
  | .setScheme s => d.setScheme s
  | .setModified b => d.setModified b

def operateAll (d : Document) (ops : List Operation) : Document := ops.foldl operate d

/-- Whether the text is changed at some point of a run. -/
def ChangedBy (d : Document) : List Operation → Prop
  | [] => False
  | op :: ops => (d.operate op).text ≠ d.text ∨ (d.operate op).ChangedBy ops

/-- The mark in a slot. -/
def mark? (d : Document) (id : MarkId) : Option Mark := d.marks[id]?.join

/-- No mark and no tag lies behind the end of the text, and the selection is there. -/
structure Consistent (d : Document) : Prop where
  marks : ∀ id m, d.mark? id = some m → m.offset ≤ d.length
  cursor : (d.mark? cursorMark).isSome
  bound : (d.mark? boundMark).isSome
  tags : d.tags.Tidy d.length

variable {d : Document} {o start stop : Nat} {t : Text} {id : MarkId} {g : Bool}

/-! Edits that are taken and edits that are refused -/

theorem operate_insert (h : o ≤ d.length) (t : Text) :
    d.operate (.insert o t) = d.inserted o t := by
  rw [operate, insert_eq, if_pos h]

theorem operate_insert_of_lt (h : d.length < o) (t : Text) : d.operate (.insert o t) = d := by
  rw [operate, insert_eq, if_neg (Nat.not_le.2 h)]

theorem operate_delete (hle : start ≤ stop) (h : stop ≤ d.length) :
    d.operate (.delete start stop) = d.deleted start stop :=
  (d.delete_fst start stop).trans (if_pos ⟨hle, h⟩)

theorem operate_delete_of_not (h : ¬(start ≤ stop ∧ stop ≤ d.length)) :
    d.operate (.delete start stop) = d :=
  (d.delete_fst start stop).trans (if_neg h)

/-- What an operation on the text may do. -/
theorem operate_insert_cases (d : Document) (o : Nat) (t : Text) :
    d.operate (.insert o t) = d ∨ o ≤ d.length ∧ d.operate (.insert o t) = d.inserted o t := by
  by_cases h : o ≤ d.length
  · exact .inr ⟨h, operate_insert h t⟩
  · exact .inl (operate_insert_of_lt (Nat.not_le.1 h) t)

theorem operate_delete_cases (d : Document) (start stop : Nat) :
    d.operate (.delete start stop) = d ∨
      (start ≤ stop ∧ stop ≤ d.length) ∧
        d.operate (.delete start stop) = d.deleted start stop := by
  by_cases h : start ≤ stop ∧ stop ≤ d.length
  · exact .inr ⟨h, operate_delete h.1 h.2⟩
  · exact .inl (operate_delete_of_not h)

/-! Marks -/

theorem markOffset?_eq (d : Document) (id : MarkId) :
    d.markOffset? id = (d.mark? id).map (·.offset) := rfl

theorem mark?_inserted (ht : t ≠ []) (id : MarkId) :
    (d.inserted o t).mark? id = (d.mark? id).map (Mark.afterInsertion o t.length) := by
  simp only [mark?, inserted, List.isEmpty_iff, if_neg ht, List.getElem?_map]
  cases d.marks[id]? <;> rfl

theorem mark?_deleted (hne : start ≠ stop) (id : MarkId) :
    (d.deleted start stop).mark? id = (d.mark? id).map (Mark.afterDeletion start stop) := by
  simp only [mark?, deleted, if_neg hne, List.getElem?_map]
  cases d.marks[id]? <;> rfl

theorem tags_inserted (ht : t ≠ []) :
    (d.inserted o t).tags = d.tags.mapRanges (·.shiftForInsertion o t.length) := by
  simp only [inserted, List.isEmpty_iff, if_neg ht]

theorem tags_deleted (hne : start ≠ stop) :
    (d.deleted start stop).tags = d.tags.mapRanges (·.shiftForDeletion start stop) := by
  simp only [deleted, if_neg hne]

theorem afterInsertion_le {m : Mark} {n len pos : Nat} (h : m.offset ≤ n) :
    (m.afterInsertion pos len).offset ≤ n + len := by
  unfold Mark.afterInsertion
  split
  · exact Nat.add_le_add_right h len
  · omega

theorem afterDeletion_le {m : Mark} {n : Nat} (h : m.offset ≤ n) (hstop : stop ≤ n)
    (hle : start ≤ stop) : (m.afterDeletion start stop).offset ≤ n - (stop - start) := by
  unfold Mark.afterDeletion
  split
  · exact Nat.sub_le_sub_right h _
  · split
    · dsimp only
      omega
    · omega

/-- A mark is made in a free slot or in a new one. -/
theorem createMark_cases (d : Document) (o : Nat) (g : Bool) :
    d.mark? (d.createMark o g).1 = none ∧
      ∀ id, (d.createMark o g).2.mark? id =
        if id = (d.createMark o g).1 then some ⟨min o d.length, g⟩ else d.mark? id := by
  unfold createMark
  cases hfree : (d.marks.drop 2).findIdx? (·.isNone) with
  | some free =>
    obtain ⟨hlt, hnone, -⟩ := List.findIdx?_eq_some_iff_getElem.1 hfree
    rw [List.getElem_drop, Option.isNone_iff_eq_none] at hnone
    have hslot : d.marks[free + 2]? = some none := by
      rw [List.length_drop] at hlt
      rw [List.getElem?_eq_getElem (by omega), ← hnone]
      simp only [Nat.add_comm]
    refine ⟨by simp only [mark?, hslot, Option.join_some], fun id => ?_⟩
    have hlength := (List.getElem?_eq_some_iff.1 hslot).1
    by_cases heq : id = free + 2
    · subst heq
      simp [mark?, hlength]
    · simp only [mark?, if_neg heq, List.getElem?_set_ne (Ne.symm heq)]
  | none =>
    refine ⟨by simp [mark?], fun id => ?_⟩
    by_cases heq : id = d.marks.length
    · subst heq
      simp [mark?]
    · simp only [mark?, if_neg heq]
      rcases Nat.lt_or_gt_of_ne heq with hlt | hgt
      · rw [List.getElem?_append_left hlt]
      · rw [List.getElem?_eq_none (by simpa using Nat.succ_le_of_lt hgt),
          List.getElem?_eq_none (Nat.le_of_lt hgt)]

theorem length_createMark (d : Document) (o : Nat) (g : Bool) :
    (d.createMark o g).2.length = d.length := by
  unfold createMark
  split <;> rfl

theorem tags_createMark (d : Document) (o : Nat) (g : Bool) :
    (d.createMark o g).2.tags = d.tags := by
  unfold createMark
  split <;> rfl

theorem mark?_moveMark (d : Document) (id : MarkId) (o : Nat) (id' : MarkId) :
    (d.moveMark id o).mark? id' =
      if id = id' then (d.mark? id').map ({ · with offset := min o d.length })
      else d.mark? id' := by
  simp only [mark?, moveMark, List.getElem?_modify]
  split
  · cases d.marks[id']? <;> rfl
  · cases d.marks[id']? <;> rfl

theorem mark?_deleteMark (d : Document) (id id' : MarkId) :
    (d.deleteMark id).mark? id' =
      if id = id' ∧ id ≠ cursorMark ∧ id ≠ boundMark then none else d.mark? id' := by
  unfold deleteMark
  by_cases hkept : id = cursorMark ∨ id = boundMark
  · rw [if_pos hkept, if_neg (by rintro ⟨-, hc, hb⟩; exact hkept.elim hc hb)]
  · rw [if_neg hkept]
    obtain ⟨hc, hb⟩ := not_or.1 hkept
    by_cases heq : id = id'
    · subst heq
      rw [if_pos ⟨rfl, hc, hb⟩, mark?, List.getElem?_set_self']
      cases d.marks[id]? <;> rfl
    · rw [if_neg fun h => heq h.1, mark?, List.getElem?_set_ne heq, mark?]

/-! What each operation preserves -/

theorem consistent_new (id : Nat) (t : Text) : (new id t).Consistent := by
  refine ⟨fun k m hm => ?_, rfl, rfl, by simp [new, TagTable.empty], fun k r hr => ?_⟩
  · match k, hm with
    | 0, hm => obtain rfl := Option.some.inj hm; exact Nat.zero_le _
    | 1, hm => obtain rfl := Option.some.inj hm; exact Nat.zero_le _
  · simp [new, TagTable.empty, TagTable.ranges?] at hr

theorem Consistent.inserted (h : d.Consistent) (ho : o ≤ d.length) (t : Text) :
    (d.inserted o t).Consistent := by
  by_cases ht : t = []
  · subst ht
    exact h
  refine ⟨fun id m hm => ?_, ?_, ?_, ?_⟩
  · rw [mark?_inserted ht] at hm
    obtain ⟨m', hm', rfl⟩ := Option.map_eq_some_iff.1 hm
    rw [length_inserted ho]
    exact afterInsertion_le (h.marks id m' hm')
  · rw [mark?_inserted ht, Option.isSome_map]
    exact h.cursor
  · rw [mark?_inserted ht, Option.isSome_map]
    exact h.bound
  · rw [length_inserted ho, tags_inserted ht]
    exact h.tags.mapRanges fun r hr => hr.shiftForInsertion o t.length

theorem Consistent.deleted (h : d.Consistent) (hle : start ≤ stop) (hstop : stop ≤ d.length) :
    (d.deleted start stop).Consistent := by
  by_cases hne : start = stop
  · rwa [Document.deleted, if_pos hne]
  refine ⟨fun id m hm => ?_, ?_, ?_, ?_⟩
  · rw [mark?_deleted hne] at hm
    obtain ⟨m', hm', rfl⟩ := Option.map_eq_some_iff.1 hm
    rw [length_deleted hle hstop]
    exact afterDeletion_le (h.marks id m' hm') hstop hle
  · rw [mark?_deleted hne, Option.isSome_map]
    exact h.cursor
  · rw [mark?_deleted hne, Option.isSome_map]
    exact h.bound
  · rw [length_deleted hle hstop, tags_deleted hne]
    exact h.tags.mapRanges fun r hr => hr.shiftForDeletion hstop hle

theorem Consistent.createMark (h : d.Consistent) (o : Nat) (g : Bool) :
    (d.createMark o g).2.Consistent := by
  obtain ⟨-, hmark⟩ := d.createMark_cases o g
  refine ⟨fun id m hm => ?_, ?_, ?_, ?_⟩
  · rw [length_createMark]
    rw [hmark] at hm
    split at hm
    · obtain rfl := Option.some.inj hm
      exact Nat.min_le_right _ _
    · exact h.marks id m hm
  · rw [hmark]
    split
    · rfl
    · exact h.cursor
  · rw [hmark]
    split
    · rfl
    · exact h.bound
  · rw [length_createMark, tags_createMark]
    exact h.tags

theorem Consistent.moveMark (h : d.Consistent) (id : MarkId) (o : Nat) :
    (d.moveMark id o).Consistent := by
  refine ⟨fun id' m hm => ?_, ?_, ?_, h.tags⟩
  · rw [mark?_moveMark] at hm
    split at hm
    · obtain ⟨m', -, rfl⟩ := Option.map_eq_some_iff.1 hm
      exact Nat.min_le_right _ _
    · exact h.marks id' m hm
  · rw [mark?_moveMark]
    split
    · rw [Option.isSome_map]
      exact h.cursor
    · exact h.cursor
  · rw [mark?_moveMark]
    split
    · rw [Option.isSome_map]
      exact h.bound
    · exact h.bound

theorem Consistent.deleteMark (h : d.Consistent) (id : MarkId) : (d.deleteMark id).Consistent := by
  have hlength : (d.deleteMark id).length = d.length := by
    unfold Document.deleteMark
    split <;> rfl
  have htags : (d.deleteMark id).tags = d.tags := by
    unfold Document.deleteMark
    split <;> rfl
  refine ⟨fun id' m hm => ?_, ?_, ?_, ?_⟩
  · rw [hlength]
    rw [mark?_deleteMark] at hm
    split at hm
    · cases hm
    · exact h.marks id' m hm
  · rw [mark?_deleteMark, if_neg fun hdel => hdel.2.1 hdel.1]
    exact h.cursor
  · rw [mark?_deleteMark, if_neg fun hdel => hdel.2.2 hdel.1]
    exact h.bound
  · rw [hlength, htags]
    exact h.tags

/-- Tags may be changed as long as they stay in the text. -/
theorem Consistent.withTags (h : d.Consistent) {tags : TagTable} (ht : tags.Tidy d.length) :
    { d with tags }.Consistent :=
  ⟨h.marks, h.cursor, h.bound, ht⟩

theorem Consistent.createTag (h : d.Consistent) (name : String) (style : Option String) :
    (d.createTag name style).2.Consistent :=
  h.withTags (h.tags.create name style)

theorem Consistent.applyTag (h : d.Consistent) (id : TagId) (start stop : Nat) :
    (d.applyTag id start stop).Consistent :=
  h.withTags (h.tags.modifyRanges (fun _ hr => hr.add (Nat.min_le_right _ _) _) id)

theorem Consistent.removeTag (h : d.Consistent) (id : TagId) (start stop : Nat) :
    (d.removeTag id start stop).Consistent :=
  h.withTags (h.tags.modifyRanges (fun r hr => (Region.PartOf.subtract r start stop).below hr) id)

theorem Consistent.clearTag (h : d.Consistent) (id : TagId) : (d.clearTag id).Consistent :=
  h.withTags (h.tags.modifyRanges (fun _ _ => Region.below_empty _) id)

theorem Consistent.operate (h : d.Consistent) (op : Operation) : (d.operate op).Consistent := by
  cases op with
  | insert o t =>
    rcases d.operate_insert_cases o t with hsame | ⟨ho, hins⟩
    · rwa [hsame]
    · rw [hins]
      exact h.inserted ho t
  | delete start stop =>
    rcases d.operate_delete_cases start stop with hsame | ⟨⟨hle, hstop⟩, hdel⟩
    · rwa [hsame]
    · rw [hdel]
      exact h.deleted hle hstop
  | createMark o g => exact h.createMark o g
  | moveMark id o => exact h.moveMark id o
  | deleteMark id => exact h.deleteMark id
  | selectRange insert bound => exact (h.moveMark cursorMark insert).moveMark boundMark bound
  | createTag name style => exact h.createTag name style
  | applyTag id start stop => exact h.applyTag id start stop
  | removeTag id start stop => exact h.removeTag id start stop
  | clearTag id => exact h.clearTag id
  | applyClass c start stop => exact (h.createTag (classTagName c) none).applyTag _ start stop
  | setScheme s => exact ⟨h.marks, h.cursor, h.bound, h.tags⟩
  | setModified b => exact ⟨h.marks, h.cursor, h.bound, h.tags⟩

theorem Consistent.operateAll (h : d.Consistent) (ops : List Operation) :
    (d.operateAll ops).Consistent := by
  induction ops generalizing d with
  | nil => exact h
  | cons op ops ih => exact ih (h.operate op)

/-! Generations -/

/-- An operation leaves the text and its generation, or it replaces the one and counts the other. -/
theorem operate_text_cases (d : Document) (op : Operation) :
    (d.operate op).text = d.text ∧ (d.operate op).generation = d.generation ∨
      (d.operate op).text ≠ d.text ∧ (d.operate op).generation = d.generation + 1 := by
  cases op with
  | insert o t =>
    rcases d.operate_insert_cases o t with hsame | ⟨ho, hins⟩
    · rw [hsame]
      exact .inl ⟨rfl, rfl⟩
    rw [hins]
    by_cases ht : t = []
    · subst ht
      exact .inl ⟨rfl, rfl⟩
    · refine .inr ⟨fun htext => ?_, by simp only [inserted, List.isEmpty_iff, if_neg ht]⟩
      have hlength := length_inserted (t := t) ho
      rw [length, htext, ← length] at hlength
      exact ht (List.eq_nil_of_length_eq_zero (by omega))
  | delete start stop =>
    rcases d.operate_delete_cases start stop with hsame | ⟨⟨hle, hstop⟩, hdel⟩
    · rw [hsame]
      exact .inl ⟨rfl, rfl⟩
    rw [hdel]
    by_cases hne : start = stop
    · rw [deleted, if_pos hne]
      exact .inl ⟨rfl, rfl⟩
    · refine .inr ⟨fun htext => ?_, by simp only [deleted, if_neg hne]⟩
      have hlength := length_deleted hle hstop
      rw [length, htext, ← length] at hlength
      omega
  | createMark o g =>
    simp only [operate, createMark]
    split <;> exact .inl ⟨rfl, rfl⟩
  | deleteMark id =>
    simp only [operate, deleteMark]
    split <;> exact .inl ⟨rfl, rfl⟩
  | _ => exact .inl ⟨rfl, rfl⟩

theorem operate_generation_eq_iff (d : Document) (op : Operation) :
    (d.operate op).generation = d.generation ↔ (d.operate op).text = d.text := by
  rcases d.operate_text_cases op with ⟨htext, hgen⟩ | ⟨htext, hgen⟩
  · exact iff_of_true hgen htext
  · exact iff_of_false (by omega) htext

theorem le_generation_operate (d : Document) (op : Operation) :
    d.generation ≤ (d.operate op).generation := by
  rcases d.operate_text_cases op with ⟨-, hgen⟩ | ⟨-, hgen⟩ <;> omega

theorem le_generation_operateAll (d : Document) (ops : List Operation) :
    d.generation ≤ (d.operateAll ops).generation := by
  induction ops generalizing d with
  | nil => exact Nat.le_refl _
  | cons op ops ih => exact Nat.le_trans (d.le_generation_operate op) (ih (d.operate op))

/-- Generations only grow, so one that comes back means that no operation changed the text. -/
theorem operateAll_generation_eq_iff (d : Document) (ops : List Operation) :
    (d.operateAll ops).generation = d.generation ↔ ¬d.ChangedBy ops := by
  induction ops generalizing d with
  | nil => exact iff_of_true rfl not_false
  | cons op ops ih =>
    have hstep := d.operate_generation_eq_iff op
    have hrest := ih (d.operate op)
    have hgrow := d.le_generation_operate op
    have hgrow' := (d.operate op).le_generation_operateAll ops
    rw [ChangedBy, not_or, not_not, ← hrest, ← hstep]
    simp only [operateAll, List.foldl_cons] at hgrow' ⊢
    constructor
    · intro hsame
      exact ⟨by omega, by omega⟩
    · rintro ⟨hsame, hsame'⟩
      exact hsame'.trans hsame

/-- However a document is used, its marks and tags lie in its text, the selection is there, tags
and names belong together, new marks leave the old ones alone, walkers hold until the text changes,
and a rejected edit changes nothing. -/
theorem consistent_operateAll (id : Nat) (t : Text) (ops : List Operation) :
    let d := (new id t).operateAll ops
    (∀ m o, d.markOffset? m = some o → o ≤ d.length) ∧
      (d.markOffset? cursorMark).isSome ∧ (d.markOffset? boundMark).isSome ∧
      (∀ tag r, d.tags.ranges? tag = some r →
        r.WellFormed ∧ ∀ p, r.contains p = true → p < d.length) ∧
      (d.tags.tags.map (·.name)).Nodup ∧
      (∀ name tag, d.tags.lookup? name = some tag ↔ d.tags.name? tag = some name) ∧
      (∀ o g, d.mark? (d.createMark o g).1 = none ∧
        (d.createMark o g).2.mark? (d.createMark o g).1 = some ⟨min o d.length, g⟩ ∧
        ∀ m ≠ (d.createMark o g).1, (d.createMark o g).2.mark? m = d.mark? m) ∧
      (∀ op, (d.operate op).generation = d.generation ↔ (d.operate op).text = d.text) ∧
      (∀ o more, (d.operateAll more).isValid (d.walkerAt o) = true ↔ ¬d.ChangedBy more) ∧
      (∀ o s, ((d.insert o s).2.isOk = false ↔ d.length < o) ∧
        (d.length < o → d.operate (.insert o s) = d)) ∧
      ∀ start stop,
        ((d.delete start stop).2.isOk = false ↔ ¬(start ≤ stop ∧ stop ≤ d.length)) ∧
          (¬(start ≤ stop ∧ stop ≤ d.length) → d.operate (.delete start stop) = d) := by
  intro d
  have h : d.Consistent := (consistent_new id t).operateAll ops
  refine ⟨fun m o hm => ?_, ?_, ?_, h.tags.below, h.tags.names, fun name tag => ?_, fun o g => ?_,
    d.operate_generation_eq_iff, fun o more => ?_, fun o s => ⟨?_, fun ho => ?_⟩,
    fun start stop => ⟨?_, operate_delete_of_not⟩⟩
  · rw [markOffset?_eq] at hm
    obtain ⟨m', hm', rfl⟩ := Option.map_eq_some_iff.1 hm
    exact h.marks m m' hm'
  · rw [markOffset?_eq, Option.isSome_map]
    exact h.cursor
  · rw [markOffset?_eq, Option.isSome_map]
    exact h.bound
  · exact h.tags.lookup?_eq_some_iff
  · obtain ⟨hfree, hmark⟩ := d.createMark_cases o g
    refine ⟨hfree, ?_, fun m hm => ?_⟩
    · rw [hmark, if_pos rfl]
    · rw [hmark, if_neg hm]
  · rw [isValid, walkerAt, beq_iff_eq, eq_comm]
    exact d.operateAll_generation_eq_iff more
  · by_cases ho : o ≤ d.length
    · rw [insert_eq, if_pos ho]
      exact iff_of_false (by simp [Except.isOk, Except.toBool]) (by omega)
    · rw [insert_eq, if_neg ho]
      exact iff_of_true rfl (Nat.not_le.1 ho)
  · exact operate_insert_of_lt ho s
  · by_cases hin : start ≤ stop ∧ stop ≤ d.length
    · rw [delete_of_mem hin.1 hin.2]
      exact iff_of_false (by simp [Except.isOk, Except.toBool]) (not_not.2 hin)
    · obtain ⟨e, he⟩ := d.checkRange_error hin
      rw [delete_of_error he]
      exact iff_of_true rfl hin

end Document
end CodeBuffer
