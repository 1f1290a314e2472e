import CodeBuffer.Proofs.Context.States
import CodeBuffer.Proofs.Document.Consistent
import CodeBuffer.Proofs.Plain.Viewing
import CodeBuffer.Proofs.Upkeep.Engine

namespace CodeBuffer

open Delimiter DelimiterTable

namespace Edit

/-- The text at an offset was there before the edit. -/
def Carries (e : Edit) (p : Nat) : Prop := p < e.offset ∨ e.stop ≤ p

/-- Where the text at an offset was before the edit. -/
def origin (e : Edit) (p : Nat) : Nat := if p < e.offset then p else e.back p

/-- What an edit makes of the ranges of a tag. -/
def shift : Edit → Region → Region
  | insertion o n, r => r.shiftForInsertion o n
  | deletion o n, r => r.shiftForDeletion o (o + n)

variable {e : Edit} {r : Region} {p : Nat} {d d' : Delimiter} {ds : List Delimiter}
  {inside : Option PatternKey}

theorem origin_insertion (o n p : Nat) :
    (insertion o n).origin p = if p < o then p else p - n := rfl

theorem origin_deletion (o n p : Nat) :
    (deletion o n).origin p = if p < o then p else p + n := rfl

theorem origin_of_lt (hp : p < e.offset) : e.origin p = p := if_pos hp

theorem origin_of_le (hp : e.stop ≤ p) : e.origin p = e.back p := by
  apply if_neg
  have := e.offset_le_stop
  omega

theorem contains_shift (hr : r.WellFormed) (hp : e.Carries p) :
    (e.shift r).contains p = true ↔ r.contains (e.origin p) = true := by
  cases e with
  | insertion o n =>
    simp only [Carries, offset, stop] at hp
    rw [shift, Region.contains_shiftForInsertion hr, origin_insertion]
    rcases hp with hp | hp
    · rw [if_pos hp]
      constructor
      · rintro (⟨-, hp'⟩ | ⟨hle, -⟩ | ⟨hle, -⟩)
        · exact hp'
        · omega
        · omega
      · exact fun hp' => .inl ⟨hp, hp'⟩
    · rw [if_neg (by omega)]
      constructor
      · rintro (⟨hlt, -⟩ | ⟨-, hp'⟩ | ⟨-, hlt, -⟩)
        · omega
        · exact hp'
        · omega
      · exact fun hp' => .inr (.inl ⟨hp, hp'⟩)
  | deletion o n =>
    rw [shift, Region.contains_shiftForDeletion, origin_deletion, Nat.add_sub_cancel_left]
    by_cases hlt : p < o
    · simp [hlt, Nat.not_le.2 hlt]
    · simp [hlt, Nat.not_lt.1 hlt]

/-- No range comes up from nothing. -/
theorem exists_of_contains_shift (hr : r.WellFormed) (hp : (e.shift r).contains p = true) :
    ∃ q, r.contains q = true := by
  cases e with
  | insertion o n =>
    rcases (Region.contains_shiftForInsertion hr).1 hp with ⟨-, hp⟩ | ⟨-, hp⟩ | ⟨-, -, -, -, hp⟩
    · exact ⟨_, hp⟩
    · exact ⟨_, hp⟩
    · exact ⟨_, hp⟩
  | deletion o n =>
    rcases Region.contains_shiftForDeletion.1 hp with ⟨-, hp⟩ | ⟨-, hp⟩
    · exact ⟨_, hp⟩
    · exact ⟨_, hp⟩

/-! Delimiters -/

/-- Behind an edit delimiters keep to their side of the text. -/
theorem offset_map?_le_iff (h : e.map? d = some d') (hp : e.stop ≤ p) :
    d'.offset ≤ p ↔ d.offset ≤ e.back p := by
  cases hd : d.opens with
  | true =>
    have hoff := offset_of_opens hd h
    cases e <;> simp only [stop, back] at hoff hp ⊢ <;> omega
  | false =>
    have hoff := offset_of_closes hd h
    cases e <;> simp only [stop, back] at hoff hp ⊢ <;> omega

theorem le_offset_map? (h : e.map? d = some d') {m : Nat} (hm : m ≤ e.offset) (hd : m ≤ d.offset) :
    m ≤ d'.offset := by
  cases ho : d.opens with
  | true =>
    have hoff := offset_of_opens ho h
    cases e <;> simp only [offset] at hoff hm <;> omega
  | false =>
    have hoff := offset_of_closes ho h
    cases e <;> simp only [offset] at hoff hm <;> omega

/-- If no delimiter goes, the text behind an edit is in the state in which it was. -/
theorem stateOver_filterMap (hall : ∀ d ∈ ds, (e.map? d).isSome = true) (hp : e.stop ≤ p) :
    stateOver inside (ds.filterMap e.map?) p = stateOver inside ds (e.back p) := by
  induction ds generalizing inside with
  | nil => rfl
  | cons d ds ih =>
    obtain ⟨d', hd'⟩ := Option.isSome_iff_exists.1 (hall d List.mem_cons_self)
    have hrest : ∀ c ∈ ds, (e.map? c).isSome = true :=
      fun c hc => hall c (List.mem_cons_of_mem d hc)
    rw [List.filterMap_cons_some hd']
    by_cases hle : d.offset ≤ e.back p
    · have hle' := (offset_map?_le_iff hd' hp).2 hle
      rw [stateOver_cons_of_le hle, stateOver_cons_of_le hle', key_map? hd']
      exact ih hrest
    · have hlt' : p < d'.offset := by
        rw [← offset_map?_le_iff hd' hp] at hle
        omega
      rw [stateOver_cons_of_lt hlt', stateOver_cons_of_lt (by omega)]

end Edit

namespace TagTable

variable {t : TagTable} {length p : Nat} {n : String} {e : Edit}

theorem Tidy.marks_shift (h : t.Tidy length) (hp : e.Carries p) :
    (t.mapRanges e.shift).Marks n p ↔ t.Marks n (e.origin p) := by
  simp only [Marks, name?_mapRanges, ranges?_mapRanges, Option.map_eq_some_iff]
  constructor
  · rintro ⟨id, r, hname, ⟨r', hr', rfl⟩, hin⟩
    exact ⟨id, r', hname, hr', (Edit.contains_shift (h.below id r' hr').1 hp).1 hin⟩
  · rintro ⟨id, r, hname, hr, hin⟩
    exact ⟨id, _, hname, ⟨r, hr, rfl⟩, (Edit.contains_shift (h.below id r hr).1 hp).2 hin⟩

theorem Tidy.exists_of_marks_shift (h : t.Tidy length) (hp : (t.mapRanges e.shift).Marks n p) :
    ∃ q, t.Marks n q := by
  obtain ⟨id, r, hname, hr, hin⟩ := hp
  rw [name?_mapRanges] at hname
  rw [ranges?_mapRanges, Option.map_eq_some_iff] at hr
  obtain ⟨r', hr', rfl⟩ := hr
  obtain ⟨q, hq⟩ := Edit.exists_of_contains_shift (h.below id r' hr').1 hin
  exact ⟨q, id, r', hname, hr', hq⟩

theorem relaid_mapRanges (t : TagTable) (f : Region → Region) : t.Relaid (t.mapRanges f) :=
  ⟨name?_mapRanges t f, style?_mapRanges t f⟩

end TagTable

namespace Document

/-- A document after an edit: its tags have moved along with its text. -/
structure MovedBy (d : Document) (e : Edit) (d' : Document) : Prop where
  turns : e.Turns d.text d'.text
  id : d'.id = d.id
  relaid : d.tags.Relaid d'.tags
  tidy : d.tags.Tidy d.length → d'.tags.Tidy d'.length
  marks : d.tags.Tidy d.length → ∀ n p, e.Carries p →
    (d'.tags.Marks n p ↔ d.tags.Marks n (e.origin p))
  source : d.tags.Tidy d.length → ∀ n p, d'.tags.Marks n p → ∃ q, d.tags.Marks n q

variable {d : Document} {e : Edit} {o start stop : Nat}

/-- An edit of no text moves nothing. -/
theorem movedBy_self (he : e.Turns d.text d.text) (horigin : ∀ p, e.origin p = p) :
    d.MovedBy e d := by
  refine ⟨he, rfl, ⟨fun _ => rfl, fun _ => rfl⟩, fun h => h, fun _ n p _ => ?_,
    fun _ n p hp => ⟨p, hp⟩⟩
  rw [horigin]

theorem movedBy_of_shift {d' : Document} (he : e.Turns d.text d'.text) (hid : d'.id = d.id)
    (htags : d'.tags = d.tags.mapRanges e.shift)
    (hbelow : ∀ r : Region, r.Below d.length → (e.shift r).Below d'.length) : d.MovedBy e d' := by
  refine ⟨he, hid, ?_, fun h => ?_, fun h n p hp => ?_, fun h n p hp => ?_⟩
  · rw [htags]
    exact TagTable.relaid_mapRanges _ _
  · rw [htags]
    exact h.mapRanges hbelow
  · rw [htags]
    exact h.marks_shift hp
  · rw [htags] at hp
    exact h.exists_of_marks_shift hp

theorem movedBy_inserted (ho : o ≤ d.length) (t : Text) :
    d.MovedBy (.insertion o t.length) (d.inserted o t) := by
  have hturns := turns_inserted ho t
  by_cases ht : t = []
  · subst ht
    apply movedBy_self hturns
    intro p
    rw [List.length_nil, Edit.origin_insertion, Nat.sub_zero, ite_self]
  · apply movedBy_of_shift hturns (d.id_inserted o t) (tags_inserted ht)
    intro r hr
    rw [length_inserted ho]
    exact hr.shiftForInsertion o t.length

theorem movedBy_deleted (hle : start ≤ stop) (hstop : stop ≤ d.length) :
    d.MovedBy (.deletion start (stop - start)) (d.deleted start stop) := by
  have hsum : start + (stop - start) = stop := Nat.add_sub_cancel' hle
  have hturns := turns_deleted hle hstop
  have hshift : (Edit.deletion start (stop - start)).shift = (·.shiftForDeletion start stop) := by
    funext r
    rw [Edit.shift, hsum]
  by_cases heq : start = stop
  · subst heq
    have hsame : d.deleted start start = d := if_pos rfl
    rw [hsame] at hturns ⊢
    apply movedBy_self hturns
    intro p
    rw [Nat.sub_self, Edit.origin_deletion, Nat.add_zero, ite_self]
  · apply movedBy_of_shift hturns (d.id_deleted start stop)
    · rw [hshift]
      exact tags_deleted heq
    · intro r hr
      rw [hshift, length_deleted hle hstop]
      exact hr.shiftForDeletion hstop hle

end Document
end CodeBuffer
