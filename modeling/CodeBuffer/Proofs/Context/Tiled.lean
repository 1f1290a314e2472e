import CodeBuffer.Proofs.Context.Dyes

namespace CodeBuffer

open Delimiter DelimiterTable Highlighter

namespace Span

def contains (s : Span) (p : Nat) : Bool := decide (s.start ≤ p) && decide (p < s.stop)

/-- Spans one behind the other, none of them empty, that cover a range. -/
def Tile : Nat → Nat → List Span → Prop
  | start, stop, [] => start = stop
  | start, stop, s :: ss => s.start = start ∧ s.start < s.stop ∧ Tile s.stop stop ss

/-- The state that the first span over an offset gives to it, if there is one. -/
def stateIn? (ss : List Span) (p : Nat) : Option (Option PatternKey) :=
  (ss.find? (·.contains p)).map (·.key)

variable {a b m p : Nat} {s : Span} {ss ss' : List Span} {f : Nat → Option PatternKey}

theorem contains_iff : s.contains p = true ↔ s.start ≤ p ∧ p < s.stop := by
  simp [contains]

theorem Tile.append (h : Tile a m ss) (h' : Tile m b ss') : Tile a b (ss ++ ss') := by
  induction ss generalizing a with
  | nil =>
    obtain rfl : a = m := h
    exact h'
  | cons s ss ih => exact ⟨h.1, h.2.1, ih h.2.2⟩

theorem Tile.le (h : Tile a b ss) : a ≤ b := by
  induction ss generalizing a with
  | nil => exact Nat.le_of_eq h
  | cons s ss ih =>
    have hrest := ih h.2.2
    have hstart := h.1
    have hlt := h.2.1
    omega

/-- The offsets of a range are those of the spans that tile it. -/
theorem Tile.exists_contains_iff (h : Tile a b ss) :
    (∃ s ∈ ss, s.contains p = true) ↔ a ≤ p ∧ p < b := by
  induction ss generalizing a with
  | nil =>
    obtain rfl : a = b := h
    simp only [List.not_mem_nil, false_and, exists_false, false_iff, not_and]
    omega
  | cons s ss ih =>
    obtain ⟨rfl, hlt, hrest⟩ := h
    have hle := hrest.le
    rw [List.exists_mem_cons_iff, ih hrest, contains_iff]
    omega

/-- Spans that tile a range give to each offset in it the state that all spans over it have. -/
theorem Tile.stateIn?_eq (h : Tile a b ss)
    (hf : ∀ s ∈ ss, ∀ p, s.contains p = true → f p = s.key) (p : Nat) :
    stateIn? ss p = if a ≤ p ∧ p < b then some (f p) else none := by
  have hcover := h.exists_contains_iff (p := p)
  rw [stateIn?]
  cases hfound : ss.find? (·.contains p) with
  | none =>
    have hnone := List.find?_eq_none.1 hfound
    rw [if_neg fun hp => ?_, Option.map_none]
    obtain ⟨s, hs, hin⟩ := hcover.2 hp
    exact hnone s hs hin
  | some s =>
    have hs := List.mem_of_find?_eq_some hfound
    have hin := List.find?_some hfound
    rw [if_pos (hcover.1 ⟨s, hs, hin⟩), Option.map_some, hf s hs p hin]

end Span

namespace Delimiter

/-- Delimiters that go by turns, a closer before an opener at one offset, are in order. -/
theorem pairwise_of_isChain {ds : List Delimiter} (h : ds.IsChain Precedes) :
    ds.Pairwise fun d e => d.offset ≤ e.offset := by
  have hchain : ds.IsChain fun d e => d.offset ≤ e.offset := by
    refine h.imp fun d e hde => ?_
    have hle := hde.2
    split at hle <;> omega
  exact List.isChain_iff_pairwise.1 hchain

end Delimiter

namespace DelimiterTable

variable {T : DelimiterTable} {pos start stop m : Nat} {inside : Option PatternKey}
  {ds : List Delimiter}

theorem tile_cut (hds : Ascending pos ds) (hle : pos ≤ stop) :
    Span.Tile pos stop (cut pos stop inside ds) := by
  induction ds generalizing pos inside with
  | nil =>
    rw [cut]
    split
    · rename_i hlt
      exact ⟨rfl, hlt, rfl⟩
    · rename_i hge
      exact Nat.le_antisymm hle (Nat.le_of_not_lt hge)
  | cons d ds ih =>
    obtain ⟨hd, hds⟩ := ascending_cons.1 hds
    rw [cut]
    split
    · rename_i hge
      exact Nat.le_antisymm hle hge
    · rename_i hlt
      split
      · exact ⟨rfl, Nat.lt_of_not_le hlt, rfl⟩
      · rename_i hbefore
        have hrest : Span.Tile d.offset stop (cut d.offset stop d.key ds) := ih hds (by omega)
        split
        · rename_i hgap
          exact ⟨rfl, hgap, hrest⟩
        · obtain rfl : pos = d.offset := by omega
          exact hrest

theorem tile_spans (hT : T.entries.Pairwise fun d e => d.offset ≤ e.offset) (hle : start ≤ stop) :
    Span.Tile start stop (T.spans start stop) := tile_cut (ascending_dropWhile hT start) hle

theorem stateAt_of_mem_spans (hT : T.entries.Pairwise fun d e => d.offset ≤ e.offset) {s : Span}
    (hs : s ∈ T.spans start stop) {p : Nat} (hp : s.contains p = true) : T.stateAt p = s.key :=
  ((exists_mem_spans hT (· = s.key)).1 ⟨s, hs, Span.contains_iff.1 hp, rfl⟩).2

/-- To cut a range in two pieces makes no difference to what its spans tell. -/
theorem stateIn?_append_spans (hT : T.entries.Pairwise fun d e => d.offset ≤ e.offset)
    (hlo : start ≤ m) (hhi : m ≤ stop) (p : Nat) :
    Span.stateIn? (T.spans start m ++ T.spans m stop) p = Span.stateIn? (T.spans start stop) p := by
  have hpieces : Span.Tile start stop (T.spans start m ++ T.spans m stop) :=
    (tile_spans hT hlo).append (tile_spans hT hhi)
  have hwhole : Span.Tile start stop (T.spans start stop) := tile_spans hT (hlo.trans hhi)
  rw [hpieces.stateIn?_eq (f := T.stateAt) ?_ p, hwhole.stateIn?_eq (f := T.stateAt) ?_ p]
  · exact fun s hs p hp => stateAt_of_mem_spans hT hs hp
  · intro s hs p hp
    rcases List.mem_append.1 hs with hs | hs
    · exact stateAt_of_mem_spans hT hs hp
    · exact stateAt_of_mem_spans hT hs hp

/-- The spans of a range tile it, each offset is in the state of the spans over it, and a range
that is cut in pieces comes to the same states. -/
theorem spans_tile (hT : T.entries.IsChain Precedes) (start stop : Nat) :
    (stop ≤ start → T.spans start stop = []) ∧
      (start ≤ stop → Span.Tile start stop (T.spans start stop)) ∧
      (∀ s ∈ T.spans start stop, ∀ p, s.contains p = true → T.stateAt p = s.key) ∧
      ∀ m, start ≤ m → m ≤ stop →
        Span.Tile start stop (T.spans start m ++ T.spans m stop) ∧
          ∀ p, Span.stateIn? (T.spans start m ++ T.spans m stop) p =
            Span.stateIn? (T.spans start stop) p := by
  have hsorted := pairwise_of_isChain hT
  refine ⟨?_, ?_, ?_, ?_⟩
  · intro hle
    exact cut_eq_nil hle _ _
  · intro hle
    exact tile_spans hsorted hle
  · intro s hs p hp
    exact stateAt_of_mem_spans hsorted hs hp
  · intro m hlo hhi
    exact ⟨(tile_spans hsorted hlo).append (tile_spans hsorted hhi),
      stateIn?_append_spans hsorted hlo hhi⟩

/-- Two enclosures that touch. -/
def touching : DelimiterTable := ⟨[opener 2 0, closer 5, opener 5 0, closer 8], none, .complete⟩

theorem spans_tile_touching :
    touching.entries.IsChain Precedes ∧
      touching.spans 3 9 = [⟨3, 5, some 0⟩, ⟨5, 8, some 0⟩, ⟨8, 9, none⟩] ∧
      Span.Tile 3 9 (touching.spans 3 9) ∧ touching.stateAt 5 = some 0 ∧
      Span.stateIn? (touching.spans 3 4 ++ touching.spans 4 9) 8 =
        Span.stateIn? (touching.spans 3 9) 8 := by
  have hchain : touching.entries.IsChain Precedes := by
    simp [touching, Precedes, opener, closer, opens]
  obtain ⟨-, htile, hstate, hsplit⟩ := spans_tile hchain 3 9
  refine ⟨hchain, by decide, htile (by decide), ?_, (hsplit 4 (by decide) (by decide)).2 8⟩
  exact hstate ⟨5, 8, some 0⟩ (by decide) 5 (by decide)

end DelimiterTable
end CodeBuffer
