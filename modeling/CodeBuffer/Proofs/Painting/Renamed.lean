import Mathlib.Data.List.Nodup
import CodeBuffer.Proofs.Upkeep.Registered
import CodeBuffer.Proofs.Painting.Shades

namespace CodeBuffer

open Delimiter DelimiterTable

/-! What is found and tagged does not depend on the keys of the patterns. -/

/-- The same delimiter with another key, if it opens an enclosure. -/
def Delimiter.rekey (f : PatternKey → PatternKey) (d : Delimiter) : Delimiter :=
  { d with key := d.key.map f }

@[simp] theorem Delimiter.offset_rekey (f : PatternKey → PatternKey) (d : Delimiter) :
    (d.rekey f).offset = d.offset := rfl

@[simp] theorem Delimiter.key_rekey (f : PatternKey → PatternKey) (d : Delimiter) :
    (d.rekey f).key = d.key.map f := rfl

def Span.rekey (f : PatternKey → PatternKey) (span : Span) : Span :=
  { span with key := span.key.map f }

def DelimitedPattern.rekey (f : PatternKey → PatternKey) (p : DelimitedPattern) :
    DelimitedPattern :=
  { p with key := f p.key }

variable {f : PatternKey → PatternKey}

theorem delimitedOf_rekey (f : PatternKey → PatternKey) (ps : List Pattern) :
    delimitedOf (ps.map (·.rekey f)) = (delimitedOf ps).map (·.rekey f) := by
  rw [delimitedOf, List.filterMap_map, delimitedOf, List.map_filterMap]
  congr 1
  funext p
  cases p <;> rfl

theorem simpleOf_rekey (f : PatternKey → PatternKey) (ps : List Pattern) :
    simpleOf (ps.map (·.rekey f)) = simpleOf ps := by
  rw [simpleOf, List.filterMap_map, simpleOf]
  congr 1
  funext p
  cases p <;> rfl

theorem find?_rekey (hf : Function.Injective f) (ps : List DelimitedPattern) (key : PatternKey) :
    (ps.map (·.rekey f)).find? (·.key == f key) =
      (ps.find? (·.key == key)).map (·.rekey f) := by
  have hsame : ((fun p : DelimitedPattern => p.key == f key) ∘ DelimitedPattern.rekey f) =
      (·.key == key) := by
    funext p
    simp [DelimitedPattern.rekey, hf.eq_iff]
  rw [List.find?_map, hsame]

namespace Chunk

theorem earliest_rekey (f : PatternKey → PatternKey) (ps : List DelimitedPattern)
    (known : List Lookahead) :
    earliest ((ps.map (·.rekey f)).zip known) =
      (earliest (ps.zip known)).map fun found => (found.1, f found.2) := by
  induction ps generalizing known with
  | nil => simp [earliest]
  | cons p ps ih =>
    cases known with
    | nil => simp [earliest]
    | cons l known =>
      simp only [List.map_cons, List.zip_cons_cons, earliest, ih]
      cases l.match? with
      | none => rfl
      | some i =>
        cases earliest (ps.zip known) with
        | none => rfl
        | some later =>
          dsimp only [Option.map_some]
          split <;> rfl

/-- The next delimiter is the same. -/
theorem next?_rekey (hf : Function.Injective f) (c : Chunk) (ps : List DelimitedPattern)
    (known : List Lookahead) (p : Place) (inside : Option PatternKey) :
    c.next? (ps.map (·.rekey f)) known p (inside.map f) =
      ((c.next? ps known p inside).1.map fun found => (found.1.rekey f, found.2),
        (c.next? ps known p inside).2) := by
  cases inside with
  | some key =>
    simp only [Option.map_some, next?, find?_rekey hf]
    cases ps.find? (·.key == key) with
    | none => rfl
    | some q =>
      simp only [Option.map_some, Option.bind_some, Option.map_map]
      rfl
  | none =>
    have hknown : List.zipWith (fun q l => l.refresh (c.find q.opener) p)
        (ps.map (·.rekey f)) known =
          List.zipWith (fun q l => l.refresh (c.find q.opener) p) ps known := by
      rw [List.zipWith_map_left]
      rfl
    simp only [Option.map_none, next?, hknown, earliest_rekey, Option.map_map]
    rfl

theorem collectFrom_rekey (hf : Function.Injective f) (c : Chunk) (ps : List DelimitedPattern)
    (fuel : Nat) (known : List Lookahead) (p : Place) (inside : Option PatternKey) :
    c.collectFrom (ps.map (·.rekey f)) fuel known p (inside.map f) =
      (c.collectFrom ps fuel known p inside).map (·.rekey f) := by
  induction fuel generalizing known p inside with
  | zero => rfl
  | succ fuel ih =>
    rw [collectFrom, collectFrom, next?_rekey hf]
    cases c.next? ps known p inside with
    | mk found known =>
      cases found with
      | none => rfl
      | some found => exact congrArg _ (ih known _ found.1.key)

/-- The delimiters of a chunk are the same. -/
theorem collect_rekey (hf : Function.Injective f) (c : Chunk) (ps : List DelimitedPattern)
    (pos : Nat) (inside : Option PatternKey) :
    c.collect (ps.map (·.rekey f)) pos (inside.map f) =
      (c.collect ps pos inside).map (·.rekey f) := by
  have hunknown : (ps.map (·.rekey f)).map (fun _ => Lookahead.unknown) =
      ps.map fun _ => Lookahead.unknown := by
    rw [List.map_map]
    rfl
  rw [collect, hunknown, collectFrom_rekey hf, collect]

end Chunk

theorem Delimiter.stateFrom_rekey (f : PatternKey → PatternKey) (state : Option PatternKey)
    (ds : List Delimiter) :
    stateFrom (state.map f) (ds.map (·.rekey f)) = (stateFrom state ds).map f := by
  induction ds generalizing state with
  | nil => rfl
  | cons d ds ih => exact ih d.key

namespace DelimiterTable

theorem cut_rekey (f : PatternKey → PatternKey) (pos stop : Nat) (inside : Option PatternKey)
    (ds : List Delimiter) :
    cut pos stop (inside.map f) (ds.map (·.rekey f)) =
      (cut pos stop inside ds).map (·.rekey f) := by
  induction ds generalizing pos inside with
  | nil =>
    rw [List.map_nil, cut, cut]
    split <;> rfl
  | cons d ds ih =>
    rw [List.map_cons, cut, cut]
    simp only [Delimiter.offset_rekey, Delimiter.key_rekey, ih]
    split
    · rfl
    · split
      · rfl
      · split <;> rfl

theorem spans_rekey (f : PatternKey → PatternKey) (entries : List Delimiter)
    (old : Option Leftovers) (frontier : Frontier) (start stop : Nat) :
    spans ⟨entries.map (·.rekey f), old, frontier⟩ start stop =
      (spans ⟨entries, old, frontier⟩ start stop).map (·.rekey f) := by
  have hsame : ((fun d : Delimiter => decide (d.offset ≤ start)) ∘ Delimiter.rekey f) =
    fun d => decide (d.offset ≤ start) := rfl
  simp only [spans, stateAt, List.takeWhile_map, List.dropWhile_map, hsame, stateAfter_eq]
  rw [← cut_rekey, ← stateFrom_rekey]
  rfl

end DelimiterTable

namespace Highlighter

variable {h g : Highlighter} {t : Text} {n : String} {p : Nat}

/-- The patterns and the escape character of another highlighter under other keys. -/
structure Rekeyed (f : PatternKey → PatternKey) (g h : Highlighter) : Prop where
  injective : Function.Injective f
  patterns : h.patterns = g.patterns.map (·.rekey f)
  escape : h.escape = g.escape

namespace Rekeyed

theorem scratch_eq (hr : Rekeyed f g h) (t : Text) :
    h.scratch t = (g.scratch t).map (·.rekey f) := by
  rw [scratch, hr.patterns, hr.escape, delimitedOf_rekey]
  exact Chunk.collect_rekey hr.injective _ _ 0 none

theorem find?_eq (hr : Rekeyed f g h) (key : PatternKey) :
    (delimitedOf h.patterns).find? (·.key == f key) =
      ((delimitedOf g.patterns).find? (·.key == key)).map (·.rekey f) := by
  rw [hr.patterns, delimitedOf_rekey, find?_rekey hr.injective]

theorem spanStrokes_eq (hr : Rekeyed f g h) (place : Place) (span : Span) :
    h.spanStrokes place (span.rekey f) = g.spanStrokes place span := by
  obtain ⟨start, stop, key⟩ := span
  cases key with
  | none =>
    have hsimple : h.patterns.filterMap (·.simple?) = g.patterns.filterMap (·.simple?) := by
      rw [hr.patterns]
      exact simpleOf_rekey f g.patterns
    simp only [Span.rekey, Option.map_none, spanStrokes, hsimple]
  | some key =>
    simp only [Span.rekey, Option.map_some, spanStrokes, hr.find?_eq key]
    cases (delimitedOf g.patterns).find? (·.key == key) <;> rfl

/-- Under other keys the same tags are put in the same places. -/
theorem shade_iff (hr : Rekeyed f g h) : h.Shade t n p ↔ g.Shade t n p := by
  have hspan (span : Span) : h.Shades t (span.rekey f) n p ↔ g.Shades t span n p := by
    rw [Shades, Shades, hr.spanStrokes_eq]
    rfl
  rw [Shade, Shade, scratchTable, hr.scratch_eq, spans_rekey, ShadesAll, ShadesAll]
  simp only [List.mem_map, exists_exists_and_eq_and, hspan]
  rfl

end Rekeyed
end Highlighter
end CodeBuffer
