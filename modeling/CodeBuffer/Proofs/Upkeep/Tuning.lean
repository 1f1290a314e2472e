import CodeBuffer.Proofs.Upkeep.Engine
import CodeBuffer.Proofs.Upkeep.Registered

namespace CodeBuffer

open Delimiter DelimiterTable

/-- A change to what a highlighter looks for. -/
inductive Tuning where
  | addPattern (p : PatternDef)
  | removePattern (id : String)
  | setEscape (escape : Option Char)
  | setLanguage (l : Language)

namespace Highlighter

theorem delimitedOf_append_simple {ps : List Pattern} {p : Pattern} (hp : p.isDelimited = false) :
    delimitedOf (ps ++ [p]) = delimitedOf ps := by
  rw [Pattern.isDelimited, Option.isSome_eq_false_iff, Option.isNone_iff_eq_none] at hp
  simp [delimitedOf, hp]

theorem delimitedOf_eraseP_simple {ps : List Pattern} {p : Pattern} {id : String}
    (hfind : ps.find? (·.id == id) = some p) (hp : p.isDelimited = false) :
    delimitedOf (ps.eraseP (·.id == id)) = delimitedOf ps := by
  rw [Pattern.isDelimited, Option.isSome_eq_false_iff, Option.isNone_iff_eq_none] at hp
  obtain ⟨hid, before, behind, rfl, hbefore⟩ := List.find?_eq_some_iff_append.1 hfind
  have hhead : (p :: behind).eraseP (·.id == id) = behind := List.eraseP_cons_of_pos hid
  rw [List.eraseP_append_right _ (by simpa using hbefore), hhead]
  simp [delimitedOf, hp]

theorem refreshAll_eq (h : Highlighter) :
    ∃ refresh announced, h.refreshAll = { h with refresh, announced } := by
  unfold refreshAll
  split
  · exact h.refreshRange_eq 0 h.bufferLength
  · exact ⟨_, _, rfl⟩

@[simp] theorem patterns_refreshAll (h : Highlighter) : h.refreshAll.patterns = h.patterns := by
  obtain ⟨refresh, announced, heq⟩ := h.refreshAll_eq
  rw [heq]

@[simp] theorem nextKey_refreshAll (h : Highlighter) : h.refreshAll.nextKey = h.nextKey := by
  obtain ⟨refresh, announced, heq⟩ := h.refreshAll_eq
  rw [heq]

@[simp] theorem patternTags_refreshAll (h : Highlighter) :
    h.refreshAll.patternTags = h.patternTags := by
  obtain ⟨refresh, announced, heq⟩ := h.refreshAll_eq
  rw [heq]

@[simp] theorem patterns_invalidateAll (h : Highlighter) : h.invalidateAll.patterns = h.patterns :=
  patterns_refreshAll _

@[simp] theorem nextKey_invalidateAll (h : Highlighter) : h.invalidateAll.nextKey = h.nextKey :=
  nextKey_refreshAll _

@[simp] theorem patternTags_invalidateAll (h : Highlighter) :
    h.invalidateAll.patternTags = h.patternTags :=
  patternTags_refreshAll _

/-- Only the table and what is out of date change with the patterns. -/
theorem retuned_eq (g : Highlighter) (void : Bool) : ∃ table refresh announced,
    (if void then g.invalidateAll else g.refreshAll) = { g with table, refresh, announced } ∧
      table = if void then .reset !g.hasDelimited else g.table := by
  cases void with
  | false =>
    obtain ⟨refresh, announced, heq⟩ := g.refreshAll_eq
    exact ⟨g.table, refresh, announced, heq, rfl⟩
  | true =>
    obtain ⟨refresh, announced, heq⟩ :=
      refreshAll_eq { g with table := .reset !g.hasDelimited }
    exact ⟨_, refresh, announced, heq, rfl⟩

theorem attached_refreshAll (h : Highlighter) : h.refreshAll.attached = h.attached := by
  unfold refreshAll
  split
  · exact (h.sameSetup_refreshRange _ _).attached
  · rfl

variable [PatternEngine]

/-- A change that is refused changes nothing, but for the keys that a language has used up. -/
def tune (h : Highlighter) : Tuning → Highlighter
  | .addPattern p => (h.addPattern p).1
  | .removePattern id => (h.removePattern id).2
  | .setEscape escape => h.setEscape escape
  | .setLanguage l => (h.setLanguage l).1

def tuneAll (h : Highlighter) (cs : List Tuning) : Highlighter := cs.foldl tune h

/-- Other patterns, or another escape character, with the same state of the work. -/
structure Retuned (h h' : Highlighter) : Prop where
  attached : h'.attached = h.attached
  table : h'.table = h.table
  bufferLength : h'.bufferLength = h.bufferLength
  refresh : h'.refresh = h.refresh
  requests : h'.requests = h.requests

/-- What a change makes of the patterns and the escape character, and whether what is known of the
enclosures is void with that. -/
inductive Retunes (h : Highlighter) : Tuning → Bool → Highlighter → Prop where
  | addPattern {p : PatternDef} {q : Pattern} (hnew : ∀ r ∈ h.patterns, r.id ≠ q.id)
      (hq : compile h.nextKey p = .ok q) :
      Retunes h (.addPattern p) q.isDelimited { h with
        patterns := h.patterns ++ [q]
        nextKey := if q.isDelimited then h.nextKey + 1 else h.nextKey }
  | removePattern {id : String} {p : Pattern} (hp : h.pattern? id = some p) :
      Retunes h (.removePattern id) p.isDelimited { h with
        patterns := h.patterns.eraseP (·.id == id)
        staleTags := h.staleTags ++ (h.patternTags.lookup id).toList
        patternTags := h.patternTags.filter fun entry => entry.1 != id }
  | setEscape (escape : Option Char) : Retunes h (.setEscape escape) true { h with escape }
  | setLanguage {l : Language} {nextKey : PatternKey} {patterns : List Pattern}
      (hcompiled : compileAll h.nextKey [] l.patterns = (nextKey, .ok patterns)) :
      Retunes h (.setLanguage l) true { h with
        nextKey, patterns, escape := l.escape
        staleTags := h.staleTags ++ h.patternTags.map Prod.snd
        patternTags := [] }

variable {h g : Highlighter} {c : Tuning} {void : Bool}

/-- A pattern that is added compiles, under a name that no other one has. -/
theorem addPattern_eq {p : PatternDef} (hadd : h.addPattern p = (g, .ok ())) :
    ∃ q, compile h.nextKey p = .ok q ∧ (∀ r ∈ h.patterns, r.id ≠ q.id) ∧
      g = if q.isDelimited then
          invalidateAll { h with patterns := h.patterns ++ [q], nextKey := h.nextKey + 1 }
        else refreshAll { h with patterns := h.patterns ++ [q] } := by
  rw [addPattern] at hadd
  split at hadd
  · cases (Prod.mk.inj hadd).2
  · rename_i hunique
    split at hadd
    · cases (Prod.mk.inj hadd).2
    · rename_i q hq
      refine ⟨q, hq, fun r hr heq => ?_, (Prod.mk.inj hadd).1.symm⟩
      have hid : r.id = p.id := by rw [heq, ← (compile_eq hq).1, Pattern.id_definition]
      unfold checkUnique at hunique
      split at hunique
      · cases hunique
      · rename_i hnone
        rw [Option.not_isSome_iff_eq_none, pattern?, List.find?_eq_none] at hnone
        exact hnone r hr (beq_iff_eq.2 hid)

/-- A pattern that is refused changes nothing. -/
theorem addPattern_of_refused {p : PatternDef} {err : PatternError}
    (hadd : (h.addPattern p).2 = .error err) : (h.addPattern p).1 = h := by
  revert hadd
  rw [addPattern]
  split
  · exact fun _ => rfl
  · split
    · exact fun _ => rfl
    · exact nofun

/-- A change is refused, and may have used up keys, or gives other patterns, with all to be
highlighted again. -/
theorem tune_eq (h : Highlighter) (c : Tuning) :
    (∃ nextKey, h.nextKey ≤ nextKey ∧ h.tune c = { h with nextKey }) ∨
      ∃ void g, Retunes h c void g ∧
        h.tune c = if void then g.invalidateAll else g.refreshAll := by
  cases c with
  | addPattern p =>
    rcases hadd : h.addPattern p with ⟨g, err | ⟨⟩⟩
    · have hsame := addPattern_of_refused (congrArg Prod.snd hadd)
      exact .inl ⟨h.nextKey, Nat.le_refl _, hsame⟩
    · obtain ⟨q, hq, hnew, hg⟩ := addPattern_eq hadd
      have htuned : h.tune (.addPattern p) = g := by rw [tune, hadd]
      refine .inr ⟨_, _, .addPattern hnew hq, htuned.trans (hg.trans ?_)⟩
      split <;> rfl
  | removePattern id =>
    rw [tune, removePattern]
    split
    · exact .inl ⟨h.nextKey, Nat.le_refl _, rfl⟩
    · rename_i p hp
      exact .inr ⟨_, _, .removePattern hp, rfl⟩
  | setEscape escape =>
    rw [tune, setEscape]
    split
    · exact .inl ⟨h.nextKey, Nat.le_refl _, rfl⟩
    · exact .inr ⟨_, _, .setEscape escape, rfl⟩
  | setLanguage l =>
    rw [tune, setLanguage]
    split
    · rename_i nextKey err hcompiled
      exact .inl ⟨nextKey, le_compileAll hcompiled, rfl⟩
    · rename_i nextKey patterns hcompiled
      exact .inr ⟨_, _, .setLanguage hcompiled, rfl⟩

namespace Retunes

/-- The work on the document is not touched. -/
theorem retuned (hg : Retunes h c void g) : h.Retuned g := by
  cases hg <;> exact ⟨rfl, rfl, rfl, rfl, rfl⟩

/-- If what is known of the enclosures is not void, they are the same as before. -/
theorem delimited_eq (hg : Retunes h c false g) :
    delimitedOf g.patterns = delimitedOf h.patterns ∧ g.escape = h.escape := by
  generalize hvoid : false = void at hg
  cases hg with
  | addPattern hnew hq => exact ⟨delimitedOf_append_simple hvoid.symm, rfl⟩
  | removePattern hp => exact ⟨delimitedOf_eraseP_simple hp hvoid.symm, rfl⟩
  | setEscape escape => cases hvoid
  | setLanguage hcompiled => cases hvoid

/-- Keys that were given are not given again. -/
theorem le_nextKey (hg : Retunes h c void g) : h.nextKey ≤ g.nextKey := by
  cases hg with
  | addPattern hnew hq =>
    dsimp only
    split
    · exact Nat.le_succ _
    · exact Nat.le_refl _
  | removePattern hp => exact Nat.le_refl _
  | setEscape escape => exact Nat.le_refl _
  | setLanguage hcompiled => exact le_compileAll hcompiled

end Retunes

/-- A change makes all that is known of the enclosures void, or leaves the delimited patterns as
they are. -/
theorem tune_cases (h : Highlighter) (c : Tuning) :
    ∃ g, h.Retuned g ∧ (h.tune c = g.invalidateAll ∨
      delimitedOf g.patterns = delimitedOf h.patterns ∧
        (h.tune c = g ∨ h.tune c = g.refreshAll)) := by
  rcases h.tune_eq c with ⟨nextKey, -, heq⟩ | ⟨void, g, hg, heq⟩
  · exact ⟨{ h with nextKey }, ⟨rfl, rfl, rfl, rfl, rfl⟩, .inr ⟨rfl, .inl heq⟩⟩
  · cases void with
    | true => exact ⟨g, hg.retuned, .inl heq⟩
    | false => exact ⟨g, hg.retuned, .inr ⟨hg.delimited_eq.1, .inr heq⟩⟩

theorem attached_tune (h : Highlighter) (c : Tuning) : (h.tune c).attached = h.attached := by
  obtain ⟨g, hg, hdone | ⟨-, hdone | hdone⟩⟩ := h.tune_cases c <;> rw [hdone]
  · exact (attached_refreshAll _).trans hg.attached
  · exact hg.attached
  · exact (attached_refreshAll _).trans hg.attached

theorem attached_tuneAll (h : Highlighter) (cs : List Tuning) :
    (h.tuneAll cs).attached = h.attached := by
  induction cs generalizing h with
  | nil => rfl
  | cons c cs ih => exact (ih (h.tune c)).trans (h.attached_tune c)

/-- The patterns of a highlighter are compiled, under different names and keys. -/
def Registered (h : Highlighter) : Prop := Listed h.patterns h.nextKey

theorem Registered.tune (hr : h.Registered) (c : Tuning) : (h.tune c).Registered := by
  rcases h.tune_eq c with ⟨nextKey, hle, heq⟩ | ⟨void, g, hg, heq⟩
  · rw [heq]
    exact hr.mono hle
  · obtain ⟨table, refresh, announced, heq', -⟩ := g.retuned_eq void
    rw [heq, heq']
    cases hg with
    | addPattern hnew hq => exact hr.append hnew hq
    | removePattern hp => exact hr.sublist List.eraseP_sublist
    | setEscape escape => exact hr
    | setLanguage hcompiled => exact (listed_nil h.nextKey).compileAll hcompiled

theorem Registered.tuneAll (hr : h.Registered) (cs : List Tuning) : (h.tuneAll cs).Registered := by
  induction cs generalizing h with
  | nil => exact hr
  | cons c cs ih => exact ih (hr.tune c)

end Highlighter
end CodeBuffer
