import CodeBuffer.Proofs.Upkeep.Enrolled

namespace CodeBuffer
namespace Highlighter

variable {h g : Highlighter} {c : Tuning} {void : Bool} {patterns : List Pattern}
  {escape : Option Char}

/-- What a highlighter becomes with other patterns and another escape character. The delimiters it
knows are dropped if `void`, and all of the text is out of date while it is attached to one. Nothing
else changes but the keys that are still to be given and the tags that are kept in mind. -/
structure Exchanges (h : Highlighter) (patterns : List Pattern) (escape : Option Char) (void : Bool)
    (g : Highlighter) : Prop where
  table : g.table = if void then .reset !g.hasDelimited else h.table
  refresh : g.refresh = if h.isAttached then h.refresh.add 0 h.bufferLength else h.refresh
  announced : g.announced =
    if h.isAttached ∧ 0 < h.bufferLength then ⟨0, h.bufferLength⟩ :: h.announced else h.announced
  rest : ∃ nextKey patternTags staleTags, h.nextKey ≤ nextKey ∧ patternTags ⊆ h.patternTags ∧
    h.staleTags ⊆ staleTags ∧ g = { h with
      patterns, escape, nextKey, patternTags, staleTags
      table := g.table, refresh := g.refresh, announced := g.announced }

/-- What a change of the patterns makes of a highlighter when it is not refused. A pattern that is
added comes last, with the next key if it is a delimited one; one that is removed leaves the others
as they are; those of a language take the place of all others. -/
inductive Adopts (h : Highlighter) : Tuning → Highlighter → Prop where
  | addPattern {q : Pattern} {g : Highlighter} (hkey : ∀ r ∈ q.delimited?, r.key = h.nextKey)
      (hg : h.Exchanges (h.patterns ++ [q]) h.escape q.isDelimited g) :
      Adopts h (.addPattern q.definition) g
  | removePattern {p : Pattern} {g : Highlighter} (hp : p ∈ h.patterns)
      (hg : h.Exchanges (h.patterns.filter fun q => q.id != p.id) h.escape p.isDelimited g) :
      Adopts h (.removePattern p.id) g
  | keepEscape : Adopts h (.setEscape h.escape) h
  | setEscape {escape : Option Char} {g : Highlighter} (hne : escape ≠ h.escape)
      (hg : h.Exchanges h.patterns escape true g) : Adopts h (.setEscape escape) g
  | setLanguage {l : Language} {ps : List Pattern} {g : Highlighter}
      (hps : ps.map (·.definition) = l.patterns) (hg : h.Exchanges ps l.escape true g) :
      Adopts h (.setLanguage l) g

/-- A text is out of date as a whole, if there is any. -/
theorem refreshAll_exact (h : Highlighter) :
    h.refreshAll = { h with
      refresh := if h.isAttached then h.refresh.add 0 h.bufferLength else h.refresh
      announced :=
        if h.isAttached ∧ 0 < h.bufferLength then ⟨0, h.bufferLength⟩ :: h.announced
        else h.announced } := by
  unfold refreshAll
  split
  · rename_i ha
    unfold refreshRange
    split
    · rename_i hempty
      have hsame : h.refresh.add 0 h.bufferLength = h.refresh := if_pos hempty
      rw [hsame, if_neg fun hpos => Nat.not_lt.2 hempty hpos.2]
    · rename_i hpos
      rw [if_pos ⟨ha, Nat.not_le.1 hpos⟩]
      rfl
  · rename_i ha
    rw [if_neg fun hpos => ha hpos.1]

/-- A pattern that is taken out is the only one of its name. -/
theorem eraseP_id {ps : List Pattern} (hps : (ps.map (·.id)).Nodup) (id : String) :
    ps.eraseP (·.id == id) = ps.filter fun p => p.id != id := by
  induction ps with
  | nil => rfl
  | cons p ps ih =>
    obtain ⟨hnew, hrest⟩ := List.nodup_cons.1 hps
    by_cases hp : p.id = id
    · have hall : ∀ q ∈ ps, (q.id != id) = true := by
        intro q hq
        rw [bne_iff_ne, ← hp]
        exact fun heq => hnew (List.mem_map.2 ⟨q, hq, heq⟩)
      rw [List.eraseP_cons_of_pos (by simpa using hp), List.filter_cons_of_neg (by simpa using hp),
        List.filter_eq_self.2 hall]
    · rw [List.eraseP_cons_of_neg (by simpa using hp), List.filter_cons_of_pos (by simpa using hp),
        ih hrest]

variable [PatternEngine]

/-- The work is not touched, and no tag that waits to be cleared is lost. -/
theorem Retunes.exists_eq (hg : Retunes h c void g) :
    ∃ patterns escape nextKey patternTags staleTags, h.nextKey ≤ nextKey ∧
      patternTags ⊆ h.patternTags ∧ h.staleTags ⊆ staleTags ∧
        g = { h with patterns, escape, nextKey, patternTags, staleTags } := by
  have hle := hg.le_nextKey
  cases hg with
  | addPattern hnew hq =>
    exact ⟨_, _, _, _, _, hle, List.Subset.refl _, List.Subset.refl _, rfl⟩
  | removePattern hp =>
    exact ⟨_, _, _, _, _, hle, List.filter_subset_self _, List.subset_append_left _ _, rfl⟩
  | setEscape escape => exact ⟨_, _, _, _, _, hle, List.Subset.refl _, List.Subset.refl _, rfl⟩
  | setLanguage hcompiled =>
    exact ⟨_, _, _, _, _, hle, List.nil_subset _, List.subset_append_left _ _, rfl⟩

theorem Retunes.exchanges (hg : Retunes h c void g) :
    h.Exchanges g.patterns g.escape void (if void then g.invalidateAll else g.refreshAll) := by
  obtain ⟨patterns, escape, nextKey, patternTags, staleTags, hle, hpatterns, hstale, rfl⟩ :=
    hg.exists_eq
  cases void with
  | true =>
    rw [if_pos rfl, invalidateAll, refreshAll_exact]
    exact ⟨rfl, rfl, rfl, nextKey, patternTags, staleTags, hle, hpatterns, hstale, rfl⟩
  | false =>
    rw [if_neg Bool.false_ne_true, refreshAll_exact]
    exact ⟨rfl, rfl, rfl, nextKey, patternTags, staleTags, hle, hpatterns, hstale, rfl⟩

theorem definition_compileAll {key key' : PatternKey} {defs : List PatternDef}
    {done ps : List Pattern} (h : compileAll key done defs = (key', .ok ps)) :
    ps.map (·.definition) = done.map (·.definition) ++ defs := by
  induction defs generalizing key done with
  | nil =>
    simp only [compileAll, Prod.mk.injEq, Except.ok.injEq] at h
    rw [← h.2, List.append_nil]
  | cons p defs ih =>
    rw [compileAll] at h
    split at h
    · simp at h
    · split at h
      · simp at h
      · rename_i q hq
        rw [ih h, List.map_append, List.map_singleton, (compile_eq hq).1, List.append_assoc]
        rfl

/-- A change that is not refused is made. -/
theorem adopts_tuned (hh : (h.patterns.map (·.id)).Nodup) (hmade : ¬(h.tuned c).1.Fails) :
    h.Adopts c (h.tuned c).2 := by
  rw [tuned_snd]
  cases c with
  | addPattern p =>
    rcases hadded : h.addPattern p with ⟨g, err | ⟨⟩⟩
    · simp [tuned, hadded, Answer.Fails] at hmade
    · obtain ⟨q, hq, hnew, rfl⟩ := addPattern_eq hadded
      obtain ⟨hdefinition, hkey, -⟩ := compile_eq hq
      have hexchanges := (Retunes.addPattern hnew hq).exchanges
      rw [tune, hadded, ← hdefinition]
      refine .addPattern hkey ?_
      cases hd : q.isDelimited <;> simpa [hd] using hexchanges
  | removePattern id =>
    cases hfind : h.pattern? id with
    | none => simp [tuned, removePattern, hfind, Answer.Fails] at hmade
    | some p =>
      have hexchanges := (Retunes.removePattern hfind).exchanges
      obtain rfl : p.id = id := by simpa using List.find?_some hfind
      rw [tune, removePattern, hfind]
      dsimp only at hexchanges ⊢
      rw [eraseP_id hh] at hexchanges ⊢
      exact .removePattern (List.mem_of_find?_eq_some hfind) hexchanges
  | setEscape escape =>
    rw [tune, setEscape]
    split
    · rename_i hsame
      rw [← hsame]
      exact .keepEscape
    · rename_i hne
      exact .setEscape (Ne.symm hne) (Retunes.setEscape escape).exchanges
  | setLanguage l =>
    rcases hcompiled : compileAll h.nextKey [] l.patterns with ⟨nextKey, err | ps⟩
    · simp [tuned, setLanguage, hcompiled, Answer.Fails] at hmade
    · rw [tune, setLanguage, hcompiled]
      exact .setLanguage (definition_compileAll hcompiled) (Retunes.setLanguage hcompiled).exchanges

end Highlighter
end CodeBuffer
