import CodeBuffer.Proofs.Painting.Retuned

namespace CodeBuffer

open Delimiter DelimiterTable PlainLanguage

/-- A pattern that searches for fixed words. Only its enclosures may end with the line. -/
def DelimitedPattern.IsPlain (q : DelimitedPattern) : Prop :=
  ∃ opener closer : Text, opener.InLine ∧ (closer = ['\n'] ∨ closer.InLine) ∧
    q.opener.Finds opener ∧ q.closer.Finds closer

def Pattern.IsPlain : Pattern → Prop
  | simple p => p.IsPlain
  | delimited p => p.IsPlain

namespace Highlighter

/-- All patterns search for fixed words, and the escape character keeps to a line. -/
structure IsPlain (h : Highlighter) : Prop where
  patterns : ∀ p ∈ h.patterns, p.IsPlain
  escape : ∀ c, h.escape = some c → isLineBreak c = false

variable {h g : Highlighter}

namespace IsPlain

theorem of_eq (hp : h.IsPlain) (hpatterns : g.patterns = h.patterns)
    (hescape : g.escape = h.escape) : g.IsPlain :=
  ⟨hpatterns ▸ hp.patterns, hescape ▸ hp.escape⟩

theorem simple (hp : h.IsPlain) : ∀ q ∈ simpleOf h.patterns, q.IsPlain := by
  intro q hq
  obtain ⟨p, hmem, hpq⟩ := List.mem_filterMap.1 hq
  have hplain := hp.patterns p hmem
  cases p with
  | simple s => exact Option.some.inj hpq ▸ hplain
  | delimited r => cases hpq

theorem delimited (hp : h.IsPlain) : ∀ q ∈ delimitedOf h.patterns, q.IsPlain := by
  intro q hq
  obtain ⟨p, hmem, hpq⟩ := List.mem_filterMap.1 hq
  have hplain := hp.patterns p hmem
  cases p with
  | simple s => cases hpq
  | delimited r => exact Option.some.inj hpq ▸ hplain

end IsPlain

theorem exists_search {ps : List DelimitedPattern} (hps : ∀ q ∈ ps, q.IsPlain) :
    ∃ pairs, PlainLanguage.Search ps pairs ∧ pairs.map (·.key) = ps.map (·.key) := by
  induction ps with
  | nil => exact ⟨[], .nil, rfl⟩
  | cons q ps ih =>
    obtain ⟨pairs, hsearch, hkeys⟩ := ih fun r hr => hps r (List.mem_cons_of_mem q hr)
    obtain ⟨opener, closer, hopener, hcloser, hfinds⟩ := hps q List.mem_cons_self
    exact ⟨⟨q.key, opener, closer, hopener, hcloser⟩ :: pairs, .cons ⟨rfl, hfinds⟩ hsearch,
      congrArg (q.key :: ·) hkeys⟩

end Highlighter

variable [PatternEngine]

/-- What a source is compiled to, if anything, searches for a fixed word. -/
def Spells (source : String) (w : Text) : Prop := ∀ m, compileMatcher source = .ok m → m.Finds w

/-- A definition that spells fixed words. -/
def PatternDef.IsPlain : PatternDef → Prop
  | simple _ _ source => ∃ w : Text, w.InLine ∧ Spells source w
  | delimited _ _ opener closer _ =>
    (∃ w : Text, w.InLine ∧ Spells opener w) ∧
      ∃ w : Text, (w = ['\n'] ∨ w.InLine) ∧ Spells closer w

/-- A change to patterns of fixed words, or to an escape character that keeps to a line. -/
def Tuning.IsPlain : Tuning → Prop
  | addPattern p => p.IsPlain
  | removePattern _ => True
  | setEscape escape => ∀ c, escape = some c → isLineBreak c = false
  | setLanguage l =>
    (∀ p ∈ l.patterns, p.IsPlain) ∧ ∀ c, l.escape = some c → isLineBreak c = false

namespace Highlighter

variable {h : Highlighter}

/-- Such a highlighter speaks a language of fixed words. -/
theorem IsPlain.exists_spokenBy (hp : h.IsPlain) (hr : h.Registered) :
    ∃ L : PlainLanguage, L.SpokenBy h := by
  obtain ⟨pairs, hsearch, hkeys⟩ := exists_search hp.delimited
  exact ⟨⟨pairs, h.escape, hkeys ▸ hr.keys, hp.escape⟩, hsearch, rfl⟩

/-- Definitions that spell words are compiled to patterns that search for them. -/
theorem isPlain_of_compile {key : PatternKey} {p : PatternDef} {q : Pattern} (hp : p.IsPlain)
    (hq : compile key p = .ok q) : q.IsPlain := by
  cases compile_iff.1 hq with
  | simple hm =>
    obtain ⟨w, hw, hspells⟩ := hp
    exact ⟨w, hw, hspells _ hm⟩
  | delimited ho hc =>
    obtain ⟨⟨w, hw, hopener⟩, v, hv, hcloser⟩ := hp
    exact ⟨w, v, hw, hv, hopener _ ho, hcloser _ hc⟩

theorem isPlain_of_compileAll {key key' : PatternKey} {defs : List PatternDef}
    {done ps : List Pattern} (hdefs : ∀ p ∈ defs, p.IsPlain) (hdone : ∀ p ∈ done, p.IsPlain)
    (h : compileAll key done defs = (key', .ok ps)) : ∀ p ∈ ps, p.IsPlain := by
  induction defs generalizing key done with
  | nil =>
    simp only [compileAll, Prod.mk.injEq, Except.ok.injEq] at h
    obtain ⟨-, rfl⟩ := h
    exact hdone
  | cons p defs ih =>
    rw [compileAll] at h
    split at h
    · simp at h
    · split at h
      · simp at h
      · rename_i q hq
        refine ih (fun r hr => hdefs r (List.mem_cons_of_mem p hr)) (fun r hr => ?_) h
        rcases List.mem_append.1 hr with hr | hr
        · exact hdone r hr
        · rw [List.mem_singleton.1 hr]
          exact isPlain_of_compile (hdefs p List.mem_cons_self) hq

/-- Patterns of fixed words stay so as long as only such are added. -/
theorem IsPlain.tune (hp : h.IsPlain) {c : Tuning} (hc : c.IsPlain) : (h.tune c).IsPlain := by
  rcases h.tune_eq c with ⟨nextKey, -, heq⟩ | ⟨void, g, hg, heq⟩
  · rw [heq]
    exact ⟨hp.patterns, hp.escape⟩
  · obtain ⟨table, refresh, announced, hsame, -⟩ := g.retuned_eq void
    rw [heq, hsame]
    cases hg with
    | addPattern hnew hq =>
      refine ⟨fun r hr => ?_, hp.escape⟩
      rcases List.mem_append.1 hr with hr | hr
      · exact hp.patterns r hr
      · rw [List.mem_singleton.1 hr]
        exact isPlain_of_compile hc hq
    | removePattern hfound =>
      exact ⟨fun r hr => hp.patterns r (List.eraseP_sublist.subset hr), hp.escape⟩
    | setEscape escape => exact ⟨hp.patterns, hc⟩
    | setLanguage hcompiled => exact ⟨isPlain_of_compileAll hc.1 (by simp) hcompiled, hc.2⟩

theorem IsPlain.tuneAll (hp : h.IsPlain) {cs : List Tuning} (hcs : ∀ c ∈ cs, c.IsPlain) :
    (h.tuneAll cs).IsPlain := by
  induction cs generalizing h with
  | nil => exact hp
  | cons c cs ih =>
    exact ih (hp.tune (hcs c List.mem_cons_self)) fun c' hc' => hcs c' (List.mem_cons_of_mem c hc')

end Highlighter
end CodeBuffer
