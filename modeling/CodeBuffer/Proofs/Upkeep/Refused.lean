import CodeBuffer.Proofs.Upkeep.Tuning

namespace CodeBuffer

namespace Highlighter

variable {h : Highlighter}

theorem isSome_pattern?_iff {id : String} :
    (h.pattern? id).isSome = true ↔ id ∈ h.patterns.map (·.id) := by
  simp [pattern?, List.find?_isSome]

theorem removePattern_eq_false_iff {id : String} :
    (h.removePattern id).1 = false ↔ id ∉ h.patterns.map (·.id) := by
  rw [← isSome_pattern?_iff, removePattern]
  cases h.pattern? id <;> simp

end Highlighter

variable [PatternEngine]

namespace PatternDef

/-- The sources of a pattern in the order in which they are compiled. -/
def sources : PatternDef → List String
  | simple _ _ source => [source]
  | delimited _ _ opener closer _ => [opener, closer]

def isDelimited : PatternDef → Bool
  | simple .. => false
  | delimited .. => true

/-- Why a pattern is refused beside others of some names: its name is one of them, or else one of
its sources, the first such, does not compile. -/
inductive Refused (ids : List String) (p : PatternDef) : PatternError → Prop
  | duplicate (hid : p.id ∈ ids) : Refused ids p (.duplicateId p.id)
  | invalid {before behind : List String} {source : String} (hid : p.id ∉ ids)
      (split : p.sources = before ++ source :: behind)
      (compiled : ∀ s ∈ before, (PatternEngine.compile? s).isSome = true)
      (malformed : PatternEngine.compile? source = none) : Refused ids p (.invalidSource source)

/-- Why a list of patterns is refused: the first of them to be refused beside those before it is
refused for that. -/
def FirstRefused (ids : List String) (ps : List PatternDef) (err : PatternError) : Prop :=
  ∃ before p behind, ps = before ++ p :: behind ∧ p.Refused (ids ++ before.map (·.id)) err ∧
    ∀ ahead q rest, before = ahead ++ q :: rest → ∀ err', ¬q.Refused (ids ++ ahead.map (·.id)) err'

variable {ids : List String} {p : PatternDef} {ps : List PatternDef} {err : PatternError}

theorem not_firstRefused_nil : ¬FirstRefused ids [] err := by
  rintro ⟨before, p, behind, h, -⟩
  simp at h

theorem firstRefused_cons_iff :
    FirstRefused ids (p :: ps) err ↔
      p.Refused ids err ∨ (∀ err', ¬p.Refused ids err') ∧ FirstRefused (ids ++ [p.id]) ps err := by
  constructor
  · rintro ⟨_ | ⟨q, before⟩, r, behind, hsplit, href, hfirst⟩
    · obtain ⟨rfl, rfl⟩ := List.cons.inj hsplit
      exact .inl (by simpa using href)
    · obtain ⟨rfl, rfl⟩ := List.cons.inj hsplit
      refine .inr ⟨fun err' => ?_, before, r, behind, rfl, by simpa using href, ?_⟩
      · simpa using hfirst [] p before rfl err'
      · rintro ahead q rest rfl err'
        simpa using hfirst (p :: ahead) q rest rfl err'
  · rintro (href | ⟨hnone, before, r, behind, rfl, href, hfirst⟩)
    · exact ⟨[], p, ps, rfl, by simpa using href, by simp⟩
    · refine ⟨p :: before, r, behind, rfl, by simpa using href, ?_⟩
      rintro (_ | ⟨q', ahead⟩) q rest hsplit err'
      · obtain ⟨rfl, -⟩ := List.cons.inj hsplit
        simpa using hnone err'
      · obtain ⟨rfl, rfl⟩ := List.cons.inj hsplit
        simpa using hfirst ahead q rest rfl err'

end PatternDef

theorem compileMatcher_eq_error_iff {source : String} {err : PatternError} :
    compileMatcher source = .error err ↔
      PatternEngine.compile? source = none ∧ err = .invalidSource source := by
  unfold compileMatcher
  cases PatternEngine.compile? source with
  | none => simp [eq_comm]
  | some m => simp

namespace Highlighter

open PatternDef

variable {h : Highlighter} {key : PatternKey} {p : PatternDef} {ps : List PatternDef}
  {done : List Pattern} {err : PatternError} {l : Language}

theorem compile_simple_eq_error_iff {id style source : String} :
    compile key (.simple id style source) = .error err ↔ compileMatcher source = .error err := by
  rw [compile]
  cases compileMatcher source <;> simp [bind, Except.bind, pure, Except.pure]

/-- The closer is compiled when the opener is. -/
theorem compile_delimited_eq_error_iff {id style opener closer : String}
    {contextClass : Option String} :
    compile key (.delimited id style opener closer contextClass) = .error err ↔
      compileMatcher opener = .error err ∨
        (PatternEngine.compile? opener).isSome = true ∧ compileMatcher closer = .error err := by
  rw [compile]
  cases hopener : compileMatcher opener with
  | error err' =>
    have hnone := (compileMatcher_eq_error_iff.1 hopener).1
    simp [bind, Except.bind, hnone]
  | ok m =>
    have hsome : (PatternEngine.compile? opener).isSome = true := by
      rw [Option.isSome_iff_ne_none]
      intro hnone
      rw [compileMatcher_eq_error_iff.2 ⟨hnone, rfl⟩] at hopener
      cases hopener
    cases compileMatcher closer <;> simp [bind, Except.bind, pure, Except.pure, hsome]

/-- The first source that does not compile is the fault of a pattern. -/
theorem compile_eq_error_iff :
    compile key p = .error err ↔ ∃ before source behind, p.sources = before ++ source :: behind ∧
      (∀ s ∈ before, (PatternEngine.compile? s).isSome = true) ∧
        PatternEngine.compile? source = none ∧ err = .invalidSource source := by
  cases p with
  | simple id style source =>
    rw [compile_simple_eq_error_iff, compileMatcher_eq_error_iff]
    constructor
    · rintro ⟨hbad, rfl⟩
      exact ⟨[], source, [], rfl, by simp, hbad, rfl⟩
    · rintro ⟨before, bad, behind, hsplit, -, hbad, rfl⟩
      rw [sources] at hsplit
      obtain _ | ⟨s, before⟩ := before
      · obtain ⟨rfl, rfl⟩ := List.cons.inj hsplit
        exact ⟨hbad, rfl⟩
      · simp at hsplit
  | delimited id style opener closer contextClass =>
    rw [compile_delimited_eq_error_iff, compileMatcher_eq_error_iff, compileMatcher_eq_error_iff]
    constructor
    · rintro (⟨hbad, rfl⟩ | ⟨hopener, hbad, rfl⟩)
      · exact ⟨[], opener, [closer], rfl, by simp, hbad, rfl⟩
      · exact ⟨[opener], closer, [], rfl, by simpa using hopener, hbad, rfl⟩
    · rintro ⟨before, bad, behind, hsplit, hbefore, hbad, rfl⟩
      rw [sources] at hsplit
      obtain _ | ⟨s, _ | ⟨s', before⟩⟩ := before
      · obtain ⟨rfl, -⟩ := List.cons.inj hsplit
        exact .inl ⟨hbad, rfl⟩
      · obtain ⟨rfl, hrest⟩ := List.cons.inj hsplit
        obtain ⟨rfl, -⟩ := List.cons.inj hrest
        exact .inr ⟨hbefore _ List.mem_cons_self, hbad, rfl⟩
      · simp at hsplit

/-- What is refused is refused for its name, or else for its sources. -/
theorem refused_iff {ids : List String} (key : PatternKey) :
    p.Refused ids err ↔ p.id ∈ ids ∧ err = .duplicateId p.id ∨
      p.id ∉ ids ∧ compile key p = .error err := by
  constructor
  · rintro (hid | ⟨hid, hsplit, hcompiled, hbad⟩)
    · exact .inl ⟨hid, rfl⟩
    · exact .inr ⟨hid, compile_eq_error_iff.2 ⟨_, _, _, hsplit, hcompiled, hbad, rfl⟩⟩
  · rintro (⟨hid, rfl⟩ | ⟨hid, hcompile⟩)
    · exact .duplicate hid
    · obtain ⟨before, source, behind, hsplit, hcompiled, hbad, rfl⟩ :=
        compile_eq_error_iff.1 hcompile
      exact .invalid hid hsplit hcompiled hbad

/-- A pattern is added unless it is refused beside those that are there. -/
theorem addPattern_eq_error_iff :
    (h.addPattern p).2 = .error err ↔ p.Refused (h.patterns.map (·.id)) err := by
  rw [refused_iff h.nextKey, ← isSome_pattern?_iff, addPattern, checkUnique]
  cases (h.pattern? p.id).isSome with
  | true => simp [eq_comm]
  | false => cases compile h.nextKey p <;> simp

/-- Definitions are compiled unless one of them is refused. -/
theorem compileAll_eq_error_iff :
    (compileAll key done ps).2 = .error err ↔ FirstRefused (done.map (·.id)) ps err := by
  induction ps generalizing key done with
  | nil => simp [compileAll, not_firstRefused_nil]
  | cons p ps ih =>
    have hid : done.any (·.id == p.id) = true ↔ p.id ∈ done.map (·.id) := by
      simp [List.any_eq_true]
    rw [firstRefused_cons_iff, compileAll]
    by_cases hdup : done.any (·.id == p.id) = true
    · have href {err : PatternError} :
          p.Refused (done.map (·.id)) err ↔ err = .duplicateId p.id := by
        simp [refused_iff key, hid.1 hdup]
      rw [if_pos hdup, href]
      simp [href, eq_comm]
    · have href {err : PatternError} :
          p.Refused (done.map (·.id)) err ↔ compile key p = .error err := by
        simp [refused_iff key, mt hid.2 hdup]
      rw [if_neg hdup]
      simp only [href]
      cases hcompile : compile key p with
      | error err' => simp
      | ok q =>
        have hq : q.id = p.id := by rw [← (compile_eq hcompile).1, Pattern.id_definition]
        simp [ih, hq]

theorem setLanguage_eq_error_iff :
    (h.setLanguage l).2 = .error err ↔ FirstRefused [] l.patterns err := by
  have hcompile : (compileAll h.nextKey [] l.patterns).2 = .error err ↔
      FirstRefused [] l.patterns err := compileAll_eq_error_iff
  rw [← hcompile, setLanguage]
  split <;> simp_all

end Highlighter
end CodeBuffer
