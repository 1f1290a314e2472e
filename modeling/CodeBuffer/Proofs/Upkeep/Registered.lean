import CodeBuffer.Highlighter.Registration

namespace CodeBuffer

theorem source_of_compileMatcher [PatternEngine] {source : String} {m : Matcher}
    (h : compileMatcher source = .ok m) : m.source = source := by
  unfold compileMatcher at h
  split at h
  · rename_i m' hm
    rw [← Except.ok.inj h]
    exact PatternEngine.source_eq hm
  · cases h

namespace Pattern

/-- The pattern as it is written down. -/
def definition : Pattern → PatternDef
  | simple p => .simple p.id p.style p.matcher.source
  | delimited p => .delimited p.id p.style p.opener.source p.closer.source p.contextClass

/-- The same pattern with another key, if it has one. -/
def rekey (f : PatternKey → PatternKey) : Pattern → Pattern
  | simple p => simple p
  | delimited p => delimited { p with key := f p.key }

@[simp] theorem id_definition (p : Pattern) : p.definition.id = p.id := by
  cases p <;> rfl

@[simp] theorem id_rekey (f : PatternKey → PatternKey) (p : Pattern) : (p.rekey f).id = p.id := by
  cases p <;> rfl

@[simp] theorem style_rekey (f : PatternKey → PatternKey) (p : Pattern) :
    (p.rekey f).style = p.style := by
  cases p <;> rfl

@[simp] theorem isDelimited_rekey (f : PatternKey → PatternKey) (p : Pattern) :
    (p.rekey f).isDelimited = p.isDelimited := by
  cases p <;> rfl

end Pattern

namespace Highlighter

variable [PatternEngine]

/-- What a definition is compiled to. -/
inductive Compiles (key : PatternKey) : PatternDef → Pattern → Prop where
  | simple {id style source : String} {m : Matcher} (hm : compileMatcher source = .ok m) :
      Compiles key (.simple id style source) (.simple ⟨id, style, m⟩)
  | delimited {id style opener closer : String} {contextClass : Option String} {o c : Matcher}
      (ho : compileMatcher opener = .ok o) (hc : compileMatcher closer = .ok c) :
      Compiles key (.delimited id style opener closer contextClass)
        (.delimited ⟨id, style, key, o, c, contextClass⟩)

theorem compile_iff {key : PatternKey} {p : PatternDef} {q : Pattern} :
    compile key p = .ok q ↔ Compiles key p q := by
  refine ⟨fun h => ?_, fun h => ?_⟩
  · cases p with
    | simple id style source =>
      cases hm : compileMatcher source with
      | error err => simp [compile, hm, bind, Except.bind] at h
      | ok m =>
        simp only [compile, hm, bind, Except.bind, pure, Except.pure, Except.ok.injEq] at h
        exact h ▸ .simple hm
    | delimited id style opener closer contextClass =>
      cases ho : compileMatcher opener with
      | error err => simp [compile, ho, bind, Except.bind] at h
      | ok o =>
        cases hc : compileMatcher closer with
        | error err => simp [compile, ho, hc, bind, Except.bind] at h
        | ok c =>
          simp only [compile, ho, hc, bind, Except.bind, pure, Except.pure, Except.ok.injEq] at h
          exact h ▸ .delimited ho hc
  · cases h with
    | simple hm =>
      rw [compile, hm]
      rfl
    | delimited ho hc =>
      rw [compile, ho, hc]
      rfl

/-- A compiled pattern tells its definition, and has the key that it was given. -/
theorem compile_eq {key : PatternKey} {p : PatternDef} {q : Pattern} (h : compile key p = .ok q) :
    q.definition = p ∧ (∀ r ∈ q.delimited?, r.key = key) ∧
      ∀ key', compile key' q.definition = .ok (q.rekey fun _ => key') := by
  cases compile_iff.1 h with
  | simple hm =>
    rw [Pattern.definition, source_of_compileMatcher hm]
    exact ⟨rfl, by simp [Pattern.delimited?], fun _ => compile_iff.2 (.simple hm)⟩
  | delimited ho hc =>
    rw [Pattern.definition, source_of_compileMatcher ho, source_of_compileMatcher hc]
    exact ⟨rfl, by simp [Pattern.delimited?], fun _ => compile_iff.2 (.delimited ho hc)⟩

/-- Patterns of different names and keys, all of them compiled, and the next free key. -/
structure Listed (ps : List Pattern) (nextKey : PatternKey) : Prop where
  ids : (ps.map (·.id)).Nodup
  keys : ((delimitedOf ps).map (·.key)).Nodup
  keys_lt : ∀ q ∈ delimitedOf ps, q.key < nextKey
  compiled : ∀ q ∈ ps, ∃ key, compile key q.definition = .ok q

variable {ps qs done : List Pattern} {key key' : PatternKey} {p : PatternDef} {q : Pattern}

theorem listed_nil (key : PatternKey) : Listed [] key :=
  ⟨.nil, .nil, by simp [delimitedOf], by simp⟩

namespace Listed

theorem mono (h : Listed ps key) (hle : key ≤ key') : Listed ps key' :=
  ⟨h.ids, h.keys, fun q hq => Nat.lt_of_lt_of_le (h.keys_lt q hq) hle, h.compiled⟩

theorem sublist (h : Listed ps key) (hsub : qs.Sublist ps) : Listed qs key := by
  have hdelimited : (delimitedOf qs).Sublist (delimitedOf ps) := hsub.filterMap _
  exact ⟨h.ids.sublist (hsub.map _), h.keys.sublist (hdelimited.map _),
    fun q hq => h.keys_lt q (hdelimited.subset hq), fun q hq => h.compiled q (hsub.subset hq)⟩

/-- A new pattern uses up a key if it is a delimited one. -/
theorem append (h : Listed ps key) (hnew : ∀ r ∈ ps, r.id ≠ q.id) (hq : compile key p = .ok q) :
    Listed (ps ++ [q]) (if q.isDelimited then key + 1 else key) := by
  obtain ⟨hdefinition, hkey, hcompile⟩ := compile_eq hq
  have hids : ((ps ++ [q]).map (·.id)).Nodup := by
    rw [List.map_append, List.map_cons, List.map_nil]
    refine List.nodup_append.2 ⟨h.ids, by simp, ?_⟩
    intro a ha b hb hab
    obtain ⟨r, hr, rfl⟩ := List.mem_map.1 ha
    exact hnew r hr (hab.trans (List.mem_singleton.1 hb))
  have hcompiled : ∀ r ∈ ps ++ [q], ∃ key, compile key r.definition = .ok r := by
    intro r hr
    rcases List.mem_append.1 hr with hr | hr
    · exact h.compiled r hr
    · rw [List.mem_singleton.1 hr]
      exact ⟨key, hdefinition.symm ▸ hq⟩
  cases q with
  | simple s =>
    have hsame : delimitedOf (ps ++ [.simple s]) = delimitedOf ps := by
      simp [delimitedOf, Pattern.delimited?]
    refine ⟨hids, hsame.symm ▸ h.keys, ?_, hcompiled⟩
    rw [hsame]
    exact h.keys_lt
  | delimited r =>
    have hsplit : delimitedOf (ps ++ [.delimited r]) = delimitedOf ps ++ [r] := by
      simp [delimitedOf, Pattern.delimited?]
    have hr : r.key = key := hkey r rfl
    refine ⟨hids, ?_, ?_, hcompiled⟩
    · rw [hsplit, List.map_append, List.map_cons, List.map_nil, hr]
      refine List.nodup_append.2 ⟨h.keys, by simp, ?_⟩
      intro a ha b hb hab
      obtain ⟨s, hs, rfl⟩ := List.mem_map.1 ha
      rw [List.mem_singleton.1 hb] at hab
      exact absurd hab (Nat.ne_of_lt (h.keys_lt s hs))
    · rw [hsplit]
      intro s hs
      change s.key < key + 1
      rcases List.mem_append.1 hs with hs | hs
      · exact Nat.lt_succ_of_lt (h.keys_lt s hs)
      · rw [List.mem_singleton.1 hs, hr]
        exact Nat.lt_succ_self key

theorem compileAll {defs : List PatternDef} (hdone : Listed done key)
    (h : compileAll key done defs = (key', .ok ps)) : Listed ps key' := by
  induction defs generalizing key done with
  | nil =>
    simp only [Highlighter.compileAll, Prod.mk.injEq, Except.ok.injEq] at h
    obtain ⟨rfl, rfl⟩ := h
    exact hdone
  | cons p defs ih =>
    rw [Highlighter.compileAll] at h
    split at h
    · simp at h
    · rename_i hnew
      split at h
      · simp at h
      · rename_i q hq
        refine ih (hdone.append (fun r hr heq => hnew ?_) hq) h
        rw [List.any_eq_true]
        refine ⟨r, hr, beq_iff_eq.2 ?_⟩
        rw [heq, ← (compile_eq hq).1, Pattern.id_definition]

end Listed

theorem le_compileAll {defs : List PatternDef} {r : Except PatternError (List Pattern)}
    (h : compileAll key done defs = (key', r)) : key ≤ key' := by
  induction defs generalizing key done with
  | nil =>
    obtain ⟨rfl, -⟩ := Prod.mk.inj h
    exact Nat.le_refl key
  | cons p defs ih =>
    rw [compileAll] at h
    split at h
    · exact Nat.le_of_eq (Prod.mk.inj h).1
    · split at h
      · exact Nat.le_of_eq (Prod.mk.inj h).1
      · have hlater := ih h
        split at hlater
        · exact Nat.le_of_succ_le hlater
        · exact hlater

/-! Patterns that are compiled again get other keys. -/

/-- The same patterns with the keys from `key` on. -/
def renumber (key : PatternKey) : List Pattern → List Pattern
  | [] => []
  | p :: ps => p.rekey (fun _ => key) :: renumber (if p.isDelimited then key + 1 else key) ps

/-- What is compiled can be compiled again. -/
theorem Listed.compileAll_definition (h : Listed (done ++ ps) key') (key : PatternKey)
    {done' : List Pattern} (hdone : done'.map (·.id) = done.map (·.id)) :
    (Highlighter.compileAll key done' (ps.map (·.definition))).2 =
      .ok (done' ++ renumber key ps) := by
  induction ps generalizing key done done' with
  | nil => simp [Highlighter.compileAll, renumber]
  | cons p ps ih =>
    obtain ⟨_, hp⟩ := h.compiled p (List.mem_append_right _ List.mem_cons_self)
    have hnew : done'.any (·.id == p.definition.id) = false := by
      have hids := h.ids
      rw [List.map_append, ← hdone, List.nodup_append] at hids
      rw [List.any_eq_false]
      intro r hr heq
      rw [Pattern.id_definition, beq_iff_eq] at heq
      exact hids.2.2 r.id (List.mem_map_of_mem hr) p.id List.mem_cons_self heq
    rw [List.map_cons, Highlighter.compileAll, hnew, if_neg Bool.false_ne_true,
      (compile_eq hp).2.2 key, renumber]
    have hrest := @ih (done ++ [p]) (by rwa [List.append_assoc])
      (if p.isDelimited then key + 1 else key) (done' ++ [p.rekey fun _ => key]) (by simp [hdone])
    simpa using hrest

omit [PatternEngine] in
/-- A new key leads back to the one before it. -/
theorem renumber_rekey {f : PatternKey → PatternKey} (key : PatternKey)
    (hf : ∀ i k, ((delimitedOf ps).map (·.key))[i]? = some k → f (key + i) = k) :
    (renumber key ps).map (·.rekey f) = ps := by
  induction ps generalizing key with
  | nil => rfl
  | cons p ps ih =>
    cases p with
    | simple s =>
      have hrest := ih key hf
      exact congrArg (Pattern.simple s :: ·) hrest
    | delimited r =>
      have hhead : f key = r.key := hf 0 r.key rfl
      have hrest : (renumber (key + 1) ps).map (·.rekey f) = ps := ih (key + 1) fun i k hk => by
        rw [Nat.add_assoc, Nat.add_comm 1 i]
        exact hf (i + 1) k hk
      have hsame : (Pattern.delimited r).rekey (fun _ => f key) = .delimited r := by
        rw [Pattern.rekey, hhead]
      exact List.cons_eq_cons.2 ⟨hsame, hrest⟩

/-- Patterns that are compiled again differ in their keys alone. -/
theorem Listed.exists_rekey (h : Listed ps key) :
    ∃ f : PatternKey → PatternKey, Function.Injective f ∧ (renumber 0 ps).map (·.rekey f) = ps := by
  -- keys that are not given yet lead behind all that are
  refine ⟨fun i => ((delimitedOf ps).map (·.key))[i]?.getD (key + i), ?_, ?_⟩
  · have hlt (i k : Nat) (hk : ((delimitedOf ps).map (·.key))[i]? = some k) : k < key := by
      obtain ⟨q, hq, rfl⟩ := List.mem_map.1 (List.mem_of_getElem? hk)
      exact h.keys_lt q hq
    have hne (i j k : Nat) (hk : ((delimitedOf ps).map (·.key))[i]? = some k) : k ≠ key + j :=
      Nat.ne_of_lt (Nat.lt_of_lt_of_le (hlt i k hk) (Nat.le_add_right key j))
    intro i j hij
    dsimp only at hij
    cases hi : ((delimitedOf ps).map (·.key))[i]? with
    | none =>
      cases hj : ((delimitedOf ps).map (·.key))[j]? with
      | none =>
        rw [hi, hj, Option.getD_none, Option.getD_none] at hij
        exact Nat.add_left_cancel hij
      | some k =>
        rw [hi, hj, Option.getD_none, Option.getD_some] at hij
        exact absurd hij.symm (hne j i k hj)
    | some k =>
      cases hj : ((delimitedOf ps).map (·.key))[j]? with
      | none =>
        rw [hi, hj, Option.getD_none, Option.getD_some] at hij
        exact absurd hij (hne i j k hi)
      | some k' =>
        rw [hi, hj, Option.getD_some, Option.getD_some] at hij
        exact (List.getElem?_inj (List.getElem?_eq_some_iff.1 hi).1 h.keys).1
          (hi.trans (hij ▸ hj.symm))
  · refine renumber_rekey 0 fun i k hk => ?_
    rw [Nat.zero_add, hk, Option.getD_some]

end Highlighter
end CodeBuffer
