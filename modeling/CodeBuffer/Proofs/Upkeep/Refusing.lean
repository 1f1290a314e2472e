import CodeBuffer.Proofs.Upkeep.Exchanged
import CodeBuffer.Proofs.Upkeep.Rekeyed

namespace CodeBuffer

variable {f : PatternKey → PatternKey} {key key' : PatternKey}

/-- From `key` on, the keys lead to ones that follow each other just so. -/
def Continues (f : PatternKey → PatternKey) (key : PatternKey) : Prop :=
  ∀ i, f (key + i) = f key + i

theorem Continues.mono (hf : Continues f key) (hle : key ≤ key') : Continues f key' := by
  obtain ⟨n, rfl⟩ := Nat.exists_eq_add_of_le hle
  intro i
  rw [Nat.add_assoc, hf, hf, Nat.add_assoc]

theorem Pattern.rekey_eq_self {p : Pattern} (hp : ∀ q ∈ p.delimited?, f q.key = q.key) :
    p.rekey f = p := by
  cases p with
  | simple p => rfl
  | delimited p => rw [rekey, hp p rfl]

theorem Delimiter.map_rekey_eq_self {keys : List PatternKey} (hf : ∀ key ∈ keys, f key = key)
    {ds : List Delimiter} (hds : ∀ d ∈ ds, d.Shaped keys) : ds.map (·.rekey f) = ds := by
  have hsame : ∀ d ∈ ds, d.rekey f = d := by
    intro d hd
    obtain ⟨offset, _ | key, depth⟩ := d
    · rfl
    · have hkey : f key = key := hf key ((hds _ hd).2 key rfl)
      rw [rekey, Option.map_some, hkey]
  exact (List.map_congr_left hsame).trans (List.map_id _)

theorem DelimiterTable.Shaped.rekey_eq_self {keys : List PatternKey} {T : DelimiterTable}
    (hT : T.Shaped keys) (hf : ∀ key ∈ keys, f key = key) : T.rekey f = T := by
  have hentries := Delimiter.map_rekey_eq_self hf fun d hd => hT d (List.mem_append_left _ hd)
  have hold := Delimiter.map_rekey_eq_self hf fun d hd => hT d (List.mem_append_right _ hd)
  obtain ⟨entries, _ | old, frontier⟩ := T
  · rw [rekey, hentries]
    rfl
  · have hold : old.entries.map (·.rekey f) = old.entries := hold
    rw [rekey, hentries, Option.map_some, Leftovers.rekey, hold]

/-- How many delimited patterns a call has to compile at most. -/
def Call.compiled : Call → Nat
  | .tune (.addPattern p) => [p].countP (·.isDelimited)
  | .tune (.setLanguage l) => l.patterns.countP (·.isDelimited)
  | _ => 0

def Call.compiledAll : List Call → Nat
  | [] => 0
  | c :: cs => c.compiled + compiledAll cs

namespace Highlighter

variable {h : Highlighter} {log : List Pattern}

theorem pattern?_rekey (f : PatternKey → PatternKey) (h : Highlighter) (id : String) :
    (h.rekey f).pattern? id = (h.pattern? id).map (·.rekey f) := by
  have hsame : (fun p : Pattern => p.id == id) ∘ Pattern.rekey f = fun p => p.id == id := by
    funext p
    rw [Function.comp_apply, Pattern.id_rekey]
  rw [pattern?, rekey, List.find?_map, hsame, pattern?]

theorem removePattern_rekey (f : PatternKey → PatternKey) (h : Highlighter) (id : String) :
    (h.rekey f).removePattern id = ((h.removePattern id).1, (h.removePattern id).2.rekey f) := by
  rw [removePattern, removePattern, pattern?_rekey]
  cases h.pattern? id with
  | none => rfl
  | some p =>
    have hpatterns : (h.rekey f).patterns.eraseP (·.id == id) =
        (h.patterns.eraseP (·.id == id)).map (·.rekey f) := by
      simp [rekey, List.eraseP_map, Function.comp_def]
    simp only [Option.map_some, Pattern.isDelimited_rekey, hpatterns, apply_ite (rekey f),
      ← invalidateAll_rekey, ← refreshAll_rekey]
    rfl

theorem setEscape_rekey (f : PatternKey → PatternKey) (h : Highlighter) (escape : Option Char) :
    (h.rekey f).setEscape escape = (h.setEscape escape).rekey f := by
  rw [setEscape, setEscape, escape_rekey]
  split
  · rfl
  · exact invalidateAll_rekey f { h with escape }

/-- Leads the keys that are still to be given over a gap. -/
def leap (free nextKey key : Nat) : Nat :=
  if key < free then key else key + (nextKey - free)

theorem leap_of_lt {free nextKey key : Nat} (hlt : key < free) : leap free nextKey key = key :=
  if_pos hlt

theorem leap_free {free nextKey : Nat} (hle : free ≤ nextKey) :
    leap free nextKey free = nextKey := by
  rw [leap, if_neg (Nat.lt_irrefl _)]
  omega

theorem leap_strictMono (free nextKey : Nat) : StrictMono (leap free nextKey) := by
  intro a b hab
  unfold leap
  split <;> split <;> omega

theorem continues_leap (free nextKey : Nat) : Continues (leap free nextKey) free := by
  intro i
  rw [leap, if_neg (Nat.not_lt.2 (Nat.le_add_right free i)), leap, if_neg (Nat.lt_irrefl free)]
  exact Nat.add_right_comm free i _

variable [PatternEngine]

theorem compile_rekey (f : PatternKey → PatternKey) (key : PatternKey) (p : PatternDef) :
    compile (f key) p = (compile key p).map (·.rekey f) := by
  cases p with
  | simple id style source =>
    rw [compile, compile]
    cases compileMatcher source <;> rfl
  | delimited id style opener closer contextClass =>
    rw [compile, compile]
    cases compileMatcher opener with
    | error err => rfl
    | ok o => cases compileMatcher closer <;> rfl

theorem compileAll_rekey (hf : Continues f key) (done : List Pattern) (ps : List PatternDef) :
    compileAll (f key) (done.map (·.rekey f)) ps =
      (f (compileAll key done ps).1, (compileAll key done ps).2.map (·.map (·.rekey f))) := by
  induction ps generalizing key done with
  | nil => rfl
  | cons p ps ih =>
    have hany : (done.map (·.rekey f)).any (·.id == p.id) = done.any (·.id == p.id) := by
      simp [List.any_map, Function.comp_def]
    rw [compileAll, compileAll, hany, compile_rekey]
    split
    · rfl
    · cases compile key p with
      | error err => rfl
      | ok q =>
        have hnext : (if (q.rekey f).isDelimited then f key + 1 else f key) =
            f (if q.isDelimited then key + 1 else key) := by
          rw [Pattern.isDelimited_rekey]
          split
          · exact (hf 1).symm
          · rfl
        have hcontinues : Continues f (if q.isDelimited then key + 1 else key) := by
          split
          · exact hf.mono (Nat.le_succ key)
          · exact hf
        have hrest := ih hcontinues (done ++ [q])
        rw [List.map_append] at hrest
        dsimp only [Except.map]
        rw [hnext]
        exact hrest

theorem addPattern_rekey (hf : Continues f h.nextKey) (p : PatternDef) :
    (h.rekey f).addPattern p = ((h.addPattern p).1.rekey f, (h.addPattern p).2) := by
  have hunique : (h.rekey f).checkUnique p.id = h.checkUnique p.id := by
    rw [checkUnique, checkUnique, pattern?_rekey, Option.isSome_map]
  have hcompile : compile (h.rekey f).nextKey p = (compile h.nextKey p).map (·.rekey f) :=
    compile_rekey f h.nextKey p
  rw [addPattern, addPattern, hunique, hcompile]
  cases h.checkUnique p.id with
  | error err => rfl
  | ok unique =>
    cases compile h.nextKey p with
    | error err => rfl
    | ok q =>
      have hpatterns :
          (h.rekey f).patterns ++ [q.rekey f] = (h.patterns ++ [q]).map (·.rekey f) := by
        rw [List.map_append]
        rfl
      have hkey : (h.rekey f).nextKey + 1 = f (h.nextKey + 1) := (hf 1).symm
      simp only [Except.map, Pattern.isDelimited_rekey, hpatterns, hkey, apply_ite (rekey f),
        ← invalidateAll_rekey, ← refreshAll_rekey]
      rfl

theorem setLanguage_rekey (hf : Continues f h.nextKey) (l : Language) :
    (h.rekey f).setLanguage l = ((h.setLanguage l).1.rekey f, (h.setLanguage l).2) := by
  have hcompiled : compileAll (h.rekey f).nextKey [] l.patterns =
      (f (compileAll h.nextKey [] l.patterns).1,
        (compileAll h.nextKey [] l.patterns).2.map (·.map (·.rekey f))) :=
    compileAll_rekey hf [] l.patterns
  rw [setLanguage, setLanguage, hcompiled]
  rcases compileAll h.nextKey [] l.patterns with ⟨nextKey, err | patterns⟩
  · rfl
  · simp only [Except.map, ← invalidateAll_rekey]
    rfl

theorem tuned_rekey (hf : Continues f h.nextKey) (c : Tuning) :
    (h.rekey f).tuned c = ((h.tuned c).1, (h.tuned c).2.rekey f) := by
  cases c with
  | addPattern p =>
    rw [tuned, tuned, addPattern_rekey hf]
    rcases h.addPattern p with ⟨g, _ | ⟨⟩⟩ <;> rfl
  | removePattern id =>
    rw [tuned, tuned, removePattern_rekey]
    rcases h.removePattern id with ⟨_ | _, g⟩ <;> rfl
  | setEscape escape => rw [tuned, tuned, setEscape_rekey]
  | setLanguage l =>
    rw [tuned, tuned, setLanguage_rekey hf]
    rcases h.setLanguage l with ⟨g, _ | ⟨⟩⟩ <;> rfl

/-- A call comes to the same with other keys, which go on in the same way. -/
theorem call_rekey (hf : Function.Injective f) (hc : Continues f h.nextKey) (c : Call) :
    (h.rekey f).call c = ((h.call c).1, (h.call c).2.rekey f) := by
  cases c with
  | tune c => exact tuned_rekey hc c
  | resize batchSize estimates => rfl
  | attach d => simp only [call, attach_rekey, rekeyWork]
  | detach d => simp only [call, detach_rekey, rekeyWork]
  | edited d e => simp only [call, editedBy_rekey hf, rekeyWork]
  | syncTags d => simp only [call, syncTags_rekey, rekeyWork]
  | schemeChanged d => simp only [call, schemeChanged_rekey, rekeyWork]
  | updateHighlight d start stop synchronous =>
    simp only [call, updateHighlight_rekey hf, rekeyWork]
  | runIdleSlice d => simp only [call, runIdleSlice_rekey hf, rekeyWork]
  | takeAnnounced => rfl

theorem le_nextKey_call (h : Highlighter) (c : Call) : h.nextKey ≤ (h.call c).2.nextKey := by
  by_cases htune : ∃ c', c = .tune c'
  · obtain ⟨c, rfl⟩ := htune
    rw [call, tuned_snd]
    exact h.le_nextKey_tune c
  · exact Nat.le_of_eq (h.serves_call fun c' hc => htune ⟨c', hc⟩).nextKey.symm

theorem calls_rekey (hf : Function.Injective f) (hc : Continues f h.nextKey) (cs : List Call) :
    (h.rekey f).calls cs = ((h.calls cs).1, (h.calls cs).2.rekey f) := by
  induction cs generalizing h with
  | nil => rfl
  | cons c cs ih =>
    have hrest := ih (hc.mono (h.le_nextKey_call c))
    simp only [calls, call_rekey hf hc, hrest]

/-! A change that fails -/

/-- All that a change that fails leaves behind is a gap in the keys. -/
theorem eq_of_fails {c : Call} (hfails : (h.call c).1.Fails) :
    ∃ nextKey, h.nextKey ≤ nextKey ∧ (h.call c).2 = { h with nextKey } := by
  cases c with
  | tune c =>
    cases c with
    | addPattern p =>
      refine ⟨h.nextKey, Nat.le_refl _, ?_⟩
      rw [call, tuned] at hfails ⊢
      rcases hadd : h.addPattern p with ⟨g, err | ⟨⟩⟩
      · exact (congrArg Prod.fst hadd).symm.trans (addPattern_of_refused (congrArg Prod.snd hadd))
      · simp [hadd, Answer.Fails] at hfails
    | removePattern id =>
      refine ⟨h.nextKey, Nat.le_refl _, ?_⟩
      rw [call, tuned, removePattern] at hfails ⊢
      cases hfind : h.pattern? id with
      | none => rfl
      | some p => simp [hfind, Answer.Fails] at hfails
    | setEscape escape => exact hfails.elim
    | setLanguage l =>
      rw [call, tuned, setLanguage] at hfails ⊢
      rcases hcompiled : compileAll h.nextKey [] l.patterns with ⟨nextKey, err | patterns⟩
      · exact ⟨nextKey, le_compileAll hcompiled, rfl⟩
      · simp [hcompiled, Answer.Fails] at hfails
  | _ => exact hfails.elim

/-- With a gap in the keys, those that were given stay. -/
theorem Enrolled.skip (he : Enrolled log h) {nextKey : PatternKey} (hle : h.nextKey ≤ nextKey) :
    { h with nextKey } = h.rekey (leap h.nextKey nextKey) := by
  have hkeys (key : PatternKey) (hkey : key ∈ h.keys) : leap h.nextKey nextKey key = key := by
    obtain ⟨q, hq, rfl⟩ := List.mem_map.1 hkey
    exact leap_of_lt (he.registered.keys_lt q hq)
  have hpatterns : h.patterns.map (·.rekey (leap h.nextKey nextKey)) = h.patterns := by
    have hsame : ∀ p ∈ h.patterns, p.rekey (leap h.nextKey nextKey) = p := fun p hp =>
      Pattern.rekey_eq_self fun q hq => hkeys q.key
        (List.mem_map_of_mem (List.mem_filterMap.2 ⟨p, hp, hq⟩))
    exact (List.map_congr_left hsame).trans (List.map_id _)
  have htable : h.table.rekey (leap h.nextKey nextKey) = h.table :=
    he.table.rekey_eq_self hkeys
  rw [rekey, hpatterns, htable, leap_free hle]

/-- A change that fails makes no difference to what comes later. -/
theorem Enrolled.calls_of_fails (he : Enrolled log h) {c : Call} (hfails : (h.call c).1.Fails) :
    ∃ nextKey f, (h.call c).2 = { h with nextKey } ∧ StrictMono f ∧
      (∀ key < h.nextKey, f key = key) ∧
        ∀ later, (h.call c).2.calls later = ((h.calls later).1, (h.calls later).2.rekey f) := by
  obtain ⟨nextKey, hle, heq⟩ := eq_of_fails hfails
  have hmono := leap_strictMono h.nextKey nextKey
  refine ⟨nextKey, leap h.nextKey nextKey, heq, hmono, fun key => leap_of_lt, fun later => ?_⟩
  rw [heq, he.skip hle]
  exact calls_rekey hmono.injective (continues_leap _ _) later

theorem nextKey_call_le (h : Highlighter) (c : Call) :
    (h.call c).2.nextKey ≤ h.nextKey + c.compiled := by
  by_cases htune : ∃ c', c = .tune c'
  · obtain ⟨c, rfl⟩ := htune
    rw [call, tuned_snd]
    cases c with
    | addPattern p =>
      rw [tune]
      rcases hadd : h.addPattern p with ⟨g, err | ⟨⟩⟩
      · have hsame : g = h :=
          (congrArg Prod.fst hadd).symm.trans (addPattern_of_refused (congrArg Prod.snd hadd))
        rw [hsame]
        exact Nat.le_add_right _ _
      · obtain ⟨q, hq, -, rfl⟩ := addPattern_eq hadd
        change (ite _ _ _ : Highlighter).nextKey ≤ _
        rw [Call.compiled, List.countP_singleton, ← isDelimited_of_compile hq]
        split
        · rw [nextKey_invalidateAll]
        · rw [nextKey_refreshAll]
          exact Nat.le_refl _
    | removePattern id =>
      rw [tune, removePattern]
      split
      · exact Nat.le_refl _
      · dsimp only
        split <;> simp [Call.compiled]
    | setEscape escape =>
      rw [tune, setEscape]
      split
      · exact Nat.le_refl _
      · rw [nextKey_invalidateAll]
        exact Nat.le_refl _
    | setLanguage l =>
      have hle : (compileAll h.nextKey [] l.patterns).1 ≤ _ := compileAll_le
      rw [tune, setLanguage]
      split <;> rename_i hcompiled <;> rw [hcompiled] at hle
      · exact hle
      · rw [nextKey_invalidateAll]
        exact hle
  · have hsame := (h.serves_call fun c' hc => htune ⟨c', hc⟩).nextKey
    rw [hsame]
    exact Nat.le_add_right _ _

theorem nextKey_calls_le (h : Highlighter) (cs : List Call) :
    (h.calls cs).2.nextKey ≤ h.nextKey + Call.compiledAll cs := by
  induction cs generalizing h with
  | nil => exact Nat.le_refl _
  | cons c cs ih =>
    have hfirst := h.nextKey_call_le c
    have hrest := ih (h.call c).2
    rw [Call.compiledAll, ← Nat.add_assoc]
    exact Nat.le_trans hrest (Nat.add_le_add_right hfirst _)

theorem enrolled_ofConfig (config : BatchConfig) : Enrolled [] (ofConfig config) := by
  refine ⟨listed_nil 0, .nil, by simp [delimitedOf], List.Subset.refl _, .reset true⟩

/-- Changes of the patterns are made as a whole or not at all. Whatever is asked of a highlighter,
its patterns have different names; no key is given twice, not even to patterns of which one is gone,
and what is known of the text tells of patterns that are there. A pattern or a language is refused
for the reasons that there are and no other ones, and then nothing is different from before but for
the keys that are still to be given, which nothing else depends on. What is not refused is made. -/
theorem registration_atomic (config : BatchConfig) (cs : List Call) :
    let h := ((ofConfig config).calls cs).2
    let log := (ofConfig config).enrolled cs
    (h.patterns.map (·.id)).Nodup ∧ h.patterns ⊆ log ∧
      ((delimitedOf log).map (·.key)).Nodup ∧
      (∀ q ∈ delimitedOf log, q.key < Call.compiledAll cs) ∧
      (∀ d ∈ h.table.entries ++ h.table.oldEntries, ∀ key ∈ d.key,
        ∃ q ∈ delimitedOf h.patterns, ∀ r ∈ delimitedOf log, r.key = key ↔ r = q) ∧
      (∀ p err, (h.addPattern p).2 = .error err ↔ p.Refused (h.patterns.map (·.id)) err) ∧
      (∀ l err, (h.setLanguage l).2 = .error err ↔ PatternDef.FirstRefused [] l.patterns err) ∧
      (∀ id, (h.removePattern id).1 = false ↔ id ∉ h.patterns.map (·.id)) ∧
      (∀ p err, (h.addPattern p).2 = .error err → (h.addPattern p).1 = h) ∧
      (∀ c, ¬(h.call (.tune c)).1.Fails → h.Adopts c (h.call (.tune c)).2) ∧
      ∀ c, (h.call c).1.Fails → ∃ nextKey f, (h.call c).2 = { h with nextKey } ∧ StrictMono f ∧
        (∀ key < h.nextKey, f key = key) ∧
          ∀ later, (h.call c).2.calls later = ((h.calls later).1, (h.calls later).2.rekey f) := by
  intro h log
  have he : Enrolled log h := (enrolled_ofConfig config).calls cs
  refine ⟨he.registered.ids, he.subset, he.keys, fun q hq => ?_, fun d hd key hkey => ?_,
    fun p err => addPattern_eq_error_iff, fun l err => setLanguage_eq_error_iff,
    fun id => removePattern_eq_false_iff, fun p err => addPattern_of_refused,
    fun c => adopts_tuned he.registered.ids, fun c => he.calls_of_fails⟩
  · have hbound := (ofConfig config).nextKey_calls_le cs
    rw [show (ofConfig config).nextKey = 0 from rfl, Nat.zero_add] at hbound
    exact Nat.lt_of_lt_of_le (he.keys_lt q hq) hbound
  · obtain ⟨q, hq, rfl⟩ := List.mem_map.1 ((he.table d hd).2 key hkey)
    have hlogged : q ∈ delimitedOf log := List.filterMap_subset _ he.subset hq
    exact ⟨q, hq, fun r hr => ⟨fun hr' => List.inj_on_of_nodup_map he.keys hr hlogged hr',
      fun hr' => congrArg _ hr'⟩⟩

end Highlighter
end CodeBuffer
