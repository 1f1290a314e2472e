import CodeBuffer.Proofs.Upkeep.Refused
import CodeBuffer.Proofs.Upkeep.Serving

namespace CodeBuffer

/-- What a highlighter may be asked to do at any time, for any document. -/
inductive Call where
  | tune (c : Tuning)
  | resize (batchSize : Nat) (estimates : List Nat)
  | attach (d : Document)
  | detach (d : Document)
  | edited (d : Document) (e : Edit)
  | syncTags (d : Document)
  | schemeChanged (d : Document)
  | updateHighlight (d : Document) (start stop : Nat) (synchronous : Bool)
  | runIdleSlice (d : Document)
  | takeAnnounced

/-- What comes of it for the one who asks. -/
inductive Answer where
  | done
  | refused (err : PatternError)
  | absent
  | document (d : Document)
  | served (more : Bool) (d : Document)
  | announced (is : List Interval)

/-- A change of the patterns that is not made. -/
def Answer.Fails : Answer → Prop
  | refused _ => True
  | absent => True
  | _ => False

namespace Highlighter

theorem delimitedOf_append (ps qs : List Pattern) :
    delimitedOf (ps ++ qs) = delimitedOf ps ++ delimitedOf qs := List.filterMap_append

variable {h h' : Highlighter}

theorem keys_of_delimited {g : Highlighter} (hg : delimitedOf g.patterns = delimitedOf h.patterns) :
    g.keys = h.keys := by
  rw [keys, hg, keys]

variable [PatternEngine]

/-- Makes a change of the patterns and tells whether it is made. -/
def tuned (h : Highlighter) : Tuning → Answer × Highlighter
  | .addPattern p =>
    match h.addPattern p with
    | (h, .ok ()) => (.done, h)
    | (h, .error err) => (.refused err, h)
  | .removePattern id =>
    match h.removePattern id with
    | (true, h) => (.done, h)
    | (false, h) => (.absent, h)
  | .setEscape escape => (.done, h.setEscape escape)
  | .setLanguage l =>
    match h.setLanguage l with
    | (h, .ok ()) => (.done, h)
    | (h, .error err) => (.refused err, h)

def call (h : Highlighter) : Call → Answer × Highlighter
  | .tune c => h.tuned c
  | .resize batchSize estimates => (.done, { h with batchSize, estimates })
  | .attach d => (.document (h.attach d).2, (h.attach d).1)
  | .detach d => (.document (h.detach d).2, (h.detach d).1)
  | .edited d e => (.document (h.editedBy d e).2, (h.editedBy d e).1)
  | .syncTags d => (.document (h.syncTags d).2, (h.syncTags d).1)
  | .schemeChanged d => (.document (h.schemeChanged d).2, (h.schemeChanged d).1)
  | .updateHighlight d start stop synchronous =>
    (.document (h.updateHighlight d start stop synchronous).2,
      (h.updateHighlight d start stop synchronous).1)
  | .runIdleSlice d => (.served (h.runIdleSlice d).1 (h.runIdleSlice d).2.2, (h.runIdleSlice d).2.1)
  | .takeAnnounced => (.announced h.takeAnnounced.1, h.takeAnnounced.2)

/-- Calls one after the other, with all that comes of them. -/
def calls (h : Highlighter) : List Call → List Answer × Highlighter
  | [] => ([], h)
  | c :: cs => ((h.call c).1 :: ((h.call c).2.calls cs).1, ((h.call c).2.calls cs).2)

theorem tuned_snd (h : Highlighter) (c : Tuning) : (h.tuned c).2 = h.tune c := by
  cases c with
  | addPattern p =>
    rw [tuned, tune]
    rcases h.addPattern p with ⟨g, _ | ⟨⟩⟩ <;> rfl
  | removePattern id =>
    rw [tuned, tune]
    rcases h.removePattern id with ⟨_ | _, g⟩ <;> rfl
  | setEscape escape => rfl
  | setLanguage l =>
    rw [tuned, tune]
    rcases h.setLanguage l with ⟨g, _ | ⟨⟩⟩ <;> rfl

/-- What is no change of the patterns leaves them alone. -/
theorem serves_call (h : Highlighter) {c : Call} (hc : ∀ c', c ≠ .tune c') :
    h.Serves (h.call c).2 := by
  cases c with
  | tune c => exact absurd rfl (hc c)
  | resize batchSize estimates => exact ⟨rfl, rfl, id⟩
  | attach d => exact h.serves_attach d
  | detach d => exact h.serves_detach d
  | edited d e =>
    exact iteInduction (motive := fun g => h.Serves g) (fun _ => h.serves_edited d.text e)
      (fun _ => .refl h)
  | syncTags d =>
    exact iteInduction (motive := fun s : Work => h.Serves s.1)
      (fun _ => .of_sameButTags (h.sameButTags_resolveTags d)) (fun _ => .refl h)
  | schemeChanged d =>
    exact iteInduction (motive := fun g => h.Serves g) (fun _ => ⟨rfl, rfl, id⟩) (fun _ => .refl h)
  | updateHighlight d start stop synchronous =>
    exact h.serves_updateHighlight d start stop synchronous
  | runIdleSlice d => exact h.serves_runIdleSlice d
  | takeAnnounced => exact ⟨rfl, rfl, id⟩

/-! Registration -/

/-- The patterns that a call registers. -/
def enrols (h : Highlighter) : Call → List Pattern
  | .tune (.addPattern p) =>
    match h.addPattern p with
    | (g, .ok ()) => g.patterns.drop h.patterns.length
    | (_, .error _) => []
  | .tune (.setLanguage l) =>
    match h.setLanguage l with
    | (g, .ok ()) => g.patterns
    | (_, .error _) => []
  | _ => []

/-- All patterns that calls register, those that are gone by now among them. -/
def enrolled (h : Highlighter) : List Call → List Pattern
  | [] => []
  | c :: cs => h.enrols c ++ (h.call c).2.enrolled cs

/-- A highlighter has patterns out of all that were ever registered, none of which was given the key
of another one. Its table tells of patterns that it has. -/
structure Enrolled (log : List Pattern) (h : Highlighter) : Prop where
  registered : h.Registered
  keys : ((delimitedOf log).map (·.key)).Nodup
  keys_lt : ∀ q ∈ delimitedOf log, q.key < h.nextKey
  subset : h.patterns ⊆ log
  table : h.table.Shaped h.keys

variable {log new : List Pattern} {key key' : PatternKey} {defs : List PatternDef}
  {ps done : List Pattern}

/-- New patterns get keys from the next free one on. -/
theorem Enrolled.extend (he : Enrolled log h) (hregistered : h'.Registered)
    (hkeys : ((delimitedOf new).map (·.key)).Nodup)
    (hfresh : ∀ q ∈ delimitedOf new, h.nextKey ≤ q.key ∧ q.key < h'.nextKey)
    (hle : h.nextKey ≤ h'.nextKey) (hsubset : h'.patterns ⊆ log ++ new)
    (htable : h'.table.Shaped h'.keys) : Enrolled (log ++ new) h' := by
  refine ⟨hregistered, ?_, ?_, hsubset, htable⟩
  · rw [delimitedOf_append, List.map_append]
    refine List.nodup_append.2 ⟨he.keys, hkeys, ?_⟩
    intro a ha b hb hab
    obtain ⟨q, hq, rfl⟩ := List.mem_map.1 ha
    obtain ⟨r, hr, rfl⟩ := List.mem_map.1 hb
    have hlt := he.keys_lt q hq
    exact absurd hab (Nat.ne_of_lt (Nat.lt_of_lt_of_le hlt (hfresh r hr).1))
  · intro q hq
    rw [delimitedOf_append] at hq
    rcases List.mem_append.1 hq with hq | hq
    · exact Nat.lt_of_lt_of_le (he.keys_lt q hq) hle
    · exact (hfresh q hq).2

theorem le_key_of_compileAll {low : PatternKey} (h : compileAll key done defs = (key', .ok ps))
    (hlow : low ≤ key) (hdone : ∀ q ∈ delimitedOf done, low ≤ q.key) :
    ∀ q ∈ delimitedOf ps, low ≤ q.key := by
  induction defs generalizing key done with
  | nil =>
    simp only [compileAll, Prod.mk.injEq, Except.ok.injEq] at h
    obtain ⟨-, rfl⟩ := h
    exact hdone
  | cons p defs ih =>
    rw [compileAll] at h
    split at h
    · simp at h
    · split at h
      · simp at h
      · rename_i r hr
        refine ih h ?_ fun q hq => ?_
        · split
          · exact Nat.le_succ_of_le hlow
          · exact hlow
        · rw [delimitedOf_append] at hq
          rcases List.mem_append.1 hq with hq | hq
          · exact hdone q hq
          · obtain ⟨r', hr', hdelimited⟩ := List.mem_filterMap.1 hq
            rw [List.mem_singleton.1 hr'] at hdelimited
            rw [(compile_eq hr).2.1 q hdelimited]
            exact hlow

theorem isDelimited_of_compile {p : PatternDef} {q : Pattern} (h : compile key p = .ok q) :
    q.isDelimited = p.isDelimited := by
  cases compile_iff.1 h <;> rfl

/-- Only delimited patterns use up keys, one each. -/
theorem compileAll_le : (compileAll key done defs).1 ≤ key + defs.countP (·.isDelimited) := by
  induction defs generalizing key done with
  | nil => exact Nat.le_add_right _ _
  | cons p defs ih =>
    rw [compileAll, List.countP_cons]
    split
    · exact Nat.le_add_right _ _
    · split
      · exact Nat.le_add_right _ _
      · rename_i q hq
        rw [← isDelimited_of_compile hq]
        refine Nat.le_trans ih ?_
        split <;> omega

theorem shaped_tune (hT : h.table.Shaped h.keys) (c : Tuning) :
    (h.tune c).table.Shaped (h.tune c).keys := by
  obtain ⟨g, hg, hdone⟩ := h.tune_cases c
  rcases hdone with hdone | ⟨hsame, hdone⟩
  · obtain ⟨refresh, announced, heq⟩ :=
      refreshAll_eq { g with table := .reset !g.hasDelimited }
    rw [hdone, invalidateAll, heq]
    exact .reset _
  · have hkept : g.table.Shaped g.keys := by
      rw [hg.table, keys_of_delimited hsame]
      exact hT
    obtain ⟨refresh, announced, heq⟩ := g.refreshAll_eq
    rcases hdone with hdone | hdone <;> rw [hdone]
    · exact hkept
    · rw [heq]
      exact hkept

theorem le_nextKey_tune (h : Highlighter) (c : Tuning) : h.nextKey ≤ (h.tune c).nextKey := by
  rcases h.tune_eq c with ⟨nextKey, hle, heq⟩ | ⟨void, g, hg, heq⟩
  · rw [heq]
    exact hle
  · obtain ⟨table, refresh, announced, heq', -⟩ := g.retuned_eq void
    rw [heq, heq']
    exact hg.le_nextKey

theorem key_of_compile {p : PatternDef} {q : Pattern} (hq : compile key p = .ok q) :
    ∀ r ∈ delimitedOf [q], r.key = key := by
  intro r hr
  obtain ⟨q', hq', hdelimited⟩ := List.mem_filterMap.1 hr
  rw [List.mem_singleton.1 hq'] at hdelimited
  exact (compile_eq hq).2.1 r hdelimited

/-- A change of the patterns registers some that get the next keys and are there from then on. -/
theorem Enrolled.enrol (he : Enrolled log h) {c : Tuning} (hnew : h.enrols (.tune c) = new)
    (hthere : new.Sublist (h.tune c).patterns) (hfresh : ∀ q ∈ delimitedOf new, h.nextKey ≤ q.key)
    (hsubset : (h.tune c).patterns ⊆ log ++ new) :
    Enrolled (log ++ h.enrols (.tune c)) (h.tune c) := by
  have hregistered := he.registered.tune c
  have hdelimited : (delimitedOf new).Sublist (delimitedOf (h.tune c).patterns) :=
    hthere.filterMap _
  rw [hnew]
  refine he.extend hregistered (hregistered.keys.sublist (hdelimited.map _)) (fun q hq => ?_)
    (h.le_nextKey_tune c) hsubset (shaped_tune he.table c)
  exact ⟨hfresh q hq, hregistered.keys_lt q (hdelimited.subset hq)⟩

/-- Without a new pattern there are only those that were there already. -/
theorem Enrolled.tune_of_subset (he : Enrolled log h) {c : Tuning} (hnone : h.enrols (.tune c) = [])
    (hsubset : (h.tune c).patterns ⊆ h.patterns) :
    Enrolled (log ++ h.enrols (.tune c)) (h.tune c) := by
  refine he.enrol hnone (List.nil_sublist _) (by simp [delimitedOf]) ?_
  rw [List.append_nil]
  exact List.Subset.trans hsubset he.subset

theorem Enrolled.addPattern (he : Enrolled log h) (p : PatternDef) :
    Enrolled (log ++ h.enrols (.tune (.addPattern p))) (h.tune (.addPattern p)) := by
  rcases hadd : h.addPattern p with ⟨g, err | ⟨⟩⟩
  · have htuned : h.tune (.addPattern p) = h := addPattern_of_refused (congrArg Prod.snd hadd)
    refine he.tune_of_subset (by rw [enrols, hadd]) ?_
    rw [htuned]
    exact List.Subset.refl _
  · obtain ⟨q, hq, -, hg⟩ := addPattern_eq hadd
    have hpatterns : g.patterns = h.patterns ++ [q] := by
      rw [hg]
      split <;> simp
    have htuned : (h.tune (.addPattern p)).patterns = h.patterns ++ [q] := by
      rw [Highlighter.tune, hadd]
      exact hpatterns
    have hnew : h.enrols (.tune (.addPattern p)) = [q] := by
      rw [enrols, hadd]
      simp [hpatterns]
    refine he.enrol hnew ?_ (fun r hr => Nat.le_of_eq (key_of_compile hq r hr).symm) ?_
    · rw [htuned]
      exact List.sublist_append_right _ _
    · rw [htuned]
      exact List.append_subset.2
        ⟨List.subset_append_of_subset_left _ he.subset, List.subset_append_right _ _⟩

theorem Enrolled.setLanguage (he : Enrolled log h) (l : Language) :
    Enrolled (log ++ h.enrols (.tune (.setLanguage l))) (h.tune (.setLanguage l)) := by
  rcases hcompiled : compileAll h.nextKey [] l.patterns with ⟨nextKey, err | patterns⟩
  · have hset : h.setLanguage l = ({ h with nextKey }, .error err) := by
      rw [Highlighter.setLanguage, hcompiled]
    refine he.tune_of_subset (by rw [enrols, hset]) ?_
    rw [Highlighter.tune, hset]
    exact List.Subset.refl _
  · have hset : (h.setLanguage l).2 = .ok () ∧ (h.setLanguage l).1.patterns = patterns := by
      rw [Highlighter.setLanguage, hcompiled]
      exact ⟨rfl, by simp⟩
    have hnew : h.enrols (.tune (.setLanguage l)) = patterns := by
      rw [enrols]
      split
      · rename_i g heq
        rw [← hset.2, heq]
      · rename_i heq
        rw [heq] at hset
        cases hset.1
    have hpatterns : (h.tune (.setLanguage l)).patterns = patterns := hset.2
    refine he.enrol hnew (hpatterns ▸ List.Sublist.refl _) ?_ ?_
    · exact le_key_of_compileAll hcompiled (Nat.le_refl _) (by simp [delimitedOf])
    · rw [hpatterns]
      exact List.subset_append_right _ _

theorem Enrolled.tune (he : Enrolled log h) (c : Tuning) :
    Enrolled (log ++ h.enrols (.tune c)) (h.tune c) := by
  cases c with
  | addPattern p => exact he.addPattern p
  | removePattern id =>
    refine he.tune_of_subset rfl ?_
    rw [Highlighter.tune, removePattern]
    split
    · exact List.Subset.refl _
    · dsimp only
      split <;> simp [List.eraseP_subset]
  | setEscape escape =>
    refine he.tune_of_subset rfl ?_
    rw [Highlighter.tune, setEscape]
    split <;> simp
  | setLanguage l => exact he.setLanguage l

theorem Enrolled.call (he : Enrolled log h) (c : Call) :
    Enrolled (log ++ h.enrols c) (h.call c).2 := by
  by_cases htune : ∃ c', c = .tune c'
  · obtain ⟨c, rfl⟩ := htune
    exact h.tuned_snd c ▸ he.tune c
  · have hs := h.serves_call fun c' hc => htune ⟨c', hc⟩
    have hnone : h.enrols c = [] := by
      cases c with
      | tune c => exact absurd ⟨c, rfl⟩ htune
      | _ => rfl
    have hkeys : (h.call c).2.keys = h.keys := by
      rw [Highlighter.keys, hs.patterns, Highlighter.keys]
    rw [hnone, List.append_nil]
    refine ⟨?_, he.keys, ?_, ?_, hkeys ▸ hs.table he.table⟩
    · rw [Registered, hs.patterns, hs.nextKey]
      exact he.registered
    · rw [hs.nextKey]
      exact he.keys_lt
    · rw [hs.patterns]
      exact he.subset

theorem Enrolled.calls (he : Enrolled log h) (cs : List Call) :
    Enrolled (log ++ h.enrolled cs) (h.calls cs).2 := by
  induction cs generalizing log h with
  | nil => simpa [enrolled, Highlighter.calls] using he
  | cons c cs ih =>
    have hrest := ih (he.call c)
    rwa [List.append_assoc] at hrest

end Highlighter
end CodeBuffer
