import Mathlib.Data.List.TakeWhile
import CodeBuffer.Proofs.Plain.Language

namespace CodeBuffer

namespace Delimiter

/-- The state behind delimiters, given the state before them. -/
def stateFrom (state : Option PatternKey) (ds : List Delimiter) : Option PatternKey :=
  ds.foldl (fun _ d => d.key) state

theorem stateFrom_append (state : Option PatternKey) (ds es : List Delimiter) :
    stateFrom state (ds ++ es) = stateFrom (stateFrom state ds) es := by
  rw [stateFrom, List.foldl_append]
  rfl

end Delimiter

open Delimiter DelimiterTable

theorem DelimiterTable.stateAfter_eq (ds : List Delimiter) : stateAfter ds = stateFrom none ds := by
  rcases List.eq_nil_or_concat ds with rfl | ⟨es, d, rfl⟩
  · rfl
  · simp [stateAfter, stateFrom]

theorem DelimiterTable.beforeLine_eq (m : Nat) : beforeLine m = withinLines m := by
  funext d
  rw [Bool.eq_iff_iff, beforeLine, withinLines]
  cases d.opens <;> simp [Nat.le_iff_lt_or_eq]

theorem DelimiterTable.withinLines_iff {m : Nat} {d : Delimiter} :
    withinLines m d = true ↔ if d.opens = true then d.offset < m else d.offset ≤ m := by
  unfold withinLines
  split <;> rw [decide_eq_true_iff]

theorem DelimiterTable.withinLines_mono {m n : Nat} (h : m ≤ n) {d : Delimiter}
    (hd : withinLines m d = true) : withinLines n d = true := by
  rw [withinLines_iff] at hd ⊢
  split at hd <;> rename_i hopens <;> simp only [hopens, if_true, Bool.false_eq_true, if_false] <;>
    omega

namespace PlainLanguage

variable {L : PlainLanguage} {t : Text}

theorem withinLines_delimiter (m : Nat) (σ : Sighting) :
    withinLines m σ.delimiter = true ↔ if σ.key.isSome then σ.start < m else σ.stop ≤ m := by
  have opens : σ.delimiter.opens = σ.key.isSome := by rw [Delimiter.opens, σ.key_delimiter]
  rw [withinLines, opens]
  cases hk : σ.key <;> simp [Sighting.delimiter, hk, Delimiter.opener, Delimiter.closer]

/-- The delimiters seen one after the other from `start` on, up to a `stop` that no word of the
last state crosses. -/
def Explores (L : PlainLanguage) (t : Text) :
    Nat → Option PatternKey → List Delimiter → Nat → Prop
  | start, state, [], stop => start ≤ stop ∧ L.Quiet t state start stop
  | start, state, d :: ds, stop =>
    ∃ σ, L.First t state start σ ∧ σ.delimiter = d ∧ Explores L t σ.stop σ.key ds stop

namespace Explores

variable {start m stop : Nat} {state : Option PatternKey} {ds es : List Delimiter}

theorem nothing (o : Nat) (state : Option PatternKey) : L.Explores t o state [] o :=
  ⟨Nat.le_refl o, fun _ ho hlt => absurd hlt (by omega)⟩

theorem le (h : L.Explores t start state ds stop) : start ≤ stop := by
  induction ds generalizing start state with
  | nil => exact h.1
  | cons d ds ih =>
    obtain ⟨σ, hσ, -, hrest⟩ := h
    have := hσ.bounds
    exact (by omega : start ≤ σ.stop).trans (ih hrest)

/-- All delimiters lie behind the start and before the stop. -/
theorem within (h : L.Explores t start state ds stop) :
    ∀ d ∈ ds, withinLines start d = false ∧ withinLines stop d = true := by
  induction ds generalizing start state with
  | nil => simp
  | cons d ds ih =>
    obtain ⟨σ, hσ, rfl, hrest⟩ := h
    have hb := hσ.bounds
    have hle := hrest.le
    intro e he
    rcases List.mem_cons.1 he with rfl | he
    · rw [← Bool.not_eq_true, withinLines_delimiter, withinLines_delimiter]
      split <;> omega
    · obtain ⟨hout, hin⟩ := ih hrest e he
      refine ⟨?_, hin⟩
      rw [← Bool.not_eq_true] at hout ⊢
      exact fun hs => hout (withinLines_mono (by omega) hs)

theorem unique (h : L.Explores t start state ds stop) (h' : L.Explores t start state es stop) :
    ds = es := by
  induction ds generalizing start state es with
  | nil =>
    cases es with
    | nil => rfl
    | cons e es =>
      obtain ⟨σ, hσ, -, hrest⟩ := h'
      have hb := hσ.bounds
      have hle := hrest.le
      exact absurd hσ.here (by rw [h.2 σ.start hσ.le (by omega)]; simp)
  | cons d ds ih =>
    obtain ⟨σ, hσ, rfl, hrest⟩ := h
    cases es with
    | nil =>
      have hb := hσ.bounds
      have hle := hrest.le
      exact absurd hσ.here (by rw [h'.2 σ.start hσ.le (by omega)]; simp)
    | cons e es =>
      obtain ⟨τ, hτ, rfl, hrest'⟩ := h'
      obtain rfl := hσ.unique hτ
      rw [ih hrest hrest']

/-- A scan may as well begin earlier, where nothing is seen. -/
theorem earlier (h : L.Explores t m state ds stop) (hm : start ≤ m)
    (hq : L.Quiet t state start m) : L.Explores t start state ds stop := by
  cases ds with
  | nil => exact ⟨hm.trans h.1, hq.append h.2⟩
  | cons d ds =>
    obtain ⟨σ, hσ, hd, hrest⟩ := h
    exact ⟨σ, hσ.earlier hm hq, hd, hrest⟩

theorem append (h : L.Explores t start state ds m)
    (h' : L.Explores t m (stateFrom state ds) es stop) :
    L.Explores t start state (ds ++ es) stop := by
  induction ds generalizing start state with
  | nil => exact h'.earlier h.1 h.2
  | cons d ds ih =>
    obtain ⟨σ, hσ, rfl, hrest⟩ := h
    refine ⟨σ, hσ, rfl, ih hrest ?_⟩
    simpa [stateFrom] using h'

/-- At an offset that no word crosses a scan falls into two. -/
theorem split (h : L.Explores t start state ds stop) (hm : L.Clean t m) (hlo : start ≤ m)
    (hhi : m ≤ stop) :
    L.Explores t start state (ds.takeWhile (withinLines m)) m ∧
      L.Explores t m (stateFrom state (ds.takeWhile (withinLines m)))
        (ds.dropWhile (withinLines m)) stop := by
  induction ds generalizing start state with
  | nil =>
    exact ⟨⟨hlo, fun o ho hlt => h.2 o ho (by omega)⟩, hhi, fun o ho hlt => h.2 o (by omega) hlt⟩
  | cons d ds ih =>
    obtain ⟨σ, hσ, rfl, hrest⟩ := h
    have hb := hσ.bounds
    by_cases hlt : σ.start < m
    · have hstop := stop_le_of_clean hm hlt hσ.here
      have hin : withinLines m σ.delimiter = true := by
        rw [withinLines_delimiter]
        split <;> omega
      obtain ⟨hfirst, hsecond⟩ := ih hrest hstop
      rw [List.takeWhile_cons_of_pos hin, List.dropWhile_cons_of_pos hin]
      refine ⟨⟨σ, hσ, rfl, hfirst⟩, ?_⟩
      simpa [stateFrom] using hsecond
    · have hout : ¬withinLines m σ.delimiter = true := by
        rw [withinLines_delimiter]
        split <;> omega
      rw [List.takeWhile_cons_of_neg hout, List.dropWhile_cons_of_neg hout]
      exact ⟨⟨hlo, fun o ho hom => hσ.quiet o ho (by omega)⟩,
        σ, hσ.later hlo (by omega), rfl, hrest⟩

/-- A scan sees no more of a text than what lies before an offset that it does not pass. -/
theorem congr {u : Text} (h : L.Explores t start state ds stop) (hle : stop ≤ m)
    (heq : t.take m = u.take m) (ht : L.Clean t m) (hu : L.Clean u m) :
    L.Explores u start state ds stop := by
  induction ds generalizing start state with
  | nil =>
    refine ⟨h.1, ?_⟩
    intro o ho hlt
    rw [← sightingAt_congr heq ht hu (by omega)]
    exact h.2 o ho hlt
  | cons d ds ih =>
    obtain ⟨σ, hσ, rfl, hrest⟩ := h
    have hb := hσ.bounds
    have hstop := hrest.le
    refine ⟨σ, ⟨hσ.le, ?_, ?_⟩, rfl, ih hrest⟩
    · intro o ho hlt
      rw [← sightingAt_congr heq ht hu (by omega)]
      exact hσ.quiet o ho hlt
    · rw [← sightingAt_congr heq ht hu (by omega)]
      exact hσ.here

/-- A scan that begins in the middle goes on as one that begins there. -/
theorem resume {d : Delimiter} (h : L.Explores t start state (ds ++ d :: es) stop) :
    L.Explores t (L.resumeAt d) d.key es stop := by
  induction ds generalizing start state with
  | nil =>
    obtain ⟨σ, hσ, rfl, hrest⟩ := h
    rw [resumeAt_delimiter hσ.here, σ.key_delimiter]
    exact hrest
  | cons e ds ih =>
    obtain ⟨σ, -, -, hrest⟩ := h
    exact ih hrest

/-- The last of the delimiters are seen from some later offset on. -/
theorem suffix (h : L.Explores t start state ds stop) (hes : es <:+ ds) :
    ∃ m ≥ start, ∃ state', L.Explores t m state' es stop := by
  induction ds generalizing start state with
  | nil =>
    rw [List.suffix_nil.1 hes]
    exact ⟨start, Nat.le_refl _, state, h⟩
  | cons d ds ih =>
    rcases List.suffix_cons_iff.1 hes with rfl | hes
    · exact ⟨start, Nat.le_refl _, state, h⟩
    · obtain ⟨σ, hσ, -, hrest⟩ := h
      have hb := hσ.bounds
      obtain ⟨m, hm, state', hlater⟩ := ih hrest hes
      exact ⟨m, by omega, state', hlater⟩

/-- What lies behind an offset is seen from there on, or from later. -/
theorem dropWithin (h : L.Explores t start state ds stop) (hm : L.Clean t m) :
    ∃ o ≥ m, ∃ state' stop', L.Explores t o state' (ds.dropWhile (withinLines m)) stop' := by
  by_cases hlo : start ≤ m
  · by_cases hhi : m ≤ stop
    · exact ⟨m, Nat.le_refl _, _, stop, (h.split hm hlo hhi).2⟩
    · have all : ds.dropWhile (withinLines m) = [] :=
        List.dropWhile_eq_nil_iff.2 fun d hd =>
          withinLines_mono (by omega) (h.within d hd).2
      rw [all]
      exact ⟨m, Nat.le_refl _, state, m, nothing m state⟩
  · have none_within : ds.dropWhile (withinLines m) = ds := by
      cases ds with
      | nil => rfl
      | cons d ds =>
        apply List.dropWhile_cons_of_neg
        intro hd
        have hout := (h.within d List.mem_cons_self).1
        rw [withinLines_mono (by omega) hd] at hout
        cases hout
    rw [none_within]
    exact ⟨start, by omega, state, stop, h⟩

/-- The delimiters before an offset come first. -/
theorem filter_eq (h : L.Explores t start state ds stop) (hm : L.Clean t m) :
    ds.filter (withinLines m) = ds.takeWhile (withinLines m) := by
  obtain ⟨o, ho, _, _, hbehind⟩ := h.dropWithin hm
  have houtside : (ds.dropWhile (withinLines m)).filter (withinLines m) = [] := by
    apply List.filter_eq_nil_iff.2
    intro d hd hin
    have hout := (hbehind.within d hd).1
    rw [withinLines_mono ho hin] at hout
    cases hout
  have hinside : (ds.takeWhile (withinLines m)).filter (withinLines m) =
      ds.takeWhile (withinLines m) :=
    List.filter_eq_self.2 fun d hd => List.mem_takeWhile_imp hd
  have hparts := congrArg (List.filter (withinLines m))
    (List.takeWhile_append_dropWhile (p := withinLines m) (l := ds))
  rw [List.filter_append, houtside, hinside, List.append_nil] at hparts
  exact hparts.symm

/-- A delimiter that two scans share is where one can go on as the other did. -/
theorem splice {d : Delimiter} {cs rest : List Delimiter} {o m : Nat} {state' : Option PatternKey}
    (h : L.Explores t start state (ds ++ d :: es) stop)
    (h' : L.Explores t o state' (cs ++ d :: rest) m) :
    L.Explores t start state (ds ++ d :: rest) m := by
  induction ds generalizing start state with
  | nil =>
    obtain ⟨σ, hσ, rfl, -⟩ := h
    have hlater := h'.resume
    rw [resumeAt_delimiter hσ.here, σ.key_delimiter] at hlater
    exact ⟨σ, hσ, rfl, hlater⟩
  | cons e ds ih =>
    obtain ⟨σ, hσ, rfl, hrest⟩ := h
    exact ⟨σ, hσ, rfl, ih hrest⟩

/-- What was seen first can be left out again, up to the place where the scan went on. -/
theorem init (h : L.Explores t start state (ds ++ es) stop) :
    ∃ m ≤ stop, L.Explores t start state ds m := by
  induction ds generalizing start state with
  | nil => exact ⟨start, h.le, nothing start state⟩
  | cons d ds ih =>
    obtain ⟨σ, hσ, rfl, hrest⟩ := h
    obtain ⟨m, hm, hfirst⟩ := ih hrest
    exact ⟨m, hm, σ, hσ, rfl, hfirst⟩

/-- What lies before an offset is seen without what lies behind it. -/
theorem takeWithin (h : L.Explores t start state ds stop) (hm : L.Clean t m) (hlo : start ≤ m) :
    ∃ stop' ≤ m, L.Explores t start state (ds.takeWhile (withinLines m)) stop' := by
  by_cases hhi : m ≤ stop
  · exact ⟨m, Nat.le_refl _, (h.split hm hlo hhi).1⟩
  · have all : ds.takeWhile (withinLines m) = ds :=
      List.takeWhile_eq_self_iff.2 fun d hd => withinLines_mono (by omega) (h.within d hd).2
    rw [all]
    exact ⟨stop, by omega, h⟩

/-- Up to the end of a closer everything is seen with it, up to the start of an opener without
it. -/
theorem upToLast {d : Delimiter} (h : L.Explores t start state (ds ++ [d]) stop) :
    L.Explores t start state (if d.opens then ds else ds ++ [d]) d.offset := by
  induction ds generalizing start state with
  | nil =>
    obtain ⟨σ, hσ, rfl, hrest⟩ := h
    cases hk : σ.key with
    | none =>
      have hclose : σ.delimiter = .closer σ.stop := by simp [Sighting.delimiter, hk]
      simp only [hclose, Delimiter.closer, Delimiter.opens, Option.isSome_none,
        Bool.false_eq_true, if_false, List.nil_append]
      exact ⟨σ, hσ, hclose, nothing σ.stop σ.key⟩
    | some key =>
      have hopen : σ.delimiter = .opener σ.start key := by simp [Sighting.delimiter, hk]
      simp only [hopen, Delimiter.opener, Delimiter.opens, Option.isSome_some, if_true]
      exact ⟨hσ.le, hσ.quiet⟩
  | cons e ds ih =>
    obtain ⟨σ, hσ, rfl, hrest⟩ := h
    have hlater := ih hrest
    split at hlater <;> rename_i hopens
    · rw [if_pos hopens]
      exact ⟨σ, hσ, rfl, hlater⟩
    · rw [if_neg hopens]
      exact ⟨σ, hσ, rfl, hlater⟩

/-- Behind the end of the text nothing is seen. -/
theorem eq_nil (h : L.Explores t start state ds stop) (hlen : t.length ≤ start) : ds = [] := by
  cases ds with
  | nil => rfl
  | cons d ds =>
    obtain ⟨σ, hσ, -, -⟩ := h
    have := hσ.bounds
    omega

/-- All delimiters lie within the text. -/
theorem within_length (h : L.Explores t start state ds stop) :
    ∀ d ∈ ds, withinLines t.length d = true := by
  induction ds generalizing start state with
  | nil => simp
  | cons d ds ih =>
    obtain ⟨σ, hσ, rfl, hrest⟩ := h
    have hb := hσ.bounds
    intro e he
    rcases List.mem_cons.1 he with rfl | he
    · rw [withinLines_delimiter]
      split <;> omega
    · exact ih hrest e he

theorem offset_le (h : L.Explores t start state ds stop) : ∀ d ∈ ds, d.offset ≤ t.length := by
  intro d hd
  have := withinLines_iff.1 (h.within_length d hd)
  split at this <;> omega

end Explores

/-! Behind a closed text a scan is the scan of the rest alone, moved along. -/

variable {a b : Text} {state : Option PatternKey} {start stop : Nat} {ds : List Delimiter}

theorem First.behind {σ : Sighting} (ha : a.Closed)
    (h : L.First (a ++ b) state (a.length + start) σ) :
    ∃ τ, σ = τ.shift a.length ∧ L.First b state start τ := by
  have here := h.here
  have hle := h.le
  rw [show σ.start = a.length + (σ.start - a.length) by omega, sightingAt_append ha] at here
  obtain ⟨τ, hτ, rfl⟩ := Option.map_eq_some_iff.1 here
  have hstart := (sightingAt_bounds hτ).1
  refine ⟨τ, rfl, by omega, ?_, by rwa [hstart]⟩
  intro o ho hlt
  have := h.quiet (a.length + o) (by omega) (by simp only [Sighting.shift]; omega)
  rwa [sightingAt_append ha, Option.map_eq_none_iff] at this

theorem First.prepend {σ : Sighting} (ha : a.Closed) (h : L.First b state start σ) :
    L.First (a ++ b) state (a.length + start) (σ.shift a.length) := by
  refine ⟨Nat.add_le_add_left h.le _, ?_, ?_⟩
  · intro o ho hlt
    simp only [Sighting.shift] at hlt
    rw [show o = a.length + (o - a.length) by omega, sightingAt_append ha,
      h.quiet _ (by omega) (by omega), Option.map_none]
  · rw [Sighting.shift, sightingAt_append ha, h.here, Option.map_some, Sighting.shift]

theorem Explores.behind (ha : a.Closed)
    (h : L.Explores (a ++ b) (a.length + start) state ds (a.length + stop)) :
    ∃ es, ds = es.map (Delimiter.shift a.length) ∧ L.Explores b start state es stop := by
  induction ds generalizing start state with
  | nil =>
    refine ⟨[], rfl, by have := h.1; omega, fun o ho hlt => ?_⟩
    have := h.2 (a.length + o) (by omega) (by omega)
    rwa [sightingAt_append ha, Option.map_eq_none_iff] at this
  | cons d ds ih =>
    obtain ⟨σ, hσ, rfl, hrest⟩ := h
    obtain ⟨τ, rfl, hτ⟩ := hσ.behind ha
    obtain ⟨es, rfl, hes⟩ := ih hrest
    exact ⟨τ.delimiter :: es, by rw [List.map_cons, τ.shift_delimiter], τ, hτ, rfl, hes⟩

theorem Explores.prepend (ha : a.Closed) (h : L.Explores b start state ds stop) :
    L.Explores (a ++ b) (a.length + start) state (ds.map (Delimiter.shift a.length))
      (a.length + stop) := by
  induction ds generalizing start state with
  | nil =>
    refine ⟨Nat.add_le_add_left h.1 _, ?_⟩
    intro o ho hlt
    rw [show o = a.length + (o - a.length) by omega, sightingAt_append ha,
      h.2 _ (by omega) (by omega), Option.map_none]
  | cons d ds ih =>
    obtain ⟨σ, hσ, rfl, hrest⟩ := h
    exact ⟨σ.shift a.length, hσ.prepend ha, σ.shift_delimiter _, ih hrest⟩

end PlainLanguage
end CodeBuffer
