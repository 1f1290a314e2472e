import CodeBuffer.Proofs.Plain.Explores

namespace CodeBuffer

open Delimiter

theorem find?_unique {α : Type} {p q : α → Bool} {l : List α} {a b : α}
    (ha : l.find? p = some a) (hb : l.find? q = some b) (hqa : q a = true) (hpb : p b = true) :
    a = b := by
  induction l with
  | nil => cases ha
  | cons x l ih =>
    by_cases hp : p x = true
    · rw [List.find?_cons_of_pos hp] at ha
      cases ha
      rw [List.find?_cons_of_pos hqa] at hb
      exact Option.some.inj hb
    · rw [List.find?_cons_of_neg hp] at ha
      by_cases hq : q x = true
      · rw [List.find?_cons_of_pos hq] at hb
        cases hb
        exact absurd hpb hp
      · rw [List.find?_cons_of_neg hq] at hb
        exact ih ha hb

namespace PlainLanguage

variable {L : PlainLanguage} {t t' : Text} {state : Option PatternKey} {start o f : Nat}
  {ds : List Delimiter} {σ τ : Sighting}

/-- A scan comes upon a word that lies across an offset. -/
def Meets (L : PlainLanguage) (t : Text) (start : Nat) (state : Option PatternKey) (f : Nat) :
    Prop :=
  ∃ ds m σ, L.Explores t start state ds m ∧ L.First t (stateFrom state ds) m σ ∧
    σ.start < f ∧ f < σ.stop

/-- A scan from the start of the text comes upon a word that lies across an offset. -/
def Crossed (L : PlainLanguage) (t : Text) (f : Nat) : Prop := L.Meets t 0 none f

namespace Meets

/-- The first word that such a scan sees begins before the offset. -/
theorem first (h : L.Meets t start state f) : ∃ τ, L.First t state start τ ∧ τ.start < f := by
  obtain ⟨es, m, σ, hes, hσ, hlt, -⟩ := h
  cases es with
  | nil => exact ⟨σ, hσ.earlier hes.1 hes.2, hlt⟩
  | cons e es =>
    obtain ⟨τ, hτ, -, hrest⟩ := hes
    have := hτ.bounds
    have := hrest.le
    have := hσ.le
    exact ⟨τ, hτ, by omega⟩

/-- Behind the first word the scan still comes upon the one across the offset. -/
theorem tail (h : L.Meets t start state f) (hτ : L.First t state start τ) (hle : τ.stop ≤ f) :
    L.Meets t τ.stop τ.key f := by
  obtain ⟨es, m, σ, hes, hσ, hlt, hgt⟩ := h
  cases es with
  | nil =>
    obtain rfl := (hσ.earlier hes.1 hes.2).unique hτ
    omega
  | cons e es =>
    obtain ⟨τ', hτ', rfl, hrest⟩ := hes
    obtain rfl := hτ'.unique hτ
    refine ⟨es, m, σ, hrest, ?_, hlt, hgt⟩
    simpa [stateFrom] using hσ

theorem cons (h : L.Meets t τ.stop τ.key f) (hτ : L.First t state start τ) :
    L.Meets t start state f := by
  obtain ⟨es, m, σ, hes, hσ, hlt, hgt⟩ := h
  refine ⟨τ.delimiter :: es, m, σ, ⟨τ, hτ, rfl, hes⟩, ?_, hlt, hgt⟩
  simpa [stateFrom] using hσ

end Meets

/-- What is seen before an offset in one text is seen in another that agrees up to there, unless
another word comes before it there. -/
theorem sightingAt_of_stop_le (heq : t'.take f = t.take f)
    (h : L.sightingAt t' state o = some σ) (hle : σ.stop ≤ f) :
    ∃ τ, L.sightingAt t state o = some τ := by
  obtain ⟨w, hw, hs, rfl⟩ := sightingAt_eq_some h
  rw [Text.stands_congr heq hle] at hs
  rw [sightingAt]
  cases hfind : (L.sought state).find? fun w => t.stands L.escape w.1 o with
  | none => exact absurd hs (List.find?_eq_none.1 hfind w hw)
  | some v => exact ⟨_, rfl⟩

theorem sightingAt_unique (heq : t'.take f = t.take f) (hσ : L.sightingAt t' state o = some σ)
    (hτ : L.sightingAt t state o = some τ) (hσf : σ.stop ≤ f) (hτf : τ.stop ≤ f) : σ = τ := by
  obtain ⟨w, hw, rfl⟩ := Option.map_eq_some_iff.1 hσ
  obtain ⟨v, hv, rfl⟩ := Option.map_eq_some_iff.1 hτ
  have hwt : t.stands L.escape w.1 o = true := by
    rw [← Text.stands_congr heq hσf]
    have := List.find?_some hw
    exact this
  have hvt : t'.stands L.escape v.1 o = true := by
    rw [Text.stands_congr heq hτf]
    have := List.find?_some hv
    exact this
  rw [find?_unique hw hv hwt hvt]

/-- A scan up to `f` comes upon no word across `f`. -/
theorem Explores.not_meets (h : L.Explores t start state ds f) : ¬L.Meets t start state f := by
  intro hmeets
  induction ds generalizing start state with
  | nil =>
    obtain ⟨τ, hτ, hlt⟩ := hmeets.first
    exact absurd hτ.here (by rw [h.2 τ.start hτ.le hlt]; simp)
  | cons d ds ih =>
    obtain ⟨τ, hτ, rfl, hrest⟩ := h
    exact ih hrest (hmeets.tail hτ hrest.le)

/-- A scan of another text that agrees up to `f` sees the same up to there, if it comes upon no word
across `f`. -/
theorem Explores.of_not_meets (h : L.Explores t start state ds f) (heq : t'.take f = t.take f)
    (hmeets : ¬L.Meets t' start state f) : L.Explores t' start state ds f := by
  -- what the other scan sees first ends before `f` and is seen in both texts
  have first {start : Nat} {state : Option PatternKey} {σ : Sighting}
      (hσ : L.First t' state start σ) (hlt : σ.start < f) (hmeets : ¬L.Meets t' start state f) :
      σ.stop ≤ f ∧ ∃ τ, L.sightingAt t state σ.start = some τ := by
    have hstop : σ.stop ≤ f := by
      by_contra hgt
      exact hmeets ⟨[], start, σ, .nothing _ _, hσ, hlt, by omega⟩
    exact ⟨hstop, sightingAt_of_stop_le heq hσ.here hstop⟩
  induction ds generalizing start state with
  | nil =>
    refine ⟨h.1, (quiet_or_first state start f).resolve_right ?_⟩
    rintro ⟨σ, hσ, hlt⟩
    obtain ⟨-, τ, hτ⟩ := first hσ hlt hmeets
    rw [h.2 σ.start hσ.le hlt] at hτ
    cases hτ
  | cons d ds ih =>
    obtain ⟨τ, hτ, rfl, hrest⟩ := h
    have hτb := hτ.bounds
    have hle := hrest.le
    obtain ⟨τ', hτ'⟩ := sightingAt_of_stop_le heq.symm hτ.here hle
    rcases quiet_or_first (t := t') state start (τ.start + 1) with hq | ⟨σ, hσ, hlt⟩
    · rw [hq τ.start hτ.le (by omega)] at hτ'
      cases hτ'
    · obtain ⟨hstop, ρ, hρ⟩ := first hσ (by omega) hmeets
      have hstart : σ.start = τ.start := by
        by_contra hne
        rw [hτ.quiet σ.start hσ.le (by omega)] at hρ
        cases hρ
      obtain rfl : σ = τ := sightingAt_unique heq (hstart ▸ hσ.here) hτ.here hstop hle
      have hrest' := ih hrest fun hlater => hmeets (hlater.cons hσ)
      exact ⟨σ, hσ, rfl, hrest'⟩

/-- A scan of the new text sees up to `f` what was seen there exactly if it comes upon no word
across `f`. -/
theorem explores_iff_not_crossed (h : L.Explores t 0 none ds f) (heq : t'.take f = t.take f) :
    L.Explores t' 0 none ds f ↔ ¬L.Crossed t' f :=
  ⟨fun h' => h'.not_meets, fun hc => h.of_not_meets heq hc⟩

/-- Who goes on from `f` as if nothing lay across it finds something else than one scan does, if
something lies across it. -/
theorem not_meets_of_explores {es : List Delimiter} {stop : Nat}
    (h : L.Explores t start state ds f) (hall : L.Explores t' start state (ds ++ es) stop)
    (hon : L.Explores t' f (stateFrom state ds) es stop) : ¬L.Meets t' start state f := by
  intro hmeets
  induction ds generalizing start state with
  | nil =>
    obtain ⟨τ, hτ, hlt⟩ := hmeets.first
    cases es with
    | nil =>
      have hstop := hon.le
      exact absurd hτ.here (by rw [hall.2 τ.start hτ.le (by omega)]; simp)
    | cons e es =>
      -- the first word from here would have to be the first one from `f`, too
      obtain ⟨ρ, hρ, hd, -⟩ := hall
      obtain ⟨ρ', hρ', hd', -⟩ := hon
      obtain rfl := hτ.unique hρ
      obtain rfl := eq_of_delimiter_eq hρ.here hρ'.here (hd.trans hd'.symm)
      have := hρ'.le
      omega
  | cons d ds ih =>
    obtain ⟨τ, hτ, rfl, hrest⟩ := h
    obtain ⟨ρ, hρ, hd, hall⟩ := hall
    obtain rfl := eq_of_delimiter_eq hρ.here hτ.here hd
    have hon' : L.Explores t' f (stateFrom ρ.key ds) es stop := by simpa [stateFrom] using hon
    exact ih hrest hall hon' (hmeets.tail hρ hrest.le)

end PlainLanguage
end CodeBuffer
