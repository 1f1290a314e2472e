import CodeBuffer.Regex.Reach

namespace CodeBuffer.Regex

/-- The nodes behind the threads that take a character, in order of preference. -/
def Frontier.advance {β : Type} (f : Frontier β) (c : Char) : List (Nat × β) :=
  (f.threads.filterMap fun t =>
    if t.set.holds c.toNat then some (t.next, t.tag) else none).reverse

namespace Automaton

/-- How many characters the preferred match takes that goes on with a node at a place. -/
def lengthFrom (a : Automaton) (offset : Nat) (before : Text) : Text → Nat → Option Nat
  | [], i => ((a.explore ⟨offset, before, []⟩ [(i, ())] ∅ []).value fun _ _ => none).map (·.2)
  | c :: after, i =>
    ((a.explore ⟨offset, before, c :: after⟩ [(i, ())] ∅ []).value fun s next =>
      if s.holds c.toNat then (a.lengthFrom (offset + 1) (c :: before) after next).map (· + 1)
      else none).map (·.2)

/-- How many characters the preferred match takes at a place, if there is a match. -/
def lengthAt (a : Automaton) (p : Place) : Option Nat :=
  a.lengthFrom p.offset p.before p.after a.start

/-- Goes once through a text with the matches from all starts at the same time: a tag is the start
of its match, and an earlier start is preferred. Once a match has ended, only threads that were
preferred to it go on. -/
def sweep (a : Automaton) (offset : Nat) (before : Text) (roots : List (Nat × Nat))
    (best : Option Interval) : Text → Option Interval
  | [] =>
    let roots := if best.isSome then roots else roots ++ [(a.start, offset)]
    let f := a.explore ⟨offset, before, []⟩ roots ∅ []
    (f.accepted.map (⟨·, offset⟩)).or best
  | c :: after =>
    let roots := if best.isSome then roots else roots ++ [(a.start, offset)]
    let f := a.explore ⟨offset, before, c :: after⟩ roots ∅ []
    let best := (f.accepted.map (⟨·, offset⟩)).or best
    let roots := f.advance c
    if best.isSome && roots.isEmpty then best
    else a.sweep (offset + 1) (c :: before) roots best after

/-- The match with the least start at or behind a place. -/
def search (a : Automaton) (p : Place) : Option Interval :=
  a.sweep p.offset p.before [] none p.after

/-- What a thread that takes the next character is worth. -/
def ahead (a : Automaton) (offset : Nat) (before : Text) : Text → CharSet → Nat → Option Nat
  | [], _, _ => none
  | c :: after, s, next =>
    if s.holds c.toNat then (a.lengthFrom (offset + 1) (c :: before) after next).map (· + 1)
    else none

theorem lengthFrom_eq (a : Automaton) (offset : Nat) (before after : Text) (i : Nat) :
    a.lengthFrom offset before after i =
      ((a.explore ⟨offset, before, after⟩ [(i, ())] ∅ []).value
        (a.ahead offset before after)).map (·.2) := by
  cases after <;> rw [lengthFrom] <;> rfl

theorem value_eq_findSome? (a : Automaton) (offset : Nat) (before after : Text)
    (roots : List (Nat × Nat)) :
    (a.explore ⟨offset, before, after⟩ roots ∅ []).value (a.ahead offset before after) =
      roots.findSome? fun e => (a.lengthFrom offset before after e.1).map (e.2, ·) := by
  rw [value_explore_eq_findSome? roots (by simp)]
  congr 1
  funext e
  have h : (a.explore ⟨offset, before, after⟩ [e] ∅ []).value (a.ahead offset before after) =
      ((a.explore ⟨offset, before, after⟩ [(e.1, ())] ∅ []).value
        (a.ahead offset before after)).map fun r => (e.2, r.2) :=
    value_explore_tag (fun _ => e.2) [(e.1, ())] ∅ []
  rw [h, lengthFrom_eq]
  simp [Function.comp_def]

/-- A match that ends here or further on, as the threads of a frontier tell. -/
theorem findSome?_advance (a : Automaton) (offset : Nat) (before after : Text) (c : Char)
    (f : Frontier Nat) :
    ((f.advance c).findSome? fun e =>
        (a.lengthFrom (offset + 1) (c :: before) after e.1).map fun n =>
          (⟨e.2, offset + 1 + n⟩ : Interval)) =
      (Thread.best (a.ahead offset before (c :: after)) f.threads).map fun r =>
        ⟨r.1, offset + r.2⟩ := by
  unfold Frontier.advance
  generalize f.threads = threads
  induction threads with
  | nil => rfl
  | cons t threads ih =>
    rw [Thread.best_cons, Option.map_or, ← ih]
    by_cases h : t.set.holds c.toNat = true
    · simp [h, List.findSome?_append, Thread.value, ahead, Function.comp_def, Nat.add_comm,
        Nat.add_left_comm]
    · simp [h, Thread.value, ahead]

theorem findSome?_roots (a : Automaton) (offset : Nat) (before after : Text)
    (roots : List (Nat × Nat)) :
    (roots.findSome? fun e => (a.lengthFrom offset before after e.1).map fun n =>
        (⟨e.2, offset + n⟩ : Interval)) =
      ((Thread.best (a.ahead offset before after)
          (a.explore ⟨offset, before, after⟩ roots ∅ []).threads).map fun r =>
            ⟨r.1, offset + r.2⟩).or
        ((a.explore ⟨offset, before, after⟩ roots ∅ []).accepted.map (⟨·, offset⟩)) := by
  have h := congrArg (Option.map fun r : Nat × Nat => (⟨r.1, offset + r.2⟩ : Interval))
    (value_eq_findSome? a offset before after roots)
  rw [List.map_findSome?, Frontier.value, Option.map_or, Option.map_map] at h
  simpa [Function.comp_def] using h.symm

/-- The sweep finds what the threads at hand lead to, and else the best match that is known, and
else the first match that starts at the place or behind it. -/
theorem sweep_eq (a : Automaton) (offset : Nat) (before : Text) (roots : List (Nat × Nat))
    (best : Option Interval) (after : Text) :
    a.sweep offset before roots best after =
      (roots.findSome? fun e => (a.lengthFrom offset before after e.1).map fun n =>
          (⟨e.2, offset + n⟩ : Interval)).or
        (best.or (Place.leastMatch a.lengthAt offset before after)) := by
  induction after generalizing offset before roots best with
  | nil =>
    have hroots := findSome?_roots a offset before []
    have hbest (threads : List (Thread Nat)) :
        Thread.best (a.ahead offset before []) threads = none := by
      simp [Thread.best, Thread.value, ahead]
    simp only [hbest, Option.map_none, Option.none_or] at hroots
    rw [sweep]
    cases best with
    | some b => simp [← hroots]
    | none =>
      simp [← hroots, List.findSome?_append, Place.leastMatch, lengthAt]
  | cons c after ih =>
    have hroots := findSome?_roots a offset before (c :: after)
    simp only [← findSome?_advance] at hroots
    have step (roots : List (Nat × Nat)) (best : Option Interval) :
        (if best.isSome && roots.isEmpty then best
          else a.sweep (offset + 1) (c :: before) roots best after) =
        (roots.findSome? fun e => (a.lengthFrom (offset + 1) (c :: before) after e.1).map fun n =>
            (⟨e.2, offset + 1 + n⟩ : Interval)).or
          (best.or (Place.leastMatch a.lengthAt (offset + 1) (c :: before) after)) := by
      rw [ih]
      split
      · rename_i h
        obtain ⟨hb, hr⟩ := Bool.and_eq_true_iff.1 h
        obtain ⟨b, rfl⟩ := Option.isSome_iff_exists.1 hb
        simp [List.isEmpty_iff.1 hr]
      · rfl
    rw [sweep]
    simp only [step]
    cases best with
    | some b => simp [hroots]
    | none =>
      have h := hroots (roots ++ [(a.start, offset)])
      simp only [List.findSome?_append] at h
      simp only [Option.isSome_none, Bool.false_eq_true, if_false, Option.or_none, Option.none_or]
      rw [← Option.or_assoc, ← h, Option.or_assoc]
      congr 1
      rw [Place.leastMatch]
      simp only [List.findSome?_cons, List.findSome?_nil, lengthAt]
      cases a.lengthFrom offset before (c :: after) a.start <;> rfl

theorem lengthFrom_le {a : Automaton} {offset : Nat} {before after : Text} {i n : Nat}
    (h : a.lengthFrom offset before after i = some n) : n ≤ after.length := by
  induction after generalizing offset before i n with
  | nil =>
    rw [lengthFrom_eq, Option.map_eq_some_iff] at h
    obtain ⟨r, hr, rfl⟩ := h
    simp only [Frontier.value, Option.or_eq_some_iff] at hr
    rcases hr with hr | ⟨_, hr⟩
    · obtain ⟨t, _, ht⟩ := List.exists_of_findSome?_eq_some hr
      simp [Thread.value, ahead] at ht
    · obtain ⟨_, _, rfl⟩ := Option.map_eq_some_iff.1 hr
      simp
  | cons c after ih =>
    rw [lengthFrom_eq, Option.map_eq_some_iff] at h
    obtain ⟨r, hr, rfl⟩ := h
    simp only [Frontier.value, Option.or_eq_some_iff] at hr
    rcases hr with hr | ⟨_, hr⟩
    · obtain ⟨t, _, ht⟩ := List.exists_of_findSome?_eq_some hr
      obtain ⟨m, hm, rfl⟩ := Option.map_eq_some_iff.1 ht
      simp only [ahead] at hm
      split at hm
      · obtain ⟨l, hl, rfl⟩ := Option.map_eq_some_iff.1 hm
        exact Nat.succ_le_succ (ih hl)
      · simp at hm
    · obtain ⟨_, _, rfl⟩ := Option.map_eq_some_iff.1 hr
      simp

theorem lengthAt_le {a : Automaton} {p : Place} {n : Nat} (h : a.lengthAt p = some n) :
    n ≤ p.after.length :=
  lengthFrom_le h

theorem search_eq (a : Automaton) (p : Place) :
    a.search p = Place.leastMatch a.lengthAt p.offset p.before p.after := by
  simp [search, sweep_eq]

end Automaton
end CodeBuffer.Regex
