import CodeBuffer.Highlighter.Painting
import CodeBuffer.Proofs.Painting.Matches
import CodeBuffer.Proofs.Plain.Engine

namespace CodeBuffer

open Delimiter DelimiterTable

/-- The simple patterns of a list, in its order. -/
def simpleOf (ps : List Pattern) : List SimplePattern := ps.filterMap (·.simple?)

theorem dropWhile_dropWhile {α : Type} {p q : α → Bool} (h : ∀ a, p a = true → q a = true)
    (l : List α) : (l.dropWhile p).dropWhile q = l.dropWhile q := by
  induction l with
  | nil => rfl
  | cons a l ih =>
    by_cases hp : p a = true
    · rw [List.dropWhile_cons_of_pos hp, List.dropWhile_cons_of_pos (h a hp), ih]
    · rw [List.dropWhile_cons_of_neg hp]

theorem takeWhile_append_takeWhile {α : Type} {p q : α → Bool} (h : ∀ a, p a = true → q a = true)
    (l : List α) : l.takeWhile p ++ (l.dropWhile p).takeWhile q = l.takeWhile q := by
  induction l with
  | nil => rfl
  | cons a l ih =>
    by_cases hp : p a = true
    · rw [List.takeWhile_cons_of_pos hp, List.takeWhile_cons_of_pos (h a hp),
        List.dropWhile_cons_of_pos hp, List.cons_append, ih]
    · rw [List.takeWhile_cons_of_neg hp, List.dropWhile_cons_of_neg hp, List.nil_append]

namespace Highlighter

/-- The name of the tag for a label. -/
def Label.name : Label → String
  | pattern id _ => id
  | contextClass c => Document.classTagName c

/-- A stroke puts the tag of that name on an offset. -/
def Stroke.Marks (k : Stroke) (n : String) (p : Nat) : Prop :=
  k.label.name = n ∧ k.start ≤ p ∧ p < k.stop

/-- A span has a tag of that name put on an offset. -/
def Shades (h : Highlighter) (t : Text) (span : Span) (n : String) (p : Nat) : Prop :=
  ∃ k ∈ h.spanStrokes (.front span.start (t.drop span.start)) span, k.Marks n p

def ShadesAll (h : Highlighter) (t : Text) (spans : List Span) (n : String) (p : Nat) : Prop :=
  ∃ span ∈ spans, h.Shades t span n p

variable {h : Highlighter} {t : Text} {n : String} {p : Nat}

@[simp] theorem shadesAll_nil : ¬h.ShadesAll t [] n p := by simp [ShadesAll]

@[simp] theorem shadesAll_cons {span : Span} {spans : List Span} :
    h.ShadesAll t (span :: spans) n p ↔ h.Shades t span n p ∨ h.ShadesAll t spans n p := by
  simp [ShadesAll]

/-- The strokes in an enclosure go from end to end. -/
theorem mem_spanStrokes_some {place : Place} {start stop : Nat} {key : PatternKey} {k : Stroke} :
    k ∈ h.spanStrokes place ⟨start, stop, some key⟩ ↔
      ∃ q, (delimitedOf h.patterns).find? (·.key == key) = some q ∧
        (k = ⟨start, stop, .pattern q.id q.style⟩ ∨
          ∃ c, q.contextClass = some c ∧ k = ⟨start, stop, .contextClass c⟩) := by
  unfold spanStrokes
  dsimp only
  cases hq : (delimitedOf h.patterns).find? (·.key == key) with
  | none => simp
  | some q => simp [eq_comm]

theorem mem_spanStrokes_none {start stop : Nat} {k : Stroke} :
    k ∈ h.spanStrokes (.front start (t.drop start)) ⟨start, stop, none⟩ ↔
      ∃ m ∈ SimpleMatch.matchesIn (simpleOf h.patterns) t start stop,
        k = ⟨m.start, m.stop, .pattern m.pattern.id m.pattern.style⟩ := by
  simp only [spanStrokes, List.mem_map, SimpleMatch.matchesIn, simpleOf, eq_comm]

/-- A span shades nothing outside of it, and nothing at all if it is empty. -/
theorem Shades.bounds {span : Span} (hs : h.Shades t span n p) :
    span.start ≤ p ∧ p < span.stop := by
  obtain ⟨start, stop, key⟩ := span
  obtain ⟨k, hk, -, hlo, hhi⟩ := hs
  cases key with
  | some key =>
    obtain ⟨q, -, rfl | ⟨c, -, rfl⟩⟩ := mem_spanStrokes_some.1 hk <;> exact ⟨hlo, hhi⟩
  | none =>
    obtain ⟨m, hm, rfl⟩ := mem_spanStrokes_none.1 hk
    have hb := SimpleMatch.mem_matchesIn hm
    dsimp only at hb hlo hhi ⊢
    omega

/-- A span falls into two at the end of a line. -/
theorem shades_split (hps : ∀ s ∈ simpleOf h.patterns, s.IsPlain) {a b m : Nat}
    {key : Option PatternKey} (hm : t.IsSeam m) (hlo : a ≤ m) (hhi : m ≤ b) :
    h.Shades t ⟨a, b, key⟩ n p ↔ h.Shades t ⟨a, m, key⟩ n p ∨ h.Shades t ⟨m, b, key⟩ n p := by
  cases key with
  | some key =>
    have whole (a b : Nat) : h.Shades t ⟨a, b, some key⟩ n p ↔
        (a ≤ p ∧ p < b) ∧ ∃ q, (delimitedOf h.patterns).find? (·.key == key) = some q ∧
          (q.id = n ∨ ∃ c, q.contextClass = some c ∧ Document.classTagName c = n) := by
      constructor
      · rintro ⟨k, hk, hname, hp⟩
        obtain ⟨q, hq, rfl | ⟨c, hc, rfl⟩⟩ := mem_spanStrokes_some.1 hk
        · exact ⟨hp, q, hq, .inl hname⟩
        · exact ⟨hp, q, hq, .inr ⟨c, hc, hname⟩⟩
      · rintro ⟨hp, q, hq, hname | ⟨c, hc, hname⟩⟩
        · exact ⟨_, mem_spanStrokes_some.2 ⟨q, hq, .inl rfl⟩, hname, hp⟩
        · exact ⟨_, mem_spanStrokes_some.2 ⟨q, hq, .inr ⟨c, hc, rfl⟩⟩, hname, hp⟩
    rw [whole, whole, whole, ← or_and_right]
    exact and_congr_left fun _ => by omega
  | none =>
    simp only [Shades, mem_spanStrokes_none, SimpleMatch.matchesIn_split hps hm hlo hhi,
      List.mem_append, or_and_right, exists_or]

/-! The spans of a range -/

variable {pos stop m : Nat} {inside : Option PatternKey} {ds : List Delimiter}

/-- Delimiters in the order of their offsets, none before a bound. -/
def Ascending (pos : Nat) (ds : List Delimiter) : Prop :=
  (∀ d ∈ ds, pos ≤ d.offset) ∧ ds.Pairwise fun d e => d.offset ≤ e.offset

theorem ascending_cons {d : Delimiter} :
    Ascending pos (d :: ds) ↔ pos ≤ d.offset ∧ Ascending d.offset ds := by
  simp only [Ascending, List.forall_mem_cons, List.pairwise_cons]
  constructor
  · rintro ⟨⟨hd, -⟩, hlater, hds⟩
    exact ⟨hd, hlater, hds⟩
  · rintro ⟨hd, hlater, hds⟩
    exact ⟨⟨hd, fun e he => hd.trans (hlater e he)⟩, hlater, hds⟩

theorem cut_eq_nil (hle : stop ≤ pos) (inside : Option PatternKey) (ds : List Delimiter) :
    cut pos stop inside ds = [] := by
  cases ds with
  | nil => rw [cut, if_neg (by omega)]
  | cons d ds => rw [cut, if_pos hle]

theorem shadesAll_cut_nil :
    h.ShadesAll t (cut pos stop inside []) n p ↔ h.Shades t ⟨pos, stop, inside⟩ n p := by
  rw [cut]
  split
  · simp
  · rename_i hempty
    simp only [shadesAll_nil, false_iff]
    intro hs
    have := hs.bounds
    simp only at this
    omega

/-- What is shaded before the first delimiter, and behind it. -/
theorem shadesAll_cut_cons {d : Delimiter} (hd : pos ≤ d.offset) :
    h.ShadesAll t (cut pos stop inside (d :: ds)) n p ↔
      h.Shades t ⟨pos, min d.offset stop, inside⟩ n p ∨
        h.ShadesAll t (cut d.offset stop d.key ds) n p := by
  have empty {a b : Nat} (hle : b ≤ a) : ¬h.Shades t ⟨a, b, inside⟩ n p := by
    intro hs
    have := hs.bounds
    simp only at this
    omega
  rw [cut]
  split
  · rw [cut_eq_nil (by omega) d.key ds]
    simp [empty (show min d.offset stop ≤ pos by omega)]
  · split
    · rename_i hbehind
      rw [cut_eq_nil hbehind d.key ds, Nat.min_eq_right hbehind]
      simp
    · rename_i hbefore
      rw [Nat.min_eq_left (by omega)]
      split
      · rw [shadesAll_cons]
      · simp [empty (show d.offset ≤ pos by omega)]

theorem ShadesAll.cut_bounds (hds : Ascending pos ds)
    (hs : h.ShadesAll t (cut pos stop inside ds) n p) : pos ≤ p ∧ p < stop := by
  induction ds generalizing pos inside with
  | nil => exact (shadesAll_cut_nil.1 hs).bounds
  | cons d ds ih =>
    obtain ⟨hd, hds⟩ := ascending_cons.1 hds
    rcases (shadesAll_cut_cons hd).1 hs with hs | hs
    · have := hs.bounds
      simp only at this
      omega
    · have := ih hds hs
      omega

/-- At the end of a line the spans of a range fall into those before it and those behind it. -/
theorem shadesAll_cut_split (hps : ∀ s ∈ simpleOf h.patterns, s.IsPlain) (hm : t.IsSeam m)
    (hlo : pos ≤ m) (hhi : m ≤ stop) (hds : Ascending pos ds) :
    h.ShadesAll t (cut pos stop inside ds) n p ↔
      h.ShadesAll t (cut pos m inside ds) n p ∨
        h.ShadesAll t (cut m stop (stateFrom inside (ds.takeWhile fun d => decide (d.offset ≤ m)))
          (ds.dropWhile fun d => decide (d.offset ≤ m))) n p := by
  induction ds generalizing pos inside with
  | nil =>
    simp only [List.takeWhile_nil, List.dropWhile_nil, shadesAll_cut_nil]
    exact shades_split hps hm hlo hhi
  | cons d ds ih =>
    obtain ⟨hd, hds⟩ := ascending_cons.1 hds
    by_cases hle : d.offset ≤ m
    · rw [List.takeWhile_cons_of_pos (by simpa using hle),
        List.dropWhile_cons_of_pos (by simpa using hle), shadesAll_cut_cons hd,
        shadesAll_cut_cons hd, Nat.min_eq_left (by omega), Nat.min_eq_left hle, ih hle hds,
        or_assoc]
      rfl
    · rw [List.takeWhile_cons_of_neg (by simpa using hle),
        List.dropWhile_cons_of_neg (by simpa using hle), shadesAll_cut_cons hd,
        shadesAll_cut_cons hd, shadesAll_cut_cons (by omega),
        Nat.min_eq_right (by omega : m ≤ d.offset), cut_eq_nil (by omega : m ≤ d.offset),
        shades_split hps hm hlo (Nat.le_min.2 ⟨by omega, hhi⟩)]
      simp only [shadesAll_nil, or_false, or_assoc]
      rfl

/-- Delimiters from `stop` on do not matter. -/
theorem cut_append {es : List Delimiter} (hes : ∀ e ∈ es, stop ≤ e.offset) :
    cut pos stop inside (ds ++ es) = cut pos stop inside ds := by
  induction ds generalizing pos inside with
  | nil =>
    cases es with
    | nil => rfl
    | cons e es =>
      rw [List.nil_append, cut, cut, if_pos (hes e List.mem_cons_self)]
      split
      · rw [if_neg (by omega)]
      · rw [if_pos (by omega)]
  | cons d ds ih => rw [List.cons_append, cut, cut, ih]

/-! What is put on a text is told by the spans. -/

theorem spanStrokes_eq (hps : ∀ s ∈ simpleOf h.patterns, s.IsPlain) {place : Place} {b : Nat}
    {span : Span} (hp : place.after = (t.take b).drop place.offset)
    (hstart : place.offset = span.start) (hstop : span.stop ≤ b) :
    h.spanStrokes place span =
      h.spanStrokes (.front span.start (t.drop span.start)) span := by
  obtain ⟨start, stop, key⟩ := span
  cases key with
  | some key => rfl
  | none =>
    have hsame := SimpleMatch.collect_eq_matchesIn hps hp hstop
    simp only at hstart
    rw [hstart] at hsame
    exact congrArg _ hsame

theorem strokes_cut (hps : ∀ s ∈ simpleOf h.patterns, s.IsPlain) (place : Place) {b : Nat}
    (hp : place.after = (t.take b).drop place.offset) (hb : b ≤ t.length) (hstop : stop ≤ b)
    (hds : Ascending place.offset ds) :
    (∃ k ∈ h.strokes place (cut place.offset stop inside ds), k.Marks n p) ↔
      h.ShadesAll t (cut place.offset stop inside ds) n p := by
  have single {place : Place} {span : Span} (hp : place.after = (t.take b).drop place.offset)
      (hstart : place.offset = span.start) (hle : span.stop ≤ b) (rest : List Span) :
      (∃ k ∈ h.strokes place (span :: rest), k.Marks n p) ↔
        h.Shades t span n p ∨
          ∃ k ∈ h.strokes (place.forward (span.stop - span.start)) rest, k.Marks n p := by
    simp only [strokes, spanStrokes_eq hps hp hstart hle, List.mem_append, or_and_right, exists_or,
      Shades]
  induction ds generalizing place inside with
  | nil =>
    rw [cut]
    split
    · rw [single hp rfl hstop]
      simp [strokes]
    · simp [strokes]
  | cons d ds ih =>
    obtain ⟨hd, hds⟩ := ascending_cons.1 hds
    rw [cut]
    split
    · simp [strokes]
    · split
      · rw [single hp rfl hstop]
        simp [strokes]
      · split
        · have hlen : d.offset - place.offset ≤ place.after.length := by
            rw [hp, List.length_drop, List.length_take]
            omega
          have hoff : (place.forward (d.offset - place.offset)).offset = d.offset := by
            rw [Place.offset_forward hlen]
            omega
          have hafter : (place.forward (d.offset - place.offset)).after =
              (t.take b).drop (place.forward (d.offset - place.offset)).offset := by
            rw [hoff, Place.after_forward, hp, List.drop_drop, Nat.add_sub_cancel' hd]
          have hrest := @ih d.key (place.forward (d.offset - place.offset)) hafter
            (by rw [hoff]; exact hds)
          rw [hoff] at hrest
          rw [single hp rfl (by dsimp only; omega), shadesAll_cons]
          exact or_congr_right hrest
        · have heq : d.offset = place.offset := by omega
          rw [heq]
          exact ih place hp (heq ▸ hds)

/-! A table and its spans -/

variable {T : DelimiterTable} {a b : Nat}

/-- Behind the first delimiter that is not taken, all lie as far back. -/
theorem le_offset_of_mem_dropWhile {ds : List Delimiter} {q : Delimiter → Bool} {o : Nat}
    (hds : ds.Pairwise fun d e => d.offset ≤ e.offset) (hq : ∀ d, q d = false → o ≤ d.offset) :
    ∀ e ∈ ds.dropWhile q, o ≤ e.offset := by
  have hsorted := hds.sublist (List.dropWhile_sublist q)
  have hhead := List.head?_dropWhile_not q ds
  cases hrest : ds.dropWhile q with
  | nil => simp
  | cons d es =>
    rw [hrest] at hsorted hhead
    have hd : o ≤ d.offset := hq d hhead
    exact List.forall_mem_cons.2 ⟨hd, fun e he => hd.trans ((List.pairwise_cons.1 hsorted).1 e he)⟩

theorem ascending_dropWhile (hT : T.entries.Pairwise fun d e => d.offset ≤ e.offset) (a : Nat) :
    Ascending a (T.entries.dropWhile fun d => decide (d.offset ≤ a)) := by
  refine ⟨le_offset_of_mem_dropWhile hT fun d hd => ?_, hT.sublist (List.dropWhile_sublist _)⟩
  rw [decide_eq_false_iff_not] at hd
  omega

theorem stateAt_eq (T : DelimiterTable) (a : Nat) :
    T.stateAt a = stateFrom none (T.entries.takeWhile fun d => decide (d.offset ≤ a)) :=
  stateAfter_eq _

/-- The strokes of a range are told by its spans. -/
theorem marks_strokes_iff (hps : ∀ s ∈ simpleOf h.patterns, s.IsPlain)
    (hT : T.entries.Pairwise fun d e => d.offset ≤ e.offset) (hb : b ≤ t.length) :
    (∃ k ∈ h.strokes (.front a (t.slice a b)) (T.spans a b), k.Marks n p) ↔
      h.ShadesAll t (T.spans a b) n p :=
  strokes_cut hps (.front a (t.slice a b)) rfl hb (Nat.le_refl b)
    (ascending_dropWhile hT a)

theorem ShadesAll.bounds (hT : T.entries.Pairwise fun d e => d.offset ≤ e.offset)
    (hs : h.ShadesAll t (T.spans a b) n p) : a ≤ p ∧ p < b :=
  hs.cut_bounds (ascending_dropWhile hT a)

theorem shadesAll_spans_split (hps : ∀ s ∈ simpleOf h.patterns, s.IsPlain)
    (hT : T.entries.Pairwise fun d e => d.offset ≤ e.offset) (hm : t.IsSeam m) (hlo : a ≤ m)
    (hhi : m ≤ b) :
    h.ShadesAll t (T.spans a b) n p ↔
      h.ShadesAll t (T.spans a m) n p ∨ h.ShadesAll t (T.spans m b) n p := by
  have hle (d : Delimiter) (hd : decide (d.offset ≤ a) = true) : decide (d.offset ≤ m) = true := by
    rw [decide_eq_true_eq] at hd ⊢
    omega
  rw [spans, shadesAll_cut_split hps hm hlo hhi (ascending_dropWhile hT a), spans, spans,
    stateAt_eq T a, ← stateFrom_append, takeWhile_append_takeWhile hle, dropWhile_dropWhile hle,
    ← stateAt_eq T m, ← stateAt_eq T a]

/-- Where a text is analysed a table has the spans of any further one. -/
theorem spans_takeWithin (T : DelimiterTable) {entries : List Delimiter} {f : Nat}
    (hT : T.entries = entries.takeWhile (withinLines f))
    (hsorted : entries.Pairwise fun d e => d.offset ≤ e.offset) (hab : a < b) (hb : b ≤ f)
    (old : Option Leftovers) (frontier : Frontier) :
    T.spans a b = (⟨entries, old, frontier⟩ : DelimiterTable).spans a b := by
  have hle (d : Delimiter) (hd : decide (d.offset ≤ a) = true) : withinLines f d = true := by
    rw [decide_eq_true_eq] at hd
    exact withinLines_of_offset_lt (by omega)
  have hbehind : ∀ e ∈ entries.dropWhile (withinLines f), b ≤ e.offset := by
    refine le_offset_of_mem_dropWhile hsorted fun d hd => ?_
    by_contra hlt
    rw [withinLines_of_offset_lt (by omega)] at hd
    cases hd
  have htake : T.entries.takeWhile (fun d => decide (d.offset ≤ a)) =
      entries.takeWhile fun d => decide (d.offset ≤ a) := by
    have hboth : (fun d : Delimiter => decide (decide (d.offset ≤ a) = true ∧
        withinLines f d = true)) = fun d => decide (d.offset ≤ a) := by
      funext d
      rw [Bool.eq_iff_iff, decide_eq_true_iff]
      exact and_iff_left_of_imp (hle d)
    rw [hT, List.takeWhile_takeWhile, hboth]
  have hdrop : entries.dropWhile (fun d => decide (d.offset ≤ a)) =
      T.entries.dropWhile (fun d => decide (d.offset ≤ a)) ++
        entries.dropWhile (withinLines f) := by
    have hparts := List.takeWhile_append_dropWhile (p := fun d : Delimiter => decide (d.offset ≤ a))
      (l := T.entries)
    have hall := List.takeWhile_append_dropWhile (p := withinLines f) (l := entries)
    rw [← hT, ← hparts, htake, List.append_assoc] at hall
    have hsplit := List.takeWhile_append_dropWhile
      (p := fun d : Delimiter => decide (d.offset ≤ a)) (l := entries)
    exact List.append_cancel_left (hsplit.trans hall.symm)
  rw [spans, spans, stateAt, stateAt, htake]
  simp only [hdrop]
  exact (cut_append hbehind).symm

end Highlighter

namespace PlainLanguage

variable {L : PlainLanguage} {t : Text} {T : DelimiterTable}

theorem Explores.pairwise {start stop : Nat} {state : Option PatternKey} {ds : List Delimiter}
    (h : L.Explores t start state ds stop) : ds.Pairwise fun d e => d.offset ≤ e.offset := by
  induction ds generalizing start state with
  | nil => exact .nil
  | cons d ds ih =>
    obtain ⟨σ, hσ, rfl, hrest⟩ := h
    have hb := hσ.bounds
    refine List.pairwise_cons.2 ⟨fun e he => ?_, ih hrest⟩
    have hbehind : σ.stop ≤ e.offset := by
      by_contra hlt
      have hout := (hrest.within e he).1
      rw [withinLines_of_offset_lt (by omega)] at hout
      cases hout
    have hle : σ.delimiter.offset ≤ σ.stop := by
      cases hk : σ.key <;>
        simp only [Sighting.delimiter, hk, Delimiter.opener, Delimiter.closer] <;> omega
    omega

/-- A table that is analysed up to the end of a line holds what one scan finds up to there. -/
theorem Tracks.entries_eq {h : Highlighter} (hL : L.SpokenBy h) (hT : L.Tracks t [] 0 T)
    (hseam : t.IsSeam (T.frontier.reach t)) :
    T.entries = (h.scratch t).takeWhile (withinLines (T.frontier.reach t)) := by
  obtain ⟨ds, hds, hseen⟩ := hT.entries
  rw [List.nil_append] at hds
  rw [hds]
  exact hseen.unique ((Highlighter.explores_scratch hL t).split (clean_of_isSeam hseam)
    (Nat.zero_le _) hT.reach_le).1

end PlainLanguage

namespace Highlighter

variable {h : Highlighter} {t : Text} {T : DelimiterTable} {L : PlainLanguage} {n : String}
  {p a b : Nat}

/-! The tags of a whole text -/

/-- The table of a text that is scanned at once. -/
def scratchTable (h : Highlighter) (t : Text) : DelimiterTable := ⟨h.scratch t, none, .complete⟩

/-- To highlight all of a text at once puts the tag of that name on an offset. -/
def Shade (h : Highlighter) (t : Text) (n : String) (p : Nat) : Prop :=
  h.ShadesAll t ((h.scratchTable t).spans 0 t.length) n p

theorem shade_iff (hL : L.SpokenBy h) (hps : ∀ s ∈ simpleOf h.patterns, s.IsPlain)
    (ha : t.IsSeam a) (hb : t.IsSeam b) (hab : a ≤ b) (hlen : b ≤ t.length) :
    h.ShadesAll t ((h.scratchTable t).spans a b) n p ↔ (a ≤ p ∧ p < b) ∧ h.Shade t n p := by
  have hsorted : (h.scratchTable t).entries.Pairwise fun d e => d.offset ≤ e.offset :=
    (explores_scratch hL t).pairwise
  have hsplit : h.Shade t n p ↔ h.ShadesAll t ((h.scratchTable t).spans 0 a) n p ∨
      h.ShadesAll t ((h.scratchTable t).spans a b) n p ∨
        h.ShadesAll t ((h.scratchTable t).spans b t.length) n p := by
    rw [Shade, shadesAll_spans_split hps hsorted ha (Nat.zero_le a) (hab.trans hlen),
      shadesAll_spans_split hps hsorted hb hab hlen]
  constructor
  · exact fun hs => ⟨hs.bounds hsorted, hsplit.2 (.inr (.inl hs))⟩
  · rintro ⟨hp, hs⟩
    rcases hsplit.1 hs with hs | hs | hs
    · have := hs.bounds hsorted
      omega
    · exact hs
    · have := hs.bounds hsorted
      omega

/-- The strokes of whole lines that are analysed are those of the whole text, as far as they go. -/
theorem marks_strokes_iff_shade (hL : L.SpokenBy h) (hps : ∀ s ∈ simpleOf h.patterns, s.IsPlain)
    (hT : L.Tracks t [] 0 T) (hseam : t.IsSeam (T.frontier.reach t)) (ha : t.IsSeam a)
    (hb : t.IsSeam b) (hab : a < b) (hreach : b ≤ T.frontier.reach t) :
    (∃ k ∈ h.strokes (.front a (t.slice a b)) (T.spans a b), k.Marks n p) ↔
      (a ≤ p ∧ p < b) ∧ h.Shade t n p := by
  have hlen : b ≤ t.length := hreach.trans hT.reach_le
  have hscratch : (h.scratch t).Pairwise fun d e => d.offset ≤ e.offset :=
    (explores_scratch hL t).pairwise
  have hentries := hT.entries_eq hL hseam
  have hsorted : T.entries.Pairwise fun d e => d.offset ≤ e.offset := by
    rw [hentries]
    exact hscratch.sublist (List.takeWhile_sublist _)
  rw [marks_strokes_iff hps hsorted hlen,
    spans_takeWithin T hentries hscratch hab hreach none .complete]
  exact shade_iff hL hps ha hb (Nat.le_of_lt hab) hlen

end Highlighter
end CodeBuffer
