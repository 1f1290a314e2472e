import Mathlib.Data.List.Find
import CodeBuffer.Delimiter.Table
import CodeBuffer.Proofs.Scanning.Cache
import CodeBuffer.Proofs.Scanning.Lines

namespace CodeBuffer

namespace Text

/-- Whether an odd number of escape characters stands right before an offset. -/
def isEscapedAt (t : Text) (escape : Option Char) (o : Nat) : Bool :=
  escape.any fun c => t.runBefore c o % 2 == 1

/-- Whether a word stands at an offset, with no escape before it. -/
def stands (t : Text) (escape : Option Char) (w : Text) (o : Nat) : Bool :=
  w.isPrefixOf (t.drop o) && !t.isEscapedAt escape o

theorem runBefore_congr {t u : Text} {m o : Nat} (h : t.take m = u.take m) (ho : o ≤ m) (c : Char) :
    t.runBefore c o = u.runBefore c o := by
  have cutAt (v : Text) : v.take o = (v.take m).take o := by
    rw [List.take_take, Nat.min_eq_left ho]
  rw [runBefore, runBefore, cutAt t, h, ← cutAt u]

/-- A run of escapes ends at a line break. -/
theorem runBefore_append {a b : Text} {c : Char} (ha : a.Closed) (hc : isLineBreak c = false)
    (o : Nat) : runBefore (a ++ b) c (a.length + o) = b.runBefore c o := by
  have ends : a.reverse.takeWhile (· == c) = [] := by
    rcases ha with rfl | ⟨d, hd, hbreak⟩
    · rfl
    · have ne : (d == c) = false := by
        simp only [beq_eq_false_iff_ne]
        rintro rfl
        simp [hc] at hbreak
      rw [← List.head?_reverse] at hd
      cases hr : a.reverse with
      | nil => rfl
      | cons e rest =>
        rw [hr, List.head?_cons, Option.some.injEq] at hd
        rw [List.takeWhile_cons, hd, ne]
        rfl
  unfold runBefore
  rw [List.take_length_add_append, List.reverse_append, List.takeWhile_append, ends,
    List.append_nil]
  split
  · rename_i h
    rw [h]
  · rfl

theorem isEscapedAt_congr {t u : Text} {m o : Nat} (h : t.take m = u.take m) (ho : o ≤ m)
    (escape : Option Char) : t.isEscapedAt escape o = u.isEscapedAt escape o := by
  cases escape with
  | none => rfl
  | some c => simp only [isEscapedAt, Option.any_some, runBefore_congr h ho]

theorem isEscapedAt_append {a b : Text} {escape : Option Char} (ha : a.Closed)
    (he : ∀ c, escape = some c → isLineBreak c = false) (o : Nat) :
    isEscapedAt (a ++ b) escape (a.length + o) = b.isEscapedAt escape o := by
  cases escape with
  | none => rfl
  | some c => simp only [isEscapedAt, Option.any_some, runBefore_append ha (he c rfl)]

/-- Whether a word stands somewhere is told by the text up to its end. -/
theorem stands_congr {t u : Text} {m o : Nat} {w : Text} (h : t.take m = u.take m)
    (ho : o + w.length ≤ m) (escape : Option Char) : t.stands escape w o = u.stands escape w o := by
  have word (v : Text) : w <+: v.drop o ↔ w = ((v.take m).take (o + w.length)).drop o := by
    rw [List.prefix_iff_eq_take, List.take_take, Nat.min_eq_left ho, List.take_drop]
  have same : w.isPrefixOf (t.drop o) = w.isPrefixOf (u.drop o) := by
    rw [Bool.eq_iff_iff, List.isPrefixOf_iff_prefix, List.isPrefixOf_iff_prefix, word t, word u, h]
  rw [stands, stands, same, isEscapedAt_congr h (by omega)]

/-- Behind a line break nothing depends on what stands before it. -/
theorem stands_append {a b : Text} {escape : Option Char} (ha : a.Closed)
    (he : ∀ c, escape = some c → isLineBreak c = false) (w : Text) (o : Nat) :
    stands (a ++ b) escape w (a.length + o) = b.stands escape w o := by
  rw [stands, stands, isEscapedAt_append ha he, List.drop_length_add_append]

theorem stands_length {t w : Text} {escape : Option Char} {o : Nat} (hw : w ≠ [])
    (h : t.stands escape w o = true) : o + w.length ≤ t.length := by
  have word := List.isPrefixOf_iff_prefix.1 (Bool.and_eq_true_iff.1 h).1
  have := word.length_le
  rw [List.length_drop] at this
  have := List.length_pos_iff.2 hw
  omega

/-- A word that keeps to a line does not reach across a seam. -/
theorem stands_seam {t w : Text} {escape : Option Char} {o m : Nat} (hm : t.IsSeam m)
    (hw : w = ['\n'] ∨ w ≠ [] ∧ ∀ c ∈ w, isLineBreak c = false) (ho : o < m)
    (h : t.stands escape w o = true) : o + w.length ≤ m := by
  have hne : w ≠ [] := by
    rcases hw with rfl | ⟨hne, -⟩
    · simp
    · exact hne
  have hfits := stands_length hne h
  rcases hm with hm | hm | ⟨c, hc, hbreak⟩
  · omega
  · have := congrArg List.length hm
    simp only [List.length_take, List.length_nil] at this
    omega
  · rcases hw with rfl | ⟨-, inLine⟩
    · simp only [List.length_singleton]
      omega
    · by_contra hlt
      have word := List.isPrefixOf_iff_prefix.1 (Bool.and_eq_true_iff.1 h).1
      rw [List.getLast?_eq_getElem?, List.length_take, Nat.min_eq_left (by omega),
        List.getElem?_take_of_lt (by omega)] at hc
      obtain ⟨rest, word⟩ := word
      have at_end : w[m - 1 - o]? = some c := by
        rw [← List.getElem?_append_left (by omega : m - 1 - o < w.length), word,
          List.getElem?_drop, Nat.add_sub_cancel' (by omega)]
        exact hc
      have := inLine c (List.mem_of_getElem? at_end)
      simp [this] at hbreak

end Text

/-- The two fixed words of a delimited pattern. Only the end of an enclosure may be a line's
end. -/
structure WordPair where
  key : PatternKey
  opener : Text
  closer : Text
  opener_inLine : opener ≠ [] ∧ ∀ c ∈ opener, isLineBreak c = false
  closer_inLine : closer = ['\n'] ∨ closer ≠ [] ∧ ∀ c ∈ closer, isLineBreak c = false

/-- Delimited patterns that are fixed words, with an escape character that keeps to a line. -/
structure PlainLanguage where
  pairs : List WordPair
  escape : Option Char
  keys_nodup : (pairs.map (·.key)).Nodup
  escape_inLine : ∀ c, escape = some c → isLineBreak c = false

/-- The same delimiter behind `n` more characters. -/
def Delimiter.shift (n : Nat) (d : Delimiter) : Delimiter := { d with offset := n + d.offset }

/-- A word that was found and the state behind it. -/
structure Sighting where
  start : Nat
  stop : Nat
  key : Option PatternKey
  deriving DecidableEq, Repr

namespace Sighting

def delimiter (σ : Sighting) : Delimiter :=
  match σ.key with
  | some key => .opener σ.start key
  | none => .closer σ.stop

/-- The same sighting behind `n` more characters. -/
def shift (n : Nat) (σ : Sighting) : Sighting := ⟨n + σ.start, n + σ.stop, σ.key⟩

theorem shift_delimiter (n : Nat) (σ : Sighting) :
    (σ.shift n).delimiter = σ.delimiter.shift n := by
  cases hk : σ.key <;> simp [delimiter, shift, hk, Delimiter.shift, Delimiter.opener,
    Delimiter.closer]

@[simp] theorem key_delimiter (σ : Sighting) : σ.delimiter.key = σ.key := by
  unfold delimiter
  split <;> rename_i h <;> rw [h] <;> rfl

end Sighting

namespace PlainLanguage

variable (L : PlainLanguage) (t : Text)

/-- The words looked for in a state, each with the state behind it. -/
def sought : Option PatternKey → List (Text × Option PatternKey)
  | none => L.pairs.map fun p => (p.opener, some p.key)
  | some key => (L.pairs.find? (·.key == key)).toList.map fun p => (p.closer, none)

/-- The first word of those looked for that stands at an offset. -/
def sightingAt (state : Option PatternKey) (o : Nat) : Option Sighting :=
  ((L.sought state).find? fun w => t.stands L.escape w.1 o).map fun w =>
    ⟨o, o + w.1.length, w.2⟩

/-- Nothing that is looked for stands at an offset of `[start, stop)`. -/
def Quiet (state : Option PatternKey) (start stop : Nat) : Prop :=
  ∀ o, start ≤ o → o < stop → L.sightingAt t state o = none

/-- The first sighting from an offset on. -/
structure First (state : Option PatternKey) (start : Nat) (σ : Sighting) : Prop where
  le : start ≤ σ.start
  quiet : L.Quiet t state start σ.start
  here : L.sightingAt t state σ.start = some σ

/-- No word reaches across an offset. -/
def Clean (m : Nat) : Prop :=
  ∀ state, ∀ w ∈ L.sought state, ∀ o < m, t.stands L.escape w.1 o = true → o + w.1.length ≤ m

variable {L t}

theorem inLine_of_mem_sought {state : Option PatternKey} {w : Text × Option PatternKey}
    (h : w ∈ L.sought state) : w.1 = ['\n'] ∨ w.1 ≠ [] ∧ ∀ c ∈ w.1, isLineBreak c = false := by
  cases state with
  | none =>
    obtain ⟨p, -, rfl⟩ := List.mem_map.1 h
    exact .inr p.opener_inLine
  | some key =>
    obtain ⟨p, -, rfl⟩ := List.mem_map.1 h
    exact p.closer_inLine

theorem length_pos_of_mem_sought {state : Option PatternKey} {w : Text × Option PatternKey}
    (h : w ∈ L.sought state) : 0 < w.1.length := by
  rcases inLine_of_mem_sought h with hw | ⟨hw, -⟩
  · simp [hw]
  · exact List.length_pos_iff.2 hw

theorem clean_of_isSeam {m : Nat} (h : t.IsSeam m) : L.Clean t m :=
  fun _ _ hw _ ho hs => Text.stands_seam h (inLine_of_mem_sought hw) ho hs

theorem sightingAt_eq_some {state : Option PatternKey} {o : Nat} {σ : Sighting}
    (h : L.sightingAt t state o = some σ) :
    ∃ w ∈ L.sought state, t.stands L.escape w.1 o = true ∧ σ = ⟨o, o + w.1.length, w.2⟩ := by
  obtain ⟨w, hw, rfl⟩ := Option.map_eq_some_iff.1 h
  have hs := List.find?_some hw
  exact ⟨w, List.mem_of_find?_eq_some hw, hs, rfl⟩

/-- A sighting has a character of its own and lies in the text. -/
theorem sightingAt_bounds {state : Option PatternKey} {o : Nat} {σ : Sighting}
    (h : L.sightingAt t state o = some σ) :
    σ.start = o ∧ σ.start < σ.stop ∧ σ.stop ≤ t.length := by
  obtain ⟨w, hw, hs, rfl⟩ := sightingAt_eq_some h
  have hpos := length_pos_of_mem_sought hw
  have := Text.stands_length (List.length_pos_iff.1 hpos) hs
  exact ⟨rfl, by simp only; omega, this⟩

theorem stop_le_of_clean {state : Option PatternKey} {o m : Nat} {σ : Sighting}
    (hm : L.Clean t m) (ho : o < m) (h : L.sightingAt t state o = some σ) : σ.stop ≤ m := by
  obtain ⟨w, hw, hs, rfl⟩ := sightingAt_eq_some h
  exact hm state w hw o ho hs

/-- Up to an offset that no word crosses, what is seen is told by the text up to there. -/
theorem sightingAt_congr {u : Text} {m o : Nat} (h : t.take m = u.take m) (ht : L.Clean t m)
    (hu : L.Clean u m) (ho : o < m) (state : Option PatternKey) :
    L.sightingAt t state o = L.sightingAt u state o := by
  have same : ∀ w ∈ L.sought state, t.stands L.escape w.1 o = u.stands L.escape w.1 o := by
    intro w hw
    by_cases hfits : o + w.1.length ≤ m
    · exact Text.stands_congr h hfits L.escape
    · rw [Bool.eq_iff_iff]
      exact ⟨fun hs => absurd (ht state w hw o ho hs) hfits,
        fun hs => absurd (hu state w hw o ho hs) hfits⟩
  rw [sightingAt, sightingAt, List.find?_congr same]

/-- Behind a line break, what is seen is told by the text behind it. -/
theorem sightingAt_append {a b : Text} (ha : a.Closed) (state : Option PatternKey) (o : Nat) :
    L.sightingAt (a ++ b) state (a.length + o) =
      (L.sightingAt b state o).map (Sighting.shift a.length) := by
  rw [sightingAt, sightingAt, Option.map_map]
  simp only [Text.stands_append ha L.escape_inLine]
  refine congrFun (congrArg _ ?_) _
  funext w
  simp only [Function.comp_apply, Sighting.shift, Nat.add_assoc]

theorem First.unique {state : Option PatternKey} {start : Nat} {σ τ : Sighting}
    (hσ : L.First t state start σ) (hτ : L.First t state start τ) : σ = τ := by
  have hle : ¬τ.start < σ.start := fun h => by simpa [hτ.here] using hσ.quiet τ.start hτ.le h
  have hge : ¬σ.start < τ.start := fun h => by simpa [hσ.here] using hτ.quiet σ.start hσ.le h
  have heq : σ.start = τ.start := by omega
  have := hσ.here.symm.trans (heq ▸ hτ.here)
  exact Option.some.inj this

theorem First.bounds {state : Option PatternKey} {start : Nat} {σ : Sighting}
    (h : L.First t state start σ) :
    start ≤ σ.start ∧ σ.start < σ.stop ∧ σ.stop ≤ t.length :=
  ⟨h.le, (sightingAt_bounds h.here).2⟩

/-- What is first from an offset on is first from every later one that does not pass it. -/
theorem First.later {state : Option PatternKey} {start m : Nat} {σ : Sighting}
    (h : L.First t state start σ) (hm : start ≤ m) (hσ : m ≤ σ.start) : L.First t state m σ :=
  ⟨hσ, fun o ho hlt => h.quiet o (by omega) hlt, h.here⟩

theorem First.earlier {state : Option PatternKey} {start m : Nat} {σ : Sighting}
    (h : L.First t state m σ) (hm : start ≤ m) (hq : L.Quiet t state start m) :
    L.First t state start σ := by
  refine ⟨hm.trans h.le, ?_, h.here⟩
  intro o ho hlt
  by_cases hom : o < m
  · exact hq o ho hom
  · exact h.quiet o (by omega) hlt

theorem Quiet.append {state : Option PatternKey} {start m stop : Nat}
    (h : L.Quiet t state start m) (h' : L.Quiet t state m stop) : L.Quiet t state start stop := by
  intro o ho hlt
  by_cases hom : o < m
  · exact h o ho hom
  · exact h' o (by omega) hlt

/-- Either nothing is seen in a range, or there is a first sighting in it. -/
theorem quiet_or_first (state : Option PatternKey) (start stop : Nat) :
    L.Quiet t state start stop ∨ ∃ σ, L.First t state start σ ∧ σ.start < stop := by
  induction stop with
  | zero => exact .inl fun o _ ho => absurd ho (by omega)
  | succ stop ih =>
    rcases ih with hq | ⟨σ, hσ, hlt⟩
    · by_cases hle : start ≤ stop
      · cases hs : L.sightingAt t state stop with
        | none =>
          left
          intro o ho hlt
          rcases Nat.lt_succ_iff_lt_or_eq.1 hlt with h | rfl
          · exact hq o ho h
          · exact hs
        | some σ =>
          have hstart := (sightingAt_bounds hs).1
          exact .inr ⟨σ, ⟨by omega, by rwa [hstart], by rwa [hstart]⟩, by omega⟩
      · exact .inl fun o ho hlt => absurd ho (by omega)
    · exact .inr ⟨σ, hσ, by omega⟩

/-- Where a scan goes on behind a delimiter. -/
def resumeAt (L : PlainLanguage) (d : Delimiter) : Nat :=
  match d.key with
  | none => d.offset
  | some key => d.offset + ((L.pairs.find? (·.key == key)).elim 0 fun p => p.opener.length)

/-- A delimiter tells where its word ends, since every key has one opener. -/
theorem resumeAt_delimiter {state : Option PatternKey} {o : Nat} {σ : Sighting}
    (h : L.sightingAt t state o = some σ) : L.resumeAt σ.delimiter = σ.stop := by
  obtain ⟨w, hw, -, rfl⟩ := sightingAt_eq_some h
  cases state with
  | none =>
    obtain ⟨p, hp, rfl⟩ := List.mem_map.1 hw
    have found : L.pairs.find? (·.key == p.key) = some p := by
      obtain ⟨before, behind, hsplit⟩ := List.append_of_mem hp
      have hnd := L.keys_nodup
      rw [hsplit, List.map_append, List.map_cons] at hnd
      refine List.find?_eq_some_iff_append.2 ⟨by simp, before, behind, hsplit, fun q hq => ?_⟩
      have hne := (List.nodup_append.1 hnd).2.2 q.key (List.mem_map_of_mem hq) p.key
        List.mem_cons_self
      simpa using hne
    simp [resumeAt, Sighting.delimiter, Delimiter.opener, found]
  | some key =>
    obtain ⟨p, -, rfl⟩ := List.mem_map.1 hw
    rfl

/-- A delimiter tells the whole sighting that it stands for, be it one in another text. -/
theorem eq_of_delimiter_eq {u : Text} {state : Option PatternKey} {o o' : Nat} {σ τ : Sighting}
    (hσ : L.sightingAt t state o = some σ) (hτ : L.sightingAt u state o' = some τ)
    (h : σ.delimiter = τ.delimiter) : σ = τ := by
  have hstop : σ.stop = τ.stop := by
    rw [← resumeAt_delimiter hσ, h, resumeAt_delimiter hτ]
  have hkey : σ.key = τ.key := by
    rw [← σ.key_delimiter, h, τ.key_delimiter]
  obtain ⟨w, hw, -, rfl⟩ := sightingAt_eq_some hσ
  obtain ⟨v, hv, -, rfl⟩ := sightingAt_eq_some hτ
  cases state with
  | none =>
    obtain ⟨p, -, rfl⟩ := List.mem_map.1 hw
    obtain ⟨q, -, rfl⟩ := List.mem_map.1 hv
    have : o = o' := congrArg Delimiter.offset h
    simp_all
  | some key =>
    -- both are the one closer of the key
    obtain ⟨p, hp, rfl⟩ := List.mem_map.1 hw
    obtain ⟨q, hq, rfl⟩ := List.mem_map.1 hv
    have hpq : p = q := by
      simp only [Option.mem_toList] at hp hq
      exact Option.some.inj (hp.symm.trans hq)
    subst hpq
    simp only at hstop
    simp only [Sighting.mk.injEq, and_true]
    omega

end PlainLanguage
end CodeBuffer
