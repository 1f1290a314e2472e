import CodeBuffer.Proofs.Plain.Explores

namespace CodeBuffer

/-- The length of a word that stands at a place. -/
def Place.wordAt (w : Text) (p : Place) : Option Nat :=
  if w.isPrefixOf p.after then some w.length else none

theorem Place.wordAt_le {w : Text} (p : Place) (n : Nat) (h : p.wordAt w = some n) :
    n ≤ p.after.length := by
  rw [wordAt, Option.ite_none_right_eq_some, Option.some.injEq] at h
  obtain ⟨hw, rfl⟩ := h
  exact (List.isPrefixOf_iff_prefix.1 hw).length_le

namespace Matcher

/-- A matcher whose search finds the first occurrence of a word. -/
def Finds (m : Matcher) (w : Text) : Prop :=
  ∀ p : Place, m.search p = Place.leastMatch (Place.wordAt w) p.offset p.before p.after

theorem finds_ofLengthAt (source : String) (w : Text) :
    (ofLengthAt source (Place.wordAt w) Place.wordAt_le).Finds w := fun _ => rfl

/-- The search of a matcher tells what it matches at a place. -/
theorem Finds.lengthAt_eq {m : Matcher} {w : Text} (h : m.Finds w) (p : Place) :
    m.lengthAt p = p.wordAt w := by
  apply Option.ext
  intro n
  rw [← Place.leastMatch_here_iff, ← Place.leastMatch_here_iff, ← m.search_eq p, h p]

end Matcher

/-- A run of characters that fills a part of the text goes on before it. -/
theorem Text.runBefore_eq {t : Text} {base o : Nat} (c : Char) (hlo : base ≤ o)
    (ho : o ≤ t.length) :
    t.runBefore c o =
      let run := (((t.take o).drop base).reverse.takeWhile (· == c)).length
      if base + run = o then t.runBefore c base + run else run := by
  have hlen : ((t.take o).drop base).reverse.length = o - base := by
    rw [List.length_reverse, List.length_drop, List.length_take]
    omega
  have cutAt : (t.take o).reverse = ((t.take o).drop base).reverse ++ (t.take base).reverse := by
    rw [← List.reverse_append, ← Nat.min_eq_left hlo, ← List.take_take, Nat.min_eq_left hlo,
      List.take_append_drop]
  simp only [runBefore]
  rw [cutAt, List.takeWhile_append, hlen]
  by_cases hfull : (((t.take o).drop base).reverse.takeWhile (· == c)).length = o - base
  · rw [if_pos hfull, if_pos (by omega), List.length_append, hfull, hlen, Nat.add_comm]
  · rw [if_neg hfull, if_neg (by omega)]

namespace Chunk

/-- The place of an offset in a chunk. -/
def spot (c : Chunk) (o : Nat) : Place := (Place.front c.base c.lines).forward (o - c.base)

section
variable {t : Text} {start stop o : Nat} {escape : Option Char}

theorem spot_ofRange (hlo : t.lineStartOf start ≤ o) (ho : o ≤ stop) (hhi : stop ≤ t.length) :
    (ofRange t start stop escape).spot o =
      ⟨o, ((t.take o).drop (t.lineStartOf start)).reverse, (t.take stop).drop o⟩ := by
  have hlen : o - t.lineStartOf start ≤ (t.slice (t.lineStartOf start) stop).length := by
    rw [Text.length_slice hhi]
    omega
  rw [spot, ofRange, Place.forward_eq (by exact hlen)]
  simp only [Place.front, List.append_nil, Text.slice, List.drop_drop, Place.mk.injEq,
    List.reverse_inj]
  refine ⟨by omega, ?_, by rw [Nat.add_sub_cancel' hlo]⟩
  rw [← List.drop_take, List.take_take, Nat.min_eq_left ho]

/-- The escapes counted in the chunk and before it are those before the offset. -/
theorem isEscaped_spot (hlo : t.lineStartOf start ≤ o) (ho : o ≤ stop) (hhi : stop ≤ t.length) :
    (ofRange t start stop escape).isEscaped ((ofRange t start stop escape).spot o) =
      t.isEscapedAt escape o := by
  rw [spot_ofRange hlo ho hhi]
  cases escape with
  | none => rfl
  | some e =>
    simp only [Text.isEscapedAt, Option.any_some]
    rw [Text.runBefore_eq e hlo (by omega)]
    rfl

/-- At an offset of the chunk a matcher that searches for a word finds it where it stands. -/
theorem properAt_spot {m : Matcher} {w : Text} (hm : m.Finds w) (hw : w ≠ [])
    (hclean : o < stop → t.stands escape w o = true → o + w.length ≤ stop)
    (hlo : t.lineStartOf start ≤ o) (ho : o ≤ stop) (hhi : stop ≤ t.length) :
    m.properAt (fun p => !(ofRange t start stop escape).isEscaped p)
      ((ofRange t start stop escape).spot o) =
        if o < stop ∧ t.stands escape w o = true then some w.length else none := by
  have hpos := List.length_pos_iff.2 hw
  apply Option.ext
  intro n
  rw [Matcher.properAt_eq_some_iff, hm.lengthAt_eq, isEscaped_spot hlo ho hhi,
    spot_ofRange hlo ho hhi, Place.wordAt, Option.ite_none_right_eq_some,
    Option.ite_none_right_eq_some, Option.some.injEq, List.isPrefixOf_iff_prefix]
  rw [show (t.take stop).drop o = (t.drop o).take (stop - o) from List.drop_take,
    List.prefix_take_iff]
  constructor
  · rintro ⟨⟨⟨hword, hfits⟩, rfl⟩, -, hfree⟩
    refine ⟨⟨by omega, ?_⟩, rfl⟩
    rw [Text.stands, hfree, List.isPrefixOf_iff_prefix.2 hword]
    rfl
  · rintro ⟨⟨hlt, hs⟩, rfl⟩
    have hfits := hclean hlt hs
    obtain ⟨hword, hfree⟩ := Bool.and_eq_true_iff.1 hs
    exact ⟨⟨⟨List.isPrefixOf_iff_prefix.1 hword, by omega⟩, rfl⟩, hpos, hfree⟩

theorem length_after_spot (hlo : t.lineStartOf start ≤ o) (ho : o ≤ stop) (hhi : stop ≤ t.length) :
    ((ofRange t start stop escape).spot o).after.length = stop - o := by
  rw [spot_ofRange hlo ho hhi, List.length_drop, List.length_take]
  omega

theorem forward_spot {c : Chunk} (k : Nat) (hlo : c.base ≤ o) :
    (c.spot o).forward k = c.spot (o + k) := by
  rw [spot, spot, Place.forward_forward]
  congr 1
  omega

/-- The search in a chunk finds the first offset at which the word stands. -/
theorem find_spot_eq_some {m : Matcher} {w : Text} {i : Interval} (hm : m.Finds w) (hw : w ≠ [])
    (hclean : ∀ j < stop, t.stands escape w j = true → j + w.length ≤ stop)
    (hlo : t.lineStartOf start ≤ o) (ho : o ≤ stop) (hhi : stop ≤ t.length)
    (h : (ofRange t start stop escape).find m ((ofRange t start stop escape).spot o) = some i) :
    o ≤ i.start ∧ i.start < stop ∧ i.stop = i.start + w.length ∧
      t.stands escape w i.start = true ∧
        ∀ j, o ≤ j → j < i.start → t.stands escape w j = false := by
  have hoff : ((ofRange t start stop escape).spot o).offset = o := by
    rw [spot_ofRange hlo ho hhi]
  rw [find, Matcher.find_eq, Place.leastMatch_eq_some_iff, length_after_spot hlo ho hhi, hoff] at h
  obtain ⟨k, n, hk, hn, rfl, hfirst⟩ := h
  rw [forward_spot k hlo, properAt_spot hm hw (hclean _) (by omega) (by omega) hhi,
    Option.ite_none_right_eq_some, Option.some.injEq] at hn
  obtain ⟨⟨hlt, hs⟩, rfl⟩ := hn
  refine ⟨Nat.le_add_right _ _, hlt, rfl, hs, ?_⟩
  intro j hj hjlt
  have := hfirst (j - o) (by dsimp only at hjlt; omega)
  rw [forward_spot _ hlo, Nat.add_sub_cancel' hj,
    properAt_spot hm hw (hclean _) (by omega) (by dsimp only at hjlt; omega) hhi] at this
  rw [← Bool.not_eq_true]
  exact fun hstands => absurd this (by rw [if_pos ⟨by dsimp only at hjlt; omega, hstands⟩]; simp)

theorem find_spot_eq_none {m : Matcher} {w : Text} (hm : m.Finds w) (hw : w ≠ [])
    (hclean : ∀ j < stop, t.stands escape w j = true → j + w.length ≤ stop)
    (hlo : t.lineStartOf start ≤ o) (ho : o ≤ stop) (hhi : stop ≤ t.length)
    (h : (ofRange t start stop escape).find m ((ofRange t start stop escape).spot o) = none) :
    ∀ j, o ≤ j → j < stop → t.stands escape w j = false := by
  intro j hj hjlt
  rw [find, Matcher.find_eq, Place.leastMatch_eq_none_iff, length_after_spot hlo ho hhi] at h
  have := h (j - o) (by omega)
  rw [forward_spot _ hlo, Nat.add_sub_cancel' hj,
    properAt_spot hm hw (hclean _) (by omega) (by omega) hhi] at this
  rw [← Bool.not_eq_true]
  exact fun hstands => absurd this (by rw [if_pos ⟨hjlt, hstands⟩]; simp)

end
end Chunk

namespace PlainLanguage

/-- Delimited patterns that search for pairs of words, in their order. -/
def Search (ps : List DelimitedPattern) (pairs : List WordPair) : Prop :=
  List.Forall₂ (fun q p => q.key = p.key ∧ q.opener.Finds p.opener ∧ q.closer.Finds p.closer)
    ps pairs

variable {L : PlainLanguage} {ps : List DelimitedPattern} {pairs : List WordPair} {t : Text}
  {start stop o : Nat}

theorem Search.find? (h : Search ps pairs) (key : PatternKey) :
    (ps.find? (·.key == key) = none ∧ pairs.find? (·.key == key) = none) ∨
      ∃ q p, ps.find? (·.key == key) = some q ∧ pairs.find? (·.key == key) = some p ∧
        q.closer.Finds p.closer := by
  induction h with
  | nil => exact .inl ⟨rfl, rfl⟩
  | @cons q p _ _ hqp _ ih =>
    obtain ⟨hkey, -, hcloser⟩ := hqp
    by_cases here : p.key = key
    · exact .inr ⟨q, p, by simp [hkey, here], by simp [here], hcloser⟩
    · rw [List.find?_cons_of_neg (by simpa [hkey] using here),
        List.find?_cons_of_neg (by simpa using here)]
      exact ih

/-- What a chunk's search for the next opener says of the words in it. -/
def FirstOf (t : Text) (escape : Option Char) (pairs : List WordPair) (o stop : Nat) :
    Option (Interval × PatternKey) → Prop
  | none => ∀ j, o ≤ j → j < stop → ∀ p ∈ pairs, t.stands escape p.opener j = false
  | some (i, key) =>
    o ≤ i.start ∧ i.start < stop ∧
      (∀ j, o ≤ j → j < i.start → ∀ p ∈ pairs, t.stands escape p.opener j = false) ∧
        ∃ p, pairs.find? (fun p => t.stands escape p.opener i.start) = some p ∧
          p.key = key ∧ i.stop = i.start + p.opener.length

section
variable {escape : Option Char} {p : WordPair} {i : Interval}

theorem FirstOf.here (hle : o ≤ i.start) (hlt : i.start < stop)
    (hstop : i.stop = i.start + p.opener.length) (hp : t.stands escape p.opener i.start = true)
    (hfirst : ∀ j, o ≤ j → j < i.start → t.stands escape p.opener j = false)
    (hquiet : ∀ j, o ≤ j → j < i.start → ∀ p ∈ pairs, t.stands escape p.opener j = false) :
    FirstOf t escape (p :: pairs) o stop (some (i, p.key)) := by
  refine ⟨hle, hlt, fun j hj hjlt p' hp' => ?_, p, List.find?_cons_of_pos hp, rfl, hstop⟩
  rcases List.mem_cons.1 hp' with rfl | hp'
  · exact hfirst j hj hjlt
  · exact hquiet j hj hjlt p' hp'

theorem FirstOf.later {key : PatternKey} (h : FirstOf t escape pairs o stop (some (i, key)))
    (hfirst : ∀ j, o ≤ j → j ≤ i.start → t.stands escape p.opener j = false) :
    FirstOf t escape (p :: pairs) o stop (some (i, key)) := by
  obtain ⟨hle, hlt, hquiet, p', hp', hkey, hstop⟩ := h
  refine ⟨hle, hlt, ?_, p', ?_, hkey, hstop⟩
  · intro j hj hjlt p'' hp''
    rcases List.mem_cons.1 hp'' with rfl | hp''
    · exact hfirst j hj (by omega)
    · exact hquiet j hj hjlt p'' hp''
  · rw [List.find?_cons_of_neg (by simp [hfirst _ hle (Nat.le_refl _)])]
    exact hp'

end

theorem firstOf_earliest {escape : Option Char} (h : Search ps pairs)
    (hclean : ∀ p ∈ pairs, ∀ j < stop, t.stands escape p.opener j = true →
      j + p.opener.length ≤ stop)
    (hlo : t.lineStartOf start ≤ o) (ho : o ≤ stop) (hhi : stop ≤ t.length) :
    FirstOf t escape pairs o stop ((Chunk.ofRange t start stop escape).firstOpener? ps
      ((Chunk.ofRange t start stop escape).spot o)) := by
  induction h with
  | nil =>
    intro j _ _ p hp
    cases hp
  | @cons q p qs ps hqp _ ih =>
    have later := ih fun p' hp' => hclean p' (List.mem_cons_of_mem _ hp')
    obtain ⟨hkey, hq, -⟩ := hqp
    have hne := p.opener_inLine.1
    have hp := hclean p List.mem_cons_self
    unfold Chunk.firstOpener? at later ⊢
    rw [List.map_cons, Chunk.earliest, Lookahead.match?_ofSearch]
    generalize Chunk.earliest (qs.map _) = rest at later
    cases hfind : (Chunk.ofRange t start stop escape).find q.opener
        ((Chunk.ofRange t start stop escape).spot o) with
    | none =>
      have absent := Chunk.find_spot_eq_none hq hne hp hlo ho hhi hfind
      obtain _ | ⟨j, key⟩ := rest
      · intro k hk hlt p' hp'
        rcases List.mem_cons.1 hp' with rfl | hp'
        · exact absent k hk hlt
        · exact later k hk hlt p' hp'
      · have hlt := later.2.1
        exact later.later fun k hk hkle => absent k hk (by omega)
    | some i =>
      obtain ⟨hle, hlt, hstop, here, hfirst⟩ :=
        Chunk.find_spot_eq_some hq hne hp hlo ho hhi hfind
      rw [hkey]
      obtain _ | ⟨j, key⟩ := rest
      · exact .here hle hlt hstop here hfirst fun k hk hklt => later k hk (by omega)
      · simp only
        split
        · exact later.later fun k hk hkle => hfirst k hk (by omega)
        · have hquiet := later.2.2.1
          exact .here hle hlt hstop here hfirst fun k hk hklt => hquiet k hk (by omega)

/-- What is seen outside of all enclosures is the first opener. -/
theorem first_of_firstOpener? (h : Search ps L.pairs) (hclean : L.Clean t stop)
    (hlo : t.lineStartOf start ≤ o) (ho : o ≤ stop) (hhi : stop ≤ t.length) :
    match (Chunk.ofRange t start stop L.escape).firstOpener? ps
      ((Chunk.ofRange t start stop L.escape).spot o) with
    | none => L.Quiet t none o stop
    | some (i, key) => L.First t none o ⟨i.start, i.stop, some key⟩ ∧ i.start < stop := by
  have hwords : ∀ p ∈ L.pairs, ∀ j < stop, t.stands L.escape p.opener j = true →
      j + p.opener.length ≤ stop := by
    intro p hp j hj hs
    exact hclean none (p.opener, some p.key) (List.mem_map_of_mem hp) j hj hs
  have first := firstOf_earliest (o := o) h hwords hlo ho hhi
  have sight (j : Nat) : L.sightingAt t none j =
      (L.pairs.find? fun p => t.stands L.escape p.opener j).map fun p =>
        ⟨j, j + p.opener.length, some p.key⟩ := by
    rw [sightingAt, sought, List.find?_map, Option.map_map]
    rfl
  have quiet {m : Nat} (hq : ∀ j, o ≤ j → j < m → ∀ p ∈ L.pairs,
      t.stands L.escape p.opener j = false) : L.Quiet t none o m := by
    intro j hj hlt
    rw [sight, Option.map_eq_none_iff, List.find?_eq_none]
    intro p hp
    simp [hq j hj hlt p hp]
  generalize (Chunk.ofRange t start stop L.escape).firstOpener? ps _ = result at first
  obtain _ | ⟨i, key⟩ := result
  · exact quiet first
  · obtain ⟨hle, hlt, hq, p, hp, rfl, hstop⟩ := first
    refine ⟨⟨hle, quiet hq, ?_⟩, hlt⟩
    rw [sight, hp, hstop]
    rfl

/-- What is seen inside an enclosure is its first closer. -/
theorem first_of_closer {m : Matcher} {p : WordPair} {key : PatternKey} (hm : m.Finds p.closer)
    (hp : L.pairs.find? (·.key == key) = some p) (hclean : L.Clean t stop)
    (hlo : t.lineStartOf start ≤ o) (ho : o ≤ stop) (hhi : stop ≤ t.length) :
    match (Chunk.ofRange t start stop L.escape).find m
      ((Chunk.ofRange t start stop L.escape).spot o) with
    | none => L.Quiet t (some key) o stop
    | some i => L.First t (some key) o ⟨i.start, i.stop, none⟩ ∧ i.start < stop := by
  have sight (j : Nat) : L.sightingAt t (some key) j =
      if t.stands L.escape p.closer j then some ⟨j, j + p.closer.length, none⟩ else none := by
    rw [sightingAt, sought, hp]
    cases hs : t.stands L.escape p.closer j <;> simp [hs]
  have mem : (p.closer, none) ∈ L.sought (some key) := by
    rw [sought, hp]
    exact List.mem_singleton.2 rfl
  have hne : p.closer ≠ [] := List.length_pos_iff.1 (length_pos_of_mem_sought mem)
  have hcloser := hclean (some key) (p.closer, none) mem
  cases hfind : (Chunk.ofRange t start stop L.escape).find m
      ((Chunk.ofRange t start stop L.escape).spot o) with
  | none =>
    intro j hj hlt
    have absent := Chunk.find_spot_eq_none hm hne hcloser hlo ho hhi hfind j hj hlt
    rw [sight, absent]
    rfl
  | some i =>
    obtain ⟨hle, hlt, hstop, here, hfirst⟩ :=
      Chunk.find_spot_eq_some hm hne hcloser hlo ho hhi hfind
    refine ⟨⟨hle, ?_, ?_⟩, hlt⟩
    · intro j hj hjlt
      rw [sight, hfirst j hj hjlt]
      rfl
    · rw [sight, here, hstop]
      rfl

/-- The next delimiter of a chunk is the first sighting in it. -/
theorem first_of_afresh? (h : Search ps L.pairs) (hclean : L.Clean t stop)
    (hlo : t.lineStartOf start ≤ o) (ho : o ≤ stop) (hhi : stop ≤ t.length)
    (state : Option PatternKey) :
    match (Chunk.ofRange t start stop L.escape).afresh? ps
      ((Chunk.ofRange t start stop L.escape).spot o) state with
    | none => L.Quiet t state o stop
    | some (d, resume) =>
      ∃ σ, L.First t state o σ ∧ σ.start < stop ∧ σ.delimiter = d ∧ σ.stop = resume := by
  cases state with
  | none =>
    have first := first_of_firstOpener? h hclean hlo ho hhi
    rw [Chunk.afresh?]
    generalize (Chunk.ofRange t start stop L.escape).firstOpener? ps _ = result at first
    obtain _ | ⟨i, key⟩ := result
    · exact first
    · exact ⟨_, first.1, first.2, rfl, rfl⟩
  | some key =>
    rw [Chunk.afresh?]
    rcases h.find? key with ⟨hps, hpairs⟩ | ⟨q, p, hps, hpairs, hq⟩
    · rw [hps]
      intro j _ _
      rw [sightingAt, sought, hpairs]
      rfl
    · have first := first_of_closer hq hpairs hclean hlo ho hhi
      rw [hps, Option.bind_some]
      generalize (Chunk.ofRange t start stop L.escape).find q.closer _ = result at first
      cases result with
      | none => exact first
      | some i => exact ⟨_, first.1, first.2, rfl, rfl⟩

theorem explores_walk (h : Search ps L.pairs) (hclean : L.Clean t stop)
    (hlo : t.lineStartOf start ≤ o) (ho : o ≤ stop) (hhi : stop ≤ t.length)
    (state : Option PatternKey) {fuel : Nat} (hfuel : stop - o < fuel) :
    L.Explores t o state ((Chunk.ofRange t start stop L.escape).walk ps fuel
      ((Chunk.ofRange t start stop L.escape).spot o) state) stop := by
  induction fuel generalizing o state with
  | zero => omega
  | succ fuel ih =>
    have first := first_of_afresh? h hclean hlo ho hhi state
    rw [Chunk.walk]
    generalize (Chunk.ofRange t start stop L.escape).afresh? ps _ state = result at first
    obtain _ | ⟨d, resume⟩ := result
    · exact ⟨ho, first⟩
    · obtain ⟨σ, hσ, hlt, rfl, rfl⟩ := first
      have hb := hσ.bounds
      have hstop := stop_le_of_clean hclean hlt hσ.here
      refine ⟨σ, hσ, rfl, ?_⟩
      have hoff : ((Chunk.ofRange t start stop L.escape).spot o).offset = o := by
        rw [Chunk.spot_ofRange hlo ho hhi]
      rw [hoff, Chunk.forward_spot _ hlo, Nat.add_sub_cancel' (by omega), σ.key_delimiter]
      exact ih (by omega) hstop σ.key (by omega)

/-- The delimiters that a chunk's scan finds are those seen one after the other. -/
theorem explores_collect (h : Search ps L.pairs) (hle : start ≤ stop) (hhi : stop ≤ t.length)
    (hstop : t.IsSeam stop) (state : Option PatternKey) :
    L.Explores t start state
      ((Chunk.ofRange t start stop L.escape).collect ps start state) stop := by
  have hlo := t.lineStartOf_le start
  rw [Chunk.collect_eq]
  refine explores_walk h (clean_of_isSeam hstop) (by omega) hle hhi state ?_
  rw [Chunk.ofRange, Text.length_slice hhi]
  omega

end PlainLanguage
end CodeBuffer
