import CodeBuffer.Proofs.Plain.Engine
import CodeBuffer.Proofs.Upkeep.Alternating

namespace CodeBuffer

open Delimiter DelimiterTable

/-- A delimiter of one of the patterns, with the depth that it has without nesting. -/
def Delimiter.Shaped (keys : List PatternKey) (d : Delimiter) : Prop :=
  d.depth = (if d.opens then 1 else 0) ∧ ∀ key ∈ d.key, key ∈ keys

theorem Delimiter.Shaped.map? {keys : List PatternKey} {e : Edit} {d d' : Delimiter}
    (hd : d.Shaped keys) (h : e.map? d = some d') : d'.Shaped keys := by
  rw [Edit.map?_eq_some h]
  exact hd

namespace Chunk

variable {c : Chunk} {ps : List DelimitedPattern} {p : Place} {state : Option PatternKey}

theorem key_of_earliest {known : List (DelimitedPattern × Lookahead)} {i : Interval}
    {key : PatternKey} (h : earliest known = some (i, key)) : ∃ k ∈ known, k.1.key = key := by
  induction known generalizing i key with
  | nil => simp [earliest] at h
  | cons first rest ih =>
    obtain ⟨q, l⟩ := first
    have later {j : Interval} {k : PatternKey} (hj : earliest rest = some (j, k)) :
        ∃ k' ∈ (q, l) :: rest, k'.1.key = k := by
      obtain ⟨k', hk', hkey⟩ := ih hj
      exact ⟨k', List.mem_cons_of_mem _ hk', hkey⟩
    rw [earliest] at h
    split at h
    · exact later h
    · simp only [Option.some.injEq, Prod.mk.injEq] at h
      exact ⟨(q, l), List.mem_cons_self, h.2⟩
    · rename_i hr
      split at h <;> simp only [Option.some.injEq, Prod.mk.injEq] at h
      · obtain ⟨rfl, rfl⟩ := h
        exact later hr
      · exact ⟨(q, l), List.mem_cons_self, h.2⟩

/-- The next delimiter takes its turn behind the place, and the scan goes on behind it. -/
theorem afresh?_turn {d : Delimiter} {resume : Nat} (h : c.afresh? ps p state = some (d, resume)) :
    2 * p.offset < d.rank ∧ d.rank ≤ 2 * resume ∧ d.opens = state.isNone ∧
      d.Shaped (ps.map (·.key)) := by
  cases state with
  | some key =>
    obtain ⟨i, hi, heq⟩ := Option.map_eq_some_iff.1 h
    obtain ⟨q, -, hq⟩ := Option.bind_eq_some_iff.1 hi
    obtain ⟨rfl, rfl⟩ := Prod.mk.inj heq
    have hbounds := Matcher.find_bounds hq
    have hrank : (Delimiter.closer i.stop).rank = 2 * i.stop := rfl
    exact ⟨by omega, by omega, rfl, rfl, nofun⟩
  | none =>
    obtain ⟨⟨i, key⟩, hi, heq⟩ := Option.map_eq_some_iff.1 h
    obtain ⟨rfl, rfl⟩ := Prod.mk.inj heq
    obtain ⟨q, -, hq⟩ := find_of_firstOpener? hi
    obtain ⟨k, hk, rfl⟩ := key_of_earliest hi
    obtain ⟨q', hq', rfl⟩ := List.mem_map.1 hk
    have hbounds := Matcher.find_bounds hq
    have hrank (key : PatternKey) : (Delimiter.opener i.start key).rank = 2 * i.start + 1 := rfl
    refine ⟨by rw [hrank]; omega, by rw [hrank]; omega, rfl, rfl, ?_⟩
    rintro key hkey
    cases hkey
    exact List.mem_map_of_mem hq'

/-- A scan finds openers and closers by turns, in order and within the lines. -/
theorem alternate_walk (c : Chunk) (ps : List DelimitedPattern) (fuel : Nat) (p : Place)
    (state : Option PatternKey) :
    Alternate (2 * p.offset) state (c.walk ps fuel p state) ∧
      ∀ d ∈ c.walk ps fuel p state,
        d.rank ≤ 2 * (p.offset + p.after.length) ∧ d.Shaped (ps.map (·.key)) := by
  induction fuel generalizing p state with
  | zero => exact ⟨trivial, by simp [walk]⟩
  | succ fuel ih =>
    rw [walk]
    cases hnext : c.afresh? ps p state with
    | none => exact ⟨trivial, by simp⟩
    | some next =>
      obtain ⟨d, resume⟩ := next
      obtain ⟨hlow, hhigh, hopens, hshaped⟩ := afresh?_turn hnext
      have hbounds := afresh?_bounds hnext
      have hoff := Place.offset_forward (p := p) (n := resume - p.offset) (by omega)
      have hlen := congrArg List.length (Place.after_forward p (resume - p.offset))
      rw [List.length_drop] at hlen
      obtain ⟨hrest, hwithin⟩ := ih (p.forward (resume - p.offset)) d.key
      refine ⟨⟨hlow, hopens, hrest.mono (by omega)⟩, ?_⟩
      intro e he
      rcases List.mem_cons.1 he with rfl | he
      · exact ⟨by omega, hshaped⟩
      · obtain ⟨hle, hshaped⟩ := hwithin e he
        exact ⟨by omega, hshaped⟩

/-- So does a scan of some lines of a text. -/
theorem alternate_collect {t : Text} {start stop : Nat} (hle : start ≤ stop)
    (hstop : stop ≤ t.length) (escape : Option Char) (ps : List DelimitedPattern)
    (state : Option PatternKey) :
    Alternate (2 * start) state ((ofRange t start stop escape).collect ps start state) ∧
      ∀ d ∈ (ofRange t start stop escape).collect ps start state,
        d.rank ≤ 2 * stop ∧ d.Shaped (ps.map (·.key)) := by
  have hlo := t.lineStartOf_le start
  have hlo : t.lineStartOf start ≤ start := by omega
  have hspot : (ofRange t start stop escape).spot start =
      ⟨start, ((t.take start).drop (t.lineStartOf start)).reverse, (t.take stop).drop start⟩ :=
    spot_ofRange hlo hle hstop
  have hlen : ((ofRange t start stop escape).spot start).after.length = stop - start :=
    length_after_spot hlo hle hstop
  rw [spot] at hspot hlen
  rw [collect_eq]
  have hwalk := alternate_walk (ofRange t start stop escape) ps
    ((ofRange t start stop escape).lines.length + 1)
    ((Place.front (ofRange t start stop escape).base (ofRange t start stop escape).lines).forward
      (start - (ofRange t start stop escape).base)) state
  rw [hlen, hspot, Nat.add_sub_cancel' hle] at hwalk
  rw [hspot]
  exact hwalk

end Chunk

namespace DelimiterTable

/-- A table of a text. What is known lies before the frontier and what waits to be found again
behind it, both in order and with delimiters of the patterns only. -/
structure Sound (t : Text) (keys : List PatternKey) (T : DelimiterTable) : Prop where
  reach_le : T.frontier.reach t ≤ t.length
  entries : Alternate 0 none T.entries
  before : ∀ d ∈ T.entries, d.rank ≤ 2 * T.frontier.reach t
  old : ∃ state, Alternate (2 * T.frontier.reach t) state T.oldEntries
  old_before : ∀ d ∈ T.oldEntries, d.rank ≤ 2 * t.length
  shaped : ∀ d ∈ T.entries ++ T.oldEntries, d.Shaped keys

variable {t t' : Text} {keys : List PatternKey} {T : DelimiterTable} {e : Edit} {f stop : Nat}

theorem sound_reset (t : Text) (keys : List PatternKey) (complete : Bool) :
    (reset complete).Sound t keys := by
  refine ⟨?_, trivial, by simp [reset], ⟨none, trivial⟩, by simp [reset, oldEntries],
    by simp [reset, oldEntries]⟩
  cases complete
  · exact Nat.zero_le _
  · exact Nat.le_refl _

/-- An edit behind a pending frontier. -/
theorem Sound.truncateOld (hT : T.Sound t keys) (he : e.Turns t t') (hf : T.frontier = .pending f)
    (hbeyond : f ≤ e.offset) : (T.truncateOld (t'.lineStartOf e.offset)).Sound t' keys := by
  have hreach : (T.truncateOld (t'.lineStartOf e.offset)).frontier = .pending f := hf
  have hold := T.oldEntries_truncateOld (t'.lineStartOf e.offset)
  have hsub : (T.truncateOld (t'.lineStartOf e.offset)).oldEntries ⊆ T.oldEntries := by
    rw [hold]
    exact List.takeWhile_subset _
  have hle := he.stop_le
  have := e.offset_le_stop
  have hbefore := hT.before
  obtain ⟨state, holder⟩ := hT.old
  rw [hf] at hbefore holder
  refine ⟨?_, hT.entries, ?_, ⟨state, ?_⟩, ?_, ?_⟩
  · rw [hreach, Frontier.reach]
    omega
  · rw [hreach]
    exact hbefore
  · rw [hreach, hold]
    exact holder.takeWhile _
  · intro d hd
    rw [hold] at hd
    have hlt : d.offset < t'.lineStartOf e.offset := by simpa using List.mem_takeWhile_imp hd
    have hhead := t'.lineStartOf_le e.offset
    rw [← withinLines_iff_rank]
    exact withinLines_mono (by omega) (withinLines_of_offset_lt hlt)
  · intro d hd
    refine hT.shaped d ?_
    rcases List.mem_append.1 hd with hd | hd
    · exact List.mem_append_left _ hd
    · exact List.mem_append_right _ (hsub hd)

/-- What lies before the frontier lies before it after an edit. -/
theorem rank_le_after (he : e.Turns t t') {F : Frontier} {d d' : Delimiter} (h : e.map? d = some d')
    (hd : d.rank ≤ 2 * F.reach t) : d'.rank ≤ 2 * (F.after e).reach t' := by
  cases F with
  | complete => exact Edit.rank_le_length he h hd
  | pending f => exact Edit.rank_le_mapOffset h hd

/-- Where the frontier is after an edit before it. -/
theorem reach_after_bounds (he : e.Turns t t') (hin : T.isBeyondFrontier e = false)
    (hle : T.frontier.reach t ≤ t.length) :
    e.offset ≤ (T.frontier.after e).reach t' ∧ (T.frontier.after e).reach t' ≤ t'.length := by
  have hback := he.back_length
  have hstop := he.stop_le
  have := e.offset_le_stop
  cases hf : T.frontier with
  | complete => exact ⟨by simp only [Frontier.after, Frontier.reach]; omega, Nat.le_refl _⟩
  | pending f =>
    have hlt := PlainLanguage.offset_lt_of_pending hin hf
    rw [hf, Frontier.reach] at hle
    simp only [Frontier.after, Frontier.reach]
    cases e <;> simp only [Edit.back, Edit.stop, Edit.offset, Edit.mapOffset] at *
    · rw [if_pos hlt]
      omega
    · split <;> omega

/-- What becomes old when a table is cut. -/
theorem dropWhile_filterMap {low s : Nat} {state : Option PatternKey} {ds : List Delimiter}
    (hs : e.stop ≤ s) (h : Alternate low state ds) :
    (ds.filterMap e.map?).dropWhile (withinLines s) =
      (ds.dropWhile (withinLines (e.back s))).filterMap e.map? := by
  have hin : ∀ d ∈ ds.takeWhile (withinLines (e.back s)), withinLines (e.back s) d = true :=
    fun d hd => List.mem_takeWhile_imp hd
  have hout : ∀ d ∈ ds.dropWhile (withinLines (e.back s)), withinLines (e.back s) d = false := by
    intro d hd
    have := (h.dropWithin (e.back s)).lt_rank d hd
    rw [← Bool.not_eq_true, withinLines_iff_rank]
    omega
  have hcut := (takeWhile_filterMap hin hout fun d d' => Edit.withinLines_map? hs (e := e)).2
  rwa [List.takeWhile_append_dropWhile] at hcut

/-- The old delimiters lie behind the edited lines and survive, or the tail of the text is gone with
them. -/
theorem Sound.old_survives (hT : T.Sound t keys) (he : e.Turns t t')
    (hin : T.isBeyondFrontier e = false)
    (hcovers : (T.frontier.after e).covers (t'.nextLineStart e.stop) = true) :
    (e.back (t'.nextLineStart e.stop) ≤ T.frontier.reach t ∧
      ∀ d ∈ T.oldEntries, (e.map? d).isSome = true) ∨
        T.oldEntries.filterMap e.map? = [] := by
  obtain ⟨state, hold⟩ := hT.old
  have hstop : e.stop ≤ t'.nextLineStart e.stop := t'.le_nextLineStart _ he.stop_le
  have hle := t'.nextLineStart_le e.stop
  by_cases hu : e.back (t'.nextLineStart e.stop) ≤ T.frontier.reach t
  · refine .inl ⟨hu, fun d hd => ?_⟩
    have hlt := hold.lt_rank d hd
    refine Option.isSome_iff_exists.2 (Edit.isSome_map?_of_behind hstop ?_)
    rw [← Bool.not_eq_true, withinLines_iff_rank]
    omega
  · right
    cases hf : T.frontier with
    | complete =>
      rw [hf, Frontier.reach] at hu
      exact absurd (he.back_le hle) hu
    | pending f =>
      rw [hf, Frontier.reach] at hu hold
      rw [hf, Frontier.after, Frontier.covers, decide_eq_true_eq] at hcovers
      have hlt := PlainLanguage.offset_lt_of_pending hin hf
      obtain ⟨o, n, rfl, -, hlen, -, -⟩ :=
        PlainLanguage.tail_deleted he rfl hlt hcovers (by omega)
      refine List.filterMap_eq_nil_iff.2 fun d hd => Option.eq_none_iff_forall_not_mem.2 ?_
      intro d' hd'
      have hrank := Edit.rank_map? hd'
      have hlow := hold.lt_rank d hd
      have hhigh := hT.old_before d hd
      simp only [Edit.offset] at hrank hlt
      omega

/-- An old delimiter is left by the edit behind the frontier. -/
theorem Sound.old_moved (hT : T.Sound t keys) (he : e.Turns t t')
    (hin : T.isBeyondFrontier e = false)
    (hcovers : (T.frontier.after e).covers (t'.nextLineStart e.stop) = true) :
    ∃ state, Alternate (2 * (T.frontier.after e).reach t') state
      (T.oldEntries.filterMap e.map?) := by
  rcases hT.old_survives he hin hcovers with ⟨hu, hall⟩ | hnone
  · obtain ⟨state, hold⟩ := hT.old
    have hstop : e.stop ≤ t'.nextLineStart e.stop := t'.le_nextLineStart _ he.stop_le
    rw [PlainLanguage.reach_after he hin hstop (t'.nextLineStart_le e.stop) hu]
    exact ⟨state, hold.filterMap hall fun d d' h => Edit.lt_rank_map?_behind h hstop hu⟩
  · rw [hnone]
    exact ⟨none, trivial⟩

/-- What an edit moves along keeps its shape. -/
theorem Sound.shaped_filterMap (hT : T.Sound t keys) {ds : List Delimiter}
    (hds : ∀ d ∈ ds, d ∈ T.entries ++ T.oldEntries) : ∀ d ∈ ds.filterMap e.map?, d.Shaped keys := by
  intro d' hd'
  obtain ⟨d, hd, hmap⟩ := List.mem_filterMap.1 hd'
  exact (hT.shaped d (hds d hd)).map? hmap

/-- A table that survives an edit moves along with it. -/
theorem Sound.moved (hT : T.Sound t keys) (he : e.Turns t t') (hin : T.isBeyondFrontier e = false)
    {head : Nat} (hhead : head ≤ e.offset)
    (hall : ∀ d ∈ T.entries.dropWhile (withinLines head), (e.map? d).isSome = true)
    (hcovers : (T.frontier.after e).covers (t'.nextLineStart e.stop) = true) :
    (T.moved e head).Sound t' keys := by
  have hafter := reach_after_bounds he hin hT.reach_le
  have hwithin : ∀ d ∈ T.entries.takeWhile (withinLines head), d.rank ≤ 2 * head :=
    fun d hd => withinLines_iff_rank.1 (List.mem_takeWhile_imp hd)
  have hfrom : T.entries.dropWhile (withinLines head) ⊆ T.entries := List.dropWhile_subset _
  refine ⟨hafter.2, ?_, ?_, ?_, ?_, ?_⟩
  · refine (hT.entries.takeWhile _).append (Nat.zero_le _) hwithin ?_
    exact (hT.entries.dropWithin head).filterMap hall fun d d' h => Edit.lt_rank_map? h hhead
  · intro d' hd'
    rcases List.mem_append.1 hd' with hd | hd
    · have := hwithin d' hd
      simp only [DelimiterTable.moved]
      omega
    · obtain ⟨d, hd, hmap⟩ := List.mem_filterMap.1 hd
      exact rank_le_after he hmap (hT.before d (hfrom hd))
  · rw [oldEntries_moved]
    exact hT.old_moved he hin hcovers
  · intro d' hd'
    rw [oldEntries_moved] at hd'
    obtain ⟨d, hd, hmap⟩ := List.mem_filterMap.1 hd'
    exact Edit.rank_le_length he hmap (hT.old_before d hd)
  · intro d hd
    rw [oldEntries_moved] at hd
    rcases List.mem_append.1 hd with hd | hd
    · rcases List.mem_append.1 hd with hd | hd
      · exact hT.shaped d (List.mem_append_left _ (List.takeWhile_subset _ hd))
      · exact hT.shaped_filterMap (fun d hd => List.mem_append_left _ (hfrom hd)) d hd
    · exact hT.shaped_filterMap (fun d hd => List.mem_append_right _ hd) d hd

/-- A table that an edit cuts keeps what lies before the edited lines. What lies behind them becomes
old. -/
theorem Sound.cut (hT : T.Sound t keys) (he : e.Turns t t') {head : Nat} (hhead : head ≤ e.offset)
    {old : Option Leftovers}
    (hold : old.elim [] (·.entries) = ((T.entries.dropWhile (withinLines head)).filterMap
      e.map?).dropWhile (withinLines (t'.nextLineStart e.stop))) :
    Sound t' keys ⟨T.entries.takeWhile (withinLines head), old, .pending head⟩ := by
  have hstop : e.stop ≤ t'.nextLineStart e.stop := t'.le_nextLineStart _ he.stop_le
  have := e.offset_le_stop
  have hle := t'.nextLineStart_le e.stop
  have hbehind := hT.entries.dropWithin head
  rw [dropWhile_filterMap hstop hbehind] at hold
  obtain ⟨state, hlater⟩ : ∃ state, Alternate (2 * e.back (t'.nextLineStart e.stop)) state
      ((T.entries.dropWhile (withinLines head)).dropWhile
        (withinLines (e.back (t'.nextLineStart e.stop)))) := ⟨_, hbehind.dropWithin _⟩
  have hsub : (T.entries.dropWhile (withinLines head)).dropWhile
      (withinLines (e.back (t'.nextLineStart e.stop))) ⊆ T.entries :=
    fun d hd => List.dropWhile_subset _ (List.dropWhile_subset _ hd)
  refine ⟨?_, hT.entries.takeWhile _, fun d hd => withinLines_iff_rank.1
    (List.mem_takeWhile_imp hd), ⟨state, ?_⟩, ?_, ?_⟩
  · simp only [Frontier.reach]
    omega
  · rw [oldEntries, hold]
    refine hlater.filterMap ?_ ?_
    · intro d hd
      have := hlater.lt_rank d hd
      refine Option.isSome_iff_exists.2 (Edit.isSome_map?_of_behind hstop ?_)
      rw [← Bool.not_eq_true, withinLines_iff_rank]
      omega
    · intro d d' h hlt
      have := Edit.lt_rank_map?_behind h hstop (Nat.le_refl _) hlt
      simp only [Frontier.reach]
      omega
  · intro d' hd'
    rw [oldEntries, hold] at hd'
    obtain ⟨d, hd, hmap⟩ := List.mem_filterMap.1 hd'
    have := hT.before d (hsub hd)
    have := hT.reach_le
    exact Edit.rank_le_length he hmap (by omega)
  · intro d hd
    rw [oldEntries, hold] at hd
    rcases List.mem_append.1 hd with hd | hd
    · exact hT.shaped d (List.mem_append_left _ (List.takeWhile_subset _ hd))
    · exact hT.shaped_filterMap (fun d hd => List.mem_append_left _ (hsub hd)) d hd

/-- An edit before the frontier, whatever is found anew in the edited lines. -/
theorem Sound.applyEdit (hT : T.Sound t keys) (he : e.Turns t t')
    (hin : T.isBeyondFrontier e = false) (fresh : List Delimiter) :
    (T.applyEdit e (t'.lineStartOf e.offset) (t'.nextLineStart e.stop) fresh).2.Sound t' keys := by
  have hhead : t'.lineStartOf e.offset ≤ e.offset := by
    have := t'.lineStartOf_le e.offset
    omega
  rcases T.applyEdit_cases e (t'.lineStartOf e.offset) (t'.nextLineStart e.stop) fresh with
    ⟨hall, hcovers, -, hresult⟩ | ⟨old, hresult, hold⟩ <;> rw [hresult]
  · exact hT.moved he hin hhead hall hcovers
  · exact hT.cut he hhead hold

/-- What is found up to an old delimiter goes on with the old ones. -/
theorem Sound.splice {found before behind cs rest : List Delimiter} {d : Delimiter}
    (hT : T.Sound t keys) (hf : T.frontier = .pending f)
    (hfound : Alternate (2 * f) (stateAfter T.entries) found)
    (hin : ∀ d ∈ found, d.rank ≤ 2 * stop ∧ d.Shaped keys) (hstop : stop ≤ t.length)
    (hbefore : found = before ++ d :: behind) (hold : T.oldEntries = cs ++ d :: rest) :
    Alternate 0 none (T.entries ++ before ++ d :: rest) ∧
      ∀ x ∈ T.entries ++ before ++ d :: rest, x.rank ≤ 2 * t.length ∧ x.Shaped keys := by
  obtain ⟨state, holder⟩ := hT.old
  have hbound := hT.before
  have hreach := hT.reach_le
  rw [hf, Frontier.reach] at hbound holder hreach
  rw [stateAfter_eq, hbefore] at hfound
  rw [hold] at holder
  refine ⟨?_, fun x hx => ?_⟩
  · have hfirst := hT.entries.append (Nat.zero_le _) hbound hfound
    rw [← List.append_assoc] at hfirst
    exact hfirst.splice holder
  · rcases List.mem_append.1 hx with hx | hx
    · rcases List.mem_append.1 hx with hx | hx
      · have := hbound x hx
        exact ⟨by omega, hT.shaped x (List.mem_append_left _ hx)⟩
      · have hx := hin x (hbefore ▸ List.mem_append_left _ hx)
        exact ⟨by omega, hx.2⟩
    · have hx : x ∈ T.oldEntries := hold ▸ List.mem_append_right _ hx
      exact ⟨hT.old_before x hx, hT.shaped x (List.mem_append_right _ hx)⟩

/-- Where the old table takes over. -/
theorem Sound.takeOver {found before behind cs rest es : List Delimiter} {d c : Delimiter}
    (hT : T.Sound t keys) (hf : T.frontier = .pending f)
    (hfound : Alternate (2 * f) (stateAfter T.entries) found)
    (hin : ∀ d ∈ found, d.rank ≤ 2 * stop ∧ d.Shaped keys) (hstop : stop ≤ t.length)
    (hbefore : found = before ++ d :: behind) (hold : T.oldEntries = cs ++ d :: rest)
    (hes : T.entries ++ before ++ d :: rest = es ++ [c]) :
    Sound t keys ⟨if c.opens then es else es ++ [c], none, .pending c.offset⟩ := by
  obtain ⟨hall, hmem⟩ := hT.splice hf hfound hin hstop hbefore hold
  rw [hes] at hall hmem
  have hlast := (hmem c (by simp)).1
  have hbeforeLast := hall.rank_lt_last
  have hrank : c.rank = if c.opens then 2 * c.offset + 1 else 2 * c.offset := rfl
  refine ⟨?_, ?_, ?_, ⟨none, trivial⟩, by simp [oldEntries], ?_⟩
  · simp only [Frontier.reach]
    split at hrank <;> omega
  · dsimp only
    split
    · exact hall.init
    · exact hall
  · simp only [Frontier.reach]
    intro x hx
    split at hx
    · rename_i hopens
      rw [if_pos hopens] at hrank
      have := hbeforeLast x hx
      omega
    · rename_i hcloses
      rw [if_neg hcloses] at hrank
      rcases List.mem_append.1 hx with hx | hx
      · have := hbeforeLast x hx
        omega
      · rw [List.mem_singleton.1 hx]
        omega
  · intro x hx
    simp only [oldEntries, Option.elim_none, List.append_nil] at hx
    split at hx
    · exact (hmem x (List.mem_append_left _ hx)).2
    · exact (hmem x hx).2

/-- What is old is in order still, and less, when a batch has gone to its end. -/
theorem Sound.old_finishBatch (hT : T.Sound t keys) (entries : List Delimiter) (stop : Nat)
    {old : Option Leftovers} (hold : ∀ o ∈ old, o.entries <:+ T.oldEntries) (all : Bool) :
    ∃ state, Alternate (2 * stop) state
        (({ T with entries, old } : DelimiterTable).finishBatch stop all).oldEntries ∧
      (({ T with entries, old } : DelimiterTable).finishBatch stop all).oldEntries ⊆
        T.oldEntries := by
  have hleft : ({ T with entries, old } : DelimiterTable).oldEntries <:+ T.oldEntries :=
    suffix_elim hold
  obtain ⟨state, holder⟩ := hT.old
  obtain ⟨state', hleftover⟩ := holder.suffix hleft
  rcases oldEntries_finishBatch { T with entries, old } stop all with hnone | hsome
  · rw [hnone]
    exact ⟨none, trivial, List.nil_subset _⟩
  · rw [hsome]
    exact ⟨_, hleftover.dropWithin stop, fun d hd => hleft.subset (List.dropWhile_subset _ hd)⟩

/-- A batch that goes to its end. -/
theorem Sound.finishBatch {found : List Delimiter} {old : Option Leftovers} (hT : T.Sound t keys)
    (hf : T.frontier = .pending f) (hfound : Alternate (2 * f) (stateAfter T.entries) found)
    (hin : ∀ d ∈ found, d.rank ≤ 2 * stop ∧ d.Shaped keys) (hle : f ≤ stop)
    (hstop : stop ≤ t.length) (hold : ∀ o ∈ old, o.entries <:+ T.oldEntries) :
    (({ T with entries := T.entries ++ found, old } : DelimiterTable).finishBatch stop
      (decide (t.length ≤ stop))).Sound t keys := by
  have hbound := hT.before
  rw [hf, Frontier.reach] at hbound
  rw [stateAfter_eq] at hfound
  obtain ⟨state, hleft, hsub⟩ :=
    hT.old_finishBatch (T.entries ++ found) stop hold (decide (t.length ≤ stop))
  have hreach := reach_finishBatch ({ T with entries := T.entries ++ found, old } : DelimiterTable)
    hstop
  have hentries : (({ T with entries := T.entries ++ found, old } : DelimiterTable).finishBatch stop
      (decide (t.length ≤ stop))).entries = T.entries ++ found := rfl
  generalize ({ T with entries := T.entries ++ found, old } : DelimiterTable).finishBatch stop
    (decide (t.length ≤ stop)) = T' at hleft hsub hreach hentries ⊢
  have hmem : ∀ d ∈ T'.entries, d.rank ≤ 2 * stop ∧ d.Shaped keys := by
    intro d hd
    rw [hentries] at hd
    rcases List.mem_append.1 hd with hd | hd
    · have := hbound d hd
      exact ⟨by omega, hT.shaped d (List.mem_append_left _ hd)⟩
    · exact hin d hd
  refine ⟨by rwa [hreach], ?_, ?_, ⟨state, by rwa [hreach]⟩, fun d hd => hT.old_before d (hsub hd),
    fun d hd => ?_⟩
  · rw [hentries]
    exact hT.entries.append (Nat.zero_le _) hbound hfound
  · rw [hreach]
    exact fun d hd => (hmem d hd).1
  · rcases List.mem_append.1 hd with hd | hd
    · exact (hmem d hd).2
    · exact hT.shaped d (List.mem_append_right _ (hsub hd))

end DelimiterTable

namespace Highlighter

/-- The keys of the delimited patterns. -/
def keys (h : Highlighter) : List PatternKey := (delimitedOf h.patterns).map (·.key)

variable {h : Highlighter} {t : Text}

/-- A batch keeps a table in order, and completes it or brings its frontier forward. -/
theorem sound_build (hT : h.table.Sound t h.keys) (needed : Nat) :
    (h.build t needed).table.Sound t h.keys ∧
      ((h.build t needed).table.frontier = .complete ∨
        h.table.frontier.reach t < (h.build t needed).table.frontier.reach t) := by
  cases hf : h.table.frontier with
  | complete =>
    have hsame : h.build t needed = h := by rw [build, hf]
    rw [hsame]
    exact ⟨hT, .inl hf⟩
  | pending f =>
    have hfle : f ≤ t.length := by
      have := hT.reach_le
      rwa [hf] at this
    obtain ⟨hle, hlt⟩ := h.le_batchStop needed hfle
    have hstop : h.batchStop t f needed ≤ t.length := t.nextLineStart_le _
    obtain ⟨hfound, hin⟩ := Chunk.alternate_collect hle hstop h.escape (delimitedOf h.patterns)
      h.table.lastState
    rcases h.build_cases t needed hf rfl with
      ⟨before, d, behind, cs, rest, es, c, hbefore, hold, hes, hlast, hbuild⟩ | ⟨old, hold, hbuild⟩
    · rw [hbuild]
      exact ⟨hT.takeOver hf hfound hin hstop hbefore hold hes, .inr hlast⟩
    · rw [hbuild]
      refine ⟨hT.finishBatch hf hfound hin hle hstop hold, ?_⟩
      by_cases hall : t.length ≤ h.batchStop t f needed
      · exact .inl (by simp [DelimiterTable.finishBatch, hall])
      · refine .inr ?_
        simp only [DelimiterTable.finishBatch, hall, decide_false, Bool.false_eq_true, if_false]
        exact hlt (by omega)

end Highlighter
end CodeBuffer
