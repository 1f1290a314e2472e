import CodeBuffer.Proofs.Upkeep.Usage

namespace CodeBuffer

open Delimiter DelimiterTable

namespace Highlighter

variable {h : Highlighter} {d : Document} {t : Text} {s : Work}

/-! What is highlighted is up to date. -/

theorem le_lineBoundary (t : Text) {o : Nat} (ho : o ≤ t.length) : o ≤ t.lineBoundary o := by
  unfold Text.lineBoundary
  split
  · exact Nat.le_refl o
  · exact t.le_nextLineStart o ho

/-- How far the lines up to an offset can be highlighted. -/
def paintStop (h : Highlighter) (t : Text) (o : Nat) : Nat :=
  match h.table.frontier with
  | .complete => t.lineBoundary o
  | .pending f => min (t.lineBoundary o) f

theorem highlightLines_eq (s : Work) (i : Interval) :
    highlightLines s i =
      let start := s.2.text.lineStartOf i.start
      let stop := s.1.paintStop s.2.text i.stop
      if start < stop then
        let s' := s.1.highlightRegion s.2 start stop
        ({ s'.1 with refresh := s'.1.refresh.subtract start stop }, s'.2)
      else s := rfl

theorem le_paintStop {o : Nat} (ho : o ≤ t.length) (hc : h.table.frontier.covers o = true) :
    o ≤ h.paintStop t o := by
  have hboundary := le_lineBoundary t ho
  unfold paintStop
  cases hf : h.table.frontier with
  | complete => exact hboundary
  | pending f =>
    rw [hf, Frontier.covers, decide_eq_true_eq] at hc
    exact Nat.le_min.2 ⟨hboundary, hc⟩

theorem requests_highlightLines (s : Work) (i : Interval) :
    (highlightLines s i).1.requests = s.1.requests := by
  obtain ⟨_, _, _, hsame⟩ := s.1.sameButTags_highlightRegion s.2 (s.2.text.lineStartOf i.start)
    (s.1.paintStop s.2.text i.stop)
  rw [highlightLines_eq]
  dsimp only
  split
  · rw [hsame]
  · rfl

/-- A line that is analysed is up to date once it is highlighted. -/
theorem refresh_highlightLines {i : Interval} (hi : i.start < i.stop) (hstop : i.stop ≤ s.2.length)
    (hc : s.1.table.frontier.covers i.stop = true) (p : Nat)
    (hp : (highlightLines s i).1.refresh.contains p = true) :
    s.1.refresh.contains p = true ∧ ¬(i.start ≤ p ∧ p < i.stop) := by
  have hstart := s.2.text.lineStartOf_le i.start
  have hle := le_paintStop hstop hc
  obtain ⟨_, _, _, hsame⟩ := s.1.sameButTags_highlightRegion s.2 (s.2.text.lineStartOf i.start)
    (s.1.paintStop s.2.text i.stop)
  rw [highlightLines_eq] at hp
  dsimp only at hp
  rw [if_pos (by omega), hsame] at hp
  obtain ⟨hold, hout⟩ := Region.contains_subtract.1 hp
  exact ⟨hold, by omega⟩

/-- A range that is analysed is up to date once it is highlighted. -/
theorem refresh_ensureHighlighted {start stop : Nat} (hstop : stop ≤ d.length)
    (hc : h.table.frontier.covers stop = true) (p : Nat)
    (hp : (h.ensureHighlighted d start stop).1.refresh.contains p = true) :
    h.refresh.contains p = true ∧ ¬(start ≤ p ∧ p < stop) := by
  have lines (is : List Interval) (his : ∀ i ∈ is, i.start < i.stop ∧ i.stop ≤ stop) (s : Work)
      (hlen : stop ≤ s.2.length) (hc : s.1.table.frontier.covers stop = true)
      (hp : (is.foldl highlightLines s).1.refresh.contains p = true) :
      s.1.refresh.contains p = true ∧ ∀ i ∈ is, ¬(i.start ≤ p ∧ p < i.stop) := by
    induction is generalizing s with
    | nil => exact ⟨hp, by simp⟩
    | cons i is ih =>
      obtain ⟨hi, histop⟩ := his i List.mem_cons_self
      have hpainted := painted_highlightLines s i
      obtain ⟨hmid, hout⟩ := ih (fun j hj => his j (List.mem_cons_of_mem i hj)) (highlightLines s i)
        (by rw [Document.length, hpainted.document.text_eq]; exact hlen)
        (by rw [hpainted.table]; exact hc) hp
      have hci : s.1.table.frontier.covers i.stop = true := by
        cases hf : s.1.table.frontier with
        | complete => rfl
        | pending f =>
          simp only [hf, Frontier.covers, decide_eq_true_eq] at hc ⊢
          omega
      obtain ⟨hold, houti⟩ := refresh_highlightLines hi (by omega) hci p hmid
      exact ⟨hold, List.forall_mem_cons.2 ⟨houti, hout⟩⟩
  have hclip : ∀ i ∈ (h.refresh.intersect start stop).intervals,
      i.start < i.stop ∧ i.stop ≤ stop := by
    intro i hi
    obtain ⟨hmem, hempty⟩ := List.mem_filter.1 hi
    obtain ⟨j, -, rfl⟩ := List.mem_map.1 hmem
    exact ⟨by simpa [Interval.isEmpty] using hempty, Nat.min_le_right _ _⟩
  obtain ⟨hold, hout⟩ := lines _ hclip (h, d) hstop hc hp
  refine ⟨hold, fun hin => ?_⟩
  obtain ⟨i, hi, hip⟩ := Region.contains_iff.1 (Region.contains_intersect.2 ⟨hold, hin⟩)
  exact hout i hi hip

/-- An offset is analysed, and highlighted since. -/
def UpToDate (h : Highlighter) (t : Text) (p : Nat) : Prop :=
  h.refresh.contains p = false ∧ p < h.table.frontier.reach t

/-- A batch marks nothing before the frontier as out of date. -/
theorem UpToDate.build {p : Nat} (hp : h.UpToDate t p) (hs : h.Sound t) (needed : Nat) :
    (h.build t needed).UpToDate t p := by
  obtain ⟨-, hprogress⟩ := sound_build hs.table needed
  have hreach := hs.table.reach_le
  obtain ⟨hclean, hlt⟩ := hp
  cases hf : h.table.frontier with
  | complete =>
    rw [Highlighter.build, hf]
    exact ⟨hclean, hlt⟩
  | pending f =>
    rw [hf, Frontier.reach] at hlt hprogress hreach
    refine ⟨?_, ?_⟩
    · rw [← Bool.not_eq_true] at hclean ⊢
      rw [contains_refresh_build hs.refresh.1 hf]
      rintro (hin | hold)
      · omega
      · exact hclean hold
    · rcases hprogress with hc | hlater
      · rw [hc, Frontier.reach]
        omega
      · omega

/-! Requests -/

/-- The offsets of a set are asked for still, or are analysed and up to date. -/
def Attends (Q : Nat → Prop) (t : Text) (h : Highlighter) : Prop :=
  ∀ p, Q p → h.requests.contains p = true ∨
    h.refresh.contains p = false ∧ p < h.table.frontier.reach t

variable {Q : Nat → Prop}

theorem Attends.build (hQ : h.Attends Q t) (hs : h.Sound t) (needed : Nat) :
    (h.build t needed).Attends Q t := by
  intro p hp
  obtain ⟨table, refresh, batchSize, estimates, announced, hsame⟩ := h.build_same t needed
  have hrequests : (h.build t needed).requests = h.requests := by rw [hsame]
  rw [hrequests]
  exact (hQ p hp).imp_right fun hdone => UpToDate.build hdone hs needed

theorem requests_ensureHighlighted (h : Highlighter) (d : Document) (start stop : Nat) :
    (h.ensureHighlighted d start stop).1.requests = h.requests := by
  have lines (is : List Interval) (s : Work) :
      (is.foldl highlightLines s).1.requests = s.1.requests := by
    induction is generalizing s with
    | nil => rfl
    | cons i is ih => exact (ih (highlightLines s i)).trans (requests_highlightLines s i)
  exact lines _ (h, d)

/-- How far a request can be served. -/
def servable (h : Highlighter) (t : Text) (r : Interval) : Nat :=
  match h.table.frontier with
  | .complete => r.stop
  | .pending f => min r.stop (t.lineStartOf f)

/-- To serve a part of a request. -/
def serveTo (s : Work) (start limit : Nat) : Work :=
  { s.1 with requests := s.1.requests.subtract start limit }.ensureHighlighted s.2 start limit

theorem serve_cons (r : Interval) (rest : List Interval) (s : Work) :
    serve (r :: rest) s =
      let limit := s.1.servable s.2.text r
      if limit ≤ r.start then s
      else if limit < r.stop then serveTo s r.start limit
      else serve rest (serveTo s r.start limit) := rfl

theorem relieved_serveTo (s : Work) (start limit : Nat) :
    s.1.Relieved (serveTo s start limit).1 :=
  (Relieved.subtractRequests s.1 start limit).trans (relieved_ensureHighlighted _ _ _ _)

theorem document_serveTo (s : Work) (start limit : Nat) :
    s.2.SameButTags (serveTo s start limit).2 :=
  (painted_ensureHighlighted _ s.2 start limit).document

/-- What a request can be served up to is analysed. -/
theorem servable_le {r : Interval} (hs : s.1.Sound s.2.text) (hr : r.stop ≤ s.2.length) :
    s.1.servable s.2.text r ≤ s.2.length ∧
      s.1.table.frontier.covers (s.1.servable s.2.text r) = true ∧
        s.1.servable s.2.text r ≤ s.1.table.frontier.reach s.2.text := by
  have hreach := hs.table.reach_le
  unfold servable
  cases hf : s.1.table.frontier with
  | complete => exact ⟨hr, rfl, hr⟩
  | pending f =>
    have hline := s.2.text.lineStartOf_le f
    rw [hf, Frontier.reach] at hreach
    simp only [Frontier.covers, Frontier.reach, decide_eq_true_eq]
    omega

theorem Attends.serveTo {start limit : Nat} (hQ : s.1.Attends Q s.2.text)
    (hlen : limit ≤ s.2.length) (hc : s.1.table.frontier.covers limit = true)
    (hreach : limit ≤ s.1.table.frontier.reach s.2.text) :
    (serveTo s start limit).1.Attends Q s.2.text := by
  have hr := relieved_serveTo s start limit
  have hrequests : (Highlighter.serveTo s start limit).1.requests =
      s.1.requests.subtract start limit := requests_ensureHighlighted _ _ _ _
  have hclears (p : Nat) (hp : (Highlighter.serveTo s start limit).1.refresh.contains p = true) :=
    refresh_ensureHighlighted (h := { s.1 with requests := s.1.requests.subtract start limit })
      hlen hc p hp
  intro p hp
  rw [hr.table, hrequests, Region.contains_subtract, ← Bool.not_eq_true]
  rcases hQ p hp with hasked | ⟨hclean, hlt⟩
  · by_cases hin : start ≤ p ∧ p < limit
    · exact .inr ⟨fun hdirty => (hclears p hdirty).2 hin, by omega⟩
    · exact .inl ⟨hasked, hin⟩
  · refine .inr ⟨fun hdirty => ?_, hlt⟩
    rw [(hclears p hdirty).1] at hclean
    cases hclean

/-- To serve requests answers for what it takes off the list. -/
theorem Attends.serve {requests : List Interval} (hlen : ∀ r ∈ requests, r.stop ≤ s.2.length)
    (hs : s.1.Sound s.2.text) (hQ : s.1.Attends Q s.2.text) :
    (serve requests s).1.Attends Q s.2.text := by
  induction requests generalizing s with
  | nil => exact hQ
  | cons r rest ih =>
    obtain ⟨hlimit, hc, hreach⟩ := servable_le hs (hlen r List.mem_cons_self)
    have hserved : (Highlighter.serveTo s r.start (s.1.servable s.2.text r)).1.Attends Q s.2.text :=
      hQ.serveTo hlimit hc hreach
    have htext := (document_serveTo s r.start (s.1.servable s.2.text r)).text_eq
    rw [serve_cons]
    dsimp only
    split
    · exact hQ
    · split
      · exact hserved
      · have hrest := ih (s := Highlighter.serveTo s r.start (s.1.servable s.2.text r))
          (fun r' hr' => by
            rw [Document.length, htext]
            exact hlen r' (List.mem_cons_of_mem r hr'))
          (by rw [htext]; exact hs.relieved (relieved_serveTo _ _ _))
          (by rw [htext]; exact hserved)
        rwa [htext] at hrest

/-- Where all is analysed, all requests are served. -/
theorem requests_serve {requests : List Interval} (hc : s.1.table.frontier = .complete)
    (hne : ∀ r ∈ requests, r.start < r.stop) (p : Nat)
    (hp : (serve requests s).1.requests.contains p = true) :
    s.1.requests.contains p = true ∧ ∀ r ∈ requests, ¬(r.start ≤ p ∧ p < r.stop) := by
  induction requests generalizing s with
  | nil => exact ⟨hp, by simp⟩
  | cons r rest ih =>
    have hlimit : s.1.servable s.2.text r = r.stop := by rw [servable, hc]
    have hr := hne r List.mem_cons_self
    rw [serve_cons, hlimit] at hp
    dsimp only at hp
    rw [if_neg (by omega), if_neg (Nat.lt_irrefl _)] at hp
    have htable := (relieved_serveTo s r.start r.stop).table
    obtain ⟨hmid, hout⟩ := ih (s := Highlighter.serveTo s r.start r.stop) (by rw [htable, hc])
      (fun r' hr' => hne r' (List.mem_cons_of_mem r hr')) hp
    rw [Highlighter.serveTo, requests_ensureHighlighted] at hmid
    obtain ⟨hold, houtr⟩ := Region.contains_subtract.1 hmid
    exact ⟨hold, List.forall_mem_cons.2 ⟨houtr, hout⟩⟩

/-! Slices -/

theorem eq_empty_of_contains {r : Region} (hr : r.WellFormed) (h : ∀ p, r.contains p = false) :
    r = .empty :=
  Region.eq_of_contains hr Region.wellFormed_empty fun p => by
    rw [h p]
    exact Iff.rfl

/-- How much is left to analyse, counted in offsets. -/
def debt (h : Highlighter) (t : Text) : Nat :=
  match h.table.frontier with
  | .complete => 0
  | .pending f => t.length + 1 - f

/-- A batch takes something off what is left. -/
theorem debt_build (hs : h.Sound t) {f : Nat} (hf : h.table.frontier = .pending f) (needed : Nat) :
    (h.build t needed).debt t < h.debt t := by
  obtain ⟨hnext, hprogress⟩ := sound_build hs.table needed
  have hle := hs.table.reach_le
  have hle' := hnext.reach_le
  rw [hf, Frontier.reach] at hle hprogress
  simp only [debt, hf]
  cases hg : (h.build t needed).table.frontier with
  | complete =>
    simp only
    omega
  | pending g =>
    rw [hg, Frontier.reach] at hle' hprogress
    have hlt := hprogress.resolve_left (by simp)
    simp only
    omega

theorem Sound.buildUntil_succ (hs : h.Sound t) {o : Nat} (hc : h.table.frontier.covers o = false)
    (fuel : Nat) : h.buildUntil t o (fuel + 1) = (h.build t o).buildUntil t o fuel :=
  Highlighter.buildUntil_succ hc (sound_build hs.table o).2 fuel

/-- So many batches analyse what is asked for. -/
theorem buildUntil_covers (hs : h.Sound t) (o : Nat) {fuel : Nat} (hfuel : h.debt t ≤ fuel) :
    (h.buildUntil t o fuel).table.frontier.covers o = true := by
  induction fuel generalizing h with
  | zero =>
    cases hf : h.table.frontier with
    | complete =>
      rw [buildUntil, hf]
      rfl
    | pending f =>
      have hle := hs.table.reach_le
      simp only [debt, hf] at hfuel
      rw [hf, Frontier.reach] at hle
      omega
  | succ fuel ih =>
    cases hc : h.table.frontier.covers o with
    | true => rwa [buildUntil_of_covers h t hc]
    | false =>
      rw [hs.buildUntil_succ hc]
      cases hf : h.table.frontier with
      | complete =>
        rw [hf] at hc
        cases hc
      | pending f =>
        have hlt := debt_build hs hf o
        exact ih (hs.build o) (by omega)

theorem debt_le (h : Highlighter) (t : Text) : h.debt t ≤ t.length + 1 := by
  unfold debt
  split <;> omega

/-- Whether all is analysed but for the batch that finds it out. -/
def owesLast (h : Highlighter) (t : Text) : Bool :=
  match h.table.frontier with
  | .complete => false
  | .pending f => decide (t.length ≤ f)

/-- What is analysed for one who waits. -/
def catchUp (h : Highlighter) (t : Text) (needed : Nat) : Highlighter :=
  (if h.owesLast t then h.build t needed else h).buildUntil t needed (t.length + 2)

/-- Who waits for a range lets it be analysed before it is highlighted. -/
theorem updateHighlight_eq_catchUp (ha : h.isAttachedTo d = true) (start stop : Nat) :
    h.updateHighlight d start stop true =
      (h.catchUp d.text (d.text.lineBoundary (min stop d.length))).ensureHighlighted d
        (min start (min stop d.length)) (min stop d.length) := by
  have later (g : Highlighter) (needed : Nat) :
      (if g.table.frontier.covers needed then
          g.ensureHighlighted d (min start (min stop d.length)) (min stop d.length)
        else (g.buildUntil d.text needed (d.length + 2)).ensureHighlighted d
          (min start (min stop d.length)) (min stop d.length)) =
        (g.buildUntil d.text needed (d.length + 2)).ensureHighlighted d
          (min start (min stop d.length)) (min stop d.length) := by
    split
    · rename_i hc
      rw [buildUntil_of_covers g d.text hc]
    · rfl
  rw [updateHighlight, if_pos ha]
  simp only [if_true]
  rw [later]
  rfl

theorem Sound.catchUp_start (hs : h.Sound t) (needed : Nat) :
    (if h.owesLast t then h.build t needed else h).Sound t :=
  iteInduction (motive := fun g : Highlighter => g.Sound t) (fun _ => hs.build needed) (fun _ => hs)

theorem Sound.catchUp_covers (hs : h.Sound t) (needed : Nat) :
    (h.catchUp t needed).table.frontier.covers needed = true := by
  refine buildUntil_covers (hs.catchUp_start needed) needed ?_
  exact (debt_le _ t).trans (Nat.le_succ _)

theorem covers_mono {F : Frontier} {m o : Nat} (hmo : m ≤ o) (hc : F.covers o = true) :
    F.covers m = true := by
  cases F with
  | complete => rfl
  | pending f =>
    rw [Frontier.covers, decide_eq_true_eq] at hc ⊢
    omega

/-- Who waits for a range to be highlighted finds it analysed and up to date. -/
theorem updateHighlight_synchronous (hs : h.Sound d.text) (ha : h.isAttachedTo d = true)
    (start stop : Nat) :
    (h.updateHighlight d start stop true).1.table.frontier.covers (min stop d.length) = true ∧
      ∀ p, start ≤ p → p < min stop d.length →
        (h.updateHighlight d start stop true).1.refresh.contains p = false := by
  have hc := covers_mono (le_lineBoundary d.text (Nat.min_le_right stop d.length))
    (hs.catchUp_covers (d.text.lineBoundary (min stop d.length)))
  rw [updateHighlight_eq_catchUp ha, (relieved_ensureHighlighted _ d _ _).table]
  refine ⟨hc, fun p hp hlt => Bool.eq_false_iff.2 fun hdirty => ?_⟩
  exact (refresh_ensureHighlighted (Nat.min_le_right _ _) hc p hdirty).2 ⟨by omega, hlt⟩

/-- Idle slices with batches of these sizes, each with what the clock will say of it, up to the
first that leaves no work; `none` if all of them leave some. -/
def idleAll : List (Nat × List Nat) → Work → Option Work
  | [], _ => none
  | (batchSize, estimates) :: sizes, (h, d) =>
    match { h with batchSize, estimates }.runIdleSlice d with
    | (true, s) => idleAll sizes s
    | (false, s) => some s

/-- A highlighter at work on a document, that does not forget what it is asked for. -/
structure Busy (Q : Nat → Prop) (d : Document) (s : Work) : Prop where
  document : d.SameButTags s.2
  attached : s.1.isAttachedTo d = true
  sound : s.1.Sound d.text
  attends : s.1.Attends Q d.text

/-- All is analysed, nothing is asked for any more, and what was is up to date. -/
structure Finished (Q : Nat → Prop) (h : Highlighter) : Prop where
  complete : h.table.frontier = .complete
  requests : h.requests = .empty
  clean : ∀ p, Q p → h.refresh.contains p = false

theorem Busy.resize (hs : Busy Q d s) (batchSize : Nat) (estimates : List Nat) :
    Busy Q d ({ s.1 with batchSize, estimates }, s.2) :=
  ⟨hs.document, hs.attached,
    ⟨hs.sound.table, hs.sound.trivial_table, hs.sound.refresh, hs.sound.requests,
      hs.sound.bufferLength⟩, hs.attends⟩

/-- What a slice analyses before it serves requests. -/
def advance (h : Highlighter) (t : Text) : Highlighter :=
  if h.table.isComplete then h else h.build t 0

def serveAll (s : Work) : Work := serve s.1.requests.intervals s

theorem runIdleSlice_eq_serveAll (ha : h.isAttachedTo d = true) :
    h.runIdleSlice d =
      ((serveAll (h.advance d.text, d)).1.hasPendingWork, serveAll (h.advance d.text, d)) :=
  if_pos ha

theorem Busy.advance (hs : Busy Q d s) : Busy Q d (s.1.advance s.2.text, s.2) := by
  rw [hs.document.text_eq]
  unfold Highlighter.advance
  split
  · exact hs
  · refine ⟨hs.document, ?_, hs.sound.build 0, hs.attends.build hs.sound 0⟩
    rw [isAttachedTo, (s.1.sameSetup_build d.text 0).attached]
    exact hs.attached

theorem Busy.request_bounds (hs : Busy Q d s) :
    ∀ r ∈ s.1.requests.intervals, r.start < r.stop ∧ r.stop ≤ d.text.length := by
  intro r hr
  have hpos := hs.sound.requests.1.1 r hr
  have hlast := hs.sound.requests.2 (r.stop - 1)
    (Region.contains_iff.2 ⟨r, hr, by omega, by omega⟩)
  exact ⟨hpos, by omega⟩

theorem Busy.serveAll (hs : Busy Q d s) : Busy Q d (serveAll s) := by
  have htext := hs.document.text_eq
  have hrelieved := relieved_serve s.1.requests.intervals s
  have hattends : (serve s.1.requests.intervals s).1.Attends Q s.2.text := by
    refine Attends.serve (fun r hr => ?_) (htext ▸ hs.sound) (htext ▸ hs.attends)
    rw [Document.length, htext]
    exact (hs.request_bounds r hr).2
  refine ⟨hs.document.trans (painted_serve _ s).document, ?_, hs.sound.relieved hrelieved,
    htext ▸ hattends⟩
  rw [isAttachedTo, Highlighter.serveAll, hrelieved.attached]
  exact hs.attached

/-- With all of the text analysed no request is left. -/
theorem Busy.requests_serveAll (hs : Busy Q d s) (hc : s.1.table.frontier = .complete) :
    (Highlighter.serveAll s).1.requests = .empty := by
  refine eq_empty_of_contains hs.serveAll.sound.requests.1 fun p => Bool.eq_false_iff.2 fun hp => ?_
  obtain ⟨hin, hout⟩ := requests_serve hc (fun r hr => (hs.request_bounds r hr).1) p hp
  obtain ⟨r, hr, hrp⟩ := Region.contains_iff.1 hin
  exact hout r hr hrp

/-- A highlighter that has no work left has finished. -/
theorem Busy.finished (hs : Busy Q d s) (hdone : s.1.hasPendingWork = false) : Finished Q s.1 := by
  rw [hasPendingWork, isAttached, beq_iff_eq.1 hs.attached, Option.isSome_some, Bool.true_and,
    Bool.or_eq_false_iff, Bool.not_eq_false', Bool.not_eq_false', isComplete, beq_iff_eq,
    Region.isEmpty, List.isEmpty_iff] at hdone
  obtain ⟨hc, hempty⟩ := hdone
  have hnone (p : Nat) : s.1.requests.contains p = false := by
    rw [Region.contains, hempty]
    rfl
  refine ⟨hc, eq_empty_of_contains hs.sound.requests.1 hnone, fun p hp => ?_⟩
  rcases hs.attends p hp with hasked | ⟨hclean, -⟩
  · rw [hnone] at hasked
    cases hasked
  · exact hclean

/-- An idle slice takes something off what is left to analyse, or finishes. -/
theorem Busy.runIdleSlice {s' : Work} {more : Bool} (hs : Busy Q d s)
    (hresult : s.1.runIdleSlice s.2 = (more, s')) :
    Busy Q d s' ∧ if more then s'.1.debt d.text < s.1.debt d.text else Finished Q s'.1 := by
  have ha : s.1.isAttachedTo s.2 = true := by
    rw [isAttachedTo, hs.document.id_eq]
    exact hs.attached
  have hserved := hs.advance.serveAll
  have htable : (Highlighter.serveAll (s.1.advance s.2.text, s.2)).1.table =
      (s.1.advance s.2.text).table := (relieved_serve _ _).table
  obtain ⟨rfl, rfl⟩ := Prod.mk.inj (hresult.symm.trans (runIdleSlice_eq_serveAll ha))
  refine ⟨hserved, ?_⟩
  split
  · rename_i hmore
    -- with all of the text analysed nothing would be left
    have hincomplete : (s.1.advance s.2.text).table.frontier ≠ .complete := by
      intro hc
      have hnone := hs.advance.requests_serveAll hc
      rw [hasPendingWork, htable, isComplete, hc, hnone, Bool.and_eq_true] at hmore
      cases hmore.2
    have hdebt : (Highlighter.serveAll (s.1.advance s.2.text, s.2)).1.debt d.text =
        (s.1.advance s.2.text).debt d.text := by rw [debt, htable, debt]
    rw [hdebt, hs.document.text_eq]
    rw [hs.document.text_eq] at hincomplete
    unfold Highlighter.advance at hincomplete ⊢
    split
    · rename_i hc
      rw [if_pos hc] at hincomplete
      exact absurd (beq_iff_eq.1 hc) hincomplete
    · rename_i hc
      cases hf : s.1.table.frontier with
      | complete => exact absurd (beq_iff_eq.2 hf) hc
      | pending f => exact debt_build hs.sound hf 0
  · rename_i hmore
    exact hserved.finished (Bool.not_eq_true _ ▸ hmore)

/-- So many slices finish, however the sizes of their batches change. -/
theorem Busy.idleAll {sizes : List (Nat × List Nat)} (hs : Busy Q d s)
    (hsizes : s.1.debt d.text < sizes.length) :
    ∃ s', idleAll sizes s = some s' ∧ Finished Q s'.1 := by
  induction sizes generalizing s with
  | nil => exact absurd hsizes (Nat.not_lt_zero _)
  | cons size sizes ih =>
    obtain ⟨batchSize, estimates⟩ := size
    have hsame : Highlighter.debt { s.1 with batchSize, estimates } d.text = s.1.debt d.text := rfl
    rw [Highlighter.idleAll]
    cases hresult : Highlighter.runIdleSlice { s.1 with batchSize, estimates } s.2 with
    | mk more s' =>
      obtain ⟨hnext, hcases⟩ := (hs.resize batchSize estimates).runIdleSlice hresult
      cases more with
      | false => exact ⟨s', rfl, hcases⟩
      | true =>
        rw [if_pos rfl, hsame] at hcases
        rw [List.length_cons] at hsizes
        exact ih hnext (by omega)

theorem Busy.idleLoop {b : Buffer Highlighter} {fuel : Nat} (hon : b.highlightSyntax = true)
    (hs : Busy Q d (b.observer, b.doc)) (hfuel : b.observer.debt d.text < fuel) :
    Finished Q (b.idleLoop fuel).observer := by
  induction fuel generalizing b with
  | zero => exact absurd hfuel (Nat.not_lt_zero _)
  | succ fuel ih =>
    have hslice : b.runIdleSlice = ((b.observer.runIdleSlice b.doc).1,
        { b with
          observer := (b.observer.runIdleSlice b.doc).2.1
          doc := (b.observer.runIdleSlice b.doc).2.2 }) := by
      rw [Buffer.runIdleSlice, if_pos hon]
      rfl
    rw [Buffer.idleLoop, hslice]
    cases hresult : b.observer.runIdleSlice b.doc with
    | mk more s' =>
      obtain ⟨hnext, hcases⟩ := hs.runIdleSlice hresult
      cases more with
      | false => exact hcases
      | true =>
        rw [if_pos rfl] at hcases
        exact ih (b := { b with observer := s'.1, doc := s'.2 }) hon hnext
          (Nat.lt_of_lt_of_le hcases (Nat.le_of_lt_succ hfuel))

/-- In every state that an attached highlighter comes to, a batch of a text that is not analysed
brings the frontier forward or finds all analysed, so that batches up to an offset come to cover it.
Idle slices, of whatever sizes, come to an end, and with it to what was asked for. What someone
waits for is highlighted. -/
theorem finishes [PatternEngine] (hs : Reachable (h, d)) (ha : h.isAttachedTo d = true) :
    (∀ f, h.table.frontier = .pending f → ∀ batchSize estimates needed,
      let next := ({ h with batchSize, estimates }.build d.text needed).table.frontier
      next = .complete ∨ ∃ f', next = .pending f' ∧ f < f' ∧ f' ≤ d.length) ∧
    (∀ batchSize estimates o, ({ h with batchSize, estimates }.buildUntil d.text o
      (d.length + 2)).table.frontier.covers o = true) ∧
    (∀ sizes : List (Nat × List Nat), d.length + 2 ≤ sizes.length →
      ∃ s, idleAll sizes (h, d) = some s ∧ Finished (h.requests.contains · = true) s.1) ∧
    (∀ b : Buffer Highlighter, b.observer = h → b.doc = d → b.highlightSyntax = true →
      Finished (h.requests.contains · = true) b.runUntilIdle.observer) ∧
    ∀ start stop, let g := (h.updateHighlight d start stop true).1
      g.table.frontier.covers (min stop d.length) = true ∧
        ∀ p, start ≤ p → p < min stop d.length → g.refresh.contains p = false := by
  have hsound := hs.keepsUp.sound ha
  have hresized (batchSize : Nat) (estimates : List Nat) :
      ({ h with batchSize, estimates } : Highlighter).Sound d.text :=
    (hs.step (.resize h d batchSize estimates)).keepsUp.sound ha
  have hbusy : Busy (h.requests.contains · = true) d (h, d) :=
    ⟨.refl d, ha, hsound, fun p hp => .inl hp⟩
  have hdebt := h.debt_le d.text
  refine ⟨?_, ?_, ?_, ?_, fun start stop => updateHighlight_synchronous hsound ha start stop⟩
  · intro f hf batchSize estimates needed next
    obtain ⟨hnext, hprogress⟩ := sound_build (hresized batchSize estimates).table needed
    have hle := hnext.reach_le
    cases hg : next with
    | complete => exact .inl rfl
    | pending f' =>
      have hg : (Highlighter.build { h with batchSize, estimates } d.text needed).table.frontier =
        .pending f' := hg
      have hf : ({ h with batchSize, estimates } : Highlighter).table.frontier = .pending f := hf
      rw [hg, hf, Frontier.reach, Frontier.reach] at hprogress
      rw [hg, Frontier.reach] at hle
      exact .inr ⟨f', rfl, hprogress.resolve_left (by simp), hle⟩
  · intro batchSize estimates o
    refine buildUntil_covers (hresized batchSize estimates) o ?_
    have := debt_le { h with batchSize, estimates } d.text
    rw [Document.length]
    omega
  · intro sizes hsizes
    refine hbusy.idleAll ?_
    rw [Document.length] at hsizes
    change h.debt d.text < _
    omega
  · rintro b rfl rfl hon
    refine Busy.idleLoop hon hbusy ?_
    rw [Document.length]
    omega

open scoped Regex

/-- Sizes of batches, the first of which is too large for its time. -/
def falteringSizes : List (Nat × List Nat) :=
  [(4096, [2, 1]), (1, []), (2, [0]), (1, []), (1, [7]), (1, []), (1, []), (1, [])]

/-- A highlighter that is asked for strings between bars before it has looked for any. -/
def barRequest : Work :=
  let s := ((ofConfig {}).tune (.addPattern
    (.delimited "bar" "string" "\\|" "\\|" none))).attach (.new 0 ['a', '|', 'b', '\n', '|', 'c'])
  s.1.updateHighlight s.2 0 3 false

theorem finishes_barRequest :
    (Reachable barRequest ∧ barRequest.1.isAttachedTo barRequest.2 = true) ∧
      ∃ s, idleAll falteringSizes barRequest = some s ∧
        Finished (barRequest.1.requests.contains · = true) s.1 := by
  obtain ⟨h, hh⟩ : ∃ h, h = (ofConfig {}).tune (.addPattern
    (.delimited "bar" "string" "\\|" "\\|" none)) := ⟨_, rfl⟩
  obtain ⟨d, hd⟩ : ∃ d : Document, d = .new 0 ['a', '|', 'b', '\n', '|', 'c'] := ⟨_, rfl⟩
  have heq : barRequest = (h.attach d).1.updateHighlight (h.attach d).2 0 3 false := by
    rw [barRequest, hh, hd]
  have hattach : (h.attach d).1.attached = some d.id := (h.sound_attach d).2
  have hbefore : d.SameButTags (h.attach d).2 := (painted_resolveTags _ d).document
  obtain ⟨needs, hpainted⟩ :=
    (h.attach d).1.updateHighlight_eq (h.attach d).2 0 3 false
  have hafter : (h.attach d).2.SameButTags barRequest.2 := heq ▸ hpainted.document
  have hs : Reachable barRequest := by
    rw [heq, hh]
    exact (((Reachable.fresh {} d).step (.tune _ d _)).step (.attach _ d)).step
      (.updateHighlight _ _ 0 3 false)
  have ha : barRequest.1.isAttachedTo barRequest.2 = true := by
    rw [isAttachedTo, hafter.id_eq, hbefore.id_eq, ← hattach, heq, hpainted.setup.attached,
      ((h.attach d).1.sameSetup_buildAll _ needs).attached]
    exact beq_self_eq_true _
  have hlen : barRequest.2.length + 2 ≤ falteringSizes.length := by
    rw [Document.length, hafter.text_eq, hbefore.text_eq, hd]
    decide
  obtain ⟨-, -, hidle, -⟩ := finishes hs ha
  exact ⟨⟨hs, ha⟩, hidle _ hlen⟩

end Highlighter
end CodeBuffer
