import CodeBuffer.Proofs.Observing.Quiet

namespace CodeBuffer

namespace Action

/-- The long text is the short one with the text of the action at its place. -/
def Widens (a : Action) (short long : Text) : Prop :=
  ∃ before behind : Text, before.length = a.start ∧ short = before ++ behind ∧
    long = before ++ a.text ++ behind

/-- The action made the second text of the first one. -/
def Leads (a : Action) (t t' : Text) : Prop :=
  a.stop = a.start + a.text.length ∧
    match a.kind with
    | .insertion => a.Widens t t'
    | .deletion => a.Widens t' t

theorem leads_insertion {t : Text} {o : Nat} (h : o ≤ t.length) (s : Text)
    (selection : Option (Nat × Nat)) :
    (Action.mk .insertion o (o + s.length) s selection).Leads t (t.take o ++ s ++ t.drop o) :=
  ⟨rfl, t.take o, t.drop o, List.length_take_of_le h, (List.take_append_drop o t).symm, rfl⟩

theorem leads_deletion {t : Text} {start stop : Nat} (h : start ≤ stop) (hs : stop ≤ t.length)
    (selection : Option (Nat × Nat)) :
    (Action.mk .deletion start stop (t.slice start stop) selection).Leads t
      (t.take start ++ t.drop stop) := by
  have hstop : stop = start + (t.slice start stop).length := by
    rw [Text.length_slice hs]
    omega
  have hfirst : t.take start ++ t.slice start stop = t.take stop := by
    rw [Text.slice, ← Nat.min_eq_left h, ← List.take_take, Nat.min_eq_left h]
    exact List.take_append_drop start (t.take stop)
  refine ⟨hstop, t.take start, t.drop stop, List.length_take_of_le (by omega), rfl, ?_⟩
  rw [hfirst, List.take_append_drop]

variable {a b c : Action} {t t' t'' : Text}

theorem Leads.merge_insertions (ha : a.Leads t t') (hb : b.Leads t' t'') (hka : a.kind = .insertion)
    (hkb : b.kind = .insertion) (h : a.stop = b.start) :
    Leads { a with text := a.text ++ b.text, stop := b.stop } t t'' := by
  rw [Leads, hka] at ha
  rw [Leads, hkb] at hb
  obtain ⟨hstop, x, y, hx, rfl, rfl⟩ := ha
  obtain ⟨hstop', u, v, hu, heq, rfl⟩ := hb
  obtain ⟨rfl, rfl⟩ := List.append_inj heq (by rw [List.length_append]; omega)
  rw [Leads]
  simp only [hka, List.length_append]
  exact ⟨by omega, x, y, hx, rfl, by simp⟩

theorem Leads.merge_forward (ha : a.Leads t t') (hb : b.Leads t' t'') (hka : a.kind = .deletion)
    (hkb : b.kind = .deletion) (h : a.start = b.start) :
    Leads { a with text := a.text ++ b.text, stop := a.stop + (b.stop - b.start) } t t'' := by
  rw [Leads, hka] at ha
  rw [Leads, hkb] at hb
  obtain ⟨hstop, x, y, hx, rfl, rfl⟩ := ha
  obtain ⟨hstop', u, v, hu, rfl, heq⟩ := hb
  rw [List.append_assoc] at heq
  obtain ⟨rfl, rfl⟩ := List.append_inj heq (by omega)
  rw [Leads]
  simp only [hka, List.length_append]
  exact ⟨by omega, x, v, hx, rfl, by simp⟩

theorem Leads.merge_backward (ha : a.Leads t t') (hb : b.Leads t' t'') (hka : a.kind = .deletion)
    (hkb : b.kind = .deletion) (h : a.start = b.stop) :
    Leads { a with text := b.text ++ a.text, start := b.start } t t'' := by
  rw [Leads, hka] at ha
  rw [Leads, hkb] at hb
  obtain ⟨hstop, x, y, hx, rfl, rfl⟩ := ha
  obtain ⟨hstop', u, v, hu, rfl, heq⟩ := hb
  obtain ⟨rfl, rfl⟩ := List.append_inj heq (by rw [List.length_append]; omega)
  rw [Leads]
  simp only [hka, List.length_append]
  exact ⟨by omega, u, y, hu, rfl, by simp⟩

/-- Two edits that are merged lead where they led one after the other. -/
theorem Leads.merge (ha : a.Leads t t') (hb : b.Leads t' t'') (h : a.merge? b = some c) :
    c.Leads t t'' := by
  unfold merge? at h
  split at h
  · rename_i hka hkb
    split at h
    · rename_i hjoin
      rw [← Option.some.inj h]
      exact ha.merge_insertions hb hka hkb hjoin.1
    · cases h
  · rename_i hka hkb
    split at h
    · split at h
      · rename_i hjoin
        rw [← Option.some.inj h]
        exact ha.merge_forward hb hka hkb hjoin.1
      · cases h
    · split at h
      · split at h
        · rename_i hjoin
          rw [← Option.some.inj h]
          exact ha.merge_backward hb hka hkb hjoin.1
        · cases h
      · cases h
    · cases h
  · cases h

end Action

/-- Actions that lead from text to text. -/
inductive LeadAll : List Action → Text → Text → Prop where
  | nil (t : Text) : LeadAll [] t t
  | cons {a : Action} {as : List Action} {t t' t'' : Text} (first : a.Leads t t')
      (rest : LeadAll as t' t'') : LeadAll (a :: as) t t''

theorem LeadAll.eq_of_nil {t t' : Text} (h : LeadAll [] t t') : t' = t := by
  cases h
  rfl

theorem LeadAll.snoc {as : List Action} {a : Action} {t t' t'' : Text} (h : LeadAll as t t')
    (ha : a.Leads t' t'') : LeadAll (as ++ [a]) t t'' := by
  induction h with
  | nil => exact .cons ha (.nil _)
  | cons first _ ih => exact .cons first (ih ha)

/-- A step made of two leads where they led. -/
theorem LeadAll.merge {g h both : Step} {t t' t'' : Text} (hg : LeadAll g.actions t t')
    (hh : LeadAll h.actions t' t'') (hm : g.merge? h = some both) : LeadAll both.actions t t'' := by
  obtain ⟨as, closed⟩ := g
  obtain ⟨bs, closed'⟩ := h
  unfold Step.merge? at hm
  split at hm
  · rename_i a b ha hb
    cases ha
    cases hb
    split at hm
    · cases hm
    · obtain ⟨c, hc, rfl⟩ := Option.map_eq_some_iff.1 hm
      obtain - | ⟨first, rest⟩ := hg
      obtain - | ⟨first', rest'⟩ := hh
      cases rest
      cases rest'
      exact .cons (first.merge first' hc) (.nil _)
  · cases hm

end CodeBuffer
