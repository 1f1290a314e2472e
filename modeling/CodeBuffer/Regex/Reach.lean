import CodeBuffer.Regex.Frontier

namespace CodeBuffer.Regex.Automaton

variable {β : Type} {a : Automaton} {p : Place} {ahead : CharSet → Nat → Option Nat}

/-- A node that leads in so many steps, none of which takes a character, to an end or to a thread
that goes on to one. -/
inductive Leads (a : Automaton) (p : Place) (ahead : CharSet → Nat → Option Nat) :
    Nat → Nat → Prop
  | accept {i} : a.nodes[i]? = some .accept → Leads a p ahead 0 i
  | consume {i s next} : a.nodes[i]? = some (.consume s next) → (ahead s next).isSome →
    Leads a p ahead 0 i
  | silent {i j k} : j ∈ a.silent p i → Leads a p ahead k j → Leads a p ahead (k + 1) i

/-- No match goes through the node. -/
def Dead (a : Automaton) (p : Place) (ahead : CharSet → Nat → Option Nat) (i : Nat) : Prop :=
  ∀ k, ¬ a.Leads p ahead k i

theorem Dead.silent {i j : Nat} (h : a.Dead p ahead i) (hj : j ∈ a.silent p i) :
    a.Dead p ahead j :=
  fun k hk => h (k + 1) (.silent hj hk)

/-- An exploration that finds no value shows that all nodes it passed are dead, if every node that
was seen before leads on only through nodes that are still on the stack. -/
theorem dead_of_value_eq_none {stack : List (Nat × β)} {seen : Std.HashSet Nat}
    {threads : List (Thread β)}
    (hv : (a.explore p stack seen threads).value ahead = none)
    (hseen : ∀ i ∈ seen, ∀ k, a.Leads p ahead k i →
      ∃ e ∈ stack, ∃ l < k, a.Leads p ahead l e.1) :
    ∀ i ∈ (a.explore p stack seen threads).seen, a.Dead p ahead i := by
  fun_induction explore a p stack seen threads with
  | case1 =>
    intro i hi k hk
    simpa using hseen i hi k hk
  | case2 seen threads i tag stack h ih =>
    refine ih hv ?_
    have key : ∀ k j, j ∈ seen → a.Leads p ahead k j →
        ∃ e ∈ stack, ∃ l < k, a.Leads p ahead l e.1 := by
      intro k
      induction k using Nat.strongRecOn with
      | ind k ihk =>
        intro j hj hk
        obtain ⟨e, he, l, hl, hle⟩ := hseen j hj k hk
        rcases List.mem_cons.1 he with rfl | he
        · obtain ⟨e', he', m, hm, hme⟩ := ihk l hl i (Std.HashSet.mem_iff_contains.2 h) hle
          exact ⟨e', he', m, Nat.lt_trans hm hl, hme⟩
        · exact ⟨e, he, l, hl, hle⟩
    exact fun j hj k hk => key k j hj hk
  | case3 => simp [Frontier.value] at hv
  | case4 seen threads i tag stack h s next hn ih =>
    have hdead : ∀ k, ¬ a.Leads p ahead k i := by
      rw [value_explore, Option.or_eq_none_iff, Thread.best_cons, Option.or_eq_none_iff] at hv
      have hnone : ahead s next = none := by simpa [Thread.value] using hv.1.2
      intro k hk
      cases hk <;> simp_all [Automaton.silent]
    refine ih hv ?_
    intro j hj k hk
    rcases Std.HashSet.mem_insert.1 hj with hj | hj
    · exact absurd (eq_of_beq hj ▸ hk) (hdead k)
    · obtain ⟨e, he, l, hl, hle⟩ := hseen j hj k hk
      rcases List.mem_cons.1 he with rfl | he
      · exact absurd hle (hdead l)
      · exact ⟨e, he, l, hl, hle⟩
  | case5 seen threads i tag stack h ha hc ih =>
    have hstep : ∀ k, a.Leads p ahead k i →
        ∃ e ∈ (a.silent p i).map (·, tag) ++ stack, ∃ l < k, a.Leads p ahead l e.1 := by
      intro k hk
      cases hk with
      | accept hn => exact absurd hn ha
      | consume hn _ => exact absurd hn (hc _ _)
      | silent hj hk => exact ⟨(_, tag), by simp [hj], _, Nat.lt_succ_self _, hk⟩
    refine ih hv ?_
    intro j hj k hk
    rcases Std.HashSet.mem_insert.1 hj with hj | hj
    · exact hstep k (eq_of_beq hj ▸ hk)
    · obtain ⟨e, he, l, hl, hle⟩ := hseen j hj k hk
      rcases List.mem_cons.1 he with rfl | he
      · obtain ⟨e', he', m, hm, hme⟩ := hstep l hle
        exact ⟨e', he', m, Nat.lt_trans hm hl, hme⟩
      · exact ⟨e, List.mem_append_right _ he, l, hl, hle⟩

/-- Stacks that hold the same nodes in the same order, dead ones left out of account. -/
inductive Alike (dead : Nat → Prop) : List (Nat × β) → List (Nat × β) → Prop
  | nil : Alike dead [] []
  | both (e : Nat × β) {s t} : Alike dead s t → Alike dead (e :: s) (e :: t)
  | left {e : Nat × β} {s t} : dead e.1 → Alike dead s t → Alike dead (e :: s) t
  | right {e : Nat × β} {s t} : dead e.1 → Alike dead s t → Alike dead s (e :: t)

theorem Alike.refl {dead : Nat → Prop} (s : List (Nat × β)) : Alike dead s s := by
  induction s with
  | nil => exact .nil
  | cons e s ih => exact .both e ih

theorem Alike.symm {dead : Nat → Prop} {s t : List (Nat × β)} (h : Alike dead s t) :
    Alike dead t s := by
  induction h with
  | nil => exact .nil
  | both e _ ih => exact .both e ih
  | left hd _ ih => exact .right hd ih
  | right hd _ ih => exact .left hd ih

theorem Alike.push {dead : Nat → Prop} {s t : List (Nat × β)} (h : Alike dead s t)
    (new : List (Nat × β)) : Alike dead (new ++ s) (new ++ t) := by
  induction new with
  | nil => exact h
  | cons e new ih => exact .both e ih

theorem Alike.pushLeft {dead : Nat → Prop} {s t : List (Nat × β)} (h : Alike dead s t)
    {new : List (Nat × β)} (hnew : ∀ e ∈ new, dead e.1) : Alike dead (new ++ s) t := by
  induction new with
  | nil => exact h
  | cons e new ih =>
    exact .left (hnew e List.mem_cons_self) (ih fun e he => hnew e (List.mem_cons_of_mem _ he))

/-- Visiting a dead node brings only dead ones. -/
theorem exists_explore_dead {i : Nat} (tag : β) (stack : List (Nat × β))
    (seen : Std.HashSet Nat) (threads : List (Thread β)) (hd : a.Dead p ahead i) :
    ∃ new seen' threads', (∀ e ∈ new, a.Dead p ahead e.1) ∧
      (∀ j, ¬ a.Dead p ahead j → (j ∈ seen' ↔ j ∈ seen)) ∧
      Thread.best ahead threads' = Thread.best ahead threads ∧
      (new ++ stack).length + 2 * a.unseen seen' < ((i, tag) :: stack).length + 2 * a.unseen seen ∧
      a.explore p ((i, tag) :: stack) seen threads = a.explore p (new ++ stack) seen' threads' := by
  have hmem (j : Nat) (hj : ¬ a.Dead p ahead j) : j ∈ seen.insert i ↔ j ∈ seen := by
    rw [Std.HashSet.mem_insert]
    refine ⟨fun h => h.resolve_left ?_, Or.inr⟩
    intro h
    exact hj (eq_of_beq h ▸ hd)
  by_cases h : seen.contains i = true
  · exact ⟨[], seen, threads, by simp, by simp, rfl, by simp, explore_seen _ _ h⟩
  · have h := Bool.eq_false_iff.2 h
    have hle := unseen_insert_le a seen i
    match hn : a.nodes[i]? with
    | some .accept => exact absurd (.accept hn) (hd 0)
    | some (.consume s next) =>
      refine ⟨[], seen.insert i, ⟨s, next, tag⟩ :: threads, by simp, hmem, ?_, ?_,
        explore_consume _ _ h hn⟩
      · have : ahead s next = none := by
          match hs : ahead s next with
          | none => rfl
          | some n => exact absurd (.consume hn (by simp [hs])) (hd 0)
        simp [Thread.best_cons, Thread.value, this]
      · simp only [List.nil_append, List.length_cons]
        omega
    | none | some (.check _ _) | some (.fork _ _) =>
      refine ⟨(a.silent p i).map (·, tag), seen.insert i, threads, ?_, hmem, rfl, ?_,
        explore_silent _ _ h (by simp [hn]) (by simp [hn])⟩
      · intro e he
        obtain ⟨j, hj, rfl⟩ := List.mem_map.1 he
        exact hd.silent hj
      · have := silent_measure (a := a) (p := p) h
        simp only [List.length_append, List.length_map, List.length_cons]
        omega

/-- Dead nodes, on the stack or seen before, make no difference. -/
theorem value_explore_congr {s t : List (Nat × β)} {seen seen' : Std.HashSet Nat}
    {threads threads' : List (Thread β)} (hst : Alike (a.Dead p ahead) s t)
    (hseen : ∀ i, ¬ a.Dead p ahead i → (i ∈ seen ↔ i ∈ seen'))
    (hbest : Thread.best ahead threads = Thread.best ahead threads') :
    (a.explore p s seen threads).value ahead = (a.explore p t seen' threads').value ahead := by
  generalize hm : s.length + 2 * a.unseen seen + (t.length + 2 * a.unseen seen') = m
  induction m using Nat.strongRecOn generalizing s t seen seen' threads threads' with
  | ind m ih =>
    have left {i : Nat} {tag : β} {s t : List (Nat × β)} {seen seen' : Std.HashSet Nat}
        {threads threads' : List (Thread β)} (hd : a.Dead p ahead i)
        (hst : Alike (a.Dead p ahead) s t)
        (hseen : ∀ i, ¬ a.Dead p ahead i → (i ∈ seen ↔ i ∈ seen'))
        (hbest : Thread.best ahead threads = Thread.best ahead threads')
        (hm : ((i, tag) :: s).length + 2 * a.unseen seen + (t.length + 2 * a.unseen seen') = m) :
        (a.explore p ((i, tag) :: s) seen threads).value ahead =
          (a.explore p t seen' threads').value ahead := by
      obtain ⟨new, seen₁, threads₁, hnew, hseen₁, hbest₁, hlt, heq⟩ :=
        exists_explore_dead tag s seen threads hd
      rw [heq]
      exact ih _ (by omega) (hst.pushLeft hnew)
        (fun i hi => (hseen₁ i hi).trans (hseen i hi)) (hbest₁.trans hbest) rfl
    cases hst with
    | nil => simp [explore_nil, Frontier.value, hbest]
    | left hd hst => exact left hd hst hseen hbest hm
    | right hd hst =>
      refine (left hd hst.symm (fun i hi => (hseen i hi).symm) hbest.symm ?_).symm
      rw [Nat.add_comm, hm]
    | @both e s t hst =>
      obtain ⟨i, tag⟩ := e
      by_cases hd : a.Dead p ahead i
      · exact left hd (.right hd hst) hseen hbest hm
      have hi := hseen i hd
      simp only [Std.HashSet.mem_iff_contains] at hi
      simp only [List.length_cons] at hm
      by_cases h : seen.contains i = true
      · rw [explore_seen _ _ h, explore_seen _ _ (hi.1 h)]
        exact ih _ (by omega) hst hseen hbest rfl
      · have h' := Bool.eq_false_iff.2 (mt hi.2 h)
        have h := Bool.eq_false_iff.2 h
        have hle := unseen_insert_le a seen i
        have hle' := unseen_insert_le a seen' i
        have hins (j : Nat) (hj : ¬ a.Dead p ahead j) :
            j ∈ seen.insert i ↔ j ∈ seen'.insert i := by
          simp only [Std.HashSet.mem_insert, hseen j hj]
        by_cases haccept : a.nodes[i]? = some .accept
        · rw [explore_accept _ _ h haccept, explore_accept _ _ h' haccept]
          simp [Frontier.value, hbest]
        by_cases hconsume : ∃ s next, a.nodes[i]? = some (.consume s next)
        · obtain ⟨s, next, hn⟩ := hconsume
          rw [explore_consume _ _ h hn, explore_consume _ _ h' hn]
          exact ih _ (by omega) hst hins (by simp [Thread.best_cons, hbest, Thread.value]) rfl
        · have hsilent (s : CharSet) (next : Nat) : a.nodes[i]? ≠ some (.consume s next) :=
            fun hn => hconsume ⟨s, next, hn⟩
          rw [explore_silent _ _ h haccept hsilent, explore_silent _ _ h' haccept hsilent]
          have hm₁ := silent_measure (a := a) (p := p) h
          have hm₂ := silent_measure (a := a) (p := p) h'
          refine ih _ ?_ (hst.push _) hins hbest rfl
          simp only [List.length_append, List.length_map]
          omega

/-- Exploring several nodes tells what exploring one after the other tells, even if dead nodes are
taken for seen. -/
theorem value_explore_eq_findSome? (stack : List (Nat × β)) {seen : Std.HashSet Nat}
    (hseen : ∀ i ∈ seen, a.Dead p ahead i) :
    (a.explore p stack seen []).value ahead =
      stack.findSome? fun e => (a.explore p [e] ∅ []).value ahead := by
  induction stack generalizing seen with
  | nil => simp [explore_nil, Frontier.value, Thread.best]
  | cons e stack ih =>
    have hsingle : (a.explore p [e] seen []).value ahead = (a.explore p [e] ∅ []).value ahead :=
      value_explore_congr (.refl _) (fun i hi => by
        simp only [Std.HashSet.not_mem_empty, iff_false]
        exact fun h => hi (hseen i h)) rfl
    have happ := explore_append (a := a) (p := p) [e] stack seen []
    rw [List.singleton_append] at happ
    rw [List.findSome?_cons, ← hsingle, happ]
    split
    · rename_i h
      obtain ⟨tag, htag⟩ := Option.isSome_iff_exists.1 h
      cases hv : (a.explore p [e] seen []).value ahead with
      | some r => rfl
      | none => simp [Frontier.value, htag] at hv
    · rename_i h
      rw [value_explore]
      have hvalue : (a.explore p [e] seen []).value ahead =
          Thread.best ahead (a.explore p [e] seen []).threads := by
        simp [Frontier.value, Option.not_isSome_iff_eq_none.1 h]
      rw [← hvalue]
      cases hv : (a.explore p [e] seen []).value ahead with
      | some r => rfl
      | none =>
        rw [Option.none_or]
        refine ih (dead_of_value_eq_none hv ?_)
        intro i hi k hk
        exact absurd hk (hseen i hi k)

end CodeBuffer.Regex.Automaton
