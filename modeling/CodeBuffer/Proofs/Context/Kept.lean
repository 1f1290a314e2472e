import CodeBuffer.Proofs.Context.Retuned

namespace CodeBuffer

open Highlighter

namespace Document

variable {N : String → Prop} {d d' d'' : Document} {n : String} {id : TagId}

namespace Spares

theorem length_eq (h : d.Spares N d') : d'.length = d.length := congrArg List.length h.text

theorem trans (h : d.Spares N d') (h' : d'.Spares N d'') : d.Spares N d'' := by
  refine ⟨h'.text.trans h.text, h'.id.trans h.id, fun id n hn => ?_, fun id n hN hn => ?_,
    fun ht => ?_, fun n hN p => ?_⟩
  · exact h'.names id n (h.names id n hn)
  · rw [h'.styles id n hN (h.names id n hn)]
    exact h.styles id n hN hn
  · have htidy := h'.tidy (h.length_eq.symm ▸ h.tidy ht)
    rwa [h.length_eq] at htidy
  · rw [h'.marks n hN p]
    exact h.marks n hN p

end Spares

/-- The ranges of a tag with another name change. -/
theorem spares_modifyRanges (hid : d.tags.name? id = some n) (hn : ¬N n) {f : Region → Region}
    (hf : ∀ r, r.Below d.length → (f r).Below d.length) :
    d.Spares N { d with tags := d.tags.modifyRanges id f } := by
  refine ⟨rfl, rfl, fun id' m hm => ?_, fun id' m _ _ => ?_, fun ht => ht.modifyRanges hf id,
    fun m hm p => ?_⟩
  · rw [TagTable.name?_modifyRanges]
    exact hm
  · rw [TagTable.style?_modifyRanges]
  · apply TagTable.marks_modifyRanges_of_ne
    rw [hid, ne_eq, Option.some.injEq]
    rintro rfl
    exact hn hm

/-- A tag with another name is made. -/
theorem spares_createTag (hn : ¬N n) (style : Option String) :
    d.Spares N (d.createTag n style).2 := by
  refine ⟨rfl, rfl, fun id m hm => ?_, fun id m hN hm => ?_, fun ht => ht.create n style,
    fun m _ p => TagTable.marks_create⟩
  · exact TagTable.name?_create hm n style
  · apply TagTable.style?_create hm
    left
    rintro rfl
    exact hn hN

theorem spares_applyTag (hid : d.tags.name? id = some n) (hn : ¬N n) (start stop : Nat) :
    d.Spares N (d.applyTag id start stop) :=
  spares_modifyRanges hid hn fun _ hr => hr.add (Nat.min_le_right _ _) _

theorem spares_clearTag (hid : d.tags.name? id = some n) (hn : ¬N n) :
    d.Spares N (d.clearTag id) :=
  spares_modifyRanges hid hn fun _ _ => Region.below_empty _

end Document

namespace Buffer

variable {N : String → Prop}

theorem spares_tagBrackets (hN : ¬N bracketTag) (d : Document) (bracket partner : Nat) :
    d.Spares N (tagBrackets d bracket partner) := by
  have hname := d.tags.name?_create_self bracketTag (some bracketTag)
  have hcreated := d.spares_createTag hN (some bracketTag)
  have hfirst := Document.spares_applyTag (d := (d.createTag bracketTag (some bracketTag)).2) hname
    hN bracket (bracket + 1)
  have hname' := hfirst.names _ _ hname
  have hsecond := Document.spares_applyTag hname' hN partner (partner + 1)
  exact (hcreated.trans hfirst).trans hsecond

/-- Whatever is done with a buffer, its highlighter stays reliable, if nobody else touches its
tags. -/
theorem preserves_reliable {B : Prop} (hN : B → ¬N bracketTag) :
    Preserves B (Document.Spares N) (Reliable N) (AwayIn N) where
  same _ _ htext hid htags := Document.spares_of_tags htext hid htags
  clearTag hB _ _ htag := Document.spares_clearTag (TagTable.name?_of_lookup? htag) (hN hB)
  tagBrackets hB := spares_tagBrackets (hN hB)
  on_change _ _ _ hs hd := hs.spares hd
  off_change _ _ _ hs hd := hs.spares hd
  on_edit _ _ _ _ hs he := hs.editedBy he
  off_edit _ _ _ _ hs he := hs.movedBy he
  attach _ _ hs := hs.attach
  detach _ _ hs := hs.tagged.detach hs.attached
  on_resize _ _ batchSize estimates hs := hs.resize batchSize estimates
  off_resize _ _ batchSize estimates hs := hs.resize batchSize estimates
  on_scheme _ _ hs := hs.schemeChanged
  off_scheme _ _ hs := hs.schemeChanged
  update _ _ start stop synchronous hs :=
    (working_reliable N).updateHighlight hs start stop synchronous
  idle _ _ hs := (working_reliable N).runIdleSlice hs

theorem keeps_reliable [PatternEngine] (hN : ¬N bracketTag) :
    Keeps (Document.Spares N) (Reliable N) (AwayIn N) where
  toPreserves := preserves_reliable fun _ => hN
  on_tune _ _ cs hs := (hs.toFaithful.tuneAll cs).syncTags
  off_tune _ _ cs hs := hs.tuneAll cs

end Buffer

namespace Highlighter

variable [PatternEngine] {s s' : Work}

theorem Step.registered (hstep : Step s s') (hs : s.1.Registered) : s'.1.Registered := by
  cases hstep with
  | tune h d c => exact hs.tune c
  | resize h d batchSize estimates => exact hs
  | attach h d => exact hs.attach d
  | detach h d => exact hs.detach d
  | edit he hid =>
    rename_i h d d' e
    refine iteInduction (motive := fun g : Highlighter => g.Registered) (fun _ => ?_) (fun _ => hs)
    obtain ⟨_, _, _, _, _, heq⟩ := h.edited_same d'.text e
    rw [heq]
    exact hs
  | unwatched _ d d' => exact hs
  | annotate h _ _ => exact hs
  | syncTags h d =>
    refine iteInduction (motive := fun s : Work => s.1.Registered) (fun _ => ?_) (fun _ => hs)
    exact hs.sameButTags (h.sameButTags_resolveTags d)
  | schemeChanged h d =>
    exact iteInduction (motive := fun g : Highlighter => g.Registered) (fun _ => hs) (fun _ => hs)
  | updateHighlight h d start stop synchronous =>
    exact working_registered.updateHighlight hs start stop synchronous
  | runIdleSlice h d => exact working_registered.runIdleSlice hs

/-- The patterns of a highlighter have different names and keys at all times. -/
theorem Reachable.registered (hs : Reachable s) : s.1.Registered := by
  induction hs with
  | fresh config d => exact listed_nil 0
  | step _ hstep ih => exact hstep.registered ih

end Highlighter
end CodeBuffer
