import CodeBuffer.Interval
import CodeBuffer.Text.Line

namespace CodeBuffer

/-- A place between two characters of a text. The text before it is read backwards. -/
structure Place where
  offset : Nat
  before : Text
  after : Text

namespace Place

/-- The place in front of a text that begins at an offset. -/
def front (offset : Nat) (t : Text) : Place := ⟨offset, [], t⟩

/-- So many characters on, or at the end of the text. -/
def forward : Place → Nat → Place
  | p, 0 => p
  | ⟨o, before, c :: after⟩, n + 1 => forward ⟨o + 1, c :: before, after⟩ n
  | ⟨o, before, []⟩, _ + 1 => ⟨o, before, []⟩

/-- The same place in a text that ends at `stop`. -/
def endingAt (p : Place) (stop : Nat) : Place := { p with after := p.after.take (stop - p.offset) }

/-- The match with the least start at or behind a place, where `lengthAt` tells the length of the
match at a place. -/
def leastMatch (lengthAt : Place → Option Nat) (offset : Nat) (before : Text) :
    Text → Option Interval
  | [] => (lengthAt ⟨offset, before, []⟩).map fun n => ⟨offset, offset + n⟩
  | c :: after =>
    match lengthAt ⟨offset, before, c :: after⟩ with
    | some n => some ⟨offset, offset + n⟩
    | none => leastMatch lengthAt (offset + 1) (c :: before) after

@[simp] theorem after_forward (p : Place) (n : Nat) : (p.forward n).after = p.after.drop n := by
  fun_induction forward p n <;> simp_all

theorem offset_forward {p : Place} {n : Nat} (h : n ≤ p.after.length) :
    (p.forward n).offset = p.offset + n := by
  fun_induction forward p n with
  | case1 => rfl
  | case2 o before c after n ih =>
    rw [ih (by simpa using h)]
    dsimp only
    omega
  | case3 => simp at h

theorem leastMatch_bounds {lengthAt : Place → Option Nat}
    (hle : ∀ p n, lengthAt p = some n → n ≤ p.after.length) {offset : Nat} {before after : Text}
    {i : Interval} (h : leastMatch lengthAt offset before after = some i) :
    offset ≤ i.start ∧ i.start ≤ i.stop ∧ i.stop ≤ offset + after.length := by
  induction after generalizing offset before with
  | nil =>
    obtain ⟨n, hn, rfl⟩ := Option.map_eq_some_iff.1 h
    have := hle _ _ hn
    simp_all
  | cons c after ih =>
    unfold leastMatch at h
    split at h
    · rename_i n hn
      have := hle _ _ hn
      simp only [Option.some.injEq] at h
      subst h
      dsimp only at this ⊢
      omega
    · have := ih h
      simp only [List.length_cons]
      omega

end Place
end CodeBuffer
