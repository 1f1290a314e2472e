import CodeBuffer.Unicode.Ranges

namespace CodeBuffer.Unicode.Utf8

/-- Ranges of bytes, one for each byte of a character. -/
abbrev Sequence := List (Nat × Nat)

/-- The bytes of a code point written with one leading byte and `n` others. -/
def encode (n : Nat) (point : Nat) : List Nat :=
  let lead := match n with | 0 => 0 | 1 => 0xC0 | 2 => 0xE0 | _ => 0xF0
  (lead + point / Nat.pow 64 n) ::
    (List.range n).reverse.map fun i => 0x80 + point / Nat.pow 64 i % 64

/-- Cuts a range into pieces whose bytes vary independently. Pieces are as large as their ends,
which are multiples of powers of 64 or ends of the range, allow. -/
def cut : Nat → Nat → Nat → List (Nat × Nat)
  | 0, lo, hi => [(lo, hi)]
  | n + 1, lo, hi =>
    let block := 64 ^ (n + 1)
    if lo / block = hi / block then cut n lo hi
    else
      let first := (lo + block - 1) / block * block
      let last := (hi + 1) / block * block
      (if lo < first then cut n lo (first - 1) else []) ++
        (if first < last then [(first, last - 1)] else []) ++
        (if last ≤ hi then cut n last hi else [])

/-- The code points that are written with as many bytes, by the number of bytes behind the first. -/
def lengths : List (Nat × Nat × Nat) :=
  [(0, 0, 0x7F), (1, 0x80, 0x7FF), (2, 0x800, 0xD7FF), (2, 0xE000, 0xFFFF),
   (3, 0x10000, Ranges.lastPoint)]

/-- The sequences that together are the bytes of the characters of a set, in ascending order. -/
def sequences (s : Ranges) : List Sequence :=
  s.flatMap fun (lo, hi) => lengths.flatMap fun (n, first, last) =>
    if max lo first ≤ min hi last then
      (cut n (max lo first) (min hi last)).map fun (a, b) => (encode n a).zip (encode n b)
    else []

/-- How many bytes a character takes. -/
def byteCount (c : Char) : Nat := c.utf8Size

end CodeBuffer.Unicode.Utf8
