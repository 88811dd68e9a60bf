import ThriftTypings.Text.Blank

/-
  This file defines how ranges of code points are listed:
  by how many code points come before each of them, after
  the one in front, and by how many are in it.
-/

namespace ThriftTypings

namespace Text

/- The ranges that are listed, from a code point on. -/
def rangesFrom : Nat → List Nat → List (Nat × Nat)
  | start, gap :: size :: more =>
      (start + gap, start + gap + size - 1) ::
        rangesFrom (start + gap + size) more
  | _, _ => []

/- The ranges that are listed, in ascending order. -/
def ranges
    (sizes : List Nat) : List (Nat × Nat) :=
  rangesFrom 0 sizes

end Text

end ThriftTypings
