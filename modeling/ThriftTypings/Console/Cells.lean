import ThriftTypings.Console.CellTable

/-
  This file defines how many cells a text takes on a
  console. A text is cut into clusters: a character with
  those after it that have no cell of their own.

  A selector after a character asks for its wide form. A
  joiner makes one cluster of the characters around it.
-/

namespace ThriftTypings

namespace Console

-- Single Characters

/- The cells of a character that stands alone. -/
def charCells
    (c : Char) : Nat :=
  if zeroRanges.any (Text.within c.toNat) then 0
  else if wideRanges.any (Text.within c.toNat) then 2
  else 1

/- Has the narrow character a wide form as well? -/
def hasWideForm
    (c : Char) : Bool :=
  textFormRanges.any (Text.within c.toNat)

/- The character that joins its neighbours. -/
def joiner : Char := Char.ofNat 0x200D

/- The character that asks for the wide form. -/
def selector : Char := Char.ofNat 0xFE0F

-- Clusters

/- Characters that belong together, and their cells. -/
structure Cluster where
  text : Text
  cells : Nat
  deriving DecidableEq, Repr

/-
  What belongs to a cluster that has begun, the cells that
  it adds, and what follows it. `base` is the character that
  a selector may still widen.
-/
def attached
    (base : Option Char) : Text → Text × Nat × Text
  | [] => ([], 0, [])
  | c :: rest =>
      if c = joiner then
        match rest with
        | [] => ([c], 0, [])
        | next :: more =>
            let (text, added, after) := attached base more
            (c :: next :: text, added, after)
      else if c = selector then
        if base.any hasWideForm then
          let (text, added, after) := attached none rest
          (c :: text, added + 1, after)
        else
          let (text, added, after) := attached base rest
          (c :: text, added, after)
      else if charCells c = 0 then
        let (text, added, after) := attached base rest
        (c :: text, added, after)
      else
        ([], 0, c :: rest)

theorem length_attached
    (base : Option Char)
    (text : Text) :
    (attached base text).2.2.length ≤ text.length := by
  fun_induction attached base text with
  | case1 => simp
  | case2 => simp
  | case3 => simp_all only [List.length_cons]; omega
  | case4 => simp_all only [List.length_cons]; omega
  | case5 => simp_all only [List.length_cons]; omega
  | case6 => simp_all only [List.length_cons]; omega
  | case7 => simp

/- The character that a selector after it may widen. -/
def baseOf
    (c : Char) : Option Char :=
  if charCells c = 0 then none else some c

/- The clusters of a text. -/
def clusters : Text → List Cluster
  | [] => []
  | c :: rest =>
      { text := c :: (attached (baseOf c) rest).1
        cells :=
          charCells c + (attached (baseOf c) rest).2.1 } ::
        clusters (attached (baseOf c) rest).2.2
termination_by text => text.length
decreasing_by
  have := length_attached (baseOf c) rest
  simp only [List.length_cons]
  omega

/-
  The cells of a text. A joiner at its front takes the next
  character along, although it has nothing to join it to.
-/
def cells
    (text : Text) : Nat :=
  (clusters (attached none text).2.2).foldr
    (fun cluster total => cluster.cells + total) 0

end Console

end ThriftTypings
