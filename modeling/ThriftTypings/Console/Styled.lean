import ThriftTypings.Console.Cells
import ThriftTypings.Console.Emphasis

/-
  This file defines styled texts: characters, each with
  whether another style begins at it. A console measures and
  cuts a line part by part, and what is joined across the
  border of two parts is not joined to it.
-/

namespace ThriftTypings

namespace Console

-- Styled Texts

/- Characters, and whether another style begins at them. -/
abbrev Styled := List (Char × Bool)

namespace Styled

/- The text alone. -/
def plain
    (styled : Styled) : Text :=
  styled.map Prod.fst

/- A text in one style. -/
def ofPlain
    (text : Text) : Styled :=
  text.map fun c => (c, false)

/- A text with the borders of another styled text. -/
def withText
    (styled : Styled)
    (text : Text) : Styled :=
  text.zip (styled.map Prod.snd)

/- Is the character at an index within the stretch? -/
def covers
    (index : Nat)
    (stretch : Stretch) : Bool :=
  stretch.1 ≤ index && index < stretch.2

/- Does a style begin or end at the index? -/
def bordersAt
    (stretches : List Stretch)
    (index : Nat) : Bool :=
  stretches.any fun stretch =>
    stretch.1 == index || stretch.2 == index

/-
  A text with some stretches in a style of their own. A tab
  divides the stretch that it stands in.
-/
def ofStretches
    (stretches : List Stretch)
    (tab : Bool)
    (index : Nat) : Text → Styled
  | [] => []
  | c :: rest =>
      (c, tab || bordersAt stretches index) ::
        ofStretches stretches
          (c == '\t' && stretches.any (covers index))
          (index + 1) rest

/- A text with its emphasis. -/
def ofText
    (text : Text) : Styled :=
  ofStretches (emphasised text) false 0 text

/- The parts of a text, each in one style. -/
def parts : Styled → List Text
  | [] => []
  | (c, _) :: rest =>
      match parts rest with
      | [] => [[c]]
      | part :: more =>
          if rest.head?.any Prod.snd then [c] :: part :: more
          else (c :: part) :: more

end Styled

-- Cutting

/-
  The clusters that there is room for. The gap in front of
  one that is too wide is filled with blanks.
-/
def fitting
    (room : Nat) : List Cluster → Text
  | [] => []
  | cluster :: more =>
      if cluster.cells ≤ room then
        cluster.text ++ fitting (room - cluster.cells) more
      else
        List.replicate room ' '

/- A text, cut if it is wider than the room. -/
def cropped
    (room : Nat)
    (text : Text) : Text :=
  if cells text ≤ room then text
  else fitting room (clusters text)

/-
  The parts that there is room for. The last one fills the
  room, and nothing follows it.
-/
def fittingParts
    (room : Nat) : List Text → Text
  | [] => []
  | part :: more =>
      if cells part < room then
        part ++ fittingParts (room - cells part) more
      else
        cropped room part

/- A line of parts, cut if they are wider than the room. -/
def croppedParts
    (room : Nat)
    (parts : List Text) : Text :=
  let width :=
    parts.foldr (fun part total => cells part + total) 0
  if width ≤ room then parts.flatten
  else fittingParts room parts

end Console

end ThriftTypings
