import ThriftTypings.Console.Styled

/-
  This file defines how text is laid out on a console: tabs
  are filled up to the next stop, and lines that are too
  wide are broken between words, or inside a word that fits
  on no line. A line that is still too wide, part by part,
  is cut.
-/

namespace ThriftTypings

namespace Console

-- Controls and Tabs

/- The number of cells in a line. -/
def lineWidth : Nat := 80

/- The distance between two tab stops. -/
def tabWidth : Nat := 8

/-
  The characters that a console leaves out: the bell, the
  backspace, the vertical tab, the form feed and the
  carriage return.
-/
def movesCursor
    (c : Char) : Bool :=
  [0x07, 0x08, 0x0B, 0x0C, 0x0D].contains c.toNat

/- The cells up to the next stop: none if at a stop. -/
def toStop
    (column : Nat) : Nat :=
  (tabWidth - column % tabWidth) % tabWidth

/- The pieces of a line; each but the last ends in a tab. -/
def upToTabs : Styled → List Styled
  | [] => [[]]
  | (c, border) :: rest =>
      if c = '\t' then [(c, border)] :: upToTabs rest
      else
        match upToTabs rest with
        | [] => [[(c, border)]]
        | piece :: more => ((c, border) :: piece) :: more

/- A blank for a tab. -/
def blankForTab
    (c : Char) : Char :=
  if c = '\t' then ' ' else c

/-
  Joins pieces that end in tabs. A tab becomes a blank, with
  as many more as there are up to the next stop.
-/
def atStops
    (column : Nat) : List Styled → Styled
  | [] => []
  | [piece] => piece
  | piece :: next :: more =>
      let part : Styled := piece.map fun (c, border) =>
        (blankForTab c, border)
      let reached := column + cells part.plain
      part ++ List.replicate (toStop reached) (' ', false) ++
        atStops (reached + toStop reached) (next :: more)

/- A line with its tabs filled. -/
def expandTabs
    (line : Styled) : Styled :=
  atStops 0 (upToTabs line)

-- Words

/- Is the character part of a word proper? -/
def isSolid
    (c : Char) : Bool :=
  !Text.isBlank c

/-
  The first word of a text, with the blanks around it, and
  what follows.
-/
def firstWord
    (text : Text) : Text × Text :=
  let solid := text.dropWhile Text.isBlank
  let after := solid.dropWhile isSolid
  (text.takeWhile Text.isBlank ++ solid.takeWhile isSolid ++
      after.takeWhile Text.isBlank,
    after.dropWhile Text.isBlank)

theorem length_firstWord
    {text : Text}
    (h : (text.dropWhile Text.isBlank).isEmpty = false) :
    (firstWord text).2.length < text.length := by
  have hBlank :=
    (List.dropWhile_suffix (l := text)
      Text.isBlank).length_le
  cases hSolid : text.dropWhile Text.isBlank with
  | nil => simp [hSolid] at h
  | cons c rest =>
      have hFirst := List.head?_dropWhile_not Text.isBlank text
      simp only [hSolid, List.head?_cons] at hFirst
      have hRest :=
        (List.dropWhile_suffix (l := rest) isSolid).length_le
      have hAfter :=
        (List.dropWhile_suffix (l := rest.dropWhile isSolid)
          Text.isBlank).length_le
      simp only [firstWord, hSolid]
      rw [List.dropWhile_cons_of_pos (by
        simpa [isSolid] using hFirst)]
      rw [hSolid] at hBlank
      simp only [List.length_cons] at hBlank
      omega

/-
  The words of a text. Each keeps the blanks after it, and
  the first one those before it.
-/
def words
    (text : Text) : List Text :=
  if _h : (text.dropWhile Text.isBlank).isEmpty then []
  else (firstWord text).1 :: words (firstWord text).2
termination_by text.length
decreasing_by
  exact length_firstWord (by simpa using _h)

-- Breaking

/- Fills lines of a width with clusters. -/
def filled
    (width : Nat)
    (line : Text)
    (used : Nat) : List Cluster → List Text
  | [] => [line]
  | cluster :: more =>
      if used + cluster.cells ≤ width then
        filled width (line ++ cluster.text)
          (used + cluster.cells) more
      else
        line :: filled width cluster.text cluster.cells more

/- Lines that are complete, the line begun and its cells. -/
structure Draft where
  lines : List Text
  line : Text
  used : Nat
  deriving DecidableEq, Repr

namespace Draft

/- The draft of an empty page. -/
def empty : Draft where
  lines := []
  line := []
  used := 0

/- The complete lines once the line begun is closed. -/
def closed
    (draft : Draft) : List Text :=
  if draft.line.isEmpty then draft.lines
  else draft.lines ++ [draft.line]

/- The draft that goes on with some lines. -/
def goOn
    (draft : Draft)
    (lines : List Text) : Draft :=
  let last := lines.getLast?.getD []
  { lines := draft.closed ++ lines.dropLast
    line := last
    used := cells last }

/-
  The draft with one more word. The word goes on the line if
  it fits, on a line of its own if that helps, and else it
  is broken. The blanks after it always fit.
-/
def place
    (width : Nat)
    (draft : Draft)
    (word : Text) : Draft :=
  let size := cells (Text.stripEnd word)
  if draft.used + size ≤ width then
    { draft with
      line := draft.line ++ word
      used := draft.used + cells word }
  else if size ≤ width then
    draft.goOn [word]
  else
    draft.goOn (filled width [] 0 (clusters word))

end Draft

-- Trimming

/- Drops blanks at the end that stand beyond the width. -/
def dropBeyond
    (width : Nat)
    (line : Text) : Text :=
  let blanks := line.length - (Text.stripEnd line).length
  line.take
    (line.length - min blanks (line.length - width))

/- The texts that a line is broken into. -/
def broken
    (width : Nat)
    (line : Text) : List Text :=
  match words line with
  | [] => [line]
  | found =>
      (found.foldl (Draft.place width) Draft.empty).closed

/- Deals a styled text out in pieces of given lengths. -/
def dealtOut : List Text → Styled → List Styled
  | [], _ => []
  | piece :: more, styled =>
      styled.take piece.length ::
        dealtOut more (styled.drop piece.length)

/- A line as it is shown, once it is broken off. -/
def finished
    (width : Nat)
    (line : Styled) : Text :=
  let text := cropped width (dropBeyond width line.plain)
  croppedParts width (line.withText text).parts

/- The lines that one line is broken into. -/
def wrapped
    (width : Nat)
    (line : Styled) : List Text :=
  (dealtOut (broken width line.plain) line).map
    (finished width)

-- Lines

/- A text as far as a console shows it. -/
def shownText
    (text : Text) : Text :=
  text.filter fun c => !movesCursor c

/- The lines of a styled text. -/
def linesOf : Styled → List Styled
  | [] => [[]]
  | (c, border) :: rest =>
      if c = '\n' then [] :: linesOf rest
      else
        match linesOf rest with
        | [] => [[(c, border)]]
        | line :: more => ((c, border) :: line) :: more

/- A text on lines of any width, in one style. -/
def openLine
    (text : Text) : Text :=
  let lines := linesOf (.ofPlain (shownText text))
  Text.joined ['\n']
      (lines.map fun line => (expandTabs line).plain) ++
    ['\n']

/- A text on lines that fit on the console. -/
def wrappedLine
    (text : Text) : Text :=
  let lines := linesOf (.ofText (shownText text))
  Text.joined ['\n']
      (lines.flatMap fun line =>
        wrapped lineWidth (expandTabs line)) ++
    ['\n']

end Console

end ThriftTypings
