import ThriftTypings.Text.Blank
import ThriftTypings.Text.Lines

/-
  This file defines the layout of emitted code: lines with
  an indentation, documentation comments, remarks, and
  pages that collect lines.
-/

namespace ThriftTypings

namespace TypeScript

-- Lines

/-
  A line at some depth of indentation, two spaces for each
  level, and without blanks at its end.
-/
def lineAt
    (depth : Int)
    (text : Text) : Text :=
  Text.stripEnd
    (List.replicate (2 * depth.toNat) ' ' ++ text)

/- A text that does not end the comment it stands in. -/
def escapeDoc : Text → Text
  | [] => []
  | '*' :: '/' :: rest => '*' :: '\\' :: '/' :: escapeDoc rest
  | c :: rest => c :: escapeDoc rest

/-
  The lines of a documentation comment. Entries may span
  lines. One line stands between the marks, and several
  have lines of their own.
-/
def docAt
    (depth : Int)
    (entries : List Text) : List Text :=
  match (entries.flatMap Text.entryLines).map escapeDoc with
  | [] => []
  | [only] =>
      [lineAt depth ("/** ".toList ++ only ++ " */".toList)]
  | first :: second :: more =>
      [lineAt depth "/**".toList] ++
        (first :: second :: more).map
          (fun text => lineAt depth (" * ".toList ++ text)) ++
        [lineAt depth " */".toList]

/- The lines of remarks, each with a mark of its own. -/
def remarksAt
    (depth : Int)
    (entries : List Text) : List Text :=
  (entries.flatMap Text.entryLines).map fun text =>
    lineAt depth ("// ".toList ++ text)

-- Pages

/- A page: its lines so far and the current depth. -/
structure Page where
  depth : Int
  lines : List Text
  deriving DecidableEq, Repr

namespace Page

/- The page that holds nothing yet. -/
def empty : Page where
  depth := 0
  lines := []

/- The page with further lines. -/
def add
    (page : Page)
    (lines : List Text) : Page :=
  { page with lines := page.lines ++ lines }

/- The page with one more line. -/
def line
    (page : Page)
    (text : Text) : Page :=
  page.add [lineAt page.depth text]

/- The page with a blank line, unless one is there. -/
def blank
    (page : Page) : Page :=
  match page.lines.getLast? with
  | none => page
  | some last =>
      if last.isEmpty then page else page.add [[]]

/- The page with a documentation comment. -/
def doc
    (page : Page)
    (entries : List Text) : Page :=
  page.add (docAt page.depth entries)

/- The page with remarks. -/
def remarks
    (page : Page)
    (entries : List Text) : Page :=
  page.add (remarksAt page.depth entries)

/- The page at another depth. -/
def indent
    (page : Page)
    (levels : Int) : Page :=
  { page with depth := page.depth + levels }

/-
  The text of a page: its lines up to the last that is not
  blank, and a line end after them.
-/
def output
    (page : Page) : Text :=
  let kept := (page.lines.reverse.dropWhile (·.isEmpty)).reverse
  Text.joined ['\n'] kept ++ ['\n']

end Page

end TypeScript

end ThriftTypings
