import ThriftTypings.Text.Basic

/-
  This file defines paths: a number of leading slashes and
  a list of segments. Paths are treated lexically, without
  a look at any file system.

  A path is absolute if it has leading slashes. Exactly two
  of them are kept apart from one; three or more count as
  one.
-/

namespace ThriftTypings

-- Paths

/- A path. -/
structure Path where
  slashes : Nat
  segments : List Text
  deriving DecidableEq, Repr, Inhabited

namespace Path

/- The segment that stands for the directory itself. -/
def here : Text := ['.']

/- The segment that stands for the directory above. -/
def above : Text := ['.', '.']

/- The number of leading slashes that counts. -/
def leading : Text → Nat
  | '/' :: '/' :: '/' :: _ => 1
  | '/' :: '/' :: _ => 2
  | '/' :: _ => 1
  | _ => 0

/-
  The path that a text spells. Empty segments and those
  that stand for the directory itself are left out.
-/
def ofText
    (text : Text) : Path where
  slashes := leading text
  segments :=
    (Text.pieces '/' text).filter fun segment =>
      segment ≠ [] ∧ segment ≠ here

/- The shortest spelling of a path. -/
def text
    (path : Path) : Text :=
  if path.slashes = 0 ∧ path.segments = [] then
    here
  else
    List.replicate path.slashes '/' ++
      Text.joined ['/'] path.segments

/- Is the path absolute? -/
def isAbsolute
    (path : Path) : Bool :=
  0 < path.slashes

-- Joining and Normal Forms

/- A path seen from another one. An absolute one stays. -/
def join
    (base path : Path) : Path :=
  if path.isAbsolute then path
  else
    { slashes := base.slashes
      segments := base.segments ++ path.segments }

/-
  Walks segments from a place, which is given backwards. A
  step up leaves the last segment. At the root of an
  absolute path it stays, and in front of a relative one it
  is kept.
-/
def walk
    (absolute : Bool) :
    List Text → List Text → List Text
  | place, [] => place
  | place, segment :: more =>
      if segment = above then
        match place with
        | [] =>
            walk absolute
              (if absolute then [] else [above]) more
        | last :: rest =>
            if last = above then
              walk absolute (above :: last :: rest) more
            else
              walk absolute rest more
      else
        walk absolute (segment :: place) more

/- The path with its steps up carried out. -/
def normal
    (path : Path) : Path :=
  { path with
    segments :=
      (walk path.isAbsolute [] path.segments).reverse }

/- The path without its last segment. -/
def parent
    (path : Path) : Path :=
  { path with segments := path.segments.dropLast }

-- Containment

/- What follows a list of segments at the front. -/
def after? : List Text → List Text → Option (List Text)
  | [], segments => some segments
  | _ :: _, [] => none
  | a :: as, b :: bs => if a = b then after? as bs else none

/-
  The segments of a path below a root. The root itself is
  not below it. Leading slashes do not matter.
-/
def below?
    (root path : Path) : Option (List Text) :=
  match after? root.segments path.segments with
  | some (segment :: more) => some (segment :: more)
  | _ => none

-- Names

/- The last segment of a path, if there is one. -/
def name
    (path : Path) : Text :=
  path.segments.getLast?.getD []

/-
  The suffix of a path: its name from the last dot on. A
  dot at either end of the name opens none.
-/
def suffix
    (path : Path) : Text :=
  let ending := Text.afterLast '.' path.name
  let stem := (Text.throughLast '.' path.name).dropLast
  if stem.isEmpty || ending.isEmpty then []
  else '.' :: ending

/- The order of paths: by segments, not by characters. -/
def le
    (first second : Path) : Bool :=
  if first.slashes = second.slashes then
    Text.listLe first.segments second.segments
  else
    first.slashes < second.slashes

end Path

end ThriftTypings
