import ThriftTypings.Text.Alphanumeric

/-
  This file defines patterns that are looked for in a text.
  A pattern may match in several ways; they are tried in
  order, and the first one that lets all the rest match is
  taken. Parts of a pattern are marked, and a match gives
  the stretches of the text that they cover.
-/

namespace ThriftTypings

namespace Console

-- Patterns

/-
  A pattern: a character of some kind, two patterns in turn,
  a choice, a repetition, or a condition on the place. An
  eager repetition tries to go on before it tries to stop.
-/
inductive Pattern where
  | nothing
  | char (allowed : Char → Bool)
  | seq (first second : Pattern)
  | either (first second : Pattern)
  | atMost (count : Nat) (part : Pattern)
  | many (eager : Bool) (part : Pattern)
  | mark (part : Pattern)
  | notAfter (refused : Char → Bool)
  | edge (wanted : Bool)

/- A stretch of a text: where it begins and where it ends. -/
abbrev Stretch := Nat × Nat

/-
  A place in a text: the character before it, its index, the
  text from there on, and the stretches marked so far.
-/
structure Spot where
  before : Option Char
  index : Nat
  rest : Text
  marked : List Stretch
  deriving DecidableEq, Repr

/-
  A way to match from a place on. What has to match after it
  is given along.
-/
abbrev Matcher :=
  Spot → (Spot → Option Spot) → Option Spot

-- Matching

/- The place one character further on. -/
def Spot.next? : Spot → Option (Char × Spot)
  | ⟨_, _, [], _⟩ => none
  | ⟨_, index, c :: rest, marked⟩ =>
      some (c, ⟨some c, index + 1, rest, marked⟩)

/- Is the character part of a word? -/
def inWord
    (c : Char) : Bool :=
  c == '_' || Text.isAlphanumeric c

/- Does a word begin or end at the place? -/
def Spot.atEdge
    (spot : Spot) : Bool :=
  spot.before.any inWord != spot.rest.head?.any inWord

/- Repeats a matcher up to a number of times. -/
def repeated
    (eager : Bool)
    (step : Matcher) : Nat → Matcher
  | 0, spot, goOn => goOn spot
  | count + 1, spot, goOn =>
      if eager then
        match
          step spot fun next =>
            repeated eager step count next goOn
        with
        | some found => some found
        | none => goOn spot
      else
        match goOn spot with
        | some found => some found
        | none =>
            step spot fun next =>
              repeated eager step count next goOn

namespace Pattern

/-
  Matches a pattern. An unlimited repetition never has more
  rounds than characters, since each round takes one.
-/
def run : Pattern → Matcher
  | .nothing => fun spot goOn => goOn spot
  | .char allowed => fun spot goOn =>
      match spot.next? with
      | none => none
      | some (c, next) => if allowed c then goOn next else none
  | .seq first second => fun spot goOn =>
      first.run spot fun next => second.run next goOn
  | .either first second => fun spot goOn =>
      match first.run spot goOn with
      | some found => some found
      | none => second.run spot goOn
  | .atMost count part => repeated true part.run count
  | .many eager part => fun spot goOn =>
      repeated eager part.run spot.rest.length spot goOn
  | .mark part => fun spot goOn =>
      part.run spot fun next =>
        goOn { next with
          marked :=
            next.marked ++ [(spot.index, next.index)] }
  | .notAfter refused => fun spot goOn =>
      if spot.before.any refused then none else goOn spot
  | .edge wanted => fun spot goOn =>
      if spot.atEdge = wanted then goOn spot else none

/-
  The stretches that the matches of a pattern mark. Matches
  are looked for from the front, and the next one after the
  end of the last. `skip` says how far that still is.
-/
def stretchesFrom
    (pattern : Pattern) :
    Nat → Option Char → Nat → Text → List Stretch
  | _, _, _, [] => []
  | skip + 1, _, index, c :: rest =>
      stretchesFrom pattern skip (some c) (index + 1) rest
  | 0, before, index, c :: rest =>
      match pattern.run ⟨before, index, c :: rest, []⟩ some with
      | none =>
          stretchesFrom pattern 0 (some c) (index + 1) rest
      | some found =>
          found.marked ++
            stretchesFrom pattern (found.index - index - 1)
              (some c) (index + 1) rest

/- The stretches of a text that a pattern marks. -/
def stretches
    (pattern : Pattern)
    (text : Text) : List Stretch :=
  (stretchesFrom pattern 0 none 0 text).filter
    fun stretch => stretch.1 < stretch.2

-- Common Patterns

/- Patterns in turn. -/
def inTurn
    (patterns : List Pattern) : Pattern :=
  patterns.foldr .seq .nothing

/- The first of several patterns that matches. -/
def firstOf : List Pattern → Pattern
  | [] => .char fun _ => false
  | [pattern] => pattern
  | pattern :: more => .either pattern (firstOf more)

/- A pattern several times. -/
def times
    (count : Nat)
    (pattern : Pattern) : Pattern :=
  inTurn (List.replicate count pattern)

/- A pattern at least and at most so many times. -/
def between
    (least most : Nat)
    (pattern : Pattern) : Pattern :=
  .seq (times least pattern) (.atMost (most - least) pattern)

/- A pattern once or more often, as often as possible. -/
def oneOrMore
    (pattern : Pattern) : Pattern :=
  .seq pattern (.many true pattern)

/- A pattern, if it is there. -/
def optional
    (pattern : Pattern) : Pattern :=
  .atMost 1 pattern

/- A certain character. -/
def exactly
    (c : Char) : Pattern :=
  .char (· == c)

/- One of certain characters. -/
def oneOf
    (chars : String) : Pattern :=
  .char fun c => chars.toList.contains c

/- A certain text. -/
def literal
    (text : String) : Pattern :=
  inTurn (text.toList.map exactly)

end Pattern

end Console

end ThriftTypings
