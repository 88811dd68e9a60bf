import ThriftTypings.Idl.Scan

/-
  This file defines the lexemes of the language: white
  space, symbols, keywords, identifiers, integers, string
  literals and separators. Each one passes over the white
  space in front of it.
-/

namespace ThriftTypings

namespace Idl

-- White Space

/- White space that may stand between lexemes. -/
def isSpace
    (c : Char) : Bool :=
  c == ' ' || c == '\t' || c == '\r' || c == '\n'

/- White space that stays on the line. -/
def isLineSpace
    (c : Char) : Bool :=
  c == ' ' || c == '\t'

/- The text from its first lexeme on. -/
def skipSpace
    (text : Text) : Text :=
  text.dropWhile isSpace

theorem skipSpace_suffix
    (text : Text) :
    skipSpace text <:+ text :=
  List.dropWhile_suffix _

-- Symbols

/- Reads one symbol. -/
def symbol
    (c : Char) : Scan Unit :=
  fun text =>
    match skipSpace text with
    | [] => .error ⟨.noSymbol c, [], []⟩
    | d :: rest =>
        if d = c then .ok ((), rest)
        else .error ⟨.noSymbol c, [], d :: rest⟩

theorem consumes_symbol
    (c : Char) :
    Scan.Consumes (symbol c) := by
  intro text value rest h
  have hSkip := skipSpace_suffix text
  simp only [symbol] at h
  split at h
  · cases h
  · next d more hText =>
      rw [hText] at hSkip
      split at h
      · cases h
        exact ⟨(List.suffix_cons _ _).trans hSkip,
          Nat.lt_of_lt_of_le (by simp) hSkip.length_le⟩
      · cases h

-- Words

/- The characters that end a word. -/
def isDelimiter
    (c : Char) : Bool :=
  " \t\r\n-=()\x7b\x7d[]<>,;\"/".toList.contains c

/- Is the text at the end of a word? -/
def endsWord : Text → Bool
  | [] => true
  | c :: _ => isDelimiter c

/-
  The text after a keyword, if it stands next. A keyword is
  a whole word.
-/
def keyword?
    (word text : Text) : Option Text :=
  let start := skipSpace text
  let rest := start.drop word.length
  if Text.startsWith start word && endsWord rest then
    some rest
  else
    none

theorem keyword?_suffix
    {word text rest : Text}
    (h : keyword? word text = some rest) :
    rest <:+ text ∧
      rest.length + word.length ≤ text.length := by
  have hSkip := skipSpace_suffix text
  simp only [keyword?, Text.startsWith,
    Option.ite_none_right_eq_some, Option.some.injEq,
    Bool.and_eq_true] at h
  obtain ⟨⟨hWord, _⟩, rfl⟩ := h
  have hStart :=
    (List.isPrefixOf_iff_prefix.mp hWord).length_le
  have hLength := hSkip.length_le
  refine ⟨(List.drop_suffix _ _).trans hSkip, ?_⟩
  simp only [List.length_drop]
  omega

/- Reads a keyword. -/
def keyword
    (word : Text) : Scan Unit :=
  fun text =>
    match keyword? word text with
    | some rest => .ok ((), rest)
    | none => .error ⟨.noKeyword word, [], skipSpace text⟩

theorem advances_keyword
    (word : Text) :
    Scan.Advances (keyword word) := by
  intro text value rest h
  simp only [keyword] at h
  split at h
  · next hWord =>
      cases h
      exact (keyword?_suffix hWord).1
  · cases h

/- Reads a longest run of characters of a class. -/
def run
    (belongs : Char → Bool)
    (cause : Cause) : Scan Text :=
  fun text =>
    let start := skipSpace text
    let word := start.takeWhile belongs
    if word.isEmpty then
      .error ⟨cause, [], start⟩
    else
      .ok (word, start.dropWhile belongs)

theorem consumes_run
    (belongs : Char → Bool)
    (cause : Cause) :
    Scan.Consumes (run belongs cause) := by
  intro text value rest h
  have hSkip := skipSpace_suffix text
  simp only [run] at h
  split at h
  · cases h
  · next hWord =>
      cases h
      refine ⟨(List.dropWhile_suffix _).trans hSkip, ?_⟩
      have hLength := hSkip.length_le
      have hSplit := congrArg List.length
        (List.takeWhile_append_dropWhile
          (p := belongs) (l := skipSpace text))
      have hPositive :
          0 < ((skipSpace text).takeWhile belongs).length := by
        cases hTake : (skipSpace text).takeWhile belongs with
        | nil => simp [hTake] at hWord
        | cons => simp
      simp only [List.length_append] at hSplit
      omega

/- Reads an identifier: anything up to a delimiter. -/
def identifier : Scan Text :=
  run (fun c => !isDelimiter c) .noIdentifier

/- Reads a sequence of decimal digits. -/
def integer : Scan Text :=
  run Char.isDigit .noInteger

-- String Literals

/- Reads up to the next double quote, and over it. -/
def quoted : Scan Text :=
  fun text =>
    match text.dropWhile (· != '"') with
    | [] => .error ⟨.openString, [], text⟩
    | _ :: rest => .ok (text.takeWhile (· != '"'), rest)

theorem advances_quoted :
    Scan.Advances quoted := by
  intro text value rest h
  have hSkip :=
    List.dropWhile_suffix (l := text) (· != '"')
  simp only [quoted] at h
  split at h
  · cases h
  · next hText =>
      rw [hText] at hSkip
      cases h
      exact (List.suffix_cons _ _).trans hSkip

/- Reads a text in double quotes. There are no escapes. -/
def stringLiteral : Scan Text := do
  symbol '"'
  quoted

theorem consumes_stringLiteral :
    Scan.Consumes stringLiteral :=
  (consumes_symbol '"').bind fun _ => advances_quoted

-- Separators

/- The text after an optional separator. -/
def skipSeparator
    (text : Text) : Text :=
  match skipSpace text with
  | ',' :: rest => rest
  | ';' :: rest => rest
  | _ => text

theorem skipSeparator_suffix
    (text : Text) :
    skipSeparator text <:+ text := by
  have hSkip := skipSpace_suffix text
  unfold skipSeparator
  split
  · next hText =>
      rw [hText] at hSkip
      exact (List.suffix_cons _ _).trans hSkip
  · next hText =>
      rw [hText] at hSkip
      exact (List.suffix_cons _ _).trans hSkip
  · exact List.suffix_rfl

/- Passes over an optional separator. -/
def separator : Scan Unit :=
  Scan.passing skipSeparator

theorem advances_separator :
    Scan.Advances separator :=
  Scan.advances_passing skipSeparator_suffix

end Idl

end ThriftTypings
