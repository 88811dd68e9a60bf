import ThriftTypings.Idl.Lexeme
import ThriftTypings.Text.Blank

/-
  This file defines how comments are read: those that stand
  in front of something, and the one that may follow a
  member on its line.
-/

namespace ThriftTypings

namespace Idl

-- Single Comments

/- The rest of the line as a comment, and what follows. -/
def lineComment
    (text : Text) : Comment × Text :=
  (.line (Text.strip (text.takeWhile (· != '\n'))),
    text.dropWhile (· != '\n'))

/- The text up to the end of a block, and what follows it. -/
def blockEnd : Text → Option (Text × Text)
  | [] => none
  | '*' :: '/' :: rest => some ([], rest)
  | c :: rest =>
      match blockEnd rest with
      | none => none
      | some (inner, after) => some (c :: inner, after)

/- The inside of a block as a comment, line by line. -/
def blockComment
    (inner : Text) : Comment :=
  .block ((Text.pieces '\n' inner).map Text.strip)

theorem blockEnd_suffix
    {text inner rest : Text}
    (h : blockEnd text = some (inner, rest)) :
    rest <:+ text := by
  fun_induction blockEnd text generalizing inner rest with
  | case1 => cases h
  | case2 rest' =>
      cases h
      exact (List.suffix_cons _ _).trans
        (List.suffix_cons _ _)
  | case3 => cases h
  | case4 c rest' _ inner' after hEnd ih =>
      cases h
      exact (ih hEnd).trans (List.suffix_cons _ _)

-- Comments in Front of Something

/- Reads the next comment, or the space before a lexeme. -/
def nextComment : Scan (Round Comment Unit) :=
  fun text =>
    match skipSpace text with
    | '/' :: '/' :: rest =>
        let (comment, after) := lineComment rest
        .ok (.more comment, after)
    | '/' :: '*' :: rest =>
        match blockEnd rest with
        | none => .error ⟨.openComment, [.comment], rest⟩
        | some (inner, after) =>
            .ok (.more (blockComment inner), after)
    | rest => .ok (.last (), rest)

theorem advances_nextComment :
    Scan.Advances nextComment := by
  intro text value rest h
  have hSkip := skipSpace_suffix text
  simp only [nextComment, lineComment] at h
  split at h
  · next hText =>
      rw [hText] at hSkip
      cases h
      exact (List.dropWhile_suffix _).trans
        ((List.suffix_cons _ _).trans
          ((List.suffix_cons _ _).trans hSkip))
  · next hText =>
      rw [hText] at hSkip
      split at h
      · cases h
      · next hEnd =>
          cases h
          exact (blockEnd_suffix hEnd).trans
            ((List.suffix_cons _ _).trans
              ((List.suffix_cons _ _).trans hSkip))
  · cases h
    exact hSkip

theorem progresses_nextComment :
    Scan.Progresses nextComment := by
  intro text value rest h
  refine ⟨advances_nextComment _ _ _ h, ?_⟩
  have hSkip := (skipSpace_suffix text).length_le
  simp only [nextComment, lineComment] at h
  split at h
  · next more hText =>
      rw [hText] at hSkip
      cases h
      have hLength :=
        (List.dropWhile_suffix (l := more)
          (· != '\n')).length_le
      simp only [List.length_cons] at hSkip
      omega
  · next hText =>
      rw [hText] at hSkip
      split at h
      · cases h
      · next hEnd =>
          cases h
          have hLength := (blockEnd_suffix hEnd).length_le
          simp only [List.length_cons] at hSkip
          omega
  · cases h

/- Reads all comments up to the next lexeme. -/
def comments : Scan (List Comment) := do
  let (found, _) ←
    Scan.repeated nextComment progresses_nextComment
  pure found

theorem advances_comments :
    Scan.Advances comments :=
  (Scan.advances_repeated progresses_nextComment
    advances_nextComment).bind fun _ => Scan.advances_pure _

-- The Comment After a Member

/- Reads a comment that runs to the end of this line. -/
def inlineComment : Scan (List Comment) :=
  fun text =>
    match text.dropWhile isLineSpace with
    | '/' :: '/' :: rest =>
        let (comment, after) := lineComment rest
        .ok ([comment], after)
    | _ => .ok ([], text)

theorem advances_inlineComment :
    Scan.Advances inlineComment := by
  intro text value rest h
  have hSkip :=
    List.dropWhile_suffix (l := text) isLineSpace
  simp only [inlineComment, lineComment] at h
  split at h
  · next hText =>
      rw [hText] at hSkip
      cases h
      exact (List.dropWhile_suffix _).trans
        ((List.suffix_cons _ _).trans
          ((List.suffix_cons _ _).trans hSkip))
  · cases h
    exact List.suffix_rfl

end Idl

end ThriftTypings
