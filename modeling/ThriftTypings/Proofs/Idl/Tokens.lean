import ThriftTypings.Proofs.Idl.Printing

/-
  This file defines the tokens that a document is written
  with, in order, whatever the white space, the comments and
  the separators around them.

  Key definitions include:
    * `Token`
    * `IdlType.tokens`
-/

namespace ThriftTypings

namespace Idl

-- Tokens

/-
  A token: a keyword, an identifier or a number, a mark, or
  a literal without its quotes. A slot is a place where a
  separator may stand, or nothing.
-/
inductive Token where
  | word (text : Text)
  | mark (c : Char)
  | literal (value : Text)
  | slot
  deriving DecidableEq, Repr

-- Types and Annotations

def IdlType.tokens : IdlType → List Token
  | .primitive name => [.word name.word]
  | .list element =>
      .word Generic.list.word :: .mark '<' ::
        (element.tokens ++ [.mark '>'])
  | .map key value =>
      .word Generic.map.word :: .mark '<' ::
        (key.tokens ++ .mark ',' ::
          (value.tokens ++ [.mark '>']))
  | .named name => [.word name]

def Annot.tokens
    (found : Annot) : List Token :=
  [.word found.name, .mark '=', .literal found.value]

/- Annotations, with commas between them. -/
def listedTokens : List Annot → List Token
  | [] => []
  | first :: more =>
      first.tokens ++
        more.flatMap fun found => .mark ',' :: found.tokens

def annotationsTokens : Option (List Annot) → List Token
  | none => []
  | some found =>
      .mark '(' :: (listedTokens found ++ [.mark ')'])

-- Members

def requirednessTokens : Option Requiredness → List Token
  | none => []
  | some requiredness => [.word requiredness.word]

def Field.tokens
    (field : Field) : List Token :=
  .word field.id :: .mark ':' ::
    (requirednessTokens field.requiredness ++
      (field.type.tokens ++ .word field.name ::
        (annotationsTokens field.annotations ++ [.slot])))

/- A minus sign is a token of its own. -/
def signedTokens : Text → List Token
  | '-' :: digits => [.mark '-', .word digits]
  | digits => [.word digits]

theorem signedTokens_digits
    {digits : Text}
    (h : ∀ c ∈ digits, c.isDigit = true) :
    signedTokens digits = [.word digits] := by
  unfold signedTokens
  split
  · have hSign := h '-' (by simp)
    cases hSign
  · rfl

def valueTokens : Option Text → List Token
  | none => []
  | some value => .mark '=' :: signedTokens value

def EnumMember.tokens
    (found : EnumMember) : List Token :=
  .word found.name :: (valueTokens found.value ++ [.slot])

def Function.tokens
    (function : Function) : List Token :=
  function.returnType.tokens ++
    .word function.name :: .mark '(' ::
      (function.fields.flatMap Field.tokens ++ .mark ')' ::
        (annotationsTokens function.annotations ++ [.slot]))

-- Documents

/- A name, and members in braces. -/
def blockTokens
    (name : Text)
    (members : List Token) : List Token :=
  .word name :: .mark '\x7b' :: (members ++ [.mark '\x7d'])

/- What follows the keyword of a definition. -/
def Definition.bodyTokens : Definition → List Token
  | .nameSpace found => [.word found.scope, .word found.name]
  | .inclusion found => [.literal found.path]
  | .struct found =>
      blockTokens found.name
        (found.fields.flatMap Field.tokens)
  | .enum found =>
      blockTokens found.name
        (found.members.flatMap EnumMember.tokens)
  | .service found =>
      blockTokens found.name
        (found.functions.flatMap Function.tokens)

def Definition.tokens
    (found : Definition) : List Token :=
  .word found.kind.word :: found.bodyTokens

def Document.tokens
    (document : Document) : List Token :=
  document.body.flatMap Definition.tokens

end Idl

end ThriftTypings
