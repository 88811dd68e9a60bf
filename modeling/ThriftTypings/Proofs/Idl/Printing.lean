import ThriftTypings.Proofs.Idl.WellFormed

/-
  This file defines how documents are written down, one
  member to a line.

  What a document leaves open is where the comments of its
  members stand, and which separators follow them. A layout
  settles that: for each member it splits the comments into
  those in front of it, those inside of it, and one beside
  it on its line.

  Key definitions include:
    * `Comment.text`, `IdlType.text`
    * `Margin`
-/

namespace ThriftTypings

namespace Idl

-- Comments, Types and Annotations

/- A comment as it is written. -/
def Comment.text : Comment → Text
  | .line text => '/' :: '/' :: ' ' :: text
  | .block lines =>
      '/' :: '*' ::
        (Text.joined ['\n'] lines ++ ['*', '/'])

/- Comments, each one on lines of its own. -/
def commentLines
    (comments : List Comment) : Text :=
  comments.flatMap fun comment => comment.text ++ ['\n']

/- A type as it is written. -/
def IdlType.text : IdlType → Text
  | .primitive name => name.word
  | .list element =>
      Generic.list.word ++ '<' :: (element.text ++ ['>'])
  | .map key value =>
      Generic.map.word ++
        '<' :: (key.text ++
          ',' :: ' ' :: (value.text ++ ['>']))
  | .named name => name

/- A literal in quotes. -/
def inQuotes
    (value : Text) : Text :=
  '"' :: (value ++ ['"'])

def Annot.text
    (found : Annot) : Text :=
  found.name ++ '=' :: inQuotes found.value

/- Annotations in parentheses, if there are any. -/
def annotationsText : Option (List Annot) → Text
  | none => []
  | some found =>
      ' ' :: '(' ::
        (Text.joined [',', ' '] (found.map Annot.text) ++
          [')'])

-- Members

def requirednessText : Option Requiredness → Text
  | none => []
  | some requiredness => requiredness.word ++ [' ']

/- A field without its comments. -/
def Field.text
    (field : Field) : Text :=
  field.id ++ ':' :: ' ' ::
    (requirednessText field.requiredness ++
      (field.type.text ++
        ' ' :: (field.name ++
          annotationsText field.annotations)))

def valueText : Option Text → Text
  | none => []
  | some value => ' ' :: '=' :: ' ' :: value

/- An enum member without its comments. -/
def EnumMember.text
    (found : EnumMember) : Text :=
  found.name ++ valueText found.value

-- Layouts of Members

/- What may follow a member. -/
inductive Separator where
  | comma
  | semicolon
  deriving DecidableEq, Repr

def Separator.mark : Separator → Char
  | .comma => ','
  | .semicolon => ';'

/-
  What stands around a member: comments in front of it, and
  on its line a separator and a comment beside it.
-/
structure Margin where
  leading : List Comment
  separator : Option Separator
  beside : Option Text
  deriving DecidableEq, Repr

namespace Margin

/- The comments after a member. -/
def after
    (margin : Margin) : List Comment :=
  (margin.beside.map Comment.line).toList

def besideText
    (margin : Margin) : Text :=
  match margin.beside with
  | none => []
  | some text => ' ' :: (Comment.line text).text

/- The rest of the line of a member. -/
def ending
    (margin : Margin) : Text :=
  (margin.separator.map Separator.mark).toList ++
    margin.besideText

end Margin

/- A member without comments, and what stands around it. -/
structure Line (α : Type) where
  value : α
  margin : Margin
  content : Text

namespace Line

variable {α : Type}

def text
    (line : Line α) : Text :=
  commentLines line.margin.leading ++
    (line.content ++ (line.margin.ending ++ ['\n']))

/- Lines, up to the symbol that closes them. -/
def textTo
    (closing : Char)
    (lines : List (Line α))
    (trailing : List Comment) : Text :=
  '\n' :: (lines.flatMap Line.text ++
    (commentLines trailing ++ [closing]))

end Line

/- A member whose comments are those in its margin. -/
structure Placed
    {α : Type}
    (comments : α → List Comment) where
  value : α
  margin : Margin
  split : comments value = margin.leading ++ margin.after

namespace Placed

variable {α : Type} {comments : α → List Comment}

def line
    (text : α → Text)
    (placed : Placed comments) : Line α where
  value := placed.value
  margin := placed.margin
  content := text placed.value

/- A member with all of its comments in front of it. -/
def plain
    (value : α) : Placed comments where
  value := value
  margin := ⟨comments value, none, none⟩
  split := by simp [Margin.after]

end Placed

/-
  A function with its parameters. Some of its comments may
  stand inside of it, after the last parameter.
-/
structure PlacedFunction where
  value : Function
  parameters : List (Placed Field.comments)
  inner : List Comment
  margin : Margin
  same : parameters.map Placed.value = value.fields
  split : value.comments =
    margin.leading ++ (inner ++ margin.after)

namespace PlacedFunction

/- A function without the comments around it. -/
def content
    (placed : PlacedFunction) : Text :=
  placed.value.returnType.text ++
    ' ' :: (placed.value.name ++
      '(' :: (Line.textTo ')'
        (placed.parameters.map (Placed.line Field.text))
        placed.inner ++
          annotationsText placed.value.annotations))

def line
    (placed : PlacedFunction) : Line Function where
  value := placed.value
  margin := placed.margin
  content := placed.content

def plain
    (function : Function) : PlacedFunction where
  value := function
  parameters := function.fields.map Placed.plain
  inner := []
  margin := ⟨function.comments, none, none⟩
  same := by simp [Placed.plain, Function.comp_def]
  split := by simp [Margin.after]

end PlacedFunction

-- Layouts of Documents

/- A definition with its members. -/
inductive PlacedDefinition where
  | nameSpace (found : NamespaceDef)
  | inclusion (found : IncludeDef)
  | struct
      (found : StructDef)
      (fields : List (Placed Field.comments))
      (same : fields.map Placed.value = found.fields)
  | enum
      (found : EnumDef)
      (members : List (Placed EnumMember.comments))
      (same : members.map Placed.value = found.members)
  | service
      (found : ServiceDef)
      (functions : List PlacedFunction)
      (same : functions.map PlacedFunction.value =
        found.functions)

namespace PlacedDefinition

def definition : PlacedDefinition → Definition
  | nameSpace found => .nameSpace found
  | inclusion found => .inclusion found
  | struct found _ _ => .struct found
  | enum found _ _ => .enum found
  | service found _ _ => .service found

/- What follows the keyword of a definition. -/
def content : PlacedDefinition → Text
  | nameSpace found =>
      found.scope ++ ' ' :: found.name
  | inclusion found => inQuotes found.path
  | struct found fields _ =>
      found.name ++ ' ' :: '\x7b' ::
        Line.textTo '\x7d'
          (fields.map (Placed.line Field.text))
          found.trailing
  | enum found members _ =>
      found.name ++ ' ' :: '\x7b' ::
        Line.textTo '\x7d'
          (members.map (Placed.line EnumMember.text))
          found.trailing
  | service found functions _ =>
      found.name ++ ' ' :: '\x7b' ::
        Line.textTo '\x7d'
          (functions.map PlacedFunction.line)
          found.trailing

/- A definition without the comments in front of it. -/
def text
    (placed : PlacedDefinition) : Text :=
  placed.definition.kind.word ++ ' ' :: placed.content

def plain : Definition → PlacedDefinition
  | .nameSpace found => nameSpace found
  | .inclusion found => inclusion found
  | .struct found =>
      struct found (found.fields.map Placed.plain)
        (by simp [Placed.plain, Function.comp_def])
  | .enum found =>
      enum found (found.members.map Placed.plain)
        (by simp [Placed.plain, Function.comp_def])
  | .service found =>
      service found
        (found.functions.map PlacedFunction.plain)
        (by simp [PlacedFunction.plain, Function.comp_def])

theorem definition_plain
    (found : Definition) :
    (plain found).definition = found := by
  cases found <;> rfl

end PlacedDefinition

/- How a document is laid out: its definitions with members. -/
structure Layout
    (document : Document) where
  body : List PlacedDefinition
  same : body.map PlacedDefinition.definition = document.body

/- The layout with all comments in front of their members. -/
def Layout.plain
    (document : Document) : Layout document where
  body := document.body.map PlacedDefinition.plain
  same := by
    simp [PlacedDefinition.definition_plain,
      Function.comp_def]

/- Definitions, each one after the comments that lead it. -/
def definitionLines
    (body : List PlacedDefinition) : Text :=
  body.flatMap fun placed =>
    commentLines placed.definition.comments ++
      (placed.text ++ ['\n'])

/- A document as it is written in some layout. -/
def Document.print
    (document : Document)
    (layout : Layout document) : Text :=
  definitionLines layout.body ++
    commentLines document.trailing

end Idl

end ThriftTypings
