import ThriftTypings.Idl.Data
import ThriftTypings.Idl.Syntax

/-
  This file defines documents as plain data, and the check
  that plain data is a document.

  Every node is a record. The nodes of which there are
  several kinds carry the kind as a tag.
-/

namespace ThriftTypings

namespace Idl

-- Tags

/- The key under which a record carries its tag. -/
def tagKey : Text := "kind".toList

/-
  The tag of a record, which has to be one of those that
  `read` knows.
-/
def tagOf
    {α : Type}
    (read : Text → Option α) : Data → Checked α
  | .record entries =>
      match Data.lookup? tagKey entries with
      | none => Checked.fault .noTag
      | some (.text found) =>
          match read found with
          | some tag => pure tag
          | none => Checked.fault .wrongTag
      | some _ => Checked.fault .wrongTag
  | _ => Checked.fault .notTagged

/- A check that depends on a tag, with the tag on its way. -/
def tagged
    {α τ : Type}
    (read : Text → Option τ)
    (word : τ → Text)
    (check : τ → Checked α)
    (data : Data) : Checked α :=
  match tagOf read data with
  | .error faults => .error faults
  | .ok tag => Checked.under (.key (word tag)) (check tag)

/- A tag may be left out, but if it is there it has to fit. -/
def fitting
    (word : Text)
    (entries : List (Text × Data)) : Checked Unit :=
  Checked.optional tagKey ()
    (Checked.word fun found =>
      if found = word then some () else none)
    entries

-- Comments

namespace Comment

/- The tags of comments. -/
inductive Tag where
  | line
  | block
  deriving DecidableEq, Repr

/- The word of a tag. -/
def Tag.word : Tag → Text
  | .line => "line".toList
  | .block => "block".toList

/- The tag with a given word. -/
def Tag.ofWord?
    (word : Text) : Option Tag :=
  [Tag.line, Tag.block].find? fun tag => tag.word = word

/- A comment as data. -/
def toData : Comment → Data
  | .line text =>
      .record
        [(tagKey, .text Tag.line.word),
         ("text".toList, .text text)]
  | .block lines =>
      .record
        [(tagKey, .text Tag.block.word),
         ("lines".toList, .list (lines.map .text))]

/- Checks data as a comment of a given kind. -/
def ofTagged
    (tag : Tag) : Data → Checked Comment :=
  Checked.record fun entries =>
    match tag with
    | .line =>
        (fun _ text => .line text) <$>
          fitting tag.word entries <*>
          Checked.needed "text".toList Checked.text entries
    | .block =>
        (fun _ lines => .block lines) <$>
          fitting tag.word entries <*>
          Checked.needed "lines".toList
            (Checked.items Checked.text) entries

/- Checks data as a comment. -/
def ofData
    (data : Data) : Checked Comment :=
  tagged Tag.ofWord? Tag.word (fun tag => ofTagged tag data)
    data

end Comment

/- Comments as data. -/
def commentsData
    (comments : List Comment) : Data :=
  .list (comments.map Comment.toData)

/- Comments under a key, none if the key is left out. -/
def commentsUnder
    (key : Text)
    (entries : List (Text × Data)) :
    Checked (List Comment) :=
  Checked.optional key [] (Checked.items Comment.ofData)
    entries

-- Types

namespace Primitive

/- The built-in type with a given keyword. -/
def ofWord?
    (word : Text) : Option Primitive :=
  all.find? fun primitive => primitive.word = word

end Primitive

namespace IdlType

/- The tags of types. -/
inductive Tag where
  | primitive
  | list
  | map
  | named
  deriving DecidableEq, Repr

/- The word of a tag. -/
def Tag.word : Tag → Text
  | .primitive => "primitive".toList
  | .list => "list".toList
  | .map => "map".toList
  | .named => "named".toList

/- The tag with a given word. -/
def Tag.ofWord?
    (word : Text) : Option Tag :=
  [Tag.primitive, Tag.list, Tag.map, Tag.named].find?
    fun tag => tag.word = word

/- A type as data. -/
def toData : IdlType → Data
  | .primitive builtin =>
      .record
        [(tagKey, .text Tag.primitive.word),
         ("name".toList, .text builtin.word)]
  | .list element =>
      .record
        [(tagKey, .text Tag.list.word),
         ("element".toList, element.toData)]
  | .map key value =>
      .record
        [(tagKey, .text Tag.map.word),
         ("key".toList, key.toData),
         ("value".toList, value.toData)]
  | .named name =>
      .record
        [(tagKey, .text Tag.named.word),
         ("name".toList, .text name)]

/- Checks data as a type of a given kind. -/
def ofTagged
    (tag : Tag) : Data → Checked IdlType
  | .record entries =>
      let inside (key : Text) : Checked IdlType :=
        Checked.under (.key key)
          (match _h : Data.lookup? key entries with
           | none => Checked.fault .missing
           | some data =>
               tagged Tag.ofWord? Tag.word
                 (fun tag => ofTagged tag data) data)
      match tag with
      | .primitive =>
          (fun _ builtin => .primitive builtin) <$>
            fitting tag.word entries <*>
            Checked.needed "name".toList
              (Checked.word Primitive.ofWord?) entries
      | .list =>
          (fun _ element => .list element) <$>
            fitting tag.word entries <*>
            inside "element".toList
      | .map =>
          (fun _ key value => .map key value) <$>
            fitting tag.word entries <*>
            inside "key".toList <*>
            inside "value".toList
      | .named =>
          (fun _ name => .named name) <$>
            fitting tag.word entries <*>
            Checked.needed "name".toList Checked.text entries
  | _ => Checked.fault .notRecord
termination_by data => sizeOf data
decreasing_by
  have := Data.sizeOf_lookup?_lt _h
  simp only [Data.record.sizeOf_spec]
  omega

/- Checks data as a type. -/
def ofData
    (data : Data) : Checked IdlType :=
  tagged Tag.ofWord? Tag.word (fun tag => ofTagged tag data)
    data

end IdlType

-- Members

namespace Annot

/- An annotation as data. -/
def toData
    (annot : Annot) : Data :=
  .record
    [("name".toList, .text annot.name),
     ("value".toList, .text annot.value)]

/- Checks data as an annotation. -/
def ofData : Data → Checked Annot :=
  Checked.record fun entries =>
    Annot.mk <$>
      Checked.needed "name".toList Checked.text entries <*>
      Checked.needed "value".toList Checked.text entries

end Annot

/- Annotations as data. -/
def annotationsData : Option (List Annot) → Data
  | none => .null
  | some annotations =>
      .list (annotations.map Annot.toData)

/- Annotations in a record, none if they are left out. -/
def annotationsOf
    (entries : List (Text × Data)) :
    Checked (Option (List Annot)) :=
  Checked.optional "annotations".toList none
    (Checked.nullable (Checked.items Annot.ofData))
    entries

namespace Requiredness

/- The requiredness with a given keyword. -/
def ofWord?
    (word : Text) : Option Requiredness :=
  all.find? fun requiredness => requiredness.word = word

end Requiredness

namespace Field

/- A field as data. -/
def toData
    (field : Field) : Data :=
  .record
    [("id".toList, .text field.id),
     ("requiredness".toList,
       Data.ofOption (field.requiredness.map (·.word))),
     ("type".toList, field.type.toData),
     ("name".toList, .text field.name),
     ("annotations".toList,
       annotationsData field.annotations),
     ("comments".toList, commentsData field.comments)]

/- Checks data as a field. -/
def ofData : Data → Checked Field :=
  Checked.record fun entries =>
    Field.mk <$>
      Checked.needed "id".toList Checked.text entries <*>
      Checked.optional "requiredness".toList none
        (Checked.nullable
          (Checked.word Requiredness.ofWord?)) entries <*>
      Checked.needed "type".toList IdlType.ofData entries <*>
      Checked.needed "name".toList Checked.text entries <*>
      annotationsOf entries <*>
      commentsUnder "comments".toList entries

end Field

namespace EnumMember

/- An enum member as data. -/
def toData
    (enumMember : EnumMember) : Data :=
  .record
    [("name".toList, .text enumMember.name),
     ("value".toList, Data.ofOption enumMember.value),
     ("comments".toList, commentsData enumMember.comments)]

/- Checks data as an enum member. -/
def ofData : Data → Checked EnumMember :=
  Checked.record fun entries =>
    EnumMember.mk <$>
      Checked.needed "name".toList Checked.text entries <*>
      Checked.optional "value".toList none
        (Checked.nullable Checked.text) entries <*>
      commentsUnder "comments".toList entries

end EnumMember

/- Fields in a record, none if they are left out. -/
def fieldsOf
    (entries : List (Text × Data)) : Checked (List Field) :=
  Checked.optional "fields".toList []
    (Checked.items Field.ofData) entries

namespace Function

/- A function as data. -/
def toData
    (function : Function) : Data :=
  .record
    [("return_type".toList, function.returnType.toData),
     ("name".toList, .text function.name),
     ("fields".toList,
       .list (function.fields.map Field.toData)),
     ("annotations".toList,
       annotationsData function.annotations),
     ("comments".toList, commentsData function.comments)]

/- Checks data as a function. -/
def ofData : Data → Checked Function :=
  Checked.record fun entries =>
    Function.mk <$>
      Checked.needed "return_type".toList IdlType.ofData
        entries <*>
      Checked.needed "name".toList Checked.text entries <*>
      fieldsOf entries <*>
      annotationsOf entries <*>
      commentsUnder "comments".toList entries

end Function

-- Definitions

namespace Kind

/- The kind with a given keyword. -/
def ofWord?
    (word : Text) : Option Kind :=
  all.find? fun kind => kind.word = word

end Kind

namespace Definition

/- A definition as data. -/
def toData : Definition → Data
  | .nameSpace found =>
      .record
        [(tagKey, .text Kind.nameSpace.word),
         ("scope".toList, .text found.scope),
         ("name".toList, .text found.name),
         ("comments".toList, commentsData found.comments)]
  | .inclusion found =>
      .record
        [(tagKey, .text Kind.inclusion.word),
         ("path".toList, .text found.path),
         ("comments".toList, commentsData found.comments)]
  | .struct found =>
      .record
        [(tagKey, .text Kind.struct.word),
         ("name".toList, .text found.name),
         ("fields".toList,
           .list (found.fields.map Field.toData)),
         ("comments".toList, commentsData found.comments),
         ("trailing_comments".toList,
           commentsData found.trailing)]
  | .enum found =>
      .record
        [(tagKey, .text Kind.enum.word),
         ("name".toList, .text found.name),
         ("members".toList,
           .list (found.members.map EnumMember.toData)),
         ("comments".toList, commentsData found.comments),
         ("trailing_comments".toList,
           commentsData found.trailing)]
  | .service found =>
      .record
        [(tagKey, .text Kind.service.word),
         ("name".toList, .text found.name),
         ("functions".toList,
           .list (found.functions.map Function.toData)),
         ("comments".toList, commentsData found.comments),
         ("trailing_comments".toList,
           commentsData found.trailing)]

/- Checks data as a definition of a given kind. -/
def ofTagged
    (kind : Kind) : Data → Checked Definition :=
  Checked.record fun entries =>
    let name :=
      Checked.needed "name".toList Checked.text entries
    let comments := commentsUnder "comments".toList entries
    let trailing :=
      commentsUnder "trailing_comments".toList entries
    match kind with
    | .nameSpace =>
        (fun _ scope name comments =>
          .nameSpace ⟨scope, name, comments⟩) <$>
          fitting kind.word entries <*>
          Checked.needed "scope".toList Checked.text
            entries <*>
          name <*> comments
    | .inclusion =>
        (fun _ path comments =>
          .inclusion ⟨path, comments⟩) <$>
          fitting kind.word entries <*>
          Checked.needed "path".toList Checked.text
            entries <*>
          comments
    | .struct =>
        (fun _ name fields comments trailing =>
          .struct ⟨name, fields, comments, trailing⟩) <$>
          fitting kind.word entries <*> name <*>
          fieldsOf entries <*> comments <*> trailing
    | .enum =>
        (fun _ name members comments trailing =>
          .enum ⟨name, members, comments, trailing⟩) <$>
          fitting kind.word entries <*> name <*>
          Checked.optional "members".toList []
            (Checked.items EnumMember.ofData) entries <*>
          comments <*> trailing
    | .service =>
        (fun _ name functions comments trailing =>
          .service ⟨name, functions, comments, trailing⟩) <$>
          fitting kind.word entries <*> name <*>
          Checked.optional "functions".toList []
            (Checked.items Function.ofData) entries <*>
          comments <*> trailing

/- Checks data as a definition. -/
def ofData
    (data : Data) : Checked Definition :=
  tagged Kind.ofWord? Kind.word
    (fun kind => ofTagged kind data) data

end Definition

-- Documents

namespace Document

/- A document as data. -/
def toData
    (document : Document) : Data :=
  .record
    [("body".toList,
       .list (document.body.map Definition.toData)),
     ("trailing_comments".toList,
       commentsData document.trailing)]

/- Checks data as a document. -/
def ofData : Data → Checked Document :=
  Checked.record fun entries =>
    Document.mk <$>
      Checked.optional "body".toList []
        (Checked.items Definition.ofData) entries <*>
      commentsUnder "trailing_comments".toList entries

end Document

end Idl

end ThriftTypings
