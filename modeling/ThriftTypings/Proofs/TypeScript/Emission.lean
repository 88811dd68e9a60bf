import ThriftTypings.Proofs.Idl.Collected
import ThriftTypings.Proofs.TypeScript.Declared
import ThriftTypings.Proofs.TypeScript.Residue

/-
  This file proves that emitted code holds every comment of
  its document, once, and in order.

  The names and numbers in a document are taken to be ASCII,
  so that what is left of the output without its ASCII
  characters and blanks can only come from comments. Every
  function on the way from a comment to a line of the output
  is shown to keep these characters.

  Key definitions include:
    * `Text.foreign`
    * `Idl.Document.words`

  Key theorems include:
    * `foreign_declaration`
    * `generate_emits_every_comment`
-/

namespace ThriftTypings

variable {text : Text} {path : Text} {name : Text}
variable {c : Char}

-- Foreign Characters

namespace Text

/- Is the character neither ASCII nor blank? -/
def isForeign
    (c : Char) : Bool :=
  128 ≤ c.toNat && !isBlank c

/- The characters that are neither ASCII nor blank. -/
def foreign
    (text : Text) : Text :=
  text.filter isForeign

theorem foreign_append
    (first second : Text) :
    foreign (first ++ second) =
      foreign first ++ foreign second :=
  List.filter_append ..

theorem foreign_cons
    (c : Char)
    (rest : Text) :
    foreign (c :: rest) = foreign [c] ++ foreign rest :=
  foreign_append [c] rest

theorem isForeign_of_isBlank
    (h : isBlank c = true) :
    isForeign c = false := by
  simp [isForeign, h]

theorem isForeign_of_lt
    (h : c.toNat < 128) :
    isForeign c = false := by
  simp [isForeign, Nat.not_le.mpr h]

theorem isForeign_of_isLineBreak
    (h : isLineBreak c = true) :
    isForeign c = false := by
  refine isForeign_of_isBlank ?_
  have hBlank : ∀ code ∈
      [0x0A, 0x0B, 0x0C, 0x0D, 0x1C, 0x1D, 0x1E, 0x85,
        0x2028, 0x2029],
      blankRanges.any (within code) = true := by
    decide
  exact hBlank c.toNat (of_decide_eq_true h)

/- Has the text no foreign characters? -/
def IsNative
    (text : Text) : Prop :=
  foreign text = []

instance
    (text : Text) : Decidable (IsNative text) :=
  inferInstanceAs (Decidable (foreign text = []))

namespace IsNative

theorem of_forall
    (h : ∀ c ∈ text, isForeign c = false) :
    IsNative text := by
  simpa [IsNative, foreign] using h

/- What is made of native characters is native. -/
theorem of_mem
    {text other : Text}
    (h : IsNative text)
    (hOther : ∀ c ∈ other,
      c ∈ text ∨ isForeign c = false) :
    IsNative other := by
  have hText : ∀ c ∈ text, isForeign c = false := by
    simpa [IsNative, foreign] using h
  refine .of_forall fun c hc => ?_
  rcases hOther c hc with hMem | hNative
  · exact hText c hMem
  · exact hNative

theorem append
    {first second : Text}
    (hFirst : IsNative first)
    (hSecond : IsNative second) :
    IsNative (first ++ second) := by
  rw [IsNative, foreign_append, hFirst, hSecond]
  rfl

theorem foreign_left
    {first : Text}
    (h : IsNative first)
    (second : Text) :
    foreign (first ++ second) = foreign second := by
  rw [foreign_append, h, List.nil_append]

theorem foreign_right
    {second : Text}
    (h : IsNative second)
    (first : Text) :
    foreign (first ++ second) = foreign first := by
  rw [foreign_append, h, List.append_nil]

end IsNative

theorem foreign_joined
    {between : Text}
    (h : IsNative between)
    (parts : List Text) :
    foreign (joined between parts) =
      parts.flatMap foreign := by
  induction parts with
  | nil => rfl
  | cons part more ih =>
      cases more with
      | nil => simp [joined]
      | cons next others =>
          rw [joined_cons_cons, foreign_append,
            h.foreign_right, ih]
          rfl

theorem IsNative.joined
    {between : Text}
    {parts : List Text}
    (hBetween : IsNative between)
    (hParts : ∀ part ∈ parts, IsNative part) :
    IsNative (joined between parts) := by
  rw [IsNative, foreign_joined hBetween]
  exact List.flatMap_eq_nil_iff.mpr hParts

theorem foreign_stripEnd
    (text : Text) :
    foreign (stripEnd text) = foreign text := by
  have hSplit :
      stripEnd text ++
          (text.reverse.takeWhile isBlank).reverse =
        text := by
    rw [stripEnd, ← List.reverse_append,
      List.takeWhile_append_dropWhile, List.reverse_reverse]
  have hBlanks :
      IsNative (text.reverse.takeWhile isBlank).reverse := by
    refine .of_forall fun c hc => ?_
    exact isForeign_of_isBlank
      (List.mem_takeWhile_imp (List.mem_reverse.mp hc))
  conv_rhs => rw [← hSplit]
  rw [hBlanks.foreign_right]

/- Cutting a text into lines loses line breaks only. -/
theorem foreign_lines
    (text : Text) :
    (lines text).flatMap foreign = foreign text := by
  fun_induction lines text with
  | case1 => rfl
  | case2 rest ih =>
      rw [List.flatMap_cons, ih]
      rfl
  | case3 c rest _ hBreak ih =>
      have hNative : IsNative [c] := .of_forall (by
        simpa using isForeign_of_isLineBreak hBreak)
      rw [List.flatMap_cons, ih, foreign_cons c, hNative]
      rfl
  | case4 c rest _ _ hNone ih =>
      rw [hNone] at ih
      rw [foreign_cons c, ← ih]
      simp
  | case5 c rest _ _ line more hLines ih =>
      rw [hLines] at ih
      rw [foreign_cons c, ← ih, List.flatMap_cons,
        List.flatMap_cons, foreign_cons c line,
        List.append_assoc]

theorem foreign_entryLines
    (text : Text) :
    (entryLines text).flatMap foreign = foreign text := by
  have hLines := foreign_lines text
  unfold entryLines
  split
  · next hNone =>
      rw [hNone] at hLines
      exact hLines
  · next hSome =>
      rw [hSome] at hLines
      exact hLines

theorem isNative_ofNat
    (n : Nat) :
    IsNative (ofNat n) := by
  refine .of_forall fun c hc => ?_
  have hDigit :=
    Nat.isDigit_of_mem_toDigits (by decide) (by decide) hc
  simp only [Char.isDigit, Bool.and_eq_true,
    decide_eq_true_eq] at hDigit
  have hUpper : c.toNat ≤ 57 := hDigit.2
  exact isForeign_of_lt (by omega)

theorem isNative_ofInt
    (value : Int) :
    IsNative (ofInt value) := by
  cases value with
  | ofNat n => exact isNative_ofNat n
  | negSucc n =>
      have hSign : IsNative ['-'] := by decide
      exact hSign.append (isNative_ofNat (n + 1))

/- An escape is made of ASCII characters. -/
theorem isNative_literalChar
    (h : isForeign c = false) :
    IsNative (literalChar c) := by
  have hHex (n : Nat) (h : n < 32) :
      IsNative (hex 4 n) := by
    revert n
    decide
  have hMark : IsNative ['\\', 'u'] := by decide
  unfold literalChar
  split_ifs with _ _ _ _ _ _ _ hLow
  iterate 7 decide
  · exact hMark.append (hHex _ hLow)
  · exact .of_forall (by simpa using h)

theorem isNative_literal
    (h : IsNative text) :
    IsNative (literal text) := by
  have hQuote : IsNative ['"'] := by decide
  have hInside : IsNative (text.flatMap literalChar) := by
    rw [IsNative, foreign, List.filter_flatMap,
      List.flatMap_eq_nil_iff]
    intro c hc
    refine isNative_literalChar ?_
    simp only [IsNative, foreign, List.filter_eq_nil_iff,
      Bool.not_eq_true] at h
    exact h c hc
  exact (hQuote.append hInside).append hQuote

end Text

namespace Path

open Text

theorem mem_of_mem_afterLast
    {mark c : Char}
    (h : c ∈ afterLast mark text) :
    c ∈ text := by
  have hReverse := List.mem_reverse.mp h
  exact List.mem_reverse.mp
    ((List.takeWhile_sublist _).mem hReverse)

theorem mem_of_mem_throughLast
    {mark c : Char}
    (h : c ∈ throughLast mark text) :
    c ∈ text := by
  have hReverse := List.mem_reverse.mp h
  exact List.mem_reverse.mp
    ((List.dropWhile_sublist _).mem hReverse)

theorem mem_of_mem_moduleStem
    (h : c ∈ moduleStem path) :
    c ∈ path := by
  simp only [moduleStem] at h
  split at h
  · exact mem_of_mem_afterLast h
  · exact mem_of_mem_afterLast
      (mem_of_mem_throughLast
        ((List.dropLast_sublist _).mem h))

theorem isNative_moduleStem
    (h : IsNative path) :
    IsNative (moduleStem path) :=
  h.of_mem fun _ hc => .inl (mem_of_mem_moduleStem hc)

theorem isNative_importSpecifier
    (h : IsNative path) :
    IsNative (importSpecifier path) := by
  have hFront : IsNative (throughLast '/' path) :=
    h.of_mem fun _ hc => .inl (mem_of_mem_throughLast hc)
  have hName : IsNative (afterLast '/' path) :=
    h.of_mem fun _ hc => .inl (mem_of_mem_afterLast hc)
  have hExtension : IsNative outputExtension := by decide
  have hTarget : IsNative (replaceExtension path) :=
    (hFront.append (isNative_moduleStem hName)).append
      hExtension
  have hHere : IsNative "./".toList := by decide
  simp only [importSpecifier]
  split
  · exact hTarget
  · exact hHere.append hTarget

end Path

-- Words and Comments of Documents

namespace Idl

/- The foreign characters of a comment. -/
def Comment.foreign : Comment → Text
  | .line text => Text.foreign text
  | .block lines => lines.flatMap Text.foreign

/- The names in a type. -/
def IdlType.words : IdlType → List Text
  | .primitive _ => []
  | .list element => element.words
  | .map key value => key.words ++ value.words
  | .named name => [name]

/- The names and values of annotations. -/
def annotationWords
    (annotations : Option (List Annot)) : List Text :=
  (annotations.getD []).flatMap fun found =>
    [found.name, found.value]

/- The texts of a field outside of its comments. -/
def Field.words
    (field : Field) : List Text :=
  [field.id, field.name] ++ field.type.words ++
    annotationWords field.annotations

/- The texts of an enum member outside of its comments. -/
def EnumMember.words
    (found : EnumMember) : List Text :=
  found.name :: found.value.toList

/- The texts of a function outside of its comments. -/
def Function.words
    (function : Function) : List Text :=
  function.name :: function.returnType.words ++
    function.fields.flatMap Field.words ++
    annotationWords function.annotations

/- The texts of a definition outside of its comments. -/
def Definition.words : Definition → List Text
  | .nameSpace found => [found.scope, found.name]
  | .inclusion found => [found.path]
  | .struct found =>
      found.name :: found.fields.flatMap Field.words
  | .enum found =>
      found.name :: found.members.flatMap EnumMember.words
  | .service found =>
      found.name :: found.functions.flatMap Function.words

/- The texts of a document outside of its comments. -/
def Document.words
    (document : Document) : List Text :=
  document.body.flatMap Definition.words

end Idl

namespace TypeScript

open Idl Text

-- Lines

theorem foreign_lineAt
    (depth : Int)
    (text : Text) :
    foreign (lineAt depth text) = foreign text := by
  have hIndent :
      IsNative (List.replicate (2 * depth.toNat) ' ') := by
    refine .of_forall fun c hc => ?_
    rw [List.eq_of_mem_replicate hc]
    decide
  rw [lineAt, foreign_stripEnd, hIndent.foreign_left]

theorem foreign_escapeDoc
    (text : Text) :
    foreign (escapeDoc text) = foreign text := by
  fun_induction escapeDoc text with
  | case1 => rfl
  | case2 rest ih =>
      have hMarks : IsNative ['*', '/'] := by decide
      have hEscaped : IsNative ['*', '\\', '/'] := by decide
      calc foreign (['*', '\\', '/'] ++ escapeDoc rest)
          = foreign rest := by
            rw [hEscaped.foreign_left, ih]
        _ = foreign (['*', '/'] ++ rest) :=
            (hMarks.foreign_left rest).symm
  | case3 c rest _ ih =>
      rw [foreign_cons, ih, ← foreign_cons]

theorem foreign_entries
    (entries : List Text) :
    (entries.flatMap entryLines).flatMap foreign =
      entries.flatMap foreign := by
  rw [List.flatMap_assoc]
  exact List.flatMap_congr fun entry _ =>
    foreign_entryLines entry

/- Documentation keeps what its entries say. -/
theorem foreign_docAt
    (depth : Int)
    (entries : List Text) :
    (docAt depth entries).flatMap foreign =
      entries.flatMap foreign := by
  have hOpen : IsNative "/** ".toList := by decide
  have hClose : IsNative " */".toList := by decide
  have hGutter : IsNative " * ".toList := by decide
  have hStart : IsNative "/**".toList := by decide
  have hEscaped :
      ((entries.flatMap entryLines).map escapeDoc).flatMap
          foreign =
        entries.flatMap foreign := by
    rw [List.flatMap_map, ← foreign_entries]
    exact List.flatMap_congr fun line _ =>
      foreign_escapeDoc line
  rw [← hEscaped]
  unfold docAt
  split
  · next hNone => rw [hNone]
  · next only hOnly =>
      rw [hOnly, List.flatMap_singleton,
        List.flatMap_singleton, foreign_lineAt,
        hClose.foreign_right, hOpen.foreign_left]
  · next first second more hSome =>
      rw [hSome, List.flatMap_append, List.flatMap_append,
        List.flatMap_singleton, List.flatMap_singleton,
        foreign_lineAt, foreign_lineAt, hStart, hClose,
        List.nil_append, List.append_nil, List.flatMap_map]
      refine List.flatMap_congr fun line _ => ?_
      rw [foreign_lineAt, hGutter.foreign_left]

theorem foreign_remarksAt
    (depth : Int)
    (entries : List Text) :
    (remarksAt depth entries).flatMap foreign =
      entries.flatMap foreign := by
  have hMark : IsNative "// ".toList := by decide
  rw [remarksAt, List.flatMap_map, ← foreign_entries]
  refine List.flatMap_congr fun line _ => ?_
  rw [foreign_lineAt, hMark.foreign_left]

/- A documented line of code says what its entries say. -/
theorem foreign_documented
    (depth : Int)
    (entries : List Text)
    {code : Text}
    (h : IsNative code) :
    (docAt depth entries ++ [lineAt depth code]).flatMap
        foreign =
      entries.flatMap foreign := by
  rw [List.flatMap_append, foreign_docAt,
    List.flatMap_singleton, foreign_lineAt, h,
    List.append_nil]

-- Comments

theorem foreign_withoutGutter
    (text : Text) :
    foreign (withoutGutter text) = foreign text := by
  unfold withoutGutter
  split <;> rfl

theorem foreign_dropWhile_isEmpty
    (texts : List Text) :
    (texts.dropWhile (·.isEmpty)).flatMap foreign =
      texts.flatMap foreign := by
  induction texts with
  | nil => rfl
  | cons text more ih =>
      cases text with
      | nil =>
          rw [List.dropWhile_cons_of_pos rfl, ih]
          rfl
      | cons c rest =>
          rw [List.dropWhile_cons_of_neg (by simp)]

theorem foreign_dropLast_isEmpty
    (texts : List Text) :
    (texts.reverse.dropWhile
        (·.isEmpty)).reverse.flatMap foreign =
      texts.flatMap foreign := by
  induction texts using List.reverseRecOn with
  | nil => rfl
  | append_singleton texts last ih =>
      rw [List.reverse_concat, List.flatMap_append]
      cases last with
      | nil =>
          rw [List.dropWhile_cons_of_pos rfl, ih]
          exact (List.append_nil _).symm
      | cons c rest =>
          rw [List.dropWhile_cons_of_neg (by simp)]
          simp

theorem foreign_blockEntries
    (lines : List Text) :
    (blockEntries lines).flatMap foreign =
      lines.flatMap foreign := by
  have hTrimmed :
      (trimmed (lines.map withoutGutter)).flatMap foreign =
        lines.flatMap foreign := by
    rw [trimmed, foreign_dropLast_isEmpty,
      foreign_dropWhile_isEmpty, List.flatMap_map]
    exact List.flatMap_congr fun line _ =>
      foreign_withoutGutter line
  rw [← hTrimmed]
  unfold blockEntries
  split
  · next hNone =>
      rw [hNone]
      rfl
  · next hSome => rw [hSome]

/- The entries of comments keep what these say. -/
theorem foreign_commentEntries
    (comments : List Comment) :
    (commentEntries comments).flatMap foreign =
      comments.flatMap Comment.foreign := by
  rw [commentEntries, List.flatMap_assoc]
  refine List.flatMap_congr fun comment _ => ?_
  cases comment with
  | line text => exact List.flatMap_singleton ..
  | block lines => exact foreign_blockEntries lines

-- Names and Types

theorem isNative_sanitize
    (h : IsNative name) :
    IsNative (sanitize name) := by
  have hScore : IsNative ['_'] := by decide
  have hSafe : IsNative (name.map safeChar) := by
    refine h.of_mem fun c hc => ?_
    rcases List.mem_map.mp hc with ⟨original, hMem, rfl⟩
    unfold safeChar
    split
    · exact .inl hMem
    · exact .inr (by decide)
  simp only [sanitize]
  split
  · exact hSafe
  · exact hScore.append hSafe

theorem isNative_bindingName
    (h : IsNative name) :
    IsNative (bindingName name) := by
  have hScore : IsNative ['_'] := by decide
  simp only [bindingName]
  split
  · exact (isNative_sanitize h).append hScore
  · exact isNative_sanitize h

theorem isNative_propertyKey
    (h : IsNative name) :
    IsNative (propertyKey name) := by
  unfold propertyKey
  split
  · exact h
  · exact isNative_literal h

theorem isNative_typeReference
    (h : IsNative name) :
    IsNative (typeReference name) := by
  have hDot : IsNative ['.'] := by decide
  have hPieces : ∀ piece ∈ pieces '.' name,
      IsNative piece := by
    intro piece hPiece
    exact h.of_mem fun c hc =>
      .inl ((infix_of_mem_pieces hPiece).subset hc)
  unfold typeReference
  split
  · rfl
  · next head members hSplit =>
      rw [hSplit] at hPieces
      refine hDot.joined fun part hPart => ?_
      rcases List.mem_cons.mp hPart with rfl | hMember
      · exact isNative_bindingName (hPieces head (by simp))
      · rcases List.mem_map.mp hMember with
          ⟨member, hMem, rfl⟩
        exact isNative_sanitize
          (hPieces member (by simp [hMem]))

theorem isNative_ofIdl
    {type : IdlType}
    (h : ∀ word ∈ type.words, IsNative word) :
    IsNative (TypeExpr.ofIdl type).text := by
  have hClose : IsNative ">".toList := by decide
  induction type with
  | primitive name => cases name <;> decide
  | list element ih =>
      have hOpen : IsNative "Array<".toList := by decide
      exact (hOpen.append (ih h)).append hClose
  | map key value ihKey ihValue =>
      have hOpen : IsNative "Record<".toList := by decide
      have hComma : IsNative ", ".toList := by decide
      have hKey := ihKey fun word hMem =>
        h word (List.mem_append_left _ hMem)
      have hValue := ihValue fun word hMem =>
        h word (List.mem_append_right _ hMem)
      exact (((hOpen.append hKey).append hComma).append
        hValue).append hClose
  | named name =>
      exact isNative_typeReference
        (h name (List.mem_singleton_self name))

theorem isNative_importBinding
    (taken : List Text)
    (h : IsNative path) :
    IsNative (importBinding taken path) := by
  have hScore : IsNative "_".toList := by decide
  have hBase :=
    isNative_bindingName (Path.isNative_moduleStem h)
  rcases importBinding_eq_candidate taken path with
    ⟨k, hBinding⟩
  rw [hBinding]
  cases k with
  | zero => exact hBase
  | succ k =>
      exact (hBase.append hScore).append
        (isNative_ofNat (k + 2))

-- Tags

theorem isNative_assignment
    {annotations : Option (List Annot)}
    (h : ∀ word ∈ annotationWords annotations,
      IsNative word)
    {found : Annot}
    (hFound : found ∈ annotations.getD []) :
    IsNative (assignment found) := by
  have hSign : IsNative "=".toList := by decide
  have hWord (word : Text)
      (hMem : word ∈ [found.name, found.value]) :
      IsNative word :=
    h word (List.mem_flatMap.mpr ⟨found, hFound, hMem⟩)
  exact ((hWord found.name (by simp)).append hSign).append
    (hWord found.value (by simp))

theorem foreign_annotationTags
    {annotations : Option (List Annot)}
    (h : ∀ word ∈ annotationWords annotations,
      IsNative word) :
    (annotationTags annotations).flatMap foreign = [] := by
  have hTag : IsNative "@annotation ".toList := by decide
  rw [annotationTags, List.flatMap_map,
    List.flatMap_eq_nil_iff]
  exact fun found hFound =>
    hTag.append (isNative_assignment h hFound)

/- The tag of a parameter keeps what its comments say. -/
theorem foreign_parameterTag
    {field : Field}
    (h : ∀ word ∈ field.words, IsNative word) :
    foreign (parameterTag field) =
      field.comments.flatMap Comment.foreign := by
  have hParam : IsNative "@param ".toList := by decide
  have hFieldId : IsNative " fieldId ".toList := by decide
  have hSpace : IsNative " ".toList := by decide
  have hName : IsNative (bindingName field.name) :=
    isNative_bindingName (h _ (by simp [Field.words]))
  have hId : IsNative field.id :=
    h _ (by simp [Field.words])
  have hWords : ∀ word ∈ annotationWords field.annotations,
      IsNative word :=
    fun word hMem => h word (List.mem_append_right _ hMem)
  have hDescription :
      foreign (joined " ".toList
          (commentEntries field.comments)) =
        field.comments.flatMap Comment.foreign := by
    rw [foreign_joined hSpace, foreign_commentEntries]
  have hFront := ((hParam.append hName).append
    hFieldId).append hId
  unfold parameterTag
  refine (IsNative.foreign_left (hFront.append ?_) _).trans ?_
  · revert hWords
    rcases field.annotations with _ | _ | ⟨first, more⟩ <;>
      intro hWords
    · exact rfl
    · exact rfl
    · have hOpen : IsNative " (".toList := by decide
      have hComma : IsNative ", ".toList := by decide
      have hClose : IsNative ")".toList := by decide
      refine (hOpen.append (hComma.joined ?_)).append hClose
      intro part hPart
      rcases List.mem_map.mp hPart with ⟨found, hFound, rfl⟩
      exact isNative_assignment hWords hFound
  · rw [← hDescription]
    split
    · next hEmpty => rw [List.isEmpty_iff.mp hEmpty]
    · exact hSpace.foreign_left _

-- Members

theorem foreign_property
    {field : Field}
    (h : ∀ word ∈ field.words, IsNative word) :
    (Property.ofField field).lines.flatMap foreign =
      field.comments.flatMap Comment.foreign := by
  have hColon : IsNative ": ".toList := by decide
  have hEnd : IsNative ";".toList := by decide
  have hFieldId : IsNative "@fieldId ".toList := by decide
  have hId : IsNative field.id :=
    h _ (by simp [Field.words])
  have hKey : IsNative (propertyKey field.name) :=
    isNative_propertyKey (h _ (by simp [Field.words]))
  have hType : IsNative (TypeExpr.ofIdl field.type).text :=
    isNative_ofIdl fun word hMem =>
      h word (by simp [Field.words, hMem])
  have hTags :
      (annotationTags field.annotations).flatMap foreign =
        [] :=
    foreign_annotationTags fun word hMem =>
      h word (List.mem_append_right _ hMem)
  have hOptional (optional : Bool) :
      IsNative (if optional then ['?'] else []) := by
    cases optional <;> decide
  refine (foreign_documented 1 _ ((((hKey.append
    (hOptional _)).append hColon).append hType).append
      hEnd)).trans ?_
  rw [Property.ofField, List.flatMap_append, hTags,
    List.append_nil, List.flatMap_append,
    List.flatMap_singleton, hFieldId.append hId,
    List.append_nil, foreign_commentEntries]

theorem foreign_method
    {function : Function}
    (h : ∀ word ∈ function.words, IsNative word) :
    (Method.ofFunction function).lines.flatMap foreign =
      function.commentLists.flatten.flatMap
        Comment.foreign := by
  have hOpen : IsNative "(".toList := by decide
  have hComma : IsNative ", ".toList := by decide
  have hColon : IsNative ": ".toList := by decide
  have hClose : IsNative "): ".toList := by decide
  have hEnd : IsNative ";".toList := by decide
  have hFields : ∀ field ∈ function.fields,
      ∀ word ∈ field.words, IsNative word := by
    intro field hField word hWord
    refine h word (List.mem_append_left _
      (List.mem_append_right _ ?_))
    exact List.mem_flatMap.mpr ⟨field, hField, hWord⟩
  have hKey : IsNative (propertyKey function.name) :=
    isNative_propertyKey (h _ (by simp [Function.words]))
  have hType :
      IsNative (TypeExpr.ofIdl function.returnType).text :=
    isNative_ofIdl fun word hMem =>
      h word (by simp [Function.words, hMem])
  have hTags :
      (annotationTags function.annotations).flatMap foreign =
        [] :=
    foreign_annotationTags fun word hMem =>
      h word (List.mem_append_right _ hMem)
  have hListed : IsNative (joined ", ".toList
      ((Method.ofFunction function).parameters.map
        Parameter.text)) := by
    refine hComma.joined fun part hPart => ?_
    rcases List.mem_map.mp hPart with ⟨parameter, hMem, rfl⟩
    rcases List.mem_map.mp hMem with ⟨field, hField, rfl⟩
    have hName : IsNative (bindingName field.name) :=
      isNative_bindingName
        (hFields field hField _ (by simp [Field.words]))
    refine (hName.append hColon).append (isNative_ofIdl ?_)
    exact fun word hWord =>
      hFields field hField word (by simp [Field.words, hWord])
  have hParameters :
      (function.fields.map parameterTag).flatMap foreign =
        (function.fields.map Field.comments).flatten.flatMap
          Comment.foreign := by
    rw [List.flatMap_map, ← List.flatMap_def,
      List.flatMap_assoc]
    exact List.flatMap_congr fun field hField =>
      foreign_parameterTag (hFields field hField)
  have hCode := ((((hKey.append hOpen).append
    hListed).append hClose).append hType).append hEnd
  refine (foreign_documented 1 _ hCode).trans ?_
  rw [Method.ofFunction, List.flatMap_append, hTags,
    List.append_nil, List.flatMap_append, hParameters,
    foreign_commentEntries, Function.commentLists,
    List.flatten_cons, List.flatMap_append]

theorem foreign_constants
    {position : Nat}
    {members : List EnumMember}
    {constants : List Constant}
    (hMembers : ∀ found ∈ members,
      ∀ word ∈ found.words, IsNative word)
    (h : constantsFrom position members = .ok constants) :
    (constants.flatMap Constant.lines).flatMap foreign =
      (members.map EnumMember.comments).flatten.flatMap
        Comment.foreign := by
  have hColon : IsNative ": ".toList := by decide
  have hComma : IsNative ",".toList := by decide
  induction members generalizing position constants with
  | nil =>
      cases h
      rfl
  | cons found more ih =>
      rcases constantsFrom_cons_eq_ok_iff.mp h with
        ⟨value, others, _, hOthers, rfl⟩
      have hMore := ih
        (fun other hMem => hMembers other (by simp [hMem]))
        hOthers
      have hKey : IsNative (propertyKey found.name) :=
        isNative_propertyKey
          (hMembers found (by simp) found.name
            (by simp [EnumMember.words]))
      have hCode := ((hKey.append hColon).append
        (isNative_ofInt value)).append hComma
      rw [List.flatMap_cons, List.flatMap_append, hMore,
        List.map_cons, List.flatten_cons,
        List.flatMap_append, Constant.lines,
        foreign_documented 1 _ hCode,
        foreign_commentEntries]

-- Declarations

theorem foreign_block
    {opening closing : Text}
    (hOpening : IsNative opening)
    (hClosing : IsNative closing)
    (inside trailing : List Text) :
    (Declaration.block opening inside trailing
        closing).flatMap foreign =
      inside.flatMap foreign ++ trailing.flatMap foreign := by
  have hOpen : IsNative " \x7b".toList := by decide
  have hClose : IsNative "\x7d".toList := by decide
  rw [Declaration.block, List.flatMap_append,
    List.flatMap_append, List.flatMap_append,
    List.flatMap_singleton, List.flatMap_singleton,
    foreign_lineAt, foreign_lineAt, hOpening.append hOpen,
    hClose.append hClosing, foreign_remarksAt,
    List.nil_append, List.append_nil]

/- The comments of a definition with members, in order. -/
theorem foreign_around
    (own inner trailing : List Comment)
    (inside : List Text)
    (h : inside.flatMap foreign =
      inner.flatMap Comment.foreign)
    {opening closing : Text}
    (hOpening : IsNative opening)
    (hClosing : IsNative closing) :
    (docAt 0 (commentEntries own) ++
        Declaration.block opening inside
          (commentEntries trailing) closing).flatMap foreign =
      (own ++ (inner ++ trailing)).flatMap
        Comment.foreign := by
  rw [List.flatMap_append, foreign_docAt,
    foreign_block hOpening hClosing, h,
    foreign_commentEntries, foreign_commentEntries,
    List.flatMap_append, List.flatMap_append]

/- The lines of properties say what their fields say. -/
theorem foreign_properties
    {fields : List Field}
    (h : ∀ word ∈ fields.flatMap Field.words,
      IsNative word) :
    ((fields.map Property.ofField).flatMap
        Property.lines).flatMap foreign =
      (fields.map Field.comments).flatten.flatMap
        Comment.foreign := by
  rw [List.flatMap_map, ← List.flatMap_def,
    List.flatMap_assoc, List.flatMap_assoc]
  refine List.flatMap_congr fun field hField => ?_
  exact foreign_property fun word hWord => h word
    (List.mem_flatMap.mpr ⟨field, hField, hWord⟩)

/- The lines of methods say what their functions say. -/
theorem foreign_methods
    {functions : List Function}
    (h : ∀ word ∈ functions.flatMap Function.words,
      IsNative word) :
    ((functions.map Method.ofFunction).flatMap
        Method.lines).flatMap foreign =
      (functions.flatMap Function.commentLists).flatten.flatMap
        Comment.foreign := by
  rw [List.flatMap_map, List.flatMap_assoc,
    List.flatten_eq_flatMap, List.flatMap_assoc,
    List.flatMap_assoc]
  refine List.flatMap_congr fun function hFunction => ?_
  rw [← List.flatMap_assoc, ← List.flatten_eq_flatMap]
  exact foreign_method fun word hWord => h word
    (List.mem_flatMap.mpr ⟨function, hFunction, hWord⟩)

/- The lines of an enum say what the enum and its members say. -/
theorem foreign_enum
    {found : EnumDef}
    {constants : List Constant}
    (hWords : ∀ word ∈ (Definition.enum found).words,
      IsNative word)
    (h : constantsFrom 0 found.members = .ok constants) :
    (Declaration.constants (commentEntries found.comments)
        (bindingName found.name) constants
        (commentEntries found.trailing)).lines.flatMap
          foreign =
      (found.comments ++
        ((found.members.map EnumMember.comments).flatten ++
          found.trailing)).flatMap Comment.foreign := by
  rcases List.forall_mem_cons.mp hWords with
    ⟨hWord, hMembers⟩
  have hName := isNative_bindingName hWord
  have hInside := foreign_constants
    (fun member hMember word hMem => hMembers word
      (List.mem_flatMap.mpr ⟨member, hMember, hMem⟩)) h
  have hConst : IsNative "export const ".toList := by decide
  have hEquals : IsNative " =".toList := by decide
  have hAs : IsNative " as const;".toList := by decide
  have hOf : IsNative "export type ".toList := by decide
  have hTypeOf : IsNative " = typeof ".toList := by decide
  have hKeyOf : IsNative "[keyof typeof ".toList := by decide
  have hEnd : IsNative "];".toList := by decide
  have hType := (((((hOf.append hName).append hTypeOf).append
    hName).append hKeyOf).append hName).append hEnd
  rw [Declaration.lines, List.flatMap_append,
    foreign_around _ _ _ _ hInside
      ((hConst.append hName).append hEquals) hAs,
    List.flatMap_singleton, foreign_lineAt, hType,
    List.append_nil]

/- The lines of a declaration say what its comments say. -/
theorem foreign_declaration
    {taken : List Text}
    {definition : Definition}
    {found : Declaration}
    (hWords : ∀ word ∈ definition.words, IsNative word)
    (h : declaration taken definition = .ok found) :
    found.lines.flatMap foreign =
      definition.commentLists.flatten.flatMap
        Comment.foreign := by
  have hInterface : IsNative "export interface ".toList := by
    decide
  have hNone : IsNative [] := rfl
  cases definition with
  | nameSpace definition =>
      cases h
      have hStart : IsNative "namespace ".toList := by decide
      have hSpace : IsNative " ".toList := by decide
      have hScope : IsNative definition.scope :=
        hWords _ (by simp [Definition.words])
      have hName : IsNative definition.name :=
        hWords _ (by simp [Definition.words])
      have hEntry :=
        ((hStart.append hScope).append hSpace).append hName
      rw [Declaration.lines, foreign_docAt,
        List.flatMap_append, List.flatMap_singleton, hEntry,
        foreign_commentEntries]
      simp [Definition.commentLists, Definition.memberLists,
        Definition.comments, Definition.trailing]
  | inclusion definition =>
      cases h
      have hImport : IsNative "import * as ".toList := by
        decide
      have hFrom : IsNative " from ".toList := by decide
      have hEnd : IsNative ";".toList := by decide
      have hPath : IsNative definition.path :=
        hWords _ (by simp [Definition.words])
      have hCode := (((hImport.append
        (isNative_importBinding taken hPath)).append
          hFrom).append (isNative_literal
            (Path.isNative_importSpecifier hPath))).append hEnd
      rw [Declaration.lines, foreign_documented 0 _ hCode,
        foreign_commentEntries]
      simp [Definition.commentLists, Definition.memberLists,
        Definition.comments, Definition.trailing]
  | struct definition =>
      cases h
      rcases List.forall_mem_cons.mp hWords with
        ⟨hName, hFields⟩
      rw [Declaration.lines, foreign_around _ _ _ _
        (foreign_properties hFields)
        (hInterface.append (isNative_bindingName hName))
        hNone]
      simp [Definition.commentLists, Definition.memberLists,
        Definition.comments, Definition.trailing]
  | enum definition =>
      rcases declaration_enum_eq_ok_iff.mp h with
        ⟨constants, hConstants, rfl⟩
      rw [foreign_enum hWords hConstants]
      simp [Definition.commentLists, Definition.memberLists,
        Definition.comments, Definition.trailing]
  | service definition =>
      cases h
      rcases List.forall_mem_cons.mp hWords with
        ⟨hName, hFunctions⟩
      rw [Declaration.lines, foreign_around _ _ _ _
        (foreign_methods hFunctions)
        (hInterface.append (isNative_bindingName hName))
        hNone]
      simp [Definition.commentLists, Definition.memberLists,
        Definition.comments, Definition.trailing]

theorem foreign_declarationsFrom
    {taken : List Text}
    {body : List Definition}
    {declarations : List Declaration}
    (hWords : ∀ word ∈ body.flatMap Definition.words,
      IsNative word)
    (h : declarationsFrom taken body = .ok declarations) :
    (declarations.flatMap Declaration.lines).flatMap foreign =
      (body.flatMap
        Definition.commentLists).flatten.flatMap
          Comment.foreign := by
  induction body generalizing taken declarations with
  | nil =>
      cases h
      rfl
  | cons definition more ih =>
      rw [List.flatMap_cons] at hWords
      rcases declarationsFrom_cons_eq_ok_iff.mp h with
        ⟨first, others, hFirst, hOthers, rfl⟩
      have hHere := foreign_declaration
        (fun word hMem => hWords word
          (List.mem_append_left _ hMem)) hFirst
      have hMore := ih
        (fun word hMem => hWords word
          (List.mem_append_right _ hMem)) hOthers
      rw [List.flatMap_cons, List.flatMap_append, hHere,
        hMore, List.flatMap_cons, List.flatten_append,
        List.flatMap_append]

-- Modules

theorem foreign_blank
    (page : Page) :
    page.blank.lines.flatMap foreign =
      page.lines.flatMap foreign := by
  unfold Page.blank
  split
  · rfl
  · split
    · rfl
    · simp [Page.add, foreign]

theorem foreign_write
    (previous : Option Declaration)
    (declarations : List Declaration)
    (page : Page) :
    (Module.write previous declarations page).lines.flatMap
        foreign =
      page.lines.flatMap foreign ++
        (declarations.flatMap Declaration.lines).flatMap
          foreign := by
  induction declarations generalizing previous page with
  | nil => cases previous <;> simp [Module.write]
  | cons found more ih =>
      -- a blank line in front or not, the page says the same
      have hAdd (start : Page)
          (hStart : start.lines.flatMap foreign =
            page.lines.flatMap foreign) :
          (Module.write (some found) more
              (start.add found.lines)).lines.flatMap foreign =
            page.lines.flatMap foreign ++
              ((found :: more).flatMap
                Declaration.lines).flatMap foreign := by
        rw [ih, Page.add, List.flatMap_append, hStart,
          List.flatMap_cons, List.flatMap_append,
          List.append_assoc]
      cases previous with
      | none => exact hAdd _ (foreign_blank page)
      | some last =>
          simp only [Module.write]
          refine hAdd _ ?_
          split
          · rfl
          · exact foreign_blank page

theorem foreign_output
    (page : Page) :
    foreign page.output = page.lines.flatMap foreign := by
  have hBreak : IsNative ['\n'] := by decide
  rw [Page.output, hBreak.foreign_right,
    foreign_joined hBreak, foreign_dropLast_isEmpty]

theorem foreign_text
    (module_ : Module) :
    foreign module_.text =
      (module_.declarations.flatMap
          Declaration.lines).flatMap foreign ++
        module_.trailing.flatMap foreign := by
  have hWritten := foreign_write none module_.declarations
    Page.empty
  rw [Module.text, foreign_output]
  simp only [Module.page]
  split
  · next hNone =>
      rw [hWritten, List.isEmpty_iff.mp hNone]
      exact (List.append_nil _).symm
  · rw [Page.remarks, Page.add, List.flatMap_append,
      foreign_remarksAt, foreign_blank, hWritten]
    rfl

/-
  If everything in a document but its comments is ASCII,
  then the characters beyond it that are not blank come out
  as they stand in the comments, node by node.
-/
theorem generate_emits_every_comment
    {document : Document}
    {text : Text}
    (hWords : ∀ word ∈ document.words,
      ∀ c ∈ word, c.toNat < 128)
    (h : generate document = .ok text) :
    foreign text =
      document.commentLists.flatten.flatMap
        Comment.foreign := by
  have hNative : ∀ word ∈ document.words, IsNative word :=
    fun word hMem => .of_forall fun c hc =>
      isForeign_of_lt (hWords word hMem c hc)
  simp only [generate, Module.ofDocument] at h
  split at h
  · cases h
  · next found hFound =>
      cases h
      split at hFound
      · cases hFound
      · next declarations hDeclarations =>
          cases hFound
          rw [foreign_text,
            foreign_declarationsFrom hNative hDeclarations,
            foreign_commentEntries]
          simp [Document.commentLists]

/-
  A document with comments on every kind of node: a gutter,
  line breaks inside of entries, an end mark, and blanks
  that are not ASCII.
-/
def greekDocument : Document where
  body :=
    [.inclusion
      { path := "a.thrift".toList
        comments := [.line "α β".toList] },
     .enum
      { name := "e".toList
        members :=
          [{ name := "m".toList
             value := some "7".toList
             comments := [.block [[], "* γ ".toList]] }]
        comments := []
        trailing := [.line "δ".toList] },
     .service
      { name := "s".toList
        functions :=
          [{ returnType := .primitive .void
             name := "f".toList
             fields :=
               [{ id := "1".toList
                  requiredness := none
                  type := .named "a.t".toList
                  name := "in".toList
                  annotations := some [⟨['k'], ['v']⟩]
                  comments :=
                    [.line "ζ */".toList,
                     .line "// η".toList] }]
             annotations := none
             comments := [.block ["*/ε".toList]] }]
        comments := [.block []]
        trailing := [] }]
  trailing := [.line "θ".toList]

theorem generate_emits_greek_comments :
    (∀ word ∈ greekDocument.words,
      ∀ c ∈ word, c.toNat < 128) ∧
    ∃ text, generate greekDocument = .ok text ∧
      foreign text = "αβγδεζηθ".toList := by
  have hAll : greekDocument.words.all (fun word =>
      word.all fun c => c.toNat < 128) = true := by
    decide
  have hWords : ∀ word ∈ greekDocument.words,
      ∀ c ∈ word, c.toNat < 128 := by
    simpa only [List.all_eq_true, decide_eq_true_eq] using
      hAll
  have hComments :
      greekDocument.commentLists.flatten.flatMap
          Comment.foreign =
        "αβγδεζηθ".toList := by
    decide
  refine ⟨hWords, ?_⟩
  cases h : generate greekDocument with
  | error fault =>
      simp only [generate, Module.ofDocument] at h
      cases h
  | ok text =>
      exact ⟨text, rfl,
        (generate_emits_every_comment hWords h).trans
          hComments⟩

end TypeScript

end ThriftTypings
