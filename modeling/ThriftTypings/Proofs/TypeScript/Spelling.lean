import ThriftTypings.Proofs.TypeScript.Grammar

/-
  This file proves that declarations are spelled as items of
  the grammar.

  A declaration has its item, and if the names in that are
  such as the grammar asks for, then the lines of the
  declaration without its comments are the tokens of the
  item.

  Key definitions include:
    * `Key.ofName` and `TypeExpr.tree`
    * `Declaration.item?`

  Key theorems include:
    * `tokens_typeText`
    * `closed_bareLines`
-/

namespace ThriftTypings

namespace TypeScript

variable {name : Text} {inside : List Text}

-- Words

theorem isWordChar_of_isIdentifier
    (h : isIdentifier name = true) :
    ∀ c ∈ name, isWordChar c = true := by
  intro c hc
  rcases continuesWord_of_isIdentifier h c hc with
    hDollar | hWord
  · simp [isWordChar, hDollar]
  · simp [isWordChar, hWord]

theorem ne_nil_of_isIdentifier
    (h : isIdentifier name = true) :
    name ≠ [] := by
  rintro rfl
  exact absurd h (by decide)

theorem tokens_identifier
    (h : isIdentifier name = true) :
    tokens name = some [.word name] :=
  tokens_word (ne_nil_of_isIdentifier h)
    (isWordChar_of_isIdentifier h)

theorem tokens_binding
    (h : isBinding name = true) :
    tokens name = some [.word name] :=
  tokens_identifier (isIdentifier_of_isBinding h)

/- The key of a property, in quotes if need be. -/
def Key.ofName
    (name : Text) : Key :=
  if isIdentifier name then .plain name else .quoted name

theorem Key.name_ofName
    (name : Text) :
    (Key.ofName name).name = name := by
  unfold Key.ofName
  split <;> rfl

theorem Key.wellFormed_ofName
    (name : Text) :
    (Key.ofName name).WellFormed := by
  unfold Key.ofName
  split
  · next hName => exact hName
  · trivial

theorem tokens_propertyKey
    (name : Text) :
    tokens (propertyKey name) =
      some [(Key.ofName name).token] := by
  unfold propertyKey Key.ofName
  split
  · next hName => exact tokens_identifier hName
  · exact (closed_literal name).tokens_eq

theorem tokens_ofNat
    (n : Nat) :
    tokens (Text.ofNat n) = some [.word (Text.ofNat n)] := by
  apply tokens_word
  · exact Nat.toDigits_ne_nil
  · intro c hc
    simp [isWordChar, continuesWord_of_mem_ofNat hc]

theorem tokens_ofInt
    (value : Int) :
    tokens (Text.ofInt value) =
      some (integerTokens value) := by
  cases value with
  | ofNat n => exact tokens_ofNat n
  | negSucc n =>
      have hSign : Closed ['-'] [.mark '-'] := by decide
      exact hSign.append_tokens (tokens_ofNat (n + 1))

-- Types

/- The type of a dotted name. -/
def TypeTree.dotted
    (name : Text) : TypeTree :=
  match Text.pieces '.' name with
  | [] => .void
  | head :: members => .named head members

/- The tree of a type expression. -/
def TypeExpr.tree : TypeExpr → TypeTree
  | .void => .void
  | .string => .named "string".toList []
  | .boolean => .named "boolean".toList []
  | .number => .named "number".toList []
  | .array element => .array element.tree
  | .record key value => .record key.tree value.tree
  | .reference name => .dotted name

/- A name is one word, however many dots are in it. -/
theorem tokens_dotted
    (h : (TypeTree.dotted name).WellFormed) :
    tokens name = some (TypeTree.dotted name).tokens := by
  rcases Text.exists_pieces '.' name with
    ⟨head, members, hPieces⟩
  have hName := Text.joined_pieces '.' name
  rw [hPieces] at hName
  simp only [TypeTree.dotted, hPieces] at h ⊢
  rcases h with ⟨hHead, hMembers⟩
  have hFirst := isIdentifier_of_isBinding hHead
  rw [TypeTree.tokens, hName]
  rw [Text.joined_cons] at hName
  apply tokens_word
  · rw [← hName]
    simp [ne_nil_of_isIdentifier hFirst]
  · intro c hc
    rw [← hName] at hc
    rcases List.mem_append.mp hc with hIn | hMore
    · exact isWordChar_of_isIdentifier hFirst c hIn
    · rcases List.mem_flatMap.mp hMore with
        ⟨part, hMember, hMem⟩
      rcases List.mem_cons.mp hMem with rfl | hIn
      · decide
      · exact isWordChar_of_isIdentifier
          (hMembers part hMember) c hIn

/- A type expression is spelled as its tree. -/
theorem tokens_typeText
    {type : TypeExpr}
    (h : type.tree.WellFormed) :
    tokens type.text = some type.tree.tokens := by
  induction type with
  | void => decide
  | string => decide
  | boolean => decide
  | number => decide
  | array element ih =>
      have hOpen : Closed "Array<".toList
          [keyword "Array", .mark '<'] := by
        decide
      exact tokens_append (hOpen.append_tokens (ih h))
        (by decide) (by decide)
  | record key value ihKey ihValue =>
      have hOpen : Closed "Record<".toList
          [keyword "Record", .mark '<'] := by
        decide
      have hKey := hOpen.append_tokens (ihKey h.1)
      have hComma : Closed
          ("Record<".toList ++ key.text ++ ", ".toList)
          ([keyword "Record", .mark '<'] ++
            key.tree.tokens ++ [.mark ',']) :=
        .of_tokens hKey (by decide) (by decide) (by decide)
      exact tokens_append
        (hComma.append_tokens (ihValue h.2))
        (by decide) (by decide)
  | reference name => exact tokens_dotted h

-- Members

/- The tree of a property. -/
def Property.tree
    (property : Property) : Member :=
  .property (Key.ofName property.name) property.optional
    property.type.tree

/- The tree of a parameter. -/
def Parameter.tree
    (parameter : Parameter) : ParameterTree :=
  (parameter.binding, parameter.type.tree)

/- The tree of a method. -/
def Method.tree
    (method : Method) : Member :=
  .method (Key.ofName method.name)
    (method.parameters.map Parameter.tree)
    method.result.tree

/- The tree of an entry. -/
def Constant.tree
    (constant : Constant) : EntryTree :=
  (Key.ofName constant.name, constant.value)

/- A line of code is whole tokens, whatever its depth. -/
theorem closed_code
    (depth : Int)
    {text : Text}
    {found : List Token}
    (h : tokens text = some found) :
    Closed (unlines [lineAt depth text]) found := by
  have hLine := scanText_line (lineAt depth text)
  rw [tokens_lineAt depth h] at hLine
  unfold Closed
  simpa using hLine

section Punctuation

variable {text : Text}
variable {found : List Token}

theorem closed_colon
    (h : tokens text = some found) :
    Closed (text ++ ": ".toList) (found ++ [.mark ':']) :=
  .of_tokens h (by decide) (by decide) (by decide)

theorem tokens_semicolon
    (h : tokens text = some found) :
    tokens (text ++ ";".toList) =
      some (found ++ [.mark ';']) :=
  tokens_append h (by decide) (by decide)

theorem tokens_brace
    (h : tokens text = some found) :
    tokens (text ++ " \x7b".toList) =
      some (found ++ [.mark '\x7b']) :=
  tokens_append h (by decide) (by decide)

end Punctuation

theorem closed_property
    {property : Property}
    (h : property.tree.WellFormed) :
    Closed
      (unlines (Property.lines { property with doc := [] }))
      property.tree.tokens := by
  have hOptional :
      tokens (propertyKey property.name ++
          (if property.optional then ['?'] else [])) =
        some ([(Key.ofName property.name).token] ++
          optionalTokens property.optional) := by
    have hKey := tokens_propertyKey property.name
    cases property.optional with
    | false => simpa [optionalTokens] using hKey
    | true => exact tokens_append hKey (by decide) (by decide)
  have hType := (closed_colon hOptional).append_tokens
    (tokens_typeText h.2)
  exact closed_code 1 (tokens_semicolon hType)

theorem tokens_parameter
    {parameter : Parameter}
    (h : ParameterFits parameter.tree) :
    tokens parameter.text =
      some (parameterTokens parameter.tree) :=
  (closed_colon (tokens_binding h.1)).append_tokens
    (tokens_typeText h.2)

/- Parameters with commas between are spelled as such. -/
theorem tokens_parameters
    {parameters : List Parameter}
    (h : ∀ parameter ∈ parameters,
      ParameterFits parameter.tree) :
    tokens (Text.joined ", ".toList
        (parameters.map Parameter.text)) =
      some (parametersTokens
        (parameters.map Parameter.tree)) := by
  -- each parameter is spelled after those before it
  have hMore {before : Text} {found : List Token}
      (hBefore : tokens before = some found)
      (others : List Parameter)
      (hOthers : ∀ parameter ∈ others,
        ParameterFits parameter.tree) :
      tokens (before ++
          (others.map Parameter.text).flatMap
            (", ".toList ++ ·)) =
        some (found ++
          (others.map Parameter.tree).flatMap fun parameter =>
            .mark ',' :: parameterTokens parameter) := by
    induction others generalizing before found with
    | nil => simpa using hBefore
    | cons next others ih =>
        have hComma := Closed.of_tokens hBefore
          (by decide : isApart ", ".toList = true)
          (by decide : Closed ", ".toList [.mark ','])
          (by decide)
        have hNext := hComma.append_tokens
          (tokens_parameter (hOthers next (by simp)))
        have hRest := ih hNext fun parameter hMem =>
          hOthers parameter (by simp [hMem])
        simpa using hRest
  cases parameters with
  | nil => rfl
  | cons first more =>
      have hFirst := tokens_parameter (h first (by simp))
      rw [List.map_cons, Text.joined_cons]
      exact hMore hFirst more fun parameter hMem =>
        h parameter (by simp [hMem])

theorem closed_method
    {method : Method}
    (h : method.tree.WellFormed) :
    Closed (unlines (Method.lines { method with doc := [] }))
      method.tree.tokens := by
  rcases h with ⟨_, hParameters, hResult⟩
  have hOpen := Closed.of_tokens
    (tokens_propertyKey method.name)
    (by decide : isApart "(".toList = true)
    (by decide : Closed "(".toList [.mark '(']) (by decide)
  have hListed := hOpen.append_tokens
    (tokens_parameters fun parameter hMem =>
      hParameters _ (List.mem_map_of_mem hMem))
  have hClose := Closed.of_tokens hListed
    (by decide : isApart "): ".toList = true)
    (by decide : Closed "): ".toList [.mark ')', .mark ':'])
    (by decide)
  have hType := hClose.append_tokens (tokens_typeText hResult)
  exact closed_code 1 (tokens_semicolon hType)

theorem closed_constant
    (constant : Constant) :
    Closed
      (unlines (Constant.lines { constant with doc := [] }))
      (entryTokens constant.tree) := by
  have hColon :=
    closed_colon (tokens_propertyKey constant.name)
  have hValue := hColon.append_tokens
    (tokens_ofInt constant.value)
  have hLine := tokens_append hValue
    (by decide : isApart ",".toList = true)
    (by decide : tokens ",".toList = some [.mark ','])
  exact closed_code 1 hLine

-- Declarations

/- The item of a declaration, which a comment has none of. -/
def Declaration.item? : Declaration → Option Item
  | .standing _ => none
  | .importing _ binding specifier =>
      some (.importing binding specifier)
  | .properties _ name members _ =>
      some (.interface name (members.map Property.tree))
  | .methods _ name members _ =>
      some (.interface name (members.map Method.tree))
  | .constants _ name members _ =>
      some (.constants name (members.map Constant.tree))

/- Lines of several things are spelled one by one. -/
theorem closed_flatMap
    {α : Type}
    {xs : List α}
    {lines : α → List Text}
    {found : α → List Token}
    (h : ∀ x ∈ xs, Closed (unlines (lines x)) (found x)) :
    Closed (unlines (xs.flatMap lines))
      (xs.flatMap found) := by
  induction xs with
  | nil => exact .nil
  | cons x more ih =>
      have hMore := ih fun y hMem => h y (by simp [hMem])
      simp only [List.flatMap_cons, unlines_append]
      exact (h x (by simp)).append hMore

theorem closed_block
    {opening closing : Text}
    {first middle last : List Token}
    (hOpening : tokens (opening ++ " \x7b".toList) = some first)
    (hInside : Closed (unlines inside) middle)
    (hClosing :
      tokens ("\x7d".toList ++ closing) = some last) :
    Closed
      (unlines (Declaration.block opening inside [] closing))
      (first ++ middle ++ last) := by
  have hFirst := closed_code 0 hOpening
  have hLast := closed_code 0 hClosing
  have hNone : remarksAt 1 [] = [] := rfl
  unfold Declaration.block
  rw [hNone, List.append_nil]
  simp only [unlines_append]
  exact (hFirst.append hInside).append hLast

theorem closed_importing
    {binding : Text}
    (specifier : Text)
    (h : isBinding binding = true) :
    Closed
      (unlines (Declaration.importing [] binding
        specifier).lines)
      (Item.importing binding specifier).tokens := by
  have hOpen : Closed "import * as ".toList
      [keyword "import", .mark '*', keyword "as"] := by
    decide
  have hBinding := hOpen.append_tokens (tokens_binding h)
  have hFrom := Closed.of_tokens hBinding
    (by decide : isApart " from ".toList = true)
    (by decide : Closed " from ".toList [keyword "from"])
    (by decide)
  have hSpecifier := hFrom.append (closed_literal specifier)
  exact closed_code 0 (tokens_semicolon hSpecifier.tokens_eq)

/- The lines of an interface, given those of its members. -/
theorem closed_interface
    {members : List Member}
    (h : isBinding name = true)
    (hInside : Closed (unlines inside)
      (members.flatMap Member.tokens)) :
    Closed
      (unlines (Declaration.block
        ("export interface ".toList ++ name) inside [] []))
      (Item.interface name members).tokens := by
  have hExport : Closed "export interface ".toList
      [keyword "export", keyword "interface"] := by
    decide
  have hName := hExport.append_tokens (tokens_binding h)
  exact closed_block (tokens_brace hName) hInside (by decide)

theorem closed_constants
    {entries : List EntryTree}
    (h : isBinding name = true)
    (hInside : Closed (unlines inside)
      (entries.flatMap entryTokens)) :
    Closed
      (unlines (Declaration.block
          ("export const ".toList ++ name ++ " =".toList)
          inside [] " as const;".toList ++
        [lineAt 0
          ("export type ".toList ++ name ++
            " = typeof ".toList ++ name ++
            "[keyof typeof ".toList ++ name ++ "];".toList)]))
      (Item.constants name entries).tokens := by
  have hBinding := tokens_binding h
  have hExport : Closed "export const ".toList
      [keyword "export", keyword "const"] := by
    decide
  have hEqual := tokens_append
    (hExport.append_tokens hBinding)
    (by decide : isApart " =".toList = true)
    (by decide : tokens " =".toList = some [.mark '='])
  have hClosing :
      tokens ("\x7d".toList ++ " as const;".toList) =
        some [.mark '\x7d', keyword "as", keyword "const",
          .mark ';'] := by
    decide
  have hBlock :=
    closed_block (tokens_brace hEqual) hInside hClosing
  have hType : Closed "export type ".toList
      [keyword "export", keyword "type"] := by
    decide
  have hOf := Closed.of_tokens
    (hType.append_tokens hBinding)
    (by decide : isApart " = typeof ".toList = true)
    (by decide : Closed " = typeof ".toList
      [.mark '=', keyword "typeof"])
    (by decide)
  have hKeys := Closed.of_tokens
    (hOf.append_tokens hBinding)
    (by decide : isApart "[keyof typeof ".toList = true)
    (by decide : Closed "[keyof typeof ".toList
      [.mark '[', keyword "keyof", keyword "typeof"])
    (by decide)
  have hLine := tokens_append
    (hKeys.append_tokens hBinding)
    (by decide : isApart "];".toList = true)
    (by decide : tokens "];".toList =
      some [.mark ']', .mark ';'])
  have hAll := hBlock.append (closed_code 0 hLine)
  rw [← unlines_append] at hAll
  simpa [Item.tokens, Item.constantsEnd] using hAll

/- A declaration is spelled as its item. -/
theorem closed_bare
    {declaration : Declaration}
    (h : ∀ item ∈ declaration.item?, item.WellFormed) :
    Closed (unlines declaration.bare.lines)
      (declaration.item?.toList.flatMap Item.tokens) := by
  cases declaration with
  | standing doc => exact .nil
  | importing doc binding specifier =>
      have hItem := h _ rfl
      simp only [Declaration.item?, Option.toList_some,
        List.flatMap_singleton]
      exact closed_importing specifier hItem
  | properties doc name members trailing =>
      rcases h _ rfl with ⟨hName, hMembers⟩
      simp only [Declaration.item?, Option.toList_some,
        List.flatMap_singleton]
      refine closed_interface hName ?_
      rw [List.flatMap_map, List.flatMap_map]
      refine closed_flatMap fun found hMem => ?_
      exact closed_property
        (hMembers _ (List.mem_map_of_mem hMem))
  | methods doc name members trailing =>
      rcases h _ rfl with ⟨hName, hMembers⟩
      simp only [Declaration.item?, Option.toList_some,
        List.flatMap_singleton]
      refine closed_interface hName ?_
      rw [List.flatMap_map, List.flatMap_map]
      refine closed_flatMap fun found hMem => ?_
      exact closed_method
        (hMembers _ (List.mem_map_of_mem hMem))
  | constants doc name members trailing =>
      rcases h _ rfl with ⟨hName, _⟩
      simp only [Declaration.item?, Option.toList_some,
        List.flatMap_singleton]
      refine closed_constants hName ?_
      rw [List.flatMap_map, List.flatMap_map]
      exact closed_flatMap fun found _ =>
        closed_constant found

/- Declarations are spelled as their items, in order. -/
theorem closed_bareLines
    {declarations : List Declaration}
    (h : ∀ found ∈ declarations,
      ∀ item ∈ found.item?, item.WellFormed) :
    Closed (unlines (bareLines declarations))
      ((declarations.filterMap Declaration.item?).flatMap
        Item.tokens) := by
  have hAll := closed_flatMap fun found hMem =>
    closed_bare (h found hMem)
  rw [← List.flatMap_assoc] at hAll
  rwa [List.filterMap_eq_flatMap_toList]

end TypeScript

end ThriftTypings
