import Mathlib.Data.List.Chain
import ThriftTypings.Proofs.TypeScript.Readback
import ThriftTypings.Proofs.TypeScript.Rebuilding

/-
  This file proves that emitted code is tidy, whatever names
  and texts a document has: no line ends in a blank, blank
  lines stand one by one and only between the blocks of a
  page, and the last line is the only one with nothing
  after its end.

  A line is tidy on its own if it has ink, no blank at its
  end and no line end inside. Every declaration is written
  in tidy lines, so that the blank lines of a page are those
  that set its declarations apart.

  Key definitions include:
    * `IsTidy`
    * `Block` and `spaced`

  Key theorems include:
    * `lines_page`
    * `generate_is_tidy`
-/

namespace ThriftTypings

variable {declarations : List Declaration} {line : Text}
variable {entries : List Text} {taken : List Text}
variable {body : List Definition} {found : Declaration}
variable {text : Text} {c : Char} {depth : Int}

-- Blanks at the End

namespace Text

theorem not_isBlank_of_getLast?_stripEnd
    (h : (stripEnd text).getLast? = some c) :
    isBlank c = false := by
  have hHead := List.head?_dropWhile_not isBlank text.reverse
  rw [stripEnd, List.getLast?_reverse] at h
  rw [h] at hHead
  simpa using hHead

end Text

namespace TypeScript

open Idl

-- Texts on One Line

/- Does the character not end a line of a file? -/
def isInline
    (c : Char) : Bool :=
  c != '\n' && c != '\r'

/- What neither line end shares is no line end. -/
theorem isInline_of_differs
    {test : Char → Bool}
    {answer : Bool}
    (h : test c = answer)
    (hFeed : test '\n' = !answer)
    (hReturn : test '\r' = !answer) :
    isInline c = true := by
  have hNotFeed : c ≠ '\n' := by
    rintro rfl
    simp [h] at hFeed
  have hNotReturn : c ≠ '\r' := by
    rintro rfl
    simp [h] at hReturn
  simp [isInline, hNotFeed, hNotReturn]

theorem isInline_of_not_isLineBreak
    (h : Text.isLineBreak c = false) :
    isInline c = true :=
  isInline_of_differs h (by decide) (by decide)

theorem isInline_of_isInside
    (h : isInside c = true) :
    isInline c = true :=
  isInline_of_differs h (by decide) (by decide)

theorem isInline_of_isWordChar
    (h : isWordChar c = true) :
    isInline c = true :=
  isInline_of_differs h (by decide) (by decide)

theorem inline_identifier
    {name : Text}
    (h : isIdentifier name = true) :
    name.all isInline = true :=
  List.all_eq_true.mpr fun c hc =>
    isInline_of_isWordChar (isWordChar_of_isIdentifier h c hc)

theorem inline_binding
    {name : Text}
    (h : isBinding name = true) :
    name.all isInline = true :=
  inline_identifier (isIdentifier_of_isBinding h)

theorem inline_literal
    (text : Text) :
    (Text.literal text).all isInline = true := by
  have hChar (c : Char) :
      (Text.literalChar c).all isInline = true := by
    rcases literalChar_cases c with
      ⟨letter, hWritten, _, hLetter, _⟩ |
      ⟨a, b, d, e, hWritten, _, hCode⟩ | ⟨hWritten, hSelf⟩
    · have hCode : letter ≠ '\n' ∧ letter ≠ '\r' := by
        constructor <;> rintro rfl <;> simp at hLetter
      simp [hWritten, isInline, hCode]
    · have hDigits : ∀ digit ∈ [a, b, d, e],
          isInline digit = true := fun digit hMem =>
        isInline_of_isInside (List.all_eq_true.mp hCode _ hMem)
      rw [hWritten]
      exact List.all_eq_true.mpr
        (List.forall_mem_cons.mpr ⟨by decide,
          List.forall_mem_cons.mpr ⟨by decide, hDigits⟩⟩)
    · rw [hWritten, List.all_cons, isInline_of_isInside hSelf]
      rfl
  simp only [Text.literal, List.all_append, List.all_flatMap,
    hChar, Bool.and_eq_true]
  exact ⟨⟨by decide, by simp⟩, by decide⟩

theorem inline_propertyKey
    (name : Text) :
    (propertyKey name).all isInline = true := by
  unfold propertyKey
  split
  · next hName => exact inline_identifier hName
  · exact inline_literal name

theorem inline_ofInt
    (value : Int) :
    (Text.ofInt value).all isInline = true := by
  have hDigits (n : Nat) :
      (Text.ofNat n).all isInline = true :=
    List.all_eq_true.mpr fun c hc =>
      isInline_of_isWordChar
        (by simp [isWordChar, continuesWord_of_mem_ofNat hc])
  cases value with
  | ofNat n => exact hDigits n
  | negSucc n =>
      rw [Text.ofInt, List.all_cons, hDigits]
      decide

/- A type is on one line, since the names in it are words. -/
theorem inline_typeText
    {type : TypeExpr}
    (h : type.tree.WellFormed) :
    type.text.all isInline = true := by
  induction type with
  | void => decide
  | string => decide
  | boolean => decide
  | number => decide
  | array element ih =>
      change List.all ("Array<".toList ++ element.text ++
        ">".toList) isInline = true
      rw [List.all_append, List.all_append, ih h]
      decide
  | record key value ihKey ihValue =>
      change List.all ("Record<".toList ++ key.text ++
        ", ".toList ++ value.text ++ ">".toList)
          isInline = true
      simp only [List.all_append, ihKey h.1, ihValue h.2]
      decide
  | reference name =>
      rcases Text.exists_pieces '.' name with
        ⟨head, members, hPieces⟩
      simp only [TypeExpr.tree, TypeTree.dotted, hPieces] at h
      have hName := Text.joined_pieces '.' name
      rw [hPieces, Text.joined_cons] at hName
      change List.all name isInline = true
      rw [← hName, List.all_append, inline_binding h.1,
        Bool.true_and, List.all_flatMap, List.all_eq_true]
      intro part hPart
      rw [List.all_append, inline_identifier (h.2 part hPart)]
      decide

theorem inline_parameter
    {parameter : Parameter}
    (h : ParameterFits parameter.tree) :
    parameter.text.all isInline = true := by
  have hBinding : parameter.binding.all isInline = true :=
    inline_binding h.1
  simp only [Parameter.text, List.all_append, hBinding,
    inline_typeText h.2]
  decide

-- Tidy Lines

/- A line with ink, and no blank or line end at the wrong place. -/
structure IsTidy
    (line : Text) : Prop where
  written : line ≠ []
  stripped : ∀ c ∈ line.getLast?, Text.isBlank c = false
  oneLine : line.all isInline = true

/- A text with ink in it, on one line, makes a tidy line. -/
theorem isTidy_lineAt
    (depth : Int)
    (hInk : ∃ c ∈ text, Text.isBlank c = false)
    (hLine : text.all isInline = true) :
    IsTidy (lineAt depth text) where
  written := by
    rcases hInk with ⟨c, hMem, hInk⟩
    rcases List.append_of_mem hMem with ⟨first, rest, rfl⟩
    rw [lineAt, ← List.append_assoc,
      Text.stripEnd_append_cons _ hInk]
    simp
  stripped _ hLast := Text.not_isBlank_of_getLast?_stripEnd hLast
  oneLine := by
    have hSpaces : ∀ n,
        (List.replicate n ' ').all isInline = true := by
      simp [isInline]
    have hAll :
        (List.replicate (2 * depth.toNat) ' ' ++ text).all
          isInline = true := by
      rw [List.all_append, hSpaces, hLine, Bool.and_true]
    rw [List.all_eq_true] at hAll ⊢
    exact fun c hc =>
      hAll c ((Text.stripEnd_isPrefix _).subset hc)

theorem inline_entryLines
    (h : text ∈ entries.flatMap Text.entryLines) :
    text.all isInline = true := by
  rcases List.mem_flatMap.mp h with ⟨entry, _, hText⟩
  exact List.all_eq_true.mpr fun c hc =>
    isInline_of_not_isLineBreak
      (not_isLineBreak_of_mem_entryLines hText c hc)

theorem inline_escapeDoc
    (h : text.all isInline = true) :
    (escapeDoc text).all isInline = true := by
  fun_induction escapeDoc text with
  | case1 => rfl
  | case2 rest ih =>
      simp only [List.all_cons, Bool.and_eq_true] at h ⊢
      exact ⟨h.1, by decide, h.2.1, ih h.2.2⟩
  | case3 c rest _ ih =>
      simp only [List.all_cons, Bool.and_eq_true] at h ⊢
      exact ⟨h.1, ih h.2⟩

/- Documentation is written in tidy lines. -/
theorem isTidy_of_mem_docAt
    (h : line ∈ docAt depth entries) :
    IsTidy line := by
  have hTexts : ∀ text ∈
      (entries.flatMap Text.entryLines).map escapeDoc,
      text.all isInline = true := by
    intro text hText
    rcases List.mem_map.mp hText with ⟨entry, hEntry, rfl⟩
    exact inline_escapeDoc (inline_entryLines hEntry)
  unfold docAt at h
  split at h
  · simp at h
  · next only hOnly =>
      have hText := hTexts only (by simp [hOnly])
      rw [List.mem_singleton.mp h]
      refine isTidy_lineAt depth ⟨'/', by simp, by decide⟩ ?_
      simp only [List.all_append, hText]
      decide
  · next first second more hMany =>
      rw [← hMany] at h
      simp only [List.mem_append, List.mem_singleton,
        List.mem_map] at h
      rcases h with (rfl | ⟨text, hText, rfl⟩) | rfl
      · exact isTidy_lineAt depth ⟨'/', by simp, by decide⟩
          (by decide)
      · refine isTidy_lineAt depth ⟨'*', by simp, by decide⟩ ?_
        rw [List.all_append, hTexts text (by simpa using hText)]
        decide
      · exact isTidy_lineAt depth ⟨'/', by simp, by decide⟩
          (by decide)

theorem isTidy_of_mem_remarksAt
    (h : line ∈ remarksAt depth entries) :
    IsTidy line := by
  rcases List.mem_map.mp h with ⟨text, hText, rfl⟩
  refine isTidy_lineAt depth ⟨'/', by simp, by decide⟩ ?_
  rw [List.all_append, inline_entryLines hText]
  decide

-- Tidy Declarations

/- Code with its documentation, if the code is on one line. -/
theorem isTidy_of_documented
    {doc : List Text}
    {code line : Text}
    {mark : Char}
    (hMark : Text.isBlank mark = false ∧ isInline mark = true)
    (hCode : code.all isInline = true)
    (h : line ∈ docAt depth doc ++
      [lineAt depth (code ++ [mark])]) :
    IsTidy line := by
  rcases List.mem_append.mp h with hDoc | hLine
  · exact isTidy_of_mem_docAt hDoc
  · rw [List.mem_singleton.mp hLine]
    refine isTidy_lineAt depth ⟨mark, by simp, hMark.1⟩ ?_
    simp [hCode, hMark.2]

theorem isTidy_of_mem_property
    {property : Property}
    (hFits : property.tree.WellFormed)
    (h : line ∈ property.lines) :
    IsTidy line := by
  refine isTidy_of_documented (by decide) ?_ h
  have hOptional :
      (if property.optional then ['?'] else []).all
        isInline = true := by
    cases property.optional <;> decide
  simp only [List.all_append, inline_propertyKey, hOptional,
    inline_typeText hFits.2]
  decide

theorem isTidy_of_mem_method
    {method : Method}
    (hFits : method.tree.WellFormed)
    (h : line ∈ method.lines) :
    IsTidy line := by
  rcases hFits with ⟨_, hParameters, hResult⟩
  refine isTidy_of_documented (by decide) ?_ h
  have hListed :
      (Text.joined ", ".toList
        (method.parameters.map Parameter.text)).all
          isInline = true := by
    have hEach : ∀ part ∈
        method.parameters.map Parameter.text,
        part.all isInline = true := by
      intro part hPart
      rcases List.mem_map.mp hPart with
        ⟨parameter, hMem, rfl⟩
      exact inline_parameter
        (hParameters _ (List.mem_map_of_mem hMem))
    cases hTexts : method.parameters.map Parameter.text with
    | nil => rfl
    | cons first more =>
        rw [hTexts] at hEach
        rw [Text.joined_cons, List.all_append,
          hEach first (by simp), Bool.true_and,
          List.all_flatMap, List.all_eq_true]
        intro part hPart
        rw [List.all_append, hEach part (by simp [hPart])]
        decide
  simp only [List.all_append, inline_propertyKey, hListed,
    inline_typeText hResult]
  decide

theorem isTidy_of_mem_constant
    {constant : Constant}
    (h : line ∈ constant.lines) :
    IsTidy line := by
  refine isTidy_of_documented (by decide) ?_ h
  simp only [List.all_append, inline_propertyKey,
    inline_ofInt]
  decide

theorem isTidy_of_mem_block
    {opening closing line : Text}
    {inside trailing : List Text}
    (hOpening : opening.all isInline = true)
    (hClosing : closing.all isInline = true)
    (hInside : ∀ other ∈ inside, IsTidy other)
    (h : line ∈
      Declaration.block opening inside trailing closing) :
    IsTidy line := by
  simp only [Declaration.block, List.mem_append,
    List.mem_singleton] at h
  rcases h with ((rfl | hLine) | hLine) | rfl
  · refine isTidy_lineAt 0 ⟨'\x7b', by simp, by decide⟩ ?_
    rw [List.all_append, hOpening]
    decide
  · exact hInside line hLine
  · exact isTidy_of_mem_remarksAt hLine
  · refine isTidy_lineAt 0 ⟨'\x7d', by simp, by decide⟩ ?_
    rw [List.all_append, hClosing]
    decide

/- A declaration of well-formed names has tidy lines. -/
theorem isTidy_of_mem_lines
    (hFits : ∀ item ∈ found.item?, item.WellFormed)
    (h : line ∈ found.lines) :
    IsTidy line := by
  have hExport {name : Text} (hName : isBinding name = true) :
      ("export interface ".toList ++ name).all isInline =
        true := by
    rw [List.all_append, inline_binding hName]
    decide
  cases found with
  | standing doc => exact isTidy_of_mem_docAt h
  | importing doc binding specifier =>
      refine isTidy_of_documented (by decide) ?_ h
      simp only [List.all_append, inline_literal,
        inline_binding (hFits _ rfl)]
      decide
  | properties doc name members trailing =>
      rcases hFits _ rfl with ⟨hName, hMembers⟩
      rcases List.mem_append.mp h with hDoc | hBlock
      · exact isTidy_of_mem_docAt hDoc
      · refine isTidy_of_mem_block (hExport hName) rfl ?_ hBlock
        intro other hOther
        rcases List.mem_flatMap.mp hOther with
          ⟨property, hMem, hLine⟩
        exact isTidy_of_mem_property
          (hMembers _ (List.mem_map_of_mem hMem)) hLine
  | methods doc name members trailing =>
      rcases hFits _ rfl with ⟨hName, hMembers⟩
      rcases List.mem_append.mp h with hDoc | hBlock
      · exact isTidy_of_mem_docAt hDoc
      · refine isTidy_of_mem_block (hExport hName) rfl ?_ hBlock
        intro other hOther
        rcases List.mem_flatMap.mp hOther with
          ⟨method, hMem, hLine⟩
        exact isTidy_of_mem_method
          (hMembers _ (List.mem_map_of_mem hMem)) hLine
  | constants doc name members trailing =>
      have hName := inline_binding (hFits _ rfl).1
      rcases List.mem_append.mp h with hFront | hType
      · rcases List.mem_append.mp hFront with hDoc | hBlock
        · exact isTidy_of_mem_docAt hDoc
        · refine isTidy_of_mem_block ?_ (by decide) ?_ hBlock
          · simp only [List.all_append, hName]
            decide
          · intro other hOther
            rcases List.mem_flatMap.mp hOther with
              ⟨constant, _, hLine⟩
            exact isTidy_of_mem_constant hLine
      · rw [List.mem_singleton.mp hType]
        refine isTidy_lineAt 0 ⟨'=', by simp, by decide⟩ ?_
        simp only [List.all_append, hName]
        decide

theorem flatMap_entryLines_ne_nil
    (h : entries ≠ []) :
    entries.flatMap Text.entryLines ≠ [] := by
  cases entries with
  | nil => exact absurd rfl h
  | cons first more =>
      have hFirst : Text.entryLines first ≠ [] := by
        unfold Text.entryLines
        split <;> simp
      simp [hFirst]

theorem docAt_ne_nil
    (depth : Int)
    (h : entries ≠ []) :
    docAt depth entries ≠ [] := by
  have hLines := flatMap_entryLines_ne_nil h
  unfold docAt
  split
  · next hNone => exact absurd (List.map_eq_nil_iff.mp hNone) hLines
  · simp
  · simp

theorem remarksAt_ne_nil
    (depth : Int)
    (h : entries ≠ []) :
    remarksAt depth entries ≠ [] := by
  simpa [remarksAt] using flatMap_entryLines_ne_nil h

/- A definition has lines, and its kind can be told. -/
theorem lines_ne_nil_and_kind
    {definition : Definition}
    (h : declaration taken definition = .ok found) :
    found.lines ≠ [] ∧ found.kind = definition.kind := by
  cases definition with
  | nameSpace definition =>
      cases h
      exact ⟨docAt_ne_nil 0 (by simp), rfl⟩
  | enum definition =>
      rcases declaration_enum_eq_ok_iff.mp h with ⟨_, _, rfl⟩
      exact ⟨by simp [Declaration.lines], rfl⟩
  | _ =>
      cases h
      exact ⟨by simp [Declaration.lines, Declaration.block],
        rfl⟩

/- So it is all along a document. -/
theorem lines_ne_nil_and_kinds
    (h : declarationsFrom taken body = .ok declarations) :
    (∀ found ∈ declarations, found.lines ≠ []) ∧
      declarations.map Declaration.kind =
        body.map Definition.kind := by
  have hEach := (forall₂_of_declarationsFrom
    (fun _ => lines_ne_nil_and_kind) h).flip
  rcases (List.forall₂_and_left _ _).mp hEach with
    ⟨hLines, hKinds⟩
  refine ⟨hLines, ?_⟩
  rw [← List.forall₂_eq_eq_eq, List.forall₂_map_left_iff,
    List.forall₂_map_right_iff]
  exact hKinds

-- Blocks

/-
  What stands together on a page: the lines of a definition
  of some kind, or the remarks at the end, which have none.
-/
structure Block where
  kind : Option Kind
  lines : List Text
  deriving DecidableEq, Repr

/- Namespaces are kept together, and includes are. -/
def Block.adjoins
    (first second : Block) : Bool :=
  first.kind == second.kind &&
    (second.kind == some .nameSpace ||
      second.kind == some .inclusion)

/- The lines of blocks after a block, each set apart. -/
def spacedAfter : Block → List Block → List Text
  | _, [] => []
  | previous, next :: more =>
      (if previous.adjoins next then [] else [[]]) ++
        next.lines ++ spacedAfter next more

/-
  The lines of blocks, with one blank line between two of
  them unless they are kept together.
-/
def spaced : List Block → List Text
  | [] => []
  | first :: more => first.lines ++ spacedAfter first more

/- The block of a declaration. -/
def Declaration.toBlock
    (found : Declaration) : Block where
  kind := some found.kind
  lines := found.lines

/- The blocks of a module. Its remarks come last, if any. -/
def Module.blocks
    (module_ : Module) : List Block :=
  module_.declarations.map Declaration.toBlock ++
    if module_.trailing.isEmpty then []
    else [⟨none, remarksAt 0 module_.trailing⟩]

/- A block that has lines, and none of them blank. -/
def Block.IsInked
    (block : Block) : Prop :=
  block.lines ≠ [] ∧ [] ∉ block.lines

theorem adjoins_toBlock
    (first second : Declaration) :
    first.toBlock.adjoins second.toBlock =
      first.adjoins second := by
  cases first <;> cases second <;> rfl

section Inked

variable {page : Page}

/- Lines of which the last one is not blank. -/
def EndsInked
    (lines : List Text) : Prop :=
  ∃ before last, lines = before ++ [last] ∧ last ≠ []

theorem Block.IsInked.endsInked
    {block : Block}
    (h : block.IsInked)
    (before : List Text) :
    EndsInked (before ++ block.lines) := by
  rcases List.eq_nil_or_concat block.lines with
    hNone | ⟨init, last, hLines⟩
  · exact absurd hNone h.1
  · refine ⟨before ++ init, last, by simp [hLines], ?_⟩
    rintro rfl
    exact h.2 (by simp [hLines])

/- After ink, a blank line is added. -/
theorem lines_blank
    (h : EndsInked page.lines) :
    page.blank.lines = page.lines ++ [[]] := by
  rcases h with ⟨before, last, hLines, hInk⟩
  simp [Page.blank, hLines, hInk, Page.add]

/- Declarations are added one by one, each set apart. -/
theorem lines_write
    (hInked : ∀ found ∈ declarations, found.toBlock.IsInked)
    (previous : Declaration)
    (h : EndsInked page.lines) :
    (Module.write (some previous) declarations page).lines =
      page.lines ++ spacedAfter previous.toBlock
        (declarations.map Declaration.toBlock) := by
  induction declarations generalizing previous page with
  | nil => simp [Module.write, spacedAfter]
  | cons found more ih =>
      have hMore : ∀ other ∈ more, other.toBlock.IsInked :=
        fun other hMem => hInked other (by simp [hMem])
      have hFound := hInked found (by simp)
      have hStart :
          (if previous.adjoins found then page
            else page.blank).lines =
          page.lines ++
            if previous.adjoins found then [] else [[]] := by
        split
        · simp
        · exact lines_blank h
      simp only [Module.write]
      rw [ih hMore found (hFound.endsInked _), Page.add]
      simp only [hStart, List.map_cons, spacedAfter,
        adjoins_toBlock, List.append_assoc]
      rfl

theorem endsInked_spacedAfter
    {blocks : List Block}
    (hInked : ∀ block ∈ blocks, block.IsInked)
    (previous : Block)
    {before : List Text}
    (h : EndsInked before) :
    EndsInked (before ++ spacedAfter previous blocks) := by
  induction blocks generalizing previous before with
  | nil => simpa [spacedAfter] using h
  | cons next more ih =>
      have hNext := (hInked next (by simp)).endsInked
        (before ++
          if previous.adjoins next then [] else [[]])
      have hAll := ih (fun block hMem =>
        hInked block (by simp [hMem])) next hNext
      simpa [spacedAfter] using hAll

theorem endsInked_spaced
    {blocks : List Block}
    (hInked : ∀ block ∈ blocks, block.IsInked)
    (h : blocks ≠ []) :
    EndsInked (spaced blocks) := by
  cases blocks with
  | nil => exact absurd rfl h
  | cons first more =>
      refine endsInked_spacedAfter (fun block hMem =>
        hInked block (by simp [hMem])) first ?_
      exact (hInked first (by simp)).endsInked []

/- Remarks are set apart from whatever is before them. -/
theorem spacedAfter_remarks
    (previous : Block)
    (blocks : List Block)
    (remarks : List Text) :
    spacedAfter previous (blocks ++ [⟨none, remarks⟩]) =
      spacedAfter previous blocks ++ [] :: remarks := by
  induction blocks generalizing previous with
  | nil => simp [spacedAfter, Block.adjoins]
  | cons next more ih => simp [spacedAfter, ih]

theorem depth_write
    (previous : Option Declaration)
    (declarations : List Declaration)
    (page : Page) :
    (Module.write previous declarations page).depth =
      page.depth := by
  induction declarations generalizing previous page with
  | nil => cases previous <;> rfl
  | cons found more ih =>
      cases previous with
      | none =>
          rw [Module.write, ih, Page.depth_add,
            Page.depth_blank]
      | some earlier =>
          rw [Module.write, ih, Page.depth_add]
          split
          · rfl
          · exact Page.depth_blank page

/- The lines of a module are its blocks, each set apart. -/
theorem lines_page
    {module_ : Module}
    (h : ∀ block ∈ module_.blocks, block.IsInked) :
    module_.page.lines = spaced module_.blocks := by
  rcases module_ with ⟨declarations, trailing⟩
  have hDeclared : ∀ found ∈ declarations,
      found.toBlock.IsInked := fun found hMem =>
    h _ (List.mem_append_left _ (List.mem_map_of_mem hMem))
  have hWritten :
      (Module.write none declarations Page.empty).lines =
        spaced (declarations.map Declaration.toBlock) := by
    cases declarations with
    | nil => rfl
    | cons first more =>
        have hFirst :=
          (hDeclared first (by simp)).endsInked []
        exact lines_write (fun found hMem =>
          hDeclared found (by simp [hMem])) first hFirst
  cases hTrailing : trailing.isEmpty with
  | true => simpa [Module.page, Module.blocks, hTrailing]
  | false =>
      have hDepth := depth_write none declarations Page.empty
      simp only [Module.page, Module.blocks, hTrailing,
        Bool.false_eq_true, if_false, Page.remarks]
      rw [Page.add, Page.depth_blank, hDepth]
      cases declarations with
      | nil =>
          simp [Module.write, Page.blank, Page.empty, spaced,
            spacedAfter]
      | cons first more =>
          have hInked : ∀ block ∈
              (first :: more).map Declaration.toBlock,
              block.IsInked := fun block hMem =>
            h block (List.mem_append_left _ hMem)
          have hEnds := endsInked_spaced hInked (by simp)
          rw [← hWritten] at hEnds
          rw [lines_blank hEnds, hWritten]
          simp only [List.map_cons, List.cons_append, spaced,
            spacedAfter_remarks, List.append_assoc,
            List.nil_append]
          rfl

/- Lines that end with ink are all put out. -/
theorem output_eq_unlines
    (h : EndsInked page.lines) :
    page.output = unlines page.lines := by
  rcases h with ⟨before, last, hLines, hInk⟩
  have hKept :
      (page.lines.reverse.dropWhile (·.isEmpty)).reverse =
        page.lines := by
    simp [hLines, hInk]
  rw [Page.output, hKept]
  exact joined_concat_newline (by simp [hLines])

end Inked

-- Spaced Lines

section Spaced

variable {blocks : List Block}

/- A line is blank between blocks, or stands in a block. -/
theorem mem_spaced
    (h : line ∈ spaced blocks) :
    line = [] ∨ ∃ block ∈ blocks, line ∈ block.lines := by
  have hAfter (previous : Block) (more : List Block)
      (hMem : line ∈ spacedAfter previous more) :
      line = [] ∨ ∃ block ∈ more, line ∈ block.lines := by
    induction more generalizing previous with
    | nil => simp [spacedAfter] at hMem
    | cons next more ih =>
        simp only [spacedAfter, List.mem_append] at hMem
        rcases hMem with (hGap | hNext) | hMore
        · split at hGap
          · simp at hGap
          · exact .inl (List.mem_singleton.mp hGap)
        · exact .inr ⟨next, by simp, hNext⟩
        · rcases ih next hMore with hBlank | ⟨block, hIn, hLine⟩
          · exact .inl hBlank
          · exact .inr ⟨block, by simp [hIn], hLine⟩
  cases blocks with
  | nil => simp [spaced] at h
  | cons first more =>
      rcases List.mem_append.mp h with hFirst | hMore
      · exact .inr ⟨first, by simp, hFirst⟩
      · rcases hAfter first more hMore with
          hBlank | ⟨block, hIn, hLine⟩
        · exact .inl hBlank
        · exact .inr ⟨block, by simp [hIn], hLine⟩

theorem mem_spaced_of_mem
    {block : Block}
    (hBlock : block ∈ blocks)
    (hLine : line ∈ block.lines) :
    line ∈ spaced blocks := by
  have hAfter (previous : Block) (more : List Block)
      (hMem : block ∈ more) :
      line ∈ spacedAfter previous more := by
    induction more generalizing previous with
    | nil => simp at hMem
    | cons next more ih =>
        rw [spacedAfter]
        rcases List.mem_cons.mp hMem with rfl | hMore
        · simp [hLine]
        · exact List.mem_append_right _ (ih next hMore)
  cases blocks with
  | nil => simp at hBlock
  | cons first more =>
      rcases List.mem_cons.mp hBlock with rfl | hMore
      · exact List.mem_append_left _ hLine
      · exact List.mem_append_right _
          (hAfter first more hMore)

/- One of two lines is not blank. -/
def Parted
    (first second : Text) : Prop :=
  first ≠ [] ∨ second ≠ []

theorem isChain_append
    {first second : List Text}
    (hEnds : EndsInked first)
    (hFirst : first.IsChain Parted)
    (hSecond : second.IsChain Parted) :
    (first ++ second).IsChain Parted := by
  refine hFirst.append hSecond fun line hLine _ _ => .inl ?_
  rcases hEnds with ⟨before, last, rfl, hInk⟩
  rw [List.getLast?_concat, Option.mem_some] at hLine
  exact hLine ▸ hInk

/- No two blank lines stand next to each other. -/
theorem isChain_spaced
    (hInked : ∀ block ∈ blocks, block.IsInked) :
    (spaced blocks).IsChain Parted := by
  have hLines {block : Block} (h : block.IsInked) :
      block.lines.IsChain Parted :=
    (List.pairwise_of_forall_mem_list fun line hLine _ _ =>
      .inl fun hBlank => h.2 (hBlank ▸ hLine)).isChain
  have hAfter (previous : Block) (more : List Block)
      (hMore : ∀ block ∈ more, block.IsInked) :
      (spacedAfter previous more).IsChain Parted := by
    induction more generalizing previous with
    | nil => exact .nil
    | cons next more ih =>
        have hNext := hMore next (by simp)
        have hRest := isChain_append (hNext.endsInked [])
          (hLines hNext) (ih next fun block hMem =>
            hMore block (by simp [hMem]))
        simp only [spacedAfter, List.append_assoc]
        split
        · exact hRest
        · rw [List.singleton_append]
          refine List.isChain_cons.mpr ⟨?_, hRest⟩
          -- the line after the gap is the first of a block
          intro line hLine
          cases hFirst : next.lines with
          | nil => exact absurd hFirst hNext.1
          | cons first others =>
              rw [hFirst, List.cons_append, List.head?_cons,
                Option.mem_some] at hLine
              refine .inr fun hBlank => hNext.2 ?_
              simp [hFirst, hLine, hBlank]
  cases blocks with
  | nil => exact .nil
  | cons first more =>
      have hFirst := hInked first (by simp)
      exact isChain_append (hFirst.endsInked [])
        (hLines hFirst) (hAfter first more fun block hMem =>
          hInked block (by simp [hMem]))

theorem head?_spaced
    (hInked : ∀ block ∈ blocks, block.IsInked) :
    (spaced blocks).head? ≠ some [] := by
  cases blocks with
  | nil => simp [spaced]
  | cons first more =>
      have hFirst := hInked first (by simp)
      cases hLines : first.lines with
      | nil => exact absurd hLines hFirst.1
      | cons line others =>
          intro hHead
          rw [spaced, hLines, List.cons_append,
            List.head?_cons, Option.some_inj] at hHead
          exact hFirst.2 (by simp [hLines, hHead])

end Spaced

-- Tidy Texts

/- The lines of a text, each of which has its line end. -/
def textLines
    (text : Text) : List Text :=
  (Text.pieces '\n' text).dropLast

/- The blocks of a module are written in tidy lines. -/
def Module.IsTidy
    (module_ : Module) : Prop :=
  ∀ block ∈ module_.blocks,
    block.lines ≠ [] ∧ ∀ line ∈ block.lines, TypeScript.IsTidy line

namespace Module.IsTidy

variable {module_ : Module}

theorem isInked
    (h : module_.IsTidy) :
    ∀ block ∈ module_.blocks, block.IsInked :=
  fun block hMem => ⟨(h block hMem).1, fun hBlank =>
    ((h block hMem).2 [] hBlank).written rfl⟩

/- A line is blank or tidy, so it has no line end in it. -/
theorem inline_of_mem_spaced
    (h : module_.IsTidy)
    (hLine : line ∈ spaced module_.blocks) :
    line.all isInline = true := by
  rcases mem_spaced hLine with rfl | ⟨block, hMem, hIn⟩
  · rfl
  · exact ((h block hMem).2 line hIn).oneLine

theorem text_eq
    (h : module_.IsTidy)
    (hBlocks : module_.blocks ≠ []) :
    module_.text = unlines (spaced module_.blocks) := by
  have hEnds := endsInked_spaced h.isInked hBlocks
  rw [← lines_page h.isInked] at hEnds ⊢
  exact output_eq_unlines hEnds

theorem text_of_no_blocks
    (h : module_.IsTidy)
    (hBlocks : module_.blocks = []) :
    module_.text = ['\n'] := by
  have hLines := lines_page h.isInked
  rw [hBlocks, spaced] at hLines
  simp [Module.text, Page.output, hLines]

/- The lines of the text are those of the blocks. -/
theorem textLines_text
    (h : module_.IsTidy)
    (hBlocks : module_.blocks ≠ []) :
    textLines module_.text = spaced module_.blocks := by
  rw [h.text_eq hBlocks, textLines, pieces_unlines]
  · simp
  · intro line hLine hFeed
    have hInline := List.all_eq_true.mp
      (h.inline_of_mem_spaced hLine) _ hFeed
    exact absurd hInline (by decide)

end Module.IsTidy

/- The declarations of a document are written in tidy lines. -/
theorem isTidy_of_declarationsFrom
    (h : declarationsFrom taken body = .ok declarations)
    (trailing : List Text) :
    Module.IsTidy ⟨declarations, trailing⟩ := by
  have hFits := (shows_of_declarationsFrom h).1
  have hWritten := (lines_ne_nil_and_kinds h).1
  intro block hBlock
  rcases List.mem_append.mp hBlock with hDeclared | hRemarks
  · rcases List.mem_map.mp hDeclared with ⟨found, hMem, rfl⟩
    exact ⟨hWritten found hMem, fun line hLine =>
      isTidy_of_mem_lines (hFits found hMem) hLine⟩
  · split at hRemarks
    · simp at hRemarks
    · next hSome =>
        rw [List.mem_singleton.mp hRemarks]
        refine ⟨remarksAt_ne_nil 0 ?_, fun line hLine =>
          isTidy_of_mem_remarksAt hLine⟩
        simpa using hSome

/- The lines of each declaration are lines of the text. -/
theorem mem_textLines_of_declared
    (h : declarationsFrom taken body = .ok declarations)
    (trailing : List Text)
    (hFound : found ∈ declarations)
    (hLine : line ∈ found.lines) :
    line ∈ textLines
      (Module.text ⟨declarations, trailing⟩) := by
  have hTidy := isTidy_of_declarationsFrom h trailing
  have hBlock : found.toBlock ∈
      Module.blocks ⟨declarations, trailing⟩ :=
    List.mem_append_left _ (List.mem_map_of_mem hFound)
  rw [hTidy.textLines_text (List.ne_nil_of_mem hBlock)]
  exact mem_spaced_of_mem hBlock hLine

/-
  What a text looks like that is laid out for a document.
  Its blocks are those of the declarations, in order, and of
  the remarks after them.
-/
structure IsTidyText
    (document : Document)
    (text : Text) : Prop where
  endsOnce : ∃ before, text = before ++ ['\n'] ∧
    before.getLast? ≠ some '\n'
  bare_iff : text = ['\n'] ↔
    document.body = [] ∧ document.trailing = []
  noReturn : '\r' ∉ text
  stripped : ∀ line ∈ textLines text,
    ∀ c ∈ line.getLast?, Text.isBlank c = false
  parted : (textLines text).IsChain Parted
  starts : (textLines text).head? = some [] →
    textLines text = [[]]
  blocks : ∃ module_, Module.ofDocument document = .ok module_ ∧
    module_.blocks.map Block.kind =
      document.body.map (fun found => some found.kind) ++
        (if document.trailing.isEmpty then [] else [none]) ∧
    (∀ block ∈ module_.blocks, block.IsInked) ∧
    (module_.blocks ≠ [] →
      textLines text = spaced module_.blocks)

namespace Module.IsTidy

variable {module_ : Module}

/- The last line end comes after ink. -/
theorem endsOnce
    (h : module_.IsTidy)
    (hBlocks : module_.blocks ≠ []) :
    ∃ before, module_.text = before ++ ['\n'] ∧
      before ≠ [] ∧ before.getLast? ≠ some '\n' := by
  rcases endsInked_spaced h.isInked hBlocks with
    ⟨lines, last, hLines, hInk⟩
  refine ⟨unlines lines ++ last, ?_, by simp [hInk], ?_⟩
  · rw [h.text_eq hBlocks, hLines]
    simp
  · intro hFeed
    rw [List.getLast?_append_of_ne_nil _ hInk] at hFeed
    have hInline := List.all_eq_true.mp
      (h.inline_of_mem_spaced (by simp [hLines] : last ∈ _)) _
      (List.mem_of_getLast? hFeed)
    exact absurd hInline (by decide)

theorem noReturn
    (h : module_.IsTidy)
    (hBlocks : module_.blocks ≠ []) :
    '\r' ∉ module_.text := by
  rw [h.text_eq hBlocks, unlines]
  intro hMem
  rcases List.mem_flatMap.mp hMem with ⟨line, hLine, hReturn⟩
  rcases List.mem_append.mp hReturn with hIn | hEnd
  · have hInline := List.all_eq_true.mp
      (h.inline_of_mem_spaced hLine) _ hIn
    exact absurd hInline (by decide)
  · simp at hEnd

theorem stripped
    (h : module_.IsTidy)
    (hLine : line ∈ spaced module_.blocks) :
    ∀ c ∈ line.getLast?, Text.isBlank c = false := by
  rcases mem_spaced hLine with rfl | ⟨block, hMem, hIn⟩
  · simp
  · exact ((h block hMem).2 line hIn).stripped

end Module.IsTidy

/- There is a block for each definition, and for remarks. -/
theorem kinds_blocks
    {document : Document}
    (h : declarationsFrom [] document.body = .ok declarations) :
    (Module.blocks ⟨declarations,
        commentEntries document.trailing⟩).map Block.kind =
      document.body.map (fun found => some found.kind) ++
        (if document.trailing.isEmpty then []
         else [none]) := by
  have hKinds := (lines_ne_nil_and_kinds h).2
  have hDeclared :
      declarations.map (fun found => some found.kind) =
        document.body.map (fun found => some found.kind) := by
    simpa [Function.comp_def] using
      congrArg (List.map some) hKinds
  rw [Module.blocks, List.map_append, List.map_map,
    commentEntries_isEmpty, apply_ite (List.map Block.kind),
    ← hDeclared]
  rfl

/- Emitted code is laid out tidily for any document. -/
theorem generate_is_tidy
    {document : Document}
    {text : Text}
    (h : generate document = .ok text) :
    IsTidyText document text := by
  rcases generate_eq_ok_iff.mp h with
    ⟨declarations, hFrom, rfl⟩
  have hTidy := isTidy_of_declarationsFrom hFrom
    (commentEntries document.trailing)
  have hModule : Module.ofDocument document =
      .ok ⟨declarations,
        commentEntries document.trailing⟩ := by
    rw [Module.ofDocument, hFrom]
  have hKinds := kinds_blocks hFrom
  generalize Module.mk declarations
    (commentEntries document.trailing) = module_
    at hTidy hModule hKinds ⊢
  have hBare : module_.blocks = [] ↔
      document.body = [] ∧ document.trailing = [] := by
    rw [← List.map_eq_nil_iff, hKinds]
    simp
  by_cases hBlocks : module_.blocks = []
  · have hText := hTidy.text_of_no_blocks hBlocks
    rw [hText]
    exact
      { endsOnce := ⟨[], rfl, by simp⟩
        bare_iff := iff_of_true rfl (hBare.mp hBlocks)
        noReturn := by decide
        stripped := List.forall_mem_singleton.mpr (by simp)
        parted := .singleton _
        starts := fun _ => rfl
        blocks := ⟨module_, hModule, hKinds, hTidy.isInked,
          fun hSome => absurd hBlocks hSome⟩ }
  · rcases hTidy.endsOnce hBlocks with
      ⟨before, hText, hInk, hLast⟩
    have hLines := hTidy.textLines_text hBlocks
    exact
      { endsOnce := ⟨before, hText, hLast⟩
        bare_iff := by
          rw [← hBare, hText]
          exact iff_of_false (by simpa using hInk) hBlocks
        noReturn := hTidy.noReturn hBlocks
        stripped := fun line hLine =>
          hTidy.stripped (hLines ▸ hLine)
        parted := hLines ▸ isChain_spaced hTidy.isInked
        starts := fun hHead =>
          absurd (hLines ▸ hHead) (head?_spaced hTidy.isInked)
        blocks := ⟨module_, hModule, hKinds, hTidy.isInked,
          fun _ => hLines⟩ }

/- Line ends and blanks in every place that takes a text. -/
def brokenDocument : Document where
  body :=
    [.nameSpace
      { scope := "a\n".toList
        name := "\r\n b ".toList
        comments := [.block []] },
     .nameSpace { scope := [], name := [], comments := [] },
     .inclusion
      { path := "x\r\n.thrift".toList
        comments := [.line " \r\r ".toList] },
     .struct
      { name := "S\n".toList
        fields :=
          [{ id := "\n".toList
             requiredness := none
             type := .named "a\r.b\n".toList
             name := "\n ".toList
             annotations := some [⟨"\n".toList, "\t".toList⟩]
             comments := [] }]
        comments := []
        trailing := [.line []] }]
  trailing := [.block ["\n\n".toList, [' ']]]

theorem broken_document_is_tidy :
    ∃ text, generate brokenDocument = .ok text ∧
      IsTidyText brokenDocument text :=
  ⟨_, rfl, generate_is_tidy rfl⟩

end TypeScript

end ThriftTypings
