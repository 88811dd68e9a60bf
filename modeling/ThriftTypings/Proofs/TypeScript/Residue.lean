import ThriftTypings.Proofs.Text.Pieces
import ThriftTypings.TypeScript.Declaration

/-
  This file defines what is left of emitted code when the
  comments are taken out of it, and proves that nothing is
  left of the documentation and the remarks in it, whatever
  they say, and that code lines are left as they are.

  Key definitions include:
    * `uncomment`
    * `residue`

  Key theorems include:
    * `IsCode.literal`
    * `residue_output`
-/

namespace ThriftTypings

namespace TypeScript

variable {lines : List Text} {text : Text}

-- Taking Out Comments

/- What the next character of some code belongs to. -/
inductive Mode where
  | code
  | literal
  | line
  | block
  deriving DecidableEq, Repr

/- Does the character end a comment of one line? -/
def endsLine
    (c : Char) : Bool :=
  c = '\n' || c = '\r' || c.toNat = 0x2028 ||
    c.toNat = 0x2029

/-
  The code without its comments. In a literal no comment
  opens, and a backslash takes the next character along.
  The character that ends a comment of one line stays.
-/
def uncomment : Mode → Text → Text
  | _, [] => []
  | .code, '/' :: '/' :: rest => uncomment .line rest
  | .code, '/' :: '*' :: rest => uncomment .block rest
  | .code, c :: rest =>
      c :: uncomment (if c = '"' then .literal else .code) rest
  | .literal, '\\' :: c :: rest =>
      '\\' :: c :: uncomment .literal rest
  | .literal, c :: rest =>
      c :: uncomment (if c = '"' then .code else .literal) rest
  | .line, c :: rest =>
      if endsLine c then c :: uncomment .code rest
      else uncomment .line rest
  | .block, '*' :: '/' :: rest => uncomment .code rest
  | .block, _ :: rest => uncomment .block rest

/- The lines of a text that are not blank, without blanks. -/
def inkLines
    (text : Text) : List Text :=
  ((Text.pieces '\n' text).map Text.stripEnd).filter
    fun line => !line.isEmpty

/-
  What is left of some code without its comments, blanks at
  the ends of lines, and blank lines.
-/
def residue
    (text : Text) : Text :=
  Text.joined ['\n'] (inkLines (uncomment .code text))

example :
    residue "a; // b\n\n/* c\n d */ \"//\\\"/*\" e".toList =
      "a;\n \"//\\\"/*\" e".toList := by
  decide

-- Single Characters

variable {c : Char} {rest : Text}

@[simp] theorem uncomment_nil
    (mode : Mode) :
    uncomment mode [] = [] := by
  cases mode <;> rfl

@[simp] theorem uncomment_slashes
    (rest : Text) :
    uncomment .code ('/' :: '/' :: rest) =
      uncomment .line rest :=
  rfl

@[simp] theorem uncomment_opening
    (rest : Text) :
    uncomment .code ('/' :: '*' :: rest) =
      uncomment .block rest :=
  rfl

@[simp] theorem uncomment_closing
    (rest : Text) :
    uncomment .block ('*' :: '/' :: rest) =
      uncomment .code rest :=
  rfl

@[simp] theorem uncomment_escape
    (c : Char)
    (rest : Text) :
    uncomment .literal ('\\' :: c :: rest) =
      '\\' :: c :: uncomment .literal rest :=
  rfl

@[simp] theorem uncomment_line_cons
    (c : Char)
    (rest : Text) :
    uncomment .line (c :: rest) =
      if endsLine c then c :: uncomment .code rest
      else uncomment .line rest := by
  rw [uncomment]

/- A character of code that opens no comment is kept. -/
theorem uncomment_code
    (h : c = '/' →
      rest.head? ≠ some '/' ∧ rest.head? ≠ some '*') :
    uncomment .code (c :: rest) =
      c :: uncomment (if c = '"' then .literal else .code)
        rest := by
  rw [uncomment]
  · rintro more rfl rfl
    exact absurd rfl (h rfl).1
  · rintro more rfl rfl
    exact absurd rfl (h rfl).2

theorem uncomment_plain
    (hSlash : c ≠ '/')
    (hQuote : c ≠ '"') :
    uncomment .code (c :: rest) =
      c :: uncomment .code rest := by
  rw [uncomment_code (absurd · hSlash), if_neg hQuote]

theorem uncomment_literal
    (h : c ≠ '\\') :
    uncomment .literal (c :: rest) =
      c :: uncomment (if c = '"' then .code else .literal)
        rest := by
  rw [uncomment]
  rintro _ more rfl
  exact absurd rfl h

/- A character that does not close a comment goes with it. -/
theorem uncomment_block
    (h : c = '*' → rest.head? ≠ some '/') :
    uncomment .block (c :: rest) = uncomment .block rest := by
  rw [uncomment]
  rintro more rfl rfl
  exact absurd rfl (h rfl)

-- Line Ends

/- Lines with an end after each of them. -/
def unlines
    (lines : List Text) : Text :=
  lines.flatMap fun line => line ++ ['\n']

@[simp] theorem unlines_nil :
    unlines [] = [] :=
  rfl

@[simp] theorem unlines_cons
    (line : Text)
    (more : List Text) :
    unlines (line :: more) = line ++ '\n' :: unlines more := by
  simp [unlines]

@[simp] theorem unlines_append
    (first second : List Text) :
    unlines (first ++ second) =
      unlines first ++ unlines second := by
  simp [unlines]

theorem pieces_unlines
    (h : ∀ line ∈ lines, '\n' ∉ line) :
    Text.pieces '\n' (unlines lines) = lines ++ [[]] := by
  induction lines with
  | nil => rfl
  | cons line more ih =>
      rw [unlines_cons, Text.pieces_append_cons
        (h line (by simp)), ih fun other hMem =>
          h other (by simp [hMem]), List.cons_append]

theorem inkLines_unlines
    (h : ∀ line ∈ lines, '\n' ∉ line) :
    inkLines (unlines lines) =
      (lines.map Text.stripEnd).filter
        fun line => !line.isEmpty := by
  rw [inkLines, pieces_unlines h]
  simp [Text.stripEnd]

theorem joined_concat_newline
    (h : lines ≠ []) :
    Text.joined ['\n'] lines ++ ['\n'] = unlines lines := by
  induction lines with
  | nil => exact absurd rfl h
  | cons first rest ih =>
      cases rest with
      | nil => simp
      | cons second more =>
          rw [Text.joined_cons_cons, List.append_assoc,
            ih (by simp), unlines_cons]
          simp

theorem pieces_concat_newline
    (text : Text) :
    Text.pieces '\n' (text ++ ['\n']) =
      Text.pieces '\n' text ++ [[]] := by
  induction text with
  | nil => rfl
  | cons c rest ih =>
      rcases Text.exists_pieces '\n' rest with
        ⟨first, more, hRest⟩
      rw [hRest, List.cons_append] at ih
      rw [List.cons_append, Text.pieces_cons ih,
        Text.pieces_cons hRest]
      split <;> rfl

/- A line end more at the end is kept, or is in a comment. -/
theorem uncomment_concat_newline
    (mode : Mode)
    (text : Text) :
    uncomment mode (text ++ ['\n']) =
        uncomment mode text ++ ['\n'] ∨
      uncomment mode (text ++ ['\n']) =
        uncomment mode text := by
  -- The line end does not complete a mark of two characters.
  have hHead (other : Char) (hOther : other ≠ '\n')
      (more : Text) (h : more.head? ≠ some other) :
      (more ++ ['\n']).head? ≠ some other := by
    cases more with
    | nil => simpa using Ne.symm hOther
    | cons first others => simpa using h
  fun_induction uncomment mode text with
  | case1 mode =>
      cases mode with
      | code => exact .inl rfl
      | literal => exact .inl rfl
      | line => exact .inl rfl
      | block => exact .inr rfl
  | case2 rest ih => simpa using ih
  | case3 rest ih => simpa using ih
  | case4 c rest hLine hBlock ih =>
      rw [List.cons_append, uncomment_code]
      · simpa using ih
      · intro hSlash
        refine ⟨hHead _ (by decide) rest ?_,
          hHead _ (by decide) rest ?_⟩
        · intro hFirst
          rcases List.head?_eq_some_iff.mp hFirst with
            ⟨more, rfl⟩
          exact hLine more hSlash rfl
        · intro hFirst
          rcases List.head?_eq_some_iff.mp hFirst with
            ⟨more, rfl⟩
          exact hBlock more hSlash rfl
  | case5 c rest ih => simpa using ih
  | case6 c rest hEscape ih =>
      by_cases hBackslash : c = '\\'
      · cases rest with
        | nil => simp [hBackslash]
        | cons next more =>
            exact absurd rfl (hEscape next more hBackslash)
      · rw [List.cons_append, uncomment_literal hBackslash]
        simpa using ih
  | case7 c rest hEnds ih => simpa [hEnds] using ih
  | case8 c rest hEnds ih => simpa [hEnds] using ih
  | case9 rest ih => simpa using ih
  | case10 c rest hClose ih =>
      rw [List.cons_append, uncomment_block]
      · exact ih
      · intro hStar
        refine hHead _ (by decide) rest ?_
        intro hFirst
        rcases List.head?_eq_some_iff.mp hFirst with
          ⟨more, rfl⟩
        exact hClose more hStar rfl

/- A line end more at the end makes no difference. -/
theorem residue_concat_newline
    (text : Text) :
    residue (text ++ ['\n']) = residue text := by
  unfold residue
  rcases uncomment_concat_newline .code text with hEnd | hEnd
  · rw [hEnd, inkLines, pieces_concat_newline]
    simp [inkLines, Text.stripEnd]
  · rw [hEnd]

-- Inside a Comment

/- Does the text close the comment that it stands in? -/
def closes : Text → Bool
  | '*' :: '/' :: _ => true
  | _ :: rest => closes rest
  | [] => false

theorem closes_cons
    (h : c = '*' → rest.head? ≠ some '/') :
    closes (c :: rest) = closes rest := by
  rw [closes]
  rintro more rfl rfl
  exact absurd rfl (h rfl)

theorem closes_other
    (h : c ≠ '*') :
    closes (c :: rest) = closes rest :=
  closes_cons (absurd · h)

theorem head?_of_not_closes
    (h : closes (c :: rest) = false) :
    c = '*' → rest.head? ≠ some '/' := by
  rintro rfl hFirst
  rcases List.head?_eq_some_iff.mp hFirst with ⟨more, rfl⟩
  simp [closes] at h

theorem not_closes_tail
    (h : closes (c :: rest) = false) :
    closes rest = false :=
  closes_cons (head?_of_not_closes h) ▸ h

/- A text that does not close a comment is part of it. -/
theorem uncomment_block_append
    (hText : closes text = false)
    (hNext : c ≠ '/') :
    uncomment .block (text ++ c :: rest) =
      uncomment .block (c :: rest) := by
  induction text with
  | nil => rfl
  | cons first more ih =>
      have hFirst := head?_of_not_closes hText
      rw [List.cons_append, uncomment_block,
        ih (not_closes_tail hText)]
      intro hStar
      cases more with
      | nil => simpa using hNext
      | cons second others => simpa using hFirst hStar

theorem closes_append
    (hText : closes text = false)
    (hNext : c ≠ '/')
    (hRest : closes (c :: rest) = false) :
    closes (text ++ c :: rest) = false := by
  induction text with
  | nil => exact hRest
  | cons first more ih =>
      have hFirst := head?_of_not_closes hText
      rw [List.cons_append, closes_cons]
      · exact ih (not_closes_tail hText)
      · intro hStar
        cases more with
        | nil => simpa using hNext
        | cons second others => simpa using hFirst hStar

theorem not_closes_of_prefix
    {first second : Text}
    (h : first <+: second)
    (hSecond : closes second = false) :
    closes first = false := by
  induction first generalizing second with
  | nil => rfl
  | cons c more ih =>
      rcases h with ⟨others, rfl⟩
      have hHead := head?_of_not_closes hSecond
      rw [closes_cons]
      · exact ih ⟨others, rfl⟩ (not_closes_tail hSecond)
      · intro hStar hFirst
        rcases List.head?_eq_some_iff.mp hFirst with
          ⟨_, rfl⟩
        exact hHead hStar rfl

/- An escaped text does not close the comment. -/
theorem not_closes_escapeDoc
    (text : Text) :
    closes (escapeDoc text) = false := by
  fun_induction escapeDoc text with
  | case1 => rfl
  | case2 rest ih => simp [closes, ih]
  | case3 c rest hOther ih =>
      rw [closes_cons, ih]
      intro hStar hFirst
      -- An escaped text begins as the text itself does.
      cases rest with
      | nil => simp [escapeDoc] at hFirst
      | cons next more =>
          have hNext : next ≠ '/' := by
            rintro rfl
            exact hOther more hStar rfl
          unfold escapeDoc at hFirst
          split at hFirst
          · cases ‹next :: more = []›
          · simp at hFirst
          · simp_all

-- Blanks at the Ends of Lines

/- The blanks in front of a line. -/
def margin
    (depth : Int) : Text :=
  List.replicate (2 * depth.toNat) ' '

/- A line is its text with a margin, from an ink mark on. -/
theorem lineAt_append_cons
    (depth : Int)
    (first : Text)
    (hInk : Text.isBlank c = false)
    (rest : Text) :
    lineAt depth (first ++ c :: rest) =
      margin depth ++ first ++ c :: Text.stripEnd rest := by
  rw [lineAt, ← List.append_assoc,
    Text.stripEnd_append_cons _ hInk]
  rfl

theorem lineAt_concat
    (depth : Int)
    (first : Text)
    (hInk : Text.isBlank c = false) :
    lineAt depth (first ++ [c]) =
      margin depth ++ first ++ [c] :=
  lineAt_append_cons depth first hInk []

-- What Lines Leave

/-
  Lines leave other lines: when comments are taken out, only
  these and blank ones are left, and what follows is code.
-/
def Leaves
    (lines kept : List Text) : Prop :=
  ∃ left : List Text,
    (∀ rest,
      uncomment .code (unlines lines ++ rest) =
        unlines left ++ uncomment .code rest) ∧
      (∀ line ∈ left, '\n' ∉ line) ∧
      ((left.map Text.stripEnd).filter fun line =>
        !line.isEmpty) = kept

namespace Leaves

theorem nil :
    Leaves [] [] :=
  ⟨[], by simp⟩

theorem append
    {first second firstKept secondKept : List Text}
    (hFirst : Leaves first firstKept)
    (hSecond : Leaves second secondKept) :
    Leaves (first ++ second) (firstKept ++ secondKept) := by
  rcases hFirst with ⟨left, hLeft, hLines, rfl⟩
  rcases hSecond with ⟨right, hRight, hOthers, rfl⟩
  refine ⟨left ++ right, fun rest => ?_, ?_, by simp⟩
  · rw [unlines_append, List.append_assoc, hLeft, hRight,
      unlines_append, List.append_assoc]
  · intro line hMem
    rcases List.mem_append.mp hMem with hHere | hThere
    · exact hLines line hHere
    · exact hOthers line hThere

theorem flatMap
    {α : Type}
    {items : List α}
    {lines kept : α → List Text}
    (h : ∀ item ∈ items, Leaves (lines item) (kept item)) :
    Leaves (items.flatMap lines) (items.flatMap kept) := by
  induction items with
  | nil => exact nil
  | cons item more ih =>
      rw [List.flatMap_cons, List.flatMap_cons]
      exact (h item (by simp)).append
        (ih fun other hMem => h other (by simp [hMem]))

/- Nothing is left of what leaves blanks only. -/
theorem of_blank
    {blank : Text}
    (hBlank : ∀ c ∈ blank, c = ' ')
    (h : ∀ rest,
      uncomment .code (unlines lines ++ rest) =
        blank ++ '\n' :: uncomment .code rest) :
    Leaves lines [] := by
  refine ⟨[blank], fun rest => by simp [h], ?_, ?_⟩
  · intro line hMem hBreak
    rw [List.mem_singleton.mp hMem] at hBreak
    have hSpace := hBlank _ hBreak
    simp at hSpace
  · have hNone : Text.stripEnd blank = [] := by
      rw [Text.stripEnd, List.reverse_eq_nil_iff,
        List.dropWhile_eq_nil_iff]
      intro c hc
      rw [hBlank c (List.mem_reverse.mp hc)]
      decide
    simp [hNone]

/- What is left in the end is what the lines leave. -/
theorem residue_unlines
    {lines kept : List Text}
    (h : Leaves lines kept) :
    residue (unlines lines) = Text.joined ['\n'] kept := by
  rcases h with ⟨left, hLeft, hLines, rfl⟩
  have hAll := hLeft []
  simp only [List.append_nil, uncomment_nil] at hAll
  rw [residue, hAll, inkLines_unlines hLines]

end Leaves

-- Documentation and Remarks

theorem mem_margin
    (depth : Int) :
    ∀ c ∈ margin depth, c = ' ' := by
  intro c hc
  exact (List.mem_replicate.mp hc).2

theorem uncomment_margin
    (depth : Int)
    (rest : Text) :
    uncomment .code (margin depth ++ rest) =
      margin depth ++ uncomment .code rest := by
  unfold margin
  induction 2 * depth.toNat with
  | zero => rfl
  | succ n ih =>
      rw [List.replicate_succ, List.cons_append,
        uncomment_plain (by decide) (by decide), ih,
        List.cons_append]

theorem not_closes_margin
    (depth : Int) :
    closes (margin depth) = false := by
  unfold margin
  induction 2 * depth.toNat with
  | zero => rfl
  | succ n ih =>
      rw [List.replicate_succ, closes_other (by decide), ih]

/- A comment that closes once leaves its margin only. -/
theorem uncomment_comment
    (depth : Int)
    {inside : Text}
    (hInside : closes inside = false)
    (rest : Text) :
    uncomment .code
        (margin depth ++ '/' :: '*' ::
          (inside ++ ' ' :: '*' :: '/' :: '\n' :: rest)) =
      margin depth ++ '\n' :: uncomment .code rest := by
  rw [uncomment_margin, uncomment_opening,
    uncomment_block_append hInside (by decide),
    uncomment_block (by simp), uncomment_closing,
    uncomment_plain (by decide) (by decide)]

theorem not_closes_unlines
    (h : ∀ line ∈ lines, closes line = false)
    (depth : Int) :
    closes (unlines lines ++ margin depth) = false := by
  induction lines with
  | nil => exact not_closes_margin depth
  | cons line more ih =>
      rw [unlines_cons, List.append_assoc, List.cons_append]
      refine closes_append (h line (by simp)) (by decide) ?_
      rw [closes_other (by decide)]
      exact ih fun other hMem => h other (by simp [hMem])

/- A line of documentation does not close it. -/
theorem not_closes_starred
    (depth : Int)
    (text : Text) :
    closes (lineAt depth
      (" * ".toList ++ escapeDoc text)) = false := by
  have hMark : " * ".toList = [' ', '*', ' '] := rfl
  refine not_closes_of_prefix (Text.stripEnd_isPrefix _) ?_
  rw [hMark]
  refine closes_append (not_closes_margin depth)
    (by decide) ?_
  rw [closes_other (by decide)]
  change closes ('*' :: ' ' :: escapeDoc text) = false
  rw [closes_cons (by simp), closes_other (by decide)]
  exact not_closes_escapeDoc text

/- Nothing is left of documentation, whatever it says. -/
theorem leaves_docAt
    (depth : Int)
    (entries : List Text) :
    Leaves (docAt depth entries) [] := by
  have hOpen : "/**".toList = ['/', '*'] ++ ['*'] := rfl
  have hSingle : "/** ".toList = ['/', '*', '*', ' '] := rfl
  have hClose : " */".toList = [' ', '*'] ++ ['/'] := rfl
  unfold docAt
  generalize entries.flatMap Text.entryLines = lines
  rcases lines with _ | ⟨only, _ | ⟨second, more⟩⟩
  · exact .nil
  · have hInside :
        closes ('*' :: ' ' :: escapeDoc only) = false := by
      rw [closes_cons (by simp), closes_other (by decide)]
      exact not_closes_escapeDoc only
    refine Leaves.of_blank (mem_margin depth) fun rest => ?_
    rw [← uncomment_comment depth hInside rest]
    simp only [List.map_cons, List.map_nil]
    rw [hClose, ← List.append_assoc,
      lineAt_concat depth _ (by decide), hSingle]
    simp
  · have hInside :
        closes ('*' :: '\n' ::
          (unlines (((only :: second :: more).map
              escapeDoc).map fun text =>
                lineAt depth (" * ".toList ++ text)) ++
            margin depth)) = false := by
      rw [closes_cons (by simp), closes_other (by decide)]
      refine not_closes_unlines ?_ depth
      intro line hMem
      simp only [List.map_map, List.mem_map,
        Function.comp_apply] at hMem
      rcases hMem with ⟨text, _, rfl⟩
      exact not_closes_starred depth text
    refine Leaves.of_blank (mem_margin depth) fun rest => ?_
    rw [← uncomment_comment depth hInside rest]
    simp only [List.map_cons]
    rw [hOpen, hClose, lineAt_concat depth _ (by decide),
      lineAt_concat depth _ (by decide)]
    simp

theorem isLineBreak_of_endsLine
    (h : endsLine c = true) :
    Text.isLineBreak c = true := by
  simp only [endsLine, Bool.or_eq_true,
    decide_eq_true_eq] at h
  rcases h with ((rfl | rfl) | hCode) | hCode
  · decide
  · decide
  · simp [Text.isLineBreak, hCode]
  · simp [Text.isLineBreak, hCode]

theorem not_isLineBreak_of_mem_lines
    {text line : Text}
    (h : line ∈ Text.lines text) :
    ∀ c ∈ line, Text.isLineBreak c = false := by
  fun_induction Text.lines text generalizing line with
  | case1 => simp at h
  | case2 rest ih =>
      rcases List.mem_cons.mp h with rfl | hMore
      · simp
      · exact ih hMore
  | case3 c rest _ hBreak ih =>
      rcases List.mem_cons.mp h with rfl | hMore
      · simp
      · exact ih hMore
  | case4 c rest _ hBreak hNone ih =>
      rw [List.mem_singleton.mp h]
      simpa using hBreak
  | case5 c rest _ hBreak first more hSome ih =>
      rcases List.mem_cons.mp h with rfl | hMore
      · have hFirst := @ih first (by simp [hSome])
        simpa using ⟨by simpa using hBreak, hFirst⟩
      · exact ih (by simp [hSome, hMore])

theorem not_isLineBreak_of_mem_entryLines
    {text line : Text}
    (h : line ∈ Text.entryLines text) :
    ∀ c ∈ line, Text.isLineBreak c = false := by
  unfold Text.entryLines at h
  split at h
  · rw [List.mem_singleton.mp h]
    simp
  · next hLines =>
      exact not_isLineBreak_of_mem_lines (hLines ▸ h)

/- A comment of one line ends with that line. -/
theorem uncomment_line
    (h : ∀ c ∈ text, endsLine c = false)
    (rest : Text) :
    uncomment .line (text ++ '\n' :: rest) =
      '\n' :: uncomment .code rest := by
  induction text with
  | nil => rfl
  | cons c more ih =>
      have hFirst := h c (by simp)
      rw [List.cons_append, uncomment_line_cons]
      simp only [hFirst, Bool.false_eq_true, if_false]
      exact ih fun other hMem => h other (by simp [hMem])

/- Nothing is left of remarks, whatever they say. -/
theorem leaves_remarksAt
    (depth : Int)
    (entries : List Text) :
    Leaves (remarksAt depth entries) [] := by
  have hMark (text : Text) :
      "// ".toList ++ text = ['/'] ++ '/' :: ' ' :: text := rfl
  have hLine (text : Text)
      (hMem : text ∈ entries.flatMap Text.entryLines) :
      Leaves [lineAt depth ("// ".toList ++ text)] [] := by
    rcases List.mem_flatMap.mp hMem with ⟨entry, _, hEntry⟩
    have hKept : ∀ c ∈ Text.stripEnd (' ' :: text),
        endsLine c = false := by
      intro c hc
      refine Bool.eq_false_iff.mpr fun hEnds => ?_
      have hBreak := isLineBreak_of_endsLine hEnds
      rcases List.mem_cons.mp
        ((Text.stripEnd_isPrefix _).subset hc) with rfl | hText
      · simp [Text.isLineBreak] at hBreak
      · simp [not_isLineBreak_of_mem_entryLines hEntry c
          hText] at hBreak
    refine Leaves.of_blank (mem_margin depth) fun rest => ?_
    rw [hMark, lineAt_append_cons depth _ (by decide)]
    simp only [unlines_cons, unlines_nil, List.append_assoc,
      List.cons_append, List.nil_append]
    rw [uncomment_margin, uncomment_slashes,
      uncomment_line hKept]
  have hNone :
      ((entries.flatMap Text.entryLines).flatMap
        fun _ => ([] : List Text)) = [] :=
    List.flatMap_eq_nil_iff.mpr fun _ _ => rfl
  have hAll := Leaves.flatMap hLine
  rw [hNone] at hAll
  rw [remarksAt, List.map_eq_flatMap]
  exact hAll

-- Code

/- Is the text code on one line, without comments in it? -/
structure IsCode
    (text : Text) : Prop where
  passes : ∀ rest,
    uncomment .code (text ++ rest) =
      text ++ uncomment .code rest
  oneLine : '\n' ∉ text

/- Does the character open nothing and end no line? -/
def isPlain
    (c : Char) : Bool :=
  c != '/' && c != '"' && c != '\n'

namespace IsCode

theorem nil :
    IsCode [] :=
  ⟨fun _ => rfl, by simp⟩

theorem append
    {first second : Text}
    (hFirst : IsCode first)
    (hSecond : IsCode second) :
    IsCode (first ++ second) := by
  constructor
  · intro rest
    rw [List.append_assoc, hFirst.passes, hSecond.passes,
      List.append_assoc]
  · simpa using ⟨hFirst.oneLine, hSecond.oneLine⟩

theorem of_plain
    (h : text.all isPlain = true) :
    IsCode text := by
  induction text with
  | nil => exact nil
  | cons c more ih =>
      simp only [List.all_cons, Bool.and_eq_true] at h
      rcases h with ⟨hFirst, hMore⟩
      simp only [isPlain, Bool.and_eq_true,
        bne_iff_ne] at hFirst
      rcases hFirst with ⟨⟨hSlash, hQuote⟩, hBreak⟩
      have hTail := ih hMore
      constructor
      · intro rest
        rw [List.cons_append, uncomment_plain hSlash hQuote,
          hTail.passes, List.cons_append]
      · simpa using ⟨Ne.symm hBreak, hTail.oneLine⟩

theorem joined
    {between : Text}
    {parts : List Text}
    (hBetween : IsCode between)
    (hParts : ∀ part ∈ parts, IsCode part) :
    IsCode (Text.joined between parts) := by
  induction parts with
  | nil => exact nil
  | cons first rest ih =>
      have hRest := ih fun part hMem =>
        hParts part (by simp [hMem])
      cases rest with
      | nil => simpa using hParts first (by simp)
      | cons second more =>
          rw [Text.joined_cons_cons]
          exact ((hParts first (by simp)).append
            hBetween).append hRest

end IsCode

/- A written character stays within its literal. -/
theorem uncomment_literalChar
    (c : Char)
    (rest : Text) :
    uncomment .literal (Text.literalChar c ++ rest) =
        Text.literalChar c ++ uncomment .literal rest ∧
      '\n' ∉ Text.literalChar c := by
  have hPlain (text : Text)
      (hText : text.all (fun d =>
        d != '"' && d != '\\') = true) :
      uncomment .literal (text ++ rest) =
        text ++ uncomment .literal rest := by
    induction text with
    | nil => rfl
    | cons d more ih =>
        simp only [List.all_cons, Bool.and_eq_true,
          bne_iff_ne] at hText
        rcases hText with ⟨⟨hQuote, hBackslash⟩, hMore⟩
        rw [List.cons_append, uncomment_literal hBackslash,
          if_neg hQuote, ih (by simpa using hMore),
          List.cons_append]
  unfold Text.literalChar
  by_cases hQuote : c = '"'
  · simp [hQuote]
  by_cases hBackslash : c = '\\'
  · simp [hBackslash]
  by_cases hFeed : c = '\n'
  · simp [hFeed]
  by_cases hReturn : c = '\r'
  · simp [hReturn]
  by_cases hTab : c = '\t'
  · simp [hTab]
  by_cases hBack : c.toNat = 0x08
  · simp [hQuote, hBackslash, hFeed, hReturn, hTab, hBack]
  by_cases hForm : c.toNat = 0x0C
  · simp [hQuote, hBackslash, hFeed, hReturn, hTab, hForm]
  by_cases hControl : c.toNat < 0x20
  · have hDigits : ∀ n < 0x20,
        (Text.hex 4 n).all (fun d =>
            d != '"' && d != '\\') = true ∧
          '\n' ∉ Text.hex 4 n := by
      decide
    rcases hDigits _ hControl with ⟨hHex, hLine⟩
    simp [hQuote, hBackslash, hFeed, hReturn, hTab, hBack,
      hForm, hControl, hPlain _ hHex, hLine]
  · simp [hQuote, hBackslash, hFeed, hReturn, hTab, hBack,
      hForm, hControl, uncomment_literal hBackslash,
      Ne.symm hFeed]

/- A string literal is code, whatever it says. -/
theorem IsCode.literal
    (text : Text) :
    IsCode (Text.literal text) := by
  have hInside (rest : Text) :
      uncomment .literal
          (text.flatMap Text.literalChar ++ rest) =
        text.flatMap Text.literalChar ++
          uncomment .literal rest := by
    induction text with
    | nil => rfl
    | cons c more ih =>
        rw [List.flatMap_cons, List.append_assoc,
          (uncomment_literalChar c _).1, ih,
          List.append_assoc]
  constructor
  · intro rest
    simp only [Text.literal, List.append_assoc,
      List.cons_append, List.nil_append]
    rw [uncomment_code (by simp), if_pos rfl, hInside,
      uncomment_literal (by decide), if_pos rfl]
  · simp only [Text.literal, List.mem_append,
      List.mem_singleton, List.mem_flatMap]
    rintro ((hQuote | ⟨c, _, hc⟩) | hQuote)
    · simp at hQuote
    · exact (uncomment_literalChar c []).2 hc
    · simp at hQuote

/- A line of code is left as it is. -/
theorem leaves_code
    (depth : Int)
    {first : Text}
    (hInk : Text.isBlank c = false)
    (hCode : IsCode (first ++ [c])) :
    Leaves [lineAt depth (first ++ [c])]
      [lineAt depth (first ++ [c])] := by
  have hStrip :
      Text.stripEnd (margin depth ++ first ++ [c]) =
        margin depth ++ first ++ [c] :=
    Text.stripEnd_append_cons _ hInk []
  rw [lineAt_concat depth first hInk]
  refine ⟨[margin depth ++ first ++ [c]], fun rest => ?_, ?_,
    ?_⟩
  · simp only [unlines_cons, unlines_nil]
    have hPasses := hCode.passes ('\n' :: rest)
    rw [uncomment_plain (by decide) (by decide)] at hPasses
    simp only [List.append_assoc, List.cons_append,
      List.nil_append] at hPasses ⊢
    rw [uncomment_margin, hPasses]
  · intro line hMem
    rw [List.mem_singleton.mp hMem]
    have hMargin : '\n' ∉ margin depth := fun hBreak => by
      simpa using mem_margin depth _ hBreak
    have hLine := hCode.oneLine
    simp only [List.mem_append, not_or] at hLine ⊢
    exact ⟨⟨hMargin, hLine.1⟩, hLine.2⟩
  · rw [List.map_singleton, hStrip]
    simp

-- Pages

theorem unlines_replicate
    (n : Nat) :
    unlines (List.replicate n []) =
      List.replicate n '\n' := by
  induction n with
  | zero => rfl
  | succ n ih => simp [List.replicate_succ, ih]

theorem residue_append_newlines
    (text : Text)
    (n : Nat) :
    residue (text ++ List.replicate n '\n') =
      residue text := by
  induction n with
  | zero => simp
  | succ n ih =>
      rw [List.replicate_succ', ← List.append_assoc,
        residue_concat_newline, ih]

/- The residue of a page is what its lines leave. -/
theorem residue_output
    {page : Page}
    {kept : List Text}
    (h : Leaves page.lines kept) :
    residue page.output = Text.joined ['\n'] kept := by
  obtain ⟨n, hBlank⟩ : ∃ n,
      page.lines.reverse.takeWhile (·.isEmpty) =
        List.replicate n [] := by
    refine ⟨_, List.eq_replicate_iff.mpr ⟨rfl, ?_⟩⟩
    intro line hMem
    exact List.isEmpty_iff.mp (List.mem_takeWhile_imp hMem)
  have hLines : page.lines =
      (page.lines.reverse.dropWhile (·.isEmpty)).reverse ++
        List.replicate n [] := by
    have hSplit := congrArg List.reverse
      (List.takeWhile_append_dropWhile
        (p := fun line : Text => line.isEmpty)
        (l := page.lines.reverse))
    rw [hBlank, List.reverse_append, List.reverse_replicate,
      List.reverse_reverse] at hSplit
    exact hSplit.symm
  have hAll := h.residue_unlines
  rw [hLines, unlines_append, unlines_replicate,
    residue_append_newlines] at hAll
  rw [← hAll]
  simp only [Page.output]
  by_cases hNone :
      (page.lines.reverse.dropWhile (·.isEmpty)).reverse = []
  · rw [hNone]
    exact residue_concat_newline []
  · rw [joined_concat_newline hNone]

end TypeScript

end ThriftTypings
