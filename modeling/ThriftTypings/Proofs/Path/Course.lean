import Mathlib.Data.List.DropRight
import ThriftTypings.Proofs.Path.Canonical

/-
  This file proves where relative paths lead, whatever they
  start from: up by some steps, and then down by some names.

  An import that is written for a relative path goes the
  same way, but for its last name.

  Key definitions include:
    * `Path.climb` and `Path.descent`

  Key theorems include:
    * `Path.resolve_eq`
    * `Path.ofText_importSpecifier`
-/

namespace ThriftTypings

namespace Path

-- Courses

/-
  How many steps up segments take above where they start.
  These are the ones left in the normal form.
-/
def climb
    (segments : List Text) : Nat :=
  (walk false [] segments).count above

/- The names that segments go down after they have climbed. -/
def descent
    (segments : List Text) : List Text :=
  ((walk false [] segments).filter (· ≠ above)).reverse

theorem walk_cons
    (absolute : Bool)
    (place : List Text)
    (segment : Text)
    (more : List Text) :
    walk absolute place (segment :: more) =
      walk absolute (walk absolute place [segment]) more := by
  by_cases hAbove : segment = above
  · cases place with
    | nil => simp [walk, hAbove]
    | cons last rest =>
        by_cases hLast : last = above
        · simp [walk, hAbove, hLast]
        · simp [walk, hAbove, hLast]
  · simp [walk, hAbove]

theorem walk_append
    (absolute : Bool)
    (place first second : List Text) :
    walk absolute place (first ++ second) =
      walk absolute (walk absolute place first) second := by
  induction first generalizing place with
  | nil => simp [walk]
  | cons segment more ih =>
      rw [List.cons_append, walk_cons, ih, ← walk_cons]

/- Names are walked as they are. -/
theorem walk_names
    (absolute : Bool)
    (place : List Text)
    {names : List Text}
    (h : above ∉ names) :
    walk absolute place names = names.reverse ++ place := by
  induction names generalizing place with
  | nil => simp [walk]
  | cons name more ih =>
      simp only [List.mem_cons, not_or] at h
      have hStep : walk absolute place [name] =
          name :: place := by
        simp [walk, Ne.symm h.1]
      rw [walk_cons, hStep, ih _ h.2]
      simp

/-
  A walk from an unknown place goes as one from a known one.
  What it has left of that place is what it has not climbed.
-/
theorem walk_unknown
    (segments : List Text)
    {names : List Text}
    (h : above ∉ names)
    (height : Nat) :
    ∃ more higher, above ∉ more ∧
      walk false (names ++ List.replicate height above)
          segments =
        more ++ List.replicate higher above ∧
      ∀ place : List Text, above ∉ place →
        walk true (names ++ place.drop height) segments =
          more ++ place.drop higher := by
  induction segments generalizing names height with
  | nil =>
      exact ⟨names, height, h, by simp [walk],
        fun place _ => by simp [walk]⟩
  | cons segment rest ih =>
      by_cases hAbove : segment = above
      · cases names with
        | nil =>
            rcases ih h (height + 1) with
              ⟨more, higher, hMore, hUnknown, hKnown⟩
            refine ⟨more, higher, hMore, ?_, ?_⟩
            · rw [← hUnknown]
              cases height with
              | zero => simp [walk, hAbove]
              | succ height =>
                  simp [walk, hAbove, List.replicate_succ]
            · intro place hPlace
              rw [← hKnown place hPlace]
              cases hLeft : place.drop height with
              | nil =>
                  have hNone : place.drop (height + 1) = [] := by
                    rw [← List.drop_drop, hLeft]
                    rfl
                  simp [walk, hAbove, hNone]
              | cons last others =>
                  have hLast : last ≠ above := by
                    intro hSame
                    apply hPlace
                    apply List.mem_of_mem_drop
                    rw [hLeft, hSame]
                    exact List.mem_cons_self
                  have hOthers :
                      place.drop (height + 1) = others := by
                    rw [← List.drop_drop, hLeft]
                    rfl
                  simp [walk, hAbove, hLast, hOthers]
        | cons name names =>
            simp only [List.mem_cons, not_or] at h
            rcases ih h.2 height with
              ⟨more, higher, hMore, hUnknown, hKnown⟩
            refine ⟨more, higher, hMore, ?_, ?_⟩
            · rw [← hUnknown]
              simp [walk, hAbove, Ne.symm h.1]
            · intro place hPlace
              rw [← hKnown place hPlace]
              simp [walk, hAbove, Ne.symm h.1]
      · have hNames : above ∉ segment :: names := by
          simp [h, Ne.symm hAbove]
        rcases ih hNames height with
          ⟨more, higher, hMore, hUnknown, hKnown⟩
        refine ⟨more, higher, hMore, ?_, ?_⟩
        · rw [← hUnknown]
          simp [walk, hAbove]
        · intro place hPlace
          rw [← hKnown place hPlace]
          simp [walk, hAbove]

/- Where a walk leads, by its climb and its descent. -/
theorem walk_eq
    (segments : List Text) :
    above ∉ descent segments ∧
      walk false [] segments =
        (descent segments).reverse ++
          List.replicate (climb segments) above ∧
      ∀ place, above ∉ place →
        walk true place segments =
          (descent segments).reverse ++
            place.drop (climb segments) := by
  rcases walk_unknown segments List.not_mem_nil 0 with
    ⟨more, higher, hMore, hUnknown, hKnown⟩
  rw [List.nil_append, List.replicate_zero] at hUnknown
  have hClimb : climb segments = higher := by
    simp [climb, hUnknown, List.count_eq_zero.mpr hMore]
  have hFilter : more.filter (· ≠ above) = more := by
    refine List.filter_eq_self.mpr fun name hName => ?_
    simp only [ne_eq, decide_eq_true_eq]
    exact fun hSame => hMore (hSame ▸ hName)
  have hDescent : descent segments = more.reverse := by
    rw [descent, hUnknown, List.filter_append, hFilter]
    simp
  rw [hClimb, hDescent, List.reverse_reverse]
  refine ⟨by simpa using hMore, hUnknown, ?_⟩
  intro place hPlace
  simpa using hKnown place hPlace

/- One more name is one more name to go down. -/
theorem course_append_name
    (segments : List Text)
    {name : Text}
    (h : name ≠ above) :
    climb (segments ++ [name]) = climb segments ∧
      descent (segments ++ [name]) =
        descent segments ++ [name] := by
  have hWalk : walk false [] (segments ++ [name]) =
      name :: walk false [] segments := by
    rw [walk_append]
    simp [walk, h]
  constructor
  · rw [climb, hWalk, List.count_cons_of_ne h]
    rfl
  · rw [descent, hWalk, List.filter_cons_of_pos (by simpa)]
    simp [descent]

/- One more step up takes back a name, if there is one. -/
theorem course_append_above
    (segments : List Text) :
    descent (segments ++ [above]) =
        (descent segments).dropLast ∧
      (descent segments ≠ [] →
        climb (segments ++ [above]) = climb segments) := by
  rcases walk_eq segments with ⟨hNames, hWalk, _⟩
  have hLonger : walk false [] (segments ++ [above]) =
      walk false (walk false [] segments) [above] :=
    walk_append _ _ _ _
  rw [hWalk] at hLonger
  rcases List.eq_nil_or_concat' (descent segments) with
    hNone | ⟨front, last, hLast⟩
  · refine ⟨?_, fun hSome => absurd hNone hSome⟩
    have hAll : walk false [] (segments ++ [above]) =
        List.replicate (climb segments + 1) above := by
      rw [hLonger, hNone]
      cases climb segments with
      | zero => rfl
      | succ height => simp [walk, List.replicate_succ]
    rw [descent, hAll, hNone]
    simp
  · rw [hLast] at hNames hLonger ⊢
    simp only [List.mem_append, List.mem_singleton,
      not_or] at hNames
    have hBack : walk false [] (segments ++ [above]) =
        front.reverse ++
          List.replicate (climb segments) above := by
      rw [hLonger]
      simp [walk, Ne.symm hNames.2]
    have hFilter : front.reverse.filter (· ≠ above) =
        front.reverse := by
      refine List.filter_eq_self.mpr fun name hName => ?_
      simp only [ne_eq, decide_eq_true_eq]
      intro hSame
      rw [hSame] at hName
      exact hNames.1 (List.mem_reverse.mp hName)
    constructor
    · rw [descent, hBack, List.filter_append, hFilter]
      simp
    · intro _
      have hCount : front.reverse.count above = 0 := by
        rw [List.count_eq_zero, List.mem_reverse]
        exact hNames.1
      rw [climb, hBack, List.count_append, hCount]
      simp

/- What is not a name leads no further down. -/
theorem course_of_not_isName
    {segments way : List Text}
    {last : Text}
    (hLast : '/' ∉ last)
    (h : ¬ IsName last)
    (hWay : way = segments ++
      if last = [] ∨ last = here then [] else [last]) :
    descent way <+: descent segments ∧
      (descent way ≠ [] → climb way = climb segments) := by
  by_cases hSkipped : last = [] ∨ last = here
  · rw [if_pos hSkipped, List.append_nil] at hWay
    rw [hWay]
    exact ⟨List.prefix_rfl, fun _ => rfl⟩
  · have hAbove : last = above := by
      by_contra hOther
      rw [not_or] at hSkipped
      exact h ⟨hSkipped.1, hSkipped.2, hOther, hLast⟩
    rw [if_neg hSkipped, hAbove] at hWay
    rcases course_append_above segments with
      ⟨hDescent, hClimb⟩
    rw [hWay, hDescent]
    refine ⟨List.dropLast_prefix _, fun hSome => hClimb ?_⟩
    intro hNone
    exact hSome (by rw [hNone, List.dropLast_nil])

/- Where a text leads that is meant somewhere below a root. -/
theorem resolve_eq
    {directory : Path}
    {root inside : List Text}
    {text : Text}
    (hDirectory : directory.IsCanonical)
    (hSegments : directory.segments = root ++ inside)
    (hText : (ofText text).isAbsolute = false) :
    resolve directory text =
      { directory with
        segments :=
          root.rdrop
              (climb (inside ++ (ofText text).segments)) ++
            descent (inside ++ (ofText text).segments) } := by
  have hRoot : above ∉ root := by
    intro hMem
    have hName := hDirectory.names above
      (by rw [hSegments]; exact List.mem_append_left _ hMem)
    exact hName.notAbove rfl
  have hWalk : walk true [] (root ++
        (inside ++ (ofText text).segments)) =
      (descent (inside ++ (ofText text).segments)).reverse ++
        root.reverse.drop
          (climb (inside ++ (ofText text).segments)) := by
    rw [walk_append, walk_names true [] hRoot,
      List.append_nil]
    exact (walk_eq _).2.2 _ (by simpa using hRoot)
  have hAbsolute (segments : List Text) :
      isAbsolute ⟨directory.slashes, segments⟩ = true :=
    decide_eq_true hDirectory.absolute
  unfold resolve join normal
  simp only [hText, Bool.false_eq_true, if_false, hSegments,
    List.append_assoc]
  rw [hAbsolute, hWalk,
    List.reverse_append, List.reverse_reverse,
    ← List.rdrop_eq_reverse_drop_reverse]

-- Specifiers

/- A text is relative if it does not start with a slash. -/
theorem leading_eq_zero_iff
    {text : Text} :
    leading text = 0 ↔ text.head? ≠ some '/' := by
  unfold leading
  split
  · simp
  · simp
  · simp
  · next hNone =>
      cases text with
      | nil => simp
      | cons c rest =>
          have hSlash : c ≠ '/' := by
            intro hSame
            exact hNone rest (by rw [hSame])
          simp [hSlash]

/- The end of a text may change, and the front is kept. -/
theorem ofText_joined_concat
    {front : List Text}
    {last : Text}
    (hFront : ∀ segment ∈ front, '/' ∉ segment)
    (hLast : '/' ∉ last) :
    (ofText (Text.joined ['/'] (front ++ [last]))).segments =
      front.filter (fun segment =>
          segment ≠ [] ∧ segment ≠ here) ++
        if last = [] ∨ last = here then [] else [last] := by
  have hPieces : Text.pieces '/'
      (Text.joined ['/'] (front ++ [last])) =
        front ++ [last] := by
    apply Text.pieces_joined (by simp)
    intro segment hMem
    rcases List.mem_append.mp hMem with hOld | hNew
    · exact hFront segment hOld
    · rw [List.mem_singleton.mp hNew]
      exact hLast
  rw [ofText, hPieces, List.filter_append]
  by_cases hSkipped : last = [] ∨ last = here
  · rw [if_pos hSkipped, List.filter_cons_of_neg]
    · rfl
    · simp only [decide_eq_true_eq]
      tauto
  · rw [if_neg hSkipped, List.filter_cons_of_pos]
    · rfl
    · simp only [decide_eq_true_eq]
      tauto

theorem head?_joined_concat
    {front : List Text}
    {last other : Text}
    (hOther : '/' ∉ other)
    (h : (Text.joined ['/'] (front ++ [last])).head? ≠
      some '/') :
    (Text.joined ['/'] (front ++ [other])).head? ≠
      some '/' := by
  cases front with
  | nil =>
      rw [List.nil_append, Text.joined_singleton]
      intro hHead
      exact hOther (List.mem_of_mem_head? hHead)
  | cons first more =>
      rw [List.cons_append, Text.joined_cons] at h ⊢
      cases first with
      | cons c rest => simpa using h
      | nil =>
          cases more <;> simp at h

/- A step to where one is makes no difference. -/
theorem ofText_here
    (text : Text) :
    ofText ("./".toList ++ text) =
      ⟨0, (ofText text).segments⟩ := by
  have hHere : '/' ∉ here := by decide
  have hPieces : Text.pieces '/' ("./".toList ++ text) =
      here :: Text.pieces '/' text :=
    Text.pieces_append_cons hHere text
  have hLeading : leading ("./".toList ++ text) = 0 :=
    leading_eq_zero_iff.mpr (by simp)
  rw [ofText, hPieces, hLeading,
    List.filter_cons_of_neg (by simp)]
  rfl

/- Every text is a last part behind a front. -/
theorem exists_joined_concat
    (text : Text) :
    ∃ front last,
      text = Text.joined ['/'] (front ++ [last]) ∧
        (∀ segment ∈ front, '/' ∉ segment) ∧
        '/' ∉ last := by
  rcases List.eq_nil_or_concat' (Text.pieces '/' text) with
    hNone | ⟨front, last, hPieces⟩
  · rcases Text.exists_pieces '/' text with
      ⟨first, more, hSome⟩
    rw [hSome] at hNone
    cases hNone
  · have hUnslashed : ∀ segment ∈ front ++ [last],
        '/' ∉ segment := by
      rw [← hPieces]
      exact fun segment => Text.not_mem_of_mem_pieces
    refine ⟨front, last, ?_, ?_, ?_⟩
    · rw [← hPieces, Text.joined_pieces]
    · exact fun segment hMem =>
        hUnslashed segment (by simp [hMem])
    · exact hUnslashed last (by simp)

theorem not_mem_afterLast
    (text : Text) :
    '/' ∉ Text.afterLast '/' text := by
  rcases exists_joined_concat text with
    ⟨front, last, hText, _, hLast⟩
  rw [hText, Text.afterLast_joined hLast]
  exact hLast

/- An import is relative, and keeps the front of a path. -/
theorem ofText_importSpecifier
    {include_ : Text}
    (h : (ofText include_).isAbsolute = false) :
    ∃ front,
      (ofText include_).segments =
          front ++
            (if Text.afterLast '/' include_ = [] ∨
                Text.afterLast '/' include_ = here then []
              else [Text.afterLast '/' include_]) ∧
        ofText (importSpecifier include_) =
          ⟨0, front ++
            [moduleName (Text.afterLast '/' include_)]⟩ := by
  have hRelative : leading include_ = 0 := by
    simpa [isAbsolute, ofText] using h
  rcases exists_joined_concat include_ with
    ⟨front, last, hInclude, hFront, hLast⟩
  have hAfter : Text.afterLast '/' include_ = last := by
    rw [hInclude, Text.afterLast_joined hLast]
  have hName := isName_moduleName_of_unslashed hLast
  have hReplaced : replaceExtension include_ =
      Text.joined ['/'] (front ++ [moduleName last]) := by
    unfold replaceExtension
    rw [hAfter, hInclude, List.append_assoc]
    exact Text.throughLast_joined hLast _ _
  have hSegments := ofText_joined_concat hFront
    hName.unslashed
  rw [if_neg (not_or.mpr ⟨hName.nonempty, hName.notHere⟩),
    ← hReplaced] at hSegments
  have hLeading : leading (replaceExtension include_) = 0 := by
    rw [hInclude, leading_eq_zero_iff] at hRelative
    rw [leading_eq_zero_iff, hReplaced]
    exact head?_joined_concat hName.unslashed hRelative
  rw [hAfter]
  refine ⟨front.filter (fun segment =>
    segment ≠ [] ∧ segment ≠ here), ?_, ?_⟩
  · rw [hInclude]
    exact ofText_joined_concat hFront hLast
  · rw [← hSegments]
    unfold importSpecifier
    dsimp only
    split
    · rw [← hLeading]
      rfl
    · exact ofText_here _

end Path

end ThriftTypings
