import ThriftTypings.Proofs.Path.Spelling

/-
  This file proves that the place of a file below a root is
  found just if there is one, and leads from the root to the
  file again.

  Whether a file lies below a root is told from the spelling
  of the way between the two: it must not be the directory
  itself and must not start with a step up. A name that only
  starts with two dots is no step up.

  Key definitions include:
    * `Path.IsNormalised`
    * `Path.IsBelow`

  Key theorems include:
    * `Path.relativeSource_resolve`
    * `Path.relativeSource_decides_containment`
-/

namespace ThriftTypings

namespace Path

-- The Way Between Two Paths

section Way

variable {start goal : Path}

theorem shared_append
    (front rest : List Text) :
    shared front (front ++ rest) = front.length := by
  induction front with
  | nil => rfl
  | cons first front ih => simp [shared, ih]

theorem shared_lt_length
    {first second : List Text}
    (h : ¬ first <+: second) :
    shared first second < first.length := by
  induction first generalizing second with
  | nil => exact absurd List.nil_prefix h
  | cons a first ih =>
      cases second with
      | nil => simp [shared]
      | cons b second =>
          by_cases hSame : a = b
          · rw [List.cons_prefix_cons, not_and] at h
            have hMore := ih (h hSame)
            simpa [shared, hSame] using hMore
          · simp [shared, hSame]

/- The way down to what lies below. -/
theorem way_of_append
    {below : List Text}
    (h : goal.segments = start.segments ++ below) :
    way start goal = ⟨0, below⟩ := by
  simp [way, h, shared_append]

/- The way to anything else starts with a step up. -/
theorem way_of_not_prefix
    (h : ¬ start.segments <+: goal.segments) :
    (way start goal).segments.head? = some above := by
  have hLess := shared_lt_length h
  cases hSteps : start.segments.length -
      shared start.segments goal.segments with
  | zero => omega
  | succ steps => simp [way, hSteps, List.replicate_succ]

theorem isPlain_way
    (start : Path)
    (h : goal.IsPlain) :
    (way start goal).IsPlain := by
  have hSegments : ∀ segment ∈ (way start goal).segments,
      segment = above ∨ segment ∈ goal.segments := by
    intro segment hMem
    rcases List.mem_append.mp hMem with hUp | hDown
    · exact .inl (List.eq_of_mem_replicate hUp)
    · exact .inr (List.mem_of_mem_drop hDown)
  refine ⟨Nat.zero_le 2, ?_, ?_, ?_⟩
  · intro segment hMem
    rcases hSegments segment hMem with rfl | hGoal
    · decide
    · exact h.nonempty segment hGoal
  · intro segment hMem
    rcases hSegments segment hMem with rfl | hGoal
    · decide
    · exact h.notHere segment hGoal
  · intro segment hMem
    rcases hSegments segment hMem with rfl | hGoal
    · decide
    · exact h.unslashed segment hGoal

/-
  By its spelling a way leads away just if it has no segment
  or starts with a step up.
-/
theorem leadsAway_iff
    {relative : Path}
    (h : relative.IsPlain)
    (hSlashes : relative.slashes = 0) :
    leadsAway relative.text = true ↔
      ∀ segment ∈ relative.segments.head?,
        segment = above := by
  rcases relative with ⟨slashes, segments⟩
  dsimp only at hSlashes
  subst hSlashes
  have hAbove : ∀ part ∈ [above], '/' ∉ part := by decide
  cases segments with
  | nil => simp [leadsAway, text]
  | cons first more =>
      have hHere : Text.joined ['/'] (first :: more) ≠ here := by
        intro hSame
        have hPieces := Text.pieces_joined
          (List.cons_ne_nil first more) h.unslashed
        rw [hSame] at hPieces
        have hMem : here ∈ first :: more := by
          rw [← hPieces]
          decide
        exact h.notHere here hMem rfl
      have hOnly : Text.joined ['/'] (first :: more) = above ↔
          first :: more = [above] := by
        constructor
        · intro hSame
          apply Text.joined_injective (by simp) (by simp)
            h.unslashed hAbove
          rw [hSame, Text.joined_singleton]
        · intro hSame
          rw [hSame, Text.joined_singleton]
      have hFirst := Text.joined_prefix_iff
        (List.cons_ne_nil above []) hAbove h.unslashed
      rw [Text.joined_singleton] at hFirst
      rw [text_of_ne _ (by simp), List.replicate_zero,
        List.nil_append]
      simp only [leadsAway, Text.startsWith, Bool.or_eq_true,
        beq_iff_eq, List.isPrefixOf_iff_prefix, hHere, hOnly,
        hFirst, List.cons_prefix_cons, List.nil_prefix,
        false_or, List.head?_cons, Option.mem_def,
        Option.some.injEq, forall_eq', and_true]
      constructor
      · intro hEither
        rcases hEither with hSame | hStart
        · exact (List.cons.inj hSame).1
        · exact hStart.1.symm
      · intro hSame
        by_cases hMore : first :: more = [above]
        · exact .inl hMore
        · exact .inr ⟨hSame.symm, Ne.symm hMore⟩

end Way

-- Normalised Paths

/- Does the text spell an absolute path in normal form? -/
structure IsNormalised
    (text : Text) : Prop where
  absolute : (ofText text).isAbsolute = true
  fixed : (ofText text).normal.text = text

instance
    (text : Text) :
    Decidable (IsNormalised text) :=
  decidable_of_iff
    ((ofText text).isAbsolute = true ∧
      (ofText text).normal.text = text)
    ⟨fun h => ⟨h.1, h.2⟩, fun h => ⟨h.absolute, h.fixed⟩⟩

/- A canonical path has no steps up to carry out. -/
theorem IsCanonical.normal_eq
    {path : Path}
    (h : path.IsCanonical) :
    path.normal = path := by
  have hAbove : above ∉ path.segments := fun hMem =>
    (h.names above hMem).notAbove rfl
  rw [normal, walk_names _ _ hAbove, List.append_nil,
    List.reverse_reverse]

theorem IsCanonical.isNormalised
    {path : Path}
    (h : path.IsCanonical)
    (hSlashes : path.slashes ≤ 2) :
    IsNormalised path.text := by
  have hSame := (h.isPlain hSlashes).ofText_text
  constructor
  · rw [hSame]
    exact decide_eq_true h.absolute
  · rw [hSame, h.normal_eq]

/- An absolute path does not depend on the directory. -/
theorem resolve_of_absolute
    (directory : Path)
    {text : Text}
    (h : (ofText text).isAbsolute = true) :
    resolve directory text = (ofText text).normal := by
  rw [resolve, join, if_pos h]

namespace IsNormalised

variable {text : Text}

theorem normal_eq
    (h : IsNormalised text) :
    (ofText text).normal.IsCanonical ∧
      (ofText text).normal = ofText text := by
  have hTop : IsCanonical ⟨1, []⟩ := by decide
  have hCanonical := hTop.resolve text
  rw [resolve_of_absolute _ h.absolute] at hCanonical
  have hPlain := hCanonical.isPlain (leading_le_two text)
  have hSame := hPlain.ofText_text
  rw [h.fixed] at hSame
  exact ⟨hCanonical, hSame.symm⟩

theorem isCanonical
    (h : IsNormalised text) :
    (ofText text).IsCanonical :=
  h.normal_eq.2 ▸ h.normal_eq.1

theorem resolve_eq
    (h : IsNormalised text)
    (directory : Path) :
    resolve directory text = ofText text := by
  rw [resolve_of_absolute _ h.absolute, h.normal_eq.2]

theorem text_ofText
    (h : IsNormalised text) :
    (ofText text).text = text := by
  rw [← h.normal_eq.2, h.fixed]

theorem ne_nil
    (h : IsNormalised text) :
    text ≠ [] := by
  intro hNil
  have hAbsolute := h.absolute
  rw [hNil] at hAbsolute
  exact absurd hAbsolute (by decide)

end IsNormalised

-- Places Below the Root

section Relative

variable {root file relative : Text}

theorem relativeTo_eq_ok_iff
    {root file : Path} :
    relativeTo root file = .ok relative ↔
      ∃ below, below ≠ [] ∧
        file.segments = root.segments ++ below ∧
          Text.joined ['/'] below = relative := by
  unfold relativeTo
  cases hBelow : below? root file with
  | none =>
      constructor
      · intro hOk
        cases hOk
      · rintro ⟨below, hNonempty, hSegments, _⟩
        have hSome :=
          below?_eq_some_iff.mpr ⟨hNonempty, hSegments⟩
        rw [hBelow] at hSome
        cases hSome
  | some found =>
      rcases below?_eq_some_iff.mp hBelow with
        ⟨hNonempty, hSegments⟩
      constructor
      · intro hOk
        exact ⟨found, hNonempty, hSegments,
          Except.ok.inj hOk⟩
      · rintro ⟨below, _, hOther, hRelative⟩
        rw [hSegments] at hOther
        rw [List.append_cancel_left hOther]
        exact congrArg Except.ok hRelative

theorem relativeTo_of_not_below
    {root file : Path}
    (h : ∀ below, below ≠ [] →
      file.segments ≠ root.segments ++ below) :
    relativeTo root file =
      .error (.outside file.text root.text) := by
  unfold relativeTo
  cases hBelow : below? root file with
  | none => rfl
  | some found =>
      rcases below?_eq_some_iff.mp hBelow with
        ⟨hNonempty, hSegments⟩
      exact absurd hSegments (h found hNonempty)

theorem dropWhile_slash
    {text : Text}
    (h : text.head? ≠ some '/') :
    text.dropWhile (· == '/') = text := by
  cases text with
  | nil => rfl
  | cons c rest =>
      apply List.dropWhile_cons_of_neg
      intro hSlash
      apply h
      rw [beq_iff_eq.mp hSlash, List.head?_cons]

theorem relativeSource_eq
    (directory : Path)
    (hRoot : IsNormalised root)
    (hFile : IsNormalised file) :
    relativeSource directory root file =
      if leadsAway (way (ofText root) (ofText file)).text then
        .error (.outside file root)
      else
        .ok ((way (ofText root) (ofText file)).text.dropWhile
          (· == '/')) := by
  have hNonempty : ¬ file.isEmpty = true := by
    simpa using hFile.ne_nil
  unfold relativeSource
  rw [if_neg hNonempty, hRoot.resolve_eq, hFile.resolve_eq]

/-
  The spelling of the way between normalised paths decides
  as their segments do.
-/
theorem relativeSource_eq_relativeTo
    (directory : Path)
    (hRoot : IsNormalised root)
    (hFile : IsNormalised file) :
    relativeSource directory root file =
      relativeTo (ofText root) (ofText file) := by
  have hPlain :=
    isPlain_way (ofText root) (isPlain_ofText file)
  have hLeads := leadsAway_iff hPlain rfl
  have hOutside (hNot : ∀ below, below ≠ [] →
      (ofText file).segments ≠
        (ofText root).segments ++ below) :
      relativeTo (ofText root) (ofText file) =
        .error (.outside file root) := by
    rw [relativeTo_of_not_below hNot, hRoot.text_ofText,
      hFile.text_ofText]
  rw [relativeSource_eq directory hRoot hFile]
  by_cases hPrefix :
      (ofText root).segments <+: (ofText file).segments
  · rcases hPrefix with ⟨below, hBelow⟩
    rw [way_of_append hBelow.symm] at hPlain hLeads ⊢
    cases below with
    | nil =>
        rw [if_pos (hLeads.mpr (by simp))]
        refine (hOutside fun below hSome hSame => ?_).symm
        rw [← hBelow] at hSame
        exact hSome (List.append_cancel_left hSame).symm
    | cons name more =>
        have hName := hFile.isCanonical.names name
          (by simp [← hBelow])
        have hInside : ¬ leadsAway
            (text ⟨0, name :: more⟩) = true := by
          intro hAway
          exact hName.notAbove (hLeads.mp hAway name rfl)
        rw [if_neg hInside, text_of_ne _ (by simp),
          List.replicate_zero, List.nil_append,
          dropWhile_slash hPlain.head?_joined]
        exact (relativeTo_eq_ok_iff.mpr
          ⟨_, by simp, hBelow.symm, rfl⟩).symm
  · have hUp := way_of_not_prefix hPrefix
    have hAway := hLeads.mpr fun segment hHead =>
      (Option.some.inj (hUp.symm.trans hHead)).symm
    rw [if_pos hAway]
    refine (hOutside fun below _ hSame => ?_).symm
    exact hPrefix ⟨below, hSame.symm⟩

-- Back From the Root

/- The segments of a relative path, once it is normal. -/
theorem normal_of_relative
    (h : (ofText relative).isAbsolute = false) :
    (ofText relative).normal =
      ⟨0, List.replicate (climb (ofText relative).segments)
          above ++ descent (ofText relative).segments⟩ := by
  have hSlashes : (ofText relative).slashes = 0 := by
    simpa [isAbsolute] using h
  rw [normal, h, (walk_eq _).2.1, hSlashes]
  simp

/- A path that does not climb leads down from the root. -/
theorem segments_resolve_of_descent
    {directory : Path}
    (hDirectory : directory.IsCanonical)
    (hRelative : (ofText relative).isAbsolute = false)
    (hClimb : climb (ofText relative).segments = 0) :
    resolve directory relative =
      { directory with
        segments := directory.segments ++
          descent (ofText relative).segments } := by
  have hSame := resolve_eq hDirectory
    (List.append_nil directory.segments).symm hRelative
  rw [List.nil_append, hClimb, List.rdrop_zero] at hSame
  exact hSame

theorem IsCanonical.names_of_append
    {file : Path}
    {front below : List Text}
    (h : file.IsCanonical)
    (hSegments : file.segments = front ++ below) :
    ∀ segment ∈ below, IsName segment := by
  intro segment hMem
  apply h.names
  rw [hSegments]
  exact List.mem_append_right _ hMem

/- The place of a file below a root leads to it again. -/
theorem segments_resolve_joined
    {directory file : Path}
    {below : List Text}
    (hDirectory : directory.IsCanonical)
    (hFile : file.IsCanonical)
    (hBelow : below ≠ [])
    (hSegments : file.segments = directory.segments ++ below) :
    (resolve directory (Text.joined ['/'] below)).segments =
      file.segments := by
  have hNames := hFile.names_of_append hSegments
  have hMeant : IsCanonical
      { directory with
        segments := directory.segments ++ below } :=
    ⟨hDirectory.absolute, hSegments ▸ hFile.names⟩
  have hJoin : directory.join ⟨0, below⟩ =
      { directory with
        segments := directory.segments ++ below } :=
    if_neg Bool.false_ne_true
  rw [resolve, ofText_joined hBelow hNames, hJoin,
    hMeant.normal_eq, hSegments]

/-
  A relative path that is neither the directory itself nor
  starts with a step up is the place, in normal form, of what
  it leads to.
-/
theorem relativeSource_resolve
    (directory : Path)
    (hRoot : IsNormalised root)
    (hRelative : (ofText relative).isAbsolute = false)
    (hHere : (ofText relative).normal.text ≠ here)
    (hAbove : (ofText relative).normal.segments.head? ≠
      some above) :
    relativeSource directory root
        (resolve (ofText root) relative).text =
      .ok (ofText relative).normal.text := by
  have hNormal := normal_of_relative hRelative
  have hClimb : climb (ofText relative).segments = 0 := by
    by_contra hSome
    rcases Nat.exists_eq_succ_of_ne_zero hSome with
      ⟨steps, hSteps⟩
    apply hAbove
    rw [hNormal, hSteps]
    rfl
  rw [hClimb, List.replicate_zero, List.nil_append] at hNormal
  have hBelow : descent (ofText relative).segments ≠ [] := by
    intro hNone
    apply hHere
    rw [hNormal, hNone]
    rfl
  have hMeant := segments_resolve_of_descent
    hRoot.isCanonical hRelative hClimb
  have hCanonical := hRoot.isCanonical.resolve relative
  have hSlashes :
      (resolve (ofText root) relative).slashes ≤ 2 := by
    rw [hMeant]
    exact leading_le_two root
  rw [relativeSource_eq_relativeTo directory hRoot
      (hCanonical.isNormalised hSlashes),
    (hCanonical.isPlain hSlashes).ofText_text, hNormal,
    text_of_ne _ (fun hNone => hBelow hNone.2)]
  apply relativeTo_eq_ok_iff.mpr
  exact ⟨_, hBelow, by rw [hMeant], rfl⟩

/- Does the file lie strictly below the root? -/
def IsBelow
    (root file : Path) : Prop :=
  root.segments <+: file.segments ∧
    root.segments ≠ file.segments

theorem isBelow_iff
    {root file : Path} :
    root.IsBelow file ↔
      ∃ below, below ≠ [] ∧
        file.segments = root.segments ++ below := by
  constructor
  · intro h
    rcases h with ⟨⟨below, hBelow⟩, hOther⟩
    refine ⟨below, fun hNone => hOther ?_, hBelow.symm⟩
    rw [← hBelow, hNone, List.append_nil]
  · rintro ⟨below, hSome, hBelow⟩
    refine ⟨⟨below, hBelow.symm⟩, fun hSame => hSome ?_⟩
    rw [hSame] at hBelow
    exact List.self_eq_append_right.mp hBelow

/-
  Let the root and the file be normalised. The file has a
  place below the root just if it lies strictly below it,
  segment by segment, and else the fault names both. The
  place is relative, made of names only, and leads from the
  root to the file. Back from the root, every relative path
  that is neither the root itself nor starts with a step up
  has its normal form as the place of what it leads to.
-/
theorem relativeSource_decides_containment
    (directory : Path)
    (hRoot : IsNormalised root)
    (hFile : IsNormalised file) :
    ((∃ relative,
        relativeSource directory root file = .ok relative) ↔
      (ofText root).IsBelow (ofText file)) ∧
    (¬ (ofText root).IsBelow (ofText file) →
      relativeSource directory root file =
        .error (.outside file root)) ∧
    (∀ relative,
      relativeSource directory root file = .ok relative →
        (ofText relative).isAbsolute = false ∧
        (∀ segment ∈ Text.pieces '/' relative,
          IsName segment) ∧
        (resolve (ofText root) relative).segments =
          (ofText file).segments) ∧
    (∀ relative, (ofText relative).isAbsolute = false →
      (ofText relative).normal.text ≠ here →
      (ofText relative).normal.segments.head? ≠ some above →
        relativeSource directory root
            (resolve (ofText root) relative).text =
          .ok (ofText relative).normal.text) := by
  rw [relativeSource_eq_relativeTo directory hRoot hFile,
    isBelow_iff]
  refine ⟨?_, ?_, ?_, ?_⟩
  · simp only [relativeTo_eq_ok_iff]
    constructor
    · rintro ⟨_, below, hBelow, hSegments, _⟩
      exact ⟨below, hBelow, hSegments⟩
    · rintro ⟨below, hBelow, hSegments⟩
      exact ⟨_, below, hBelow, hSegments, rfl⟩
  · intro hNot
    rw [relativeTo_of_not_below fun below hBelow hSegments =>
        hNot ⟨below, hBelow, hSegments⟩,
      hRoot.text_ofText, hFile.text_ofText]
  · intro relative hOk
    rcases relativeTo_eq_ok_iff.mp hOk with
      ⟨below, hBelow, hSegments, rfl⟩
    have hNames :=
      hFile.isCanonical.names_of_append hSegments
    refine ⟨?_, ?_, ?_⟩
    · rw [ofText_joined hBelow hNames]
      rfl
    · rw [Text.pieces_joined hBelow fun segment hMem =>
        (hNames segment hMem).unslashed]
      exact hNames
    · exact segments_resolve_joined hRoot.isCanonical
        hFile.isCanonical hBelow hSegments
  · intro relative hRelative hHere hAbove
    exact relativeSource_resolve directory hRoot hRelative
      hHere hAbove

/- Two dots in front of a name are part of the name. -/
theorem relativeSource_of_dotted_name :
    let root := "/src".toList
    let file := "/src/..x/a.thrift".toList
    let relative := "b/../..x//./a.thrift".toList
    (∃ place, relativeSource ⟨1, []⟩ root file = .ok place) ∧
      relativeSource ⟨1, []⟩ root
          (resolve (ofText root) relative).text =
        .ok "..x/a.thrift".toList := by
  intro root file relative
  have hRoot : IsNormalised root := by decide
  have hFile : IsNormalised file := by decide
  have hBelow : (ofText root).IsBelow (ofText file) :=
    ⟨by decide, by decide⟩
  rcases relativeSource_decides_containment ⟨1, []⟩ hRoot
    hFile with ⟨hPlace, _, _, hBack⟩
  exact ⟨hPlace.mpr hBelow,
    hBack relative (by decide) (by decide) (by decide)⟩

end Relative

end Path

end ThriftTypings
