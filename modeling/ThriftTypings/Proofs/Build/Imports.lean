import ThriftTypings.Proofs.Build.Needed
import ThriftTypings.Proofs.Path.Course

/-
  This file proves when the import of a module points at the
  module that it stands for.

  An include is meant in the directory of its source, and
  the import that is written for it is meant in the
  directory of its module. From there both go the same way,
  but below different roots.

  Key definitions include:
    * `Path.LiesIn`

  Key theorems include:
    * `Path.exists_liesIn`
    * `Roots.import_points_at_the_module`
-/

namespace ThriftTypings

-- Imports and Modules

namespace Path

/-
  A file lies below a root, in directories and under a name,
  and this is its relative path.
-/
structure LiesIn
    (root file : Path)
    (relative : Text)
    (directories : List Text)
    (name : Text) : Prop where
  named : ∀ segment ∈ directories ++ [name], IsName segment
  segments :
    file.segments = root.segments ++ (directories ++ [name])
  relative :
    relative = Text.joined ['/'] (directories ++ [name])

theorem exists_liesIn
    {root file : Path}
    {relative : Text}
    (hFile : file.IsCanonical)
    (h : relativeTo root file = .ok relative) :
    ∃ directories name,
      LiesIn root file relative directories name := by
  unfold relativeTo at h
  cases hBelow : below? root file with
  | none => simp [hBelow] at h
  | some below =>
      simp only [hBelow, Except.ok.injEq] at h
      rcases below?_eq_some_iff.mp hBelow with
        ⟨hNonempty, hSegments⟩
      rcases List.eq_nil_or_concat' below with
        hNone | ⟨directories, name, hLast⟩
      · exact absurd hNone hNonempty
      · rw [hLast] at hSegments h
        refine ⟨directories, name, ?_, hSegments, h.symm⟩
        intro segment hMem
        apply hFile.names
        rw [hSegments]
        exact List.mem_append_right _ hMem

namespace LiesIn

variable {root file : Path} {relative : Text}
variable {directories : List Text} {name : Text}

theorem parent_segments
    (h : LiesIn root file relative directories name) :
    file.parent.segments = root.segments ++ directories := by
  rw [Path.parent, h.segments, ← List.append_assoc,
    List.dropLast_concat]

theorem directory_relative
    (h : LiesIn root file relative directories name) :
    (ofText relative).parent.segments = directories := by
  rw [h.relative, ofText_joined (by simp) h.named,
    Path.parent, List.dropLast_concat]

/- The module lies in the same directories. -/
theorem output_eq
    (h : LiesIn root file relative directories name)
    (output : Path) :
    output.output relative =
      { output with
        segments :=
          output.segments ++
            (directories ++ [moduleName name]) } := by
  rw [h.relative]
  apply output_joined
  · exact fun segment hMem => h.named segment (by simp [hMem])
  · exact h.named name (by simp)

theorem parent_output
    (h : LiesIn root file relative directories name)
    (output : Path) :
    (output.output relative).parent =
      { output with
        segments := output.segments ++ directories } := by
  rw [h.output_eq, Path.parent, ← List.append_assoc,
    List.dropLast_concat]

theorem isCanonical_parent_output
    (h : LiesIn root file relative directories name)
    {output : Path}
    (hOutput : output.IsCanonical) :
    (output.output relative).parent.IsCanonical := by
  rw [h.parent_output]
  refine ⟨hOutput.absolute, ?_⟩
  intro segment hMem
  rcases List.mem_append.mp hMem with hRoot | hInside
  · exact hOutput.names segment hRoot
  · exact h.named segment (by simp [hInside])

/- An include is meant in the directory of its source. -/
theorem segments_included
    (h : LiesIn root file relative directories name)
    (hFile : file.IsCanonical)
    {include_ : Text}
    (hInclude : (ofText include_).isAbsolute = false) :
    let way := directories ++ (ofText include_).segments
    (file.included include_).segments =
      root.segments.rdrop (climb way) ++ descent way := by
  intro way
  rw [included, resolve_eq hFile.parent h.parent_segments
    hInclude]

/-
  An import is meant in the directory of its module, and it
  ends with the name of a module.
-/
theorem resolve_importSpecifier
    (h : LiesIn root file relative directories name)
    {output : Path}
    (hOutput : output.IsCanonical)
    {include_ : Text}
    {front : List Text}
    (hSpecifier : ofText (importSpecifier include_) =
      ⟨0, front ++
        [moduleName (Text.afterLast '/' include_)]⟩) :
    let way := directories ++ front
    resolve (output.output relative).parent
        (importSpecifier include_) =
      { output with
        segments :=
          output.segments.rdrop (climb way) ++
            (descent way ++
              [moduleName
                (Text.afterLast '/' include_)]) } := by
  intro way
  have hName := isName_moduleName_of_unslashed
    (not_mem_afterLast include_)
  have hCourse := course_append_name way hName.notAbove
  have hRelative :
      (ofText (importSpecifier include_)).isAbsolute =
        false := by
    rw [hSpecifier]
    rfl
  have hResolved := resolve_eq
    (h.isCanonical_parent_output hOutput)
    (congrArg Path.segments (h.parent_output output))
    hRelative
  rw [hSpecifier, ← List.append_assoc, hCourse.1,
    hCourse.2] at hResolved
  rw [hResolved, h.parent_output]

end LiesIn

end Path

section Segments

variable {root names below : List Text} {count : Nat}

/- The end of a root takes up what was left of it. -/
theorem rdrop_append_eq_iff :
    root.rdrop count ++ names = root ++ below ↔
      names = root.rtake count ++ below := by
  have hRoot : root.rdrop count ++ root.rtake count = root :=
    List.take_append_drop _ _
  constructor
  · intro h
    apply List.append_cancel_left
    rw [h, ← List.append_assoc, hRoot]
  · intro h
    rw [h, ← List.append_assoc, hRoot]

/-
  Names lead from a root down to a last one. With another
  last one, they lead from another root to the same place
  below it just if the two roots end in the same segments.
-/
theorem same_place_iff
    {other : List Text}
    {first last next : Text}
    (h : root.rdrop count ++ (names ++ [first]) =
      root ++ (below ++ [last])) :
    first = last ∧
      (other.rdrop count ++ (names ++ [next]) =
          other ++ (below ++ [next]) ↔
        root.rtake count = other.rtake count) := by
  rw [rdrop_append_eq_iff, ← List.append_assoc] at h
  have hSplit := List.append_inj' h rfl
  refine ⟨by simpa using hSplit.2, ?_⟩
  rw [rdrop_append_eq_iff, hSplit.1, ← List.append_assoc,
    List.append_left_inj, List.append_left_inj]

theorem length_of_rdrop_append
    (h : root.rdrop count ++ names = root ++ below)
    (hCount : count ≤ root.length) :
    names.length = count + below.length := by
  have hLength := congrArg List.length h
  simp only [List.rdrop, List.length_append,
    List.length_take] at hLength
  omega

end Segments

namespace Roots

variable {roots : Roots} {file : Path}
variable {include_ relative target : Text}

/-
  Let a source below the source root include another one by
  a relative path. The import is meant in the directory of
  its module.

  If the last part of the path is a name, the import points
  at the module of the included source just if the two roots
  end in the same segments, as many as the include climbs
  above the source root. If it does not climb above it, they
  do. If the last part is not a name, the import points at
  something else, unless the include climbs above the root
  of all.
-/
theorem import_points_at_the_module
    (hOutput : roots.output.IsCanonical)
    (hFile : file.IsCanonical)
    (hRelative :
      Path.relativeTo roots.source file = .ok relative)
    (hInclude : (Path.ofText include_).isAbsolute = false)
    (hTarget :
      Path.relativeTo roots.source (file.included include_) =
        .ok target) :
    let climb := Path.climb
      ((Path.ofText relative).parent.segments ++
        (Path.ofText include_).segments)
    let meant := Path.resolve
      (roots.output.output relative).parent
      (Path.importSpecifier include_)
    (Path.IsName (Text.afterLast '/' include_) →
      (meant = roots.output.output target ↔
        roots.source.segments.rtake climb =
          roots.output.segments.rtake climb)) ∧
    (¬ Path.IsName (Text.afterLast '/' include_) →
      climb ≤ roots.source.segments.length →
        meant ≠ roots.output.output target) := by
  rcases Path.exists_liesIn hFile hRelative with
    ⟨inside, name, hLies⟩
  rcases Path.exists_liesIn (hFile.included include_) hTarget
    with ⟨below, last, hIncluded⟩
  rcases Path.ofText_importSpecifier hInclude with
    ⟨front, hFront, hSpecifier⟩
  intro climb meant
  simp only [climb, hLies.directory_relative]
  have hPlace := hLies.segments_included hFile hInclude
  rw [hIncluded.segments, eq_comm] at hPlace
  have hMeant :=
    hLies.resolve_importSpecifier hOutput hSpecifier
  have hWay := congrArg (inside ++ ·) hFront
  rw [← List.append_assoc] at hWay
  rw [show meant = _ from hMeant, hIncluded.output_eq]
  constructor
  · intro hEnd
    have hCourse := Path.course_append_name
      (inside ++ front) hEnd.notAbove
    rw [if_neg (not_or.mpr ⟨hEnd.nonempty, hEnd.notHere⟩)]
      at hWay
    rw [hWay, hCourse.1, hCourse.2] at hPlace
    rw [hWay, hCourse.1]
    rcases same_place_iff hPlace with ⟨hLast, hIff⟩
    rw [Path.mk.injEq, and_iff_right rfl, hLast]
    exact hIff
  · intro hEnd hCount hSame
    have hLength := length_of_rdrop_append hPlace hCount
    rcases Path.course_of_not_isName
      (Path.not_mem_afterLast include_) hEnd hWay with
      ⟨hShorter, hClimb⟩
    have hSome : Path.descent
        (inside ++ (Path.ofText include_).segments) ≠ [] := by
      intro hNone
      rw [hNone] at hLength
      simp at hLength
    rw [← hClimb hSome] at hSame
    have hTotal := congrArg
      (fun path => path.segments.length) hSame
    have hLe := hShorter.length_le
    simp only [List.rdrop, List.length_append,
      List.length_take, List.length_singleton]
      at hTotal hLength
    omega

end Roots

namespace Moved

/- Two roots with the same last segment, and a source. -/
def roots : Roots where
  source := ⟨1, [['p'], ['s']]⟩
  output := ⟨1, [['q'], ['s']]⟩

def file : Path where
  slashes := 1
  segments := [['p'], ['s'], ['d'], ['a']]

/- Up over the source root, and back. -/
def detour : Text := "../../s/b.c".toList

end Moved

/- An import that climbs out of both roots finds back. -/
theorem Roots.import_points_back :
    Path.climb
        ((Path.ofText "d/a".toList).parent.segments ++
          (Path.ofText Moved.detour).segments) = 1 ∧
      Path.resolve
          (Moved.roots.output.output "d/a".toList).parent
          (Path.importSpecifier Moved.detour) =
        Moved.roots.output.output "b.c".toList := by
  have hOutput : Moved.roots.output.IsCanonical := by decide
  have hFile : Moved.file.IsCanonical := by decide
  have hRelative :
      Path.relativeTo Moved.roots.source Moved.file =
        .ok "d/a".toList := rfl
  have hInclude :
      (Path.ofText Moved.detour).isAbsolute = false := rfl
  have hTarget :
      Path.relativeTo Moved.roots.source
          (Moved.file.included Moved.detour) =
        .ok "b.c".toList := rfl
  have hPoints := import_points_at_the_module hOutput hFile
    hRelative hInclude hTarget
  refine ⟨by decide, ?_⟩
  exact (hPoints.1 (by decide)).mpr (by decide)

namespace Apart

/- Two roots without a common segment, and a source. -/
def roots : Roots where
  source := ⟨1, [['s']]⟩
  output := ⟨1, [['g']]⟩

def file : Path where
  slashes := 1
  segments := [['s'], ['a']]

end Apart

/-
  A source includes another one by a path that climbs above
  the source root, or by one that ends in a slash. Both are
  found below it, but the imports point elsewhere.
-/
theorem Roots.import_points_elsewhere :
    (Path.relativeTo Apart.roots.source
          (Apart.file.included "../s/b".toList) =
        .ok ['b'] ∧
      Path.resolve (Apart.roots.output.output ['a']).parent
          (Path.importSpecifier "../s/b".toList) ≠
        Apart.roots.output.output ['b']) ∧
    Path.relativeTo Apart.roots.source
          (Apart.file.included "b/".toList) =
        .ok ['b'] ∧
      Path.resolve (Apart.roots.output.output ['a']).parent
          (Path.importSpecifier "b/".toList) ≠
        Apart.roots.output.output ['b'] :=
  ⟨⟨rfl, by decide⟩, rfl, by decide⟩

end ThriftTypings
