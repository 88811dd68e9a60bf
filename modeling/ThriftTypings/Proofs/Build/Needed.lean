import ThriftTypings.Proofs.Build.Turns
import ThriftTypings.Proofs.FileTree.Plain
import ThriftTypings.Proofs.Idl.Visiting

/-
  This file says which sources a build needs, when one of
  them compiles, and how the tree grows meanwhile.

  The needed sources are the inputs and, again and again,
  what they include. A source compiles if it lies below the
  source root, holds a document that a module can be made
  of, and that module can be written. The last depends on
  the other needed sources: where one of them has its
  module, there is no directory for another.

  Key definitions include:
    * `FileTree.document?`
    * `Needed`

  Key theorems include:
    * `Roots.Compiles.write`
    * `BuildRequest.isReady`
-/

namespace ThriftTypings

variable {place : Place}

-- Needed Sources

/- The document that a file of a tree holds, if any. -/
def FileTree.document?
    (tree : FileTree)
    (file : Path) : Option Idl.Document :=
  match tree.read file with
  | .error _ => none
  | .ok content =>
      match Utf8.decode content with
      | .error _ => none
      | .ok text =>
          match
            Idl.Document.read Idl.Order.usual
              (Text.uniformNewlines text)
          with
          | .error _ => none
          | .ok document => some document

/- The sources that a build of some files comes upon. -/
inductive Needed
    (tree : FileTree)
    (files : List Path) : Path → Prop where
  | input
      {file : Path}
      (listed : file ∈ files) :
      Needed tree files file
  | inclusion
      {file : Path}
      {document : Idl.Document}
      {found : Idl.IncludeDef}
      (needed : Needed tree files file)
      (holds : tree.document? file = some document)
      (includes :
        Idl.Definition.inclusion found ∈ document.body) :
      Needed tree files (file.included found.path)

/- What files include is found from where they are. -/
theorem Needed.isCanonical
    {tree : FileTree}
    {files : List Path}
    {file : Path}
    (hFiles : ∀ file ∈ files, file.IsCanonical)
    (h : Needed tree files file) :
    file.IsCanonical := by
  induction h with
  | input hMem => exact hFiles _ hMem
  | inclusion _ _ _ ih => exact ih.included _

-- Places Below the Roots

namespace Roots

variable {roots : Roots} {tree now : FileTree}
variable {files : List Path} {file : Path}

/- Does the file lie strictly below the source root? -/
def Holds
    (roots : Roots)
    (file : Path) : Prop :=
  ∃ below, below ≠ [] ∧
    file.segments = roots.source.segments ++ below

/- Where the module of a source goes. -/
def target
    (roots : Roots)
    (file : Path) : Path :=
  roots.output.output
    (Text.joined ['/']
      (file.segments.drop roots.source.segments.length))

/- Modules go below the output root, into canonical places. -/
theorem target_spec
    (hOutput : roots.output.IsCanonical)
    (hFile : file.IsCanonical)
    (hHolds : roots.Holds file) :
    (roots.target file).IsCanonical ∧
      (roots.target file).slashes = roots.output.slashes ∧
      ∃ directories name,
        (roots.target file).segments =
          roots.output.segments ++ directories ++ [name] := by
  rcases hHolds with ⟨below, hBelow, hSegments⟩
  have hDrop :
      file.segments.drop roots.source.segments.length =
        below := by
    simp [hSegments]
  have hNames : ∀ segment ∈ below, Path.IsName segment :=
    fun segment hMem =>
      hFile.names segment (by simp [hSegments, hMem])
  have hSplit := List.dropLast_concat_getLast hBelow
  have hLast := hNames _ (List.getLast_mem hBelow)
  have hDirectories :
      ∀ segment ∈ below.dropLast, Path.IsName segment :=
    fun segment hMem =>
      hNames segment (List.dropLast_subset _ hMem)
  have hTarget : roots.target file =
      { roots.output with
        segments :=
          roots.output.segments ++
            (below.dropLast ++
              [Path.moduleName (below.getLast hBelow)]) } := by
    unfold target
    rw [hDrop]
    conv_lhs => rw [← hSplit]
    exact Path.output_joined hDirectories hLast
  rw [hTarget]
  refine ⟨⟨hOutput.absolute, fun segment hMem => ?_⟩, rfl,
    ?_⟩
  · simp only [List.mem_append, List.mem_singleton] at hMem
    rcases hMem with hRoot | hWay | rfl
    · exact hOutput.names segment hRoot
    · exact hDirectories segment hWay
    · exact Path.isName_moduleName hLast
  · exact ⟨_, _, (List.append_assoc _ _ _).symm⟩

/- What preparing a source comes to when nothing fails. -/
theorem prepare_eq_ok_iff
    {prepared : Prepared} :
    roots.prepare tree file = .ok prepared ↔
      ∃ below document text,
        below ≠ [] ∧
          file.segments = roots.source.segments ++ below ∧
          tree.document? file = some document ∧
          TypeScript.generate document = .ok text ∧
          prepared =
            { relative := Text.joined ['/'] below
              target := roots.target file
              rendering := ⟨text, document.includes⟩ } := by
  constructor
  · intro h
    simp only [prepare, prepareWith, Path.relativeTo] at h
    cases hBelow : Path.below? roots.source file with
    | none => simp [hBelow] at h
    | some below =>
        rcases Path.below?_eq_some_iff.mp hBelow with
          ⟨hNonempty, hSegments⟩
        cases hRead : tree.read file with
        | error fault => simp [hBelow, hRead] at h
        | ok content =>
            simp only [hBelow, hRead, Rendering.ofContent,
              Rendering.ofText, Rendering.ofDocument,
              Idl.Document.parse] at h
            cases hDecode : Utf8.decode content with
            | error fault => simp [hDecode] at h
            | ok text =>
                simp only [hDecode] at h
                cases hParse :
                    Idl.Document.read Idl.Order.usual
                      (Text.uniformNewlines text) with
                | error failure => simp [hParse] at h
                | ok document =>
                    simp only [hParse] at h
                    cases hText :
                        TypeScript.generate document with
                    | error fault => simp [hText] at h
                    | ok written =>
                        simp only [hText,
                          Except.ok.injEq] at h
                        refine ⟨below, document, written,
                          hNonempty, hSegments, ?_, hText, ?_⟩
                        · simp [FileTree.document?, hRead,
                            hDecode, hParse]
                        · simp [← h, target, hSegments]
  · rintro ⟨below, document, written, hNonempty, hSegments,
      hDocument, hText, rfl⟩
    have hBelow := Path.below?_eq_some_iff.mpr
      ⟨hNonempty, hSegments⟩
    simp only [FileTree.document?] at hDocument
    split at hDocument
    · cases hDocument
    · next hRead =>
        split at hDocument
        · cases hDocument
        · next hDecode =>
            split at hDocument
            · cases hDocument
            · next hParse =>
                cases hDocument
                simp [prepare, prepareWith, Path.relativeTo,
                  hBelow, hRead, Rendering.ofContent,
                  hDecode, Rendering.ofText,
                  Idl.Document.parse, hParse,
                  Rendering.ofDocument, hText, target,
                  hSegments]

-- Compiling a Source

/-
  Does a needed source compile? It lies below the source
  root and holds a document with a module, and the place of
  that module may be asked for, has no file above it, and is
  neither above nor below the module of another one.
-/
structure Compiles
    (roots : Roots)
    (tree : FileTree)
    (files : List Path)
    (file : Path) : Prop where
  inside : roots.Holds file
  generates : ∃ document text,
    tree.document? file = some document ∧
      TypeScript.generate document = .ok text
  legal : (roots.target file).IsLegal
  free : ∀ way,
    way <+: (roots.target file).parent.segments →
      ¬ tree.IsFile way
  apart : ∀ other, Needed tree files other →
    roots.Holds other →
    ((roots.target other).segments <+:
        (roots.target file).segments ∨
      (roots.target file).segments <+:
        (roots.target other).segments) →
    (roots.target other).segments =
      (roots.target file).segments

/-
  What goes wrong with a source in a tree: it is not
  prepared, the directories for its module are not made, or
  the module is not written.
-/
inductive Fails
    (roots : Roots)
    (tree : FileTree)
    (file : Path) : BuildFault → Prop where
  | unprepared
      {fault : BuildFault}
      (prepare : roots.prepare tree file = .error fault) :
      Fails roots tree file fault
  | unmade
      {prepared : Prepared} {cause : FileFault}
      (prepare : roots.prepare tree file = .ok prepared)
      (makes :
        (tree.makeDirectories prepared.target.parent).1 =
          .error cause) :
      Fails roots tree file
        (writeFault prepared.relative cause)
  | unwritten
      {prepared : Prepared} {cause : FileFault}
      (prepare : roots.prepare tree file = .ok prepared)
      (writes :
        tree.write prepared.target
            (Utf8.encode prepared.rendering.text) =
          .error cause) :
      Fails roots tree file
        (writeFault prepared.relative cause)

theorem Compiles.prepare
    (h : roots.Compiles tree files file) :
    ∃ prepared, roots.prepare tree file = .ok prepared := by
  rcases h.inside with ⟨below, hBelow, hSegments⟩
  rcases h.generates with ⟨document, text, hDocument, hText⟩
  exact ⟨_, prepare_eq_ok_iff.mpr
    ⟨below, document, text, hBelow, hSegments, hDocument,
      hText, rfl⟩⟩

-- How the Tree Grows

/-
  Is everything as a build finds it once the old output is
  removed? No needed source is below the output root.
-/
structure IsReady
    (roots : Roots)
    (tree : FileTree)
    (files : List Path) : Prop where
  plain : tree.IsPlain
  output : roots.output.IsCanonical
  inputs : ∀ file ∈ files, file.IsCanonical
  cleared : roots.output.IsLegal →
    ∀ place, roots.output.segments <+: place →
      tree.get? place = none
  apart : ∀ file, Needed tree files file →
    ¬ roots.output.segments <+: file.segments

/-
  Does a tree have no more than a given one had, but for the
  modules of needed sources and the directories above them?
-/
structure Grown
    (roots : Roots)
    (tree : FileTree)
    (files : List Path)
    (now : FileTree) : Prop where
  plain : now.IsPlain
  kept : ∀ place entry, tree.get? place = some entry →
    ¬ roots.output.segments <+: place →
      now.get? place = some entry
  directories : ∀ place,
    now.get? place = some .directory →
      tree.get? place = some .directory ∨
        ∃ file, Needed tree files file ∧ roots.Holds file ∧
          place <+: (roots.target file).parent.segments
  contents : ∀ place content,
    now.get? place = some (.file content) →
      tree.get? place = some (.file content) ∨
        ∃ file, Needed tree files file ∧ roots.Holds file ∧
          place = (roots.target file).segments

/- Directories stay directories, and files stay files. -/
def Persists
    (now later : FileTree) : Prop :=
  ∀ place,
    (now.get? place = some .directory →
        later.get? place = some .directory) ∧
      (now.IsFile place → later.IsFile place)

theorem persists_refl
    (now : FileTree) :
    Persists now now :=
  fun _ => ⟨id, id⟩

section Ready

variable (hReady : roots.IsReady tree files)
include hReady

theorem IsReady.grown :
    roots.Grown tree files tree where
  plain := hReady.plain
  kept := fun _ _ h _ => h
  directories := fun _ h => .inl h
  contents := fun _ _ h => .inl h

theorem IsReady.target_spec
    (hNeeded : Needed tree files file)
    (hHolds : roots.Holds file) :
    (roots.target file).IsCanonical ∧
      (roots.target file).slashes = roots.output.slashes ∧
      ∃ directories name,
        (roots.target file).segments =
          roots.output.segments ++ directories ++ [name] :=
  Roots.target_spec hReady.output
    (hNeeded.isCanonical hReady.inputs) hHolds

theorem IsReady.output_above
    (hNeeded : Needed tree files file)
    (hHolds : roots.Holds file) :
    roots.output.segments <+:
      (roots.target file).segments := by
  rcases hReady.target_spec hNeeded hHolds with
    ⟨_, _, directories, name, hTarget⟩
  rw [hTarget, List.append_assoc]
  exact List.prefix_append _ _

/- A module is not above its directory. -/
theorem IsReady.not_above_parent
    (hNeeded : Needed tree files file)
    (hHolds : roots.Holds file) :
    ¬ (roots.target file).segments <+:
      (roots.target file).parent.segments := by
  rcases hReady.target_spec hNeeded hHolds with
    ⟨_, _, directories, name, hTarget⟩
  rw [Path.parent, hTarget, List.dropLast_concat]
  intro hAbove
  have hLength := hAbove.length_le
  simp only [List.length_append, List.length_singleton]
    at hLength
  omega

/- Nothing is where a module may go, at first. -/
theorem IsReady.absent
    (hNeeded : Needed tree files file)
    (hHolds : roots.Holds file)
    (hLegal : (roots.target file).IsLegal)
    (hPlace : roots.output.segments <+: place) :
    tree.get? place = none := by
  rcases hReady.target_spec hNeeded hHolds with
    ⟨hTarget, hSlashes, _⟩
  refine hReady.cleared ?_ place hPlace
  exact hLegal.of_prefix hTarget hSlashes.symm
    (hReady.output_above hNeeded hHolds)

variable (hGrown : roots.Grown tree files now)
include hGrown

/- Needed sources are read as they were at first. -/
theorem Grown.read_iff
    (hNeeded : Needed tree files file)
    (content : List UInt8) :
    now.read file = .ok content ↔
      tree.read file = .ok content := by
  have hFile := hNeeded.isCanonical hReady.inputs
  have hApart := hReady.apart file hNeeded
  rw [FileTree.read_eq_ok_iff hGrown.plain hFile,
    FileTree.read_eq_ok_iff hReady.plain hFile]
  refine and_congr_right fun _ => ⟨fun h => ?_, fun h => ?_⟩
  · rcases hGrown.contents _ _ h with
      hOld | ⟨other, hOther, hHolds, hSame⟩
    · exact hOld
    · refine absurd ?_ hApart
      rw [hSame]
      exact hReady.output_above hOther hHolds
  · exact hGrown.kept _ _ h hApart

theorem Grown.document?_eq
    (hNeeded : Needed tree files file) :
    now.document? file = tree.document? file := by
  have hRead := hGrown.read_iff hReady hNeeded
  unfold FileTree.document?
  cases hTree : tree.read file with
  | ok content => rw [(hRead content).mpr hTree]
  | error fault =>
      cases hNow : now.read file with
      | ok content =>
          rw [(hRead content).mp hNow] at hTree
          cases hTree
      | error other => rfl

/- Needed sources are prepared as they were at first. -/
theorem Grown.prepare_iff
    (hNeeded : Needed tree files file)
    {prepared : Prepared} :
    roots.prepare now file = .ok prepared ↔
      roots.prepare tree file = .ok prepared := by
  rw [prepare_eq_ok_iff, prepare_eq_ok_iff,
    hGrown.document?_eq hReady hNeeded]

/- The tree grows by the directories for a module. -/
theorem Grown.makeDirectories
    (hNeeded : Needed tree files file)
    (hHolds : roots.Holds file) :
    roots.Grown tree files
        (now.makeDirectories (roots.target file).parent).2 ∧
      Persists now
        (now.makeDirectories
          (roots.target file).parent).2 := by
  have hTarget := (hReady.target_spec hNeeded hHolds).1
  rcases FileTree.widens_makeDirectories hGrown.plain
      hTarget.parent with
    ⟨hPlain, hWidens, _⟩
  generalize
    (now.makeDirectories (roots.target file).parent).2 = after
    at hPlain hWidens ⊢
  have hStays (place : Place) (entry : Entry)
      (hEntry : now.get? place = some entry) :
      after.get? place = some entry := by
    rcases hWidens place with hSame | ⟨hNone, _, _⟩
    · rw [hSame, hEntry]
    · simp [hEntry] at hNone
  refine ⟨⟨hPlain, ?_, ?_, ?_⟩, ?_⟩
  · intro place entry hEntry hOutside
    exact hStays _ _ (hGrown.kept _ _ hEntry hOutside)
  · intro place hEntry
    rcases hWidens place with hSame | ⟨_, _, hWay⟩
    · exact hGrown.directories place (hSame ▸ hEntry)
    · exact .inr ⟨file, hNeeded, hHolds, hWay⟩
  · intro place content hEntry
    rcases hWidens place with hSame | ⟨_, hMade, _⟩
    · exact hGrown.contents place content (hSame ▸ hEntry)
    · simp [hMade] at hEntry
  · intro place
    refine ⟨hStays place _, ?_⟩
    rintro ⟨content, hContent⟩
    exact ⟨content, hStays place _ hContent⟩

/- The tree grows by a module. -/
theorem Grown.write
    (hNeeded : Needed tree files file)
    (hHolds : roots.Holds file)
    {content : List UInt8}
    {after : FileTree}
    (hWrite :
      now.write (roots.target file) content = .ok after) :
    roots.Grown tree files after ∧ Persists now after ∧
      after.IsFile (roots.target file).segments ∧
      (roots.target file).IsLegal := by
  rcases hReady.target_spec hNeeded hHolds with
    ⟨hTarget, _, directories, name, hSegments⟩
  rcases (FileTree.write_eq_ok_iff hGrown.plain hTarget _ _).mp
      hWrite with
    ⟨hLegal, hParent, hOther, rfl⟩
  have hOutput := hReady.output_above hNeeded hHolds
  have hGet (place : Place) :
      (now.put (roots.target file).segments
          (.file content)).get? place =
        if place = (roots.target file).segments then
          some (.file content)
        else now.get? place :=
    FileTree.get?_put (by simp [hSegments]) _ place
  refine ⟨⟨?_, ?_, ?_, ?_⟩, ?_, ?_, hLegal⟩
  · rw [Path.parent, hSegments, List.dropLast_concat]
      at hParent
    rw [hSegments] at hOther ⊢
    exact hGrown.plain.put hParent hOther (by simp)
  · intro place entry hEntry hOutside
    rw [hGet, if_neg]
    · exact hGrown.kept _ _ hEntry hOutside
    · rintro rfl
      exact hOutside hOutput
  · intro place hEntry
    rw [hGet] at hEntry
    split at hEntry
    · cases hEntry
    · exact hGrown.directories place hEntry
  · intro place found hEntry
    rw [hGet] at hEntry
    split at hEntry
    · next hSame =>
        exact .inr ⟨file, hNeeded, hHolds, hSame⟩
    · exact hGrown.contents place found hEntry
  · intro place
    constructor
    · intro hDirectory
      rw [hGet, if_neg]
      · exact hDirectory
      · rintro rfl
        exact hOther hDirectory
    · rintro ⟨found, hFound⟩
      by_cases hSame :
          place = (roots.target file).segments
      · exact ⟨content, by rw [hGet, if_pos hSame]⟩
      · exact ⟨found, by rw [hGet, if_neg hSame, hFound]⟩
  · exact ⟨content, by rw [hGet, if_pos rfl]⟩

-- Compiling in a Tree That Has Grown

/- The directories for a module that compiles are made. -/
theorem Compiles.makeDirectories
    (hNeeded : Needed tree files file)
    (h : roots.Compiles tree files file) :
    (now.makeDirectories (roots.target file).parent).1 =
      .ok () := by
  have hTarget := (hReady.target_spec hNeeded h.inside).1
  refine FileTree.makeDirectories_of_legal hGrown.plain
    hTarget.parent (h.legal.parent hTarget) ?_
  rintro way hWay ⟨content, hContent⟩
  rcases hGrown.contents way content hContent with
    hOld | ⟨other, hOther, hHolds, rfl⟩
  · exact h.free way hWay ⟨content, hOld⟩
  · have hAbove := hWay.trans (Path.parent_isPrefix _)
    have hSame := h.apart other hOther hHolds (.inl hAbove)
    rw [hSame] at hWay
    exact hReady.not_above_parent hNeeded h.inside hWay

/- A module that compiles is written into its directory. -/
theorem Compiles.write
    (hNeeded : Needed tree files file)
    (h : roots.Compiles tree files file)
    (hParent :
      now.get? (roots.target file).parent.segments =
        some .directory)
    (content : List UInt8) :
    ∃ after,
      now.write (roots.target file) content = .ok after := by
  have hTarget := (hReady.target_spec hNeeded h.inside).1
  have hOutput := hReady.output_above hNeeded h.inside
  refine ⟨_, (FileTree.write_eq_ok_iff hGrown.plain hTarget
    _ _).mpr ⟨h.legal, hParent, fun hDirectory => ?_, rfl⟩⟩
  rcases hGrown.directories _ hDirectory with
    hOld | ⟨other, hOther, hHolds, hWay⟩
  · have hNone :=
      hReady.absent hNeeded h.inside h.legal hOutput
    simp [hOld] at hNone
  · have hBelow := hWay.trans (Path.parent_isPrefix _)
    have hSame := h.apart other hOther hHolds (.inr hBelow)
    rw [← hSame] at hWay
    exact hReady.not_above_parent hOther hHolds hWay

/-
  A source compiles if it was prepared and its module and
  those of all other needed sources stand side by side.
-/
theorem Grown.compiles
    (hNeeded : Needed tree files file)
    {prepared : Prepared}
    (hPrepared : roots.prepare tree file = .ok prepared)
    (hLegal : (roots.target file).IsLegal)
    (hModules : ∀ other, Needed tree files other →
      now.IsFile (roots.target other).segments) :
    roots.Compiles tree files file := by
  rcases prepare_eq_ok_iff.mp hPrepared with
    ⟨below, document, text, hBelow, hSegments, hDocument,
      hText, rfl⟩
  have hHolds : roots.Holds file := ⟨below, hBelow, hSegments⟩
  have hAbove (place : Place)
      (hFile : now.IsFile place)
      (other : Path)
      (hOther : Needed tree files other)
      (hWay : place <+: (roots.target other).segments) :
      place = (roots.target other).segments := by
    by_cases hSame :
        place = (roots.target other).segments
    · exact hSame
    · rcases hModules other hOther with ⟨content, hContent⟩
      exact absurd
        (hGrown.plain.directory_above hContent hWay hSame)
        hFile.not_directory
  refine ⟨hHolds, ⟨document, text, hDocument, hText⟩, hLegal,
    ?_, ?_⟩
  · rintro way hWay ⟨content, hContent⟩
    by_cases hOutput : roots.output.segments <+: way
    · have hNone :=
        hReady.absent hNeeded hHolds hLegal hOutput
      simp [hContent] at hNone
    · have hKept := hGrown.kept _ _ hContent hOutput
      have hSame := hAbove way ⟨content, hKept⟩ file hNeeded
        (hWay.trans (Path.parent_isPrefix _))
      rw [hSame] at hWay
      exact hReady.not_above_parent hNeeded hHolds hWay
  · rintro other hOther _ (hUp | hDown)
    · exact hAbove _ (hModules other hOther) file hNeeded hUp
    · exact (hAbove _ (hModules file hNeeded) other hOther
        hDown).symm

end Ready

end Roots

-- The Old Output

/- The root of all is not removed. -/
theorem Roots.output_ne_root
    {roots : Roots}
    (hSource : roots.source.IsCanonical)
    (hOutput : roots.output.IsCanonical)
    (h : roots.outputHoldsSource = false) :
    roots.output.segments ≠ [] := by
  intro hRoot
  have hSlashes := hSource.absolute
  have hText (path : Path) (hPath : 0 < path.slashes) :
      path.text =
        List.replicate path.slashes '/' ++
          Text.joined ['/'] path.segments := by
    rw [Path.text, if_neg]
    omega
  have hBase :
      (roots.output.text.reverse.dropWhile
        (· == '/')).reverse = [] := by
    rw [hText _ hOutput.absolute, hRoot, Text.joined_nil,
      List.append_nil, List.reverse_replicate]
    simp
  have hStarts :
      Text.startsWith roots.source.text ['/'] = true := by
    rw [hText _ hSlashes]
    rcases Nat.exists_eq_succ_of_ne_zero
      (Nat.pos_iff_ne_zero.mp hSlashes) with
      ⟨n, hn⟩
    simp [hn, Text.startsWith, List.replicate_succ]
  simp [outputHoldsSource, hBase, hStarts] at h

/- What is there without the old output was there with it. -/
theorem get?_of_removeOutput
    {roots : Roots}
    {old tree : FileTree}
    (h : removeOutput roots old = .ok tree)
    {entry : Entry}
    (hEntry : tree.get? place = some entry) :
    old.get? place = some entry := by
  simp only [removeOutput, FileTree.removeTree] at h
  split at h
  · cases h
  · split at h
    · split at h
      · cases h
      · next removed hRemoved =>
          cases h
          split at hRemoved
          · cases hRemoved
          · cases hRemoved
          · split at hRemoved
            · cases hRemoved
              exact FileTree.get?_of_erase hEntry
            · split at hRemoved <;> cases hRemoved
            · cases hRemoved
    · cases h
      exact hEntry

/- A plain tree stays one when the old output is removed. -/
theorem isPlain_of_removeOutput
    {roots : Roots}
    {old tree : FileTree}
    (hSource : roots.source.IsCanonical)
    (hOutput : roots.output.IsCanonical)
    (hPlain : old.IsPlain)
    (h : removeOutput roots old = .ok tree) :
    tree.IsPlain := by
  simp only [removeOutput] at h
  split at h
  · cases h
  · next hHolds =>
      have hRoot := Roots.output_ne_root hSource hOutput
        (Bool.eq_false_iff.mpr hHolds)
      split at h
      · split at h
        · cases h
        · next removed hRemoved =>
            cases h
            simp only [FileTree.removeTree] at hRemoved
            split at hRemoved
            · cases hRemoved
            · cases hRemoved
            · next hFind =>
                rcases (FileTree.find_eq_ok_iff hPlain hOutput _
                    _).mp hFind with
                  ⟨_, hLeads⟩
                cases hLeads with
                | present hEntry =>
                    simp only [List.nil_append]
                      at hRemoved hEntry
                    rcases hPlain.directory_or_file hEntry
                      with rfl | ⟨content, rfl⟩
                    · simp only [hEntry,
                        Except.ok.injEq] at hRemoved
                      subst hRemoved
                      exact hPlain.erase hRoot
                    · simp [hEntry] at hRemoved
      · cases h
        exact hPlain

/-
  Nothing is left of the old output. What it was does not
  matter, and there may have been links in it.
-/
theorem cleared_of_removeOutput
    {roots : Roots}
    {old tree : FileTree}
    (hSource : roots.source.IsCanonical)
    (hOutput : roots.output.IsCanonical)
    (hPlain : tree.IsPlain)
    (h : removeOutput roots old = .ok tree)
    (hLegal : roots.output.IsLegal)
    (hPlace : roots.output.segments <+: place) :
    tree.get? place = none := by
  cases hEntry : tree.get? place with
  | none => rfl
  | some entry =>
      -- then the output root is still there, and was found
      have hThere : ∃ found,
          tree.get? roots.output.segments = some found := by
        by_cases hSame : roots.output.segments = place
        · exact ⟨entry, hSame ▸ hEntry⟩
        · exact ⟨_, hPlain.directory_above hEntry hPlace
            hSame⟩
      rcases hThere with ⟨found, hFound⟩
      have hFind := FileTree.find_of_part hPlain
        (fun _ _ => get?_of_removeOutput h) hOutput hLegal
        hFound false
      have hOld := get?_of_removeOutput h hFound
      simp only [removeOutput, FileTree.isThere, hFind,
        FileTree.removeTree, hOld, if_true] at h
      split at h
      · cases h
      · next hHolds =>
          have hRoot := Roots.output_ne_root hSource hOutput
            (Bool.eq_false_iff.mpr hHolds)
          rcases hPlain.directory_or_file hFound with
            rfl | ⟨content, rfl⟩
          · cases h
            rw [FileTree.get?_erase hRoot,
              if_pos List.prefix_rfl] at hFound
            cases hFound
          · cases h

/- The paths that a build starts from. -/
def BuildRequest.files
    (request : BuildRequest)
    (directory : Path) : List Path :=
  request.inputs.map
    (Path.resolve (request.roots directory).source)

/-
  A build is ready once the old output is removed, if there
  are no links in what is left.
-/
theorem BuildRequest.isReady_of_plain
    {request : BuildRequest}
    {directory : Path}
    {old tree : FileTree}
    (hDirectory : directory.IsCanonical)
    (hRemoved :
      removeOutput (request.roots directory) old = .ok tree)
    (hPlain : tree.IsPlain)
    (hApart : ∀ file,
      Needed tree (request.files directory) file →
        ¬ (request.roots directory).output.segments <+:
          file.segments) :
    (request.roots directory).IsReady tree
      (request.files directory) := by
  have hSource := hDirectory.resolve request.source
  have hOutput := hDirectory.resolve request.output
  refine ⟨hPlain, hOutput, ?_, ?_, hApart⟩
  · intro file hMem
    rcases List.mem_map.mp hMem with ⟨input, _, rfl⟩
    exact hSource.resolve input
  · intro hLegal place hPlace
    exact cleared_of_removeOutput hSource hOutput hPlain
      hRemoved hLegal hPlace

theorem BuildRequest.isReady
    {request : BuildRequest}
    {directory : Path}
    {old tree : FileTree}
    (hDirectory : directory.IsCanonical)
    (hPlain : old.IsPlain)
    (hRemoved :
      removeOutput (request.roots directory) old = .ok tree)
    (hApart : ∀ file,
      Needed tree (request.files directory) file →
        ¬ (request.roots directory).output.segments <+:
          file.segments) :
    (request.roots directory).IsReady tree
      (request.files directory) := by
  have hTree := isPlain_of_removeOutput
    (hDirectory.resolve request.source)
    (hDirectory.resolve request.output) hPlain hRemoved
  exact request.isReady_of_plain hDirectory hRemoved hTree
    hApart

end ThriftTypings
