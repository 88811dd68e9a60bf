import Mathlib.Data.List.Forall2
import ThriftTypings.Command.Run
import ThriftTypings.Proofs.Build.Guard
import ThriftTypings.Proofs.Path.Spelling
import ThriftTypings.Proofs.Watch.Delivery

/-
  This file proves which changes of files a watch takes
  notice of, by the segments of their paths.

  A path is to be watched if it is that of a source, if no
  segment of it is a directory of some tool, if its name has
  no pattern that is ignored, and if it is not in an ignored
  path. But ignored paths are compared by spelling. So what
  lies beside an ignored directory is ignored too, if its
  name only goes on with more letters.

  Key definitions include:
    * `NamePattern` and `ignoredNames`
    * `Encloses` and `Overruns`

  Key theorems include:
    * `Change.passes_iff_isWatched`
    * `Watching.rebuilds_for_watched_paths`
-/

namespace ThriftTypings

namespace Watch

-- Patterns of Names

/- Does each character pass its test? -/
def Fit
    (tests : List (Char → Bool))
    (text : Text) : Prop :=
  List.Forall₂ (fun test c => test c = true) tests text

/-
  A pattern of names: tests for characters in a row, which
  may have to stand at the start or at the end of a name.
-/
structure NamePattern where
  tests : List (Char → Bool)
  atStart : Bool
  atEnd : Bool

/-
  Does the name match? A line feed at the end of the name is
  not seen from the end of a pattern.
-/
def NamePattern.Matches
    (pattern : NamePattern)
    (name : Text) : Prop :=
  ∃ before found after,
    name = before ++ found ++ after ∧
      Fit pattern.tests found ∧
      (pattern.atStart = true → before = []) ∧
      (pattern.atEnd = true → after = [] ∨ after = ['\n'])

/- Does the name match up to its very end? -/
def NamePattern.MatchesToEnd
    (pattern : NamePattern)
    (name : Text) : Prop :=
  ∃ before found,
    name = before ++ found ∧ Fit pattern.tests found ∧
      (pattern.atStart = true → before = [])

/- The names that editors and tools leave, by their ends. -/
def leftoverNames : List NamePattern :=
  [⟨exactly ".py".toList ++ [fun c => "cod".toList.contains c],
     false, true⟩,
   ⟨exactly ".___jb_".toList ++ anything 3 ++
     exactly "___".toList, false, true⟩,
   ⟨exactly ".sw".toList ++ anything 1, false, true⟩,
   ⟨exactly "~".toList, false, true⟩,
   ⟨exactly ".DS_Store".toList, true, true⟩]

/- All names that are ignored. -/
def ignoredNames : List NamePattern :=
  leftoverNames ++
    [⟨exactly ".#".toList, true, false⟩,
     ⟨exactly "flycheck_".toList, true, false⟩]

section Tests

variable {tests : List (Char → Bool)} {word name : Text}

theorem fits_iff
    {text : Text} :
    fits tests text = true ↔ Fit tests text := by
  unfold Fit
  induction tests generalizing text with
  | nil =>
      cases text with
      | nil => simp [fits]
      | cons c rest => simp [fits]
  | cons test tests ih =>
      cases text with
      | nil => simp [fits]
      | cons c rest => simp [fits, ih]

/- Only a text itself has exactly its characters. -/
theorem fit_exactly_iff
    {text : Text} :
    Fit (exactly word) text ↔ text = word := by
  rw [Fit, exactly, List.forall₂_map_left_iff,
    ← List.forall₂_eq_eq_eq]
  simp only [beq_iff_eq]
  constructor
  · intro h
    exact h.flip
  · intro h
    exact h.flip

theorem endsLike_iff :
    endsLike tests name = true ↔
      ∃ before found,
        name = before ++ found ∧ Fit tests found := by
  rw [endsLike, fits_iff]
  constructor
  · intro h
    exact ⟨_, _, (List.take_append_drop _ name).symm, h⟩
  · rintro ⟨before, found, rfl, h⟩
    rw [List.Forall₂.length_eq h, List.length_append,
      Nat.add_sub_cancel, List.drop_left]
    exact h

theorem fit_append_singleton_iff
    {test : Char → Bool}
    {text : Text} :
    Fit (tests ++ [test]) text ↔
      ∃ front c, text = front ++ [c] ∧ Fit tests front ∧
        test c = true := by
  unfold Fit
  constructor
  · intro h
    have hFront :=
      (List.forall₂_take_append _ _ _ h.flip).flip
    have hLast :=
      (List.forall₂_drop_append _ _ _ h.flip).flip
    rcases List.forall₂_cons_left_iff.mp hLast with
      ⟨c, rest, hTest, hNone, hDrop⟩
    rw [List.forall₂_nil_left_iff.mp hNone] at hDrop
    refine ⟨_, c, ?_, hFront, hTest⟩
    rw [← hDrop]
    exact (List.take_append_drop _ text).symm
  · rintro ⟨front, c, rfl, hFront, hTest⟩
    exact List.rel_append hFront (.cons hTest .nil)

/- A test for one of some letters is a test for each. -/
theorem endsLike_letters
    (letters : Text) :
    endsLike (tests ++ [fun c => letters.contains c]) name =
        true ↔
      ∃ c ∈ letters,
        endsLike (tests ++ exactly [c]) name = true := by
  have hOne (c : Char) : exactly [c] = [(· == c)] := rfl
  simp only [endsLike_iff, hOne, fit_append_singleton_iff,
    beq_iff_eq, List.contains_iff_mem]
  constructor
  · rintro ⟨before, found, hName, front, c, hFound, hFront,
      hMem⟩
    exact ⟨c, hMem, before, found, hName, front, c, hFound,
      hFront, rfl⟩
  · rintro ⟨_, hMem, before, found, hName, front, c, hFound,
      hFront, rfl⟩
    exact ⟨before, found, hName, front, c, hFound, hFront,
      hMem⟩

end Tests

-- Ignored Names

section Names

variable {pattern : NamePattern} {name : Text}

theorem matches_iff_of_atEnd
    (h : pattern.atEnd = true) :
    pattern.Matches name ↔
      pattern.MatchesToEnd name ∨
        ∃ shorter, name = shorter ++ ['\n'] ∧
          pattern.MatchesToEnd shorter := by
  constructor
  · rintro ⟨before, found, after, rfl, hFit, hStart, hEnd⟩
    rcases hEnd h with rfl | rfl
    · left
      exact ⟨before, found, List.append_nil _, hFit, hStart⟩
    · right
      exact ⟨_, rfl, before, found, rfl, hFit, hStart⟩
  · intro hEither
    rcases hEither with
      ⟨before, found, rfl, hFit, hStart⟩ |
        ⟨_, rfl, before, found, rfl, hFit, hStart⟩
    · exact ⟨before, found, [], (List.append_nil _).symm,
        hFit, hStart, fun _ => .inl rfl⟩
    · exact ⟨before, found, ['\n'], rfl, hFit, hStart,
        fun _ => .inr rfl⟩

theorem matchesToEnd_iff_endsLike
    {tests : List (Char → Bool)} :
    NamePattern.MatchesToEnd ⟨tests, false, true⟩ name ↔
      endsLike tests name = true := by
  rw [endsLike_iff]
  constructor
  · rintro ⟨before, found, hName, hFit, _⟩
    exact ⟨before, found, hName, hFit⟩
  · rintro ⟨before, found, hName, hFit⟩
    exact ⟨before, found, hName, hFit, nofun⟩

theorem matchesToEnd_iff_eq
    {word : Text} :
    NamePattern.MatchesToEnd ⟨exactly word, true, true⟩ name ↔
      name = word := by
  constructor
  · rintro ⟨before, found, rfl, hFit, hStart⟩
    rw [hStart rfl, fit_exactly_iff.mp hFit, List.nil_append]
  · rintro rfl
    exact ⟨[], name, rfl, fit_exactly_iff.mpr rfl,
      fun _ => rfl⟩

theorem matches_iff_prefix
    {word : Text} :
    NamePattern.Matches ⟨exactly word, true, false⟩ name ↔
      word <+: name := by
  constructor
  · rintro ⟨before, found, after, rfl, hFit, hStart, _⟩
    rw [hStart rfl, fit_exactly_iff.mp hFit, List.nil_append]
    exact List.prefix_append _ _
  · rintro ⟨after, rfl⟩
    exact ⟨[], word, after, rfl, fit_exactly_iff.mpr rfl,
      fun _ => rfl, nofun⟩

theorem isLeftover_iff :
    isLeftover name = true ↔
      ∃ pattern ∈ leftoverNames, pattern.MatchesToEnd name := by
  have hEndings : leftoverEndings =
      ("cod".toList.map fun c =>
        exactly ".py".toList ++ exactly [c]) ++
        [exactly ".___jb_".toList ++ anything 3 ++
          exactly "___".toList,
         exactly ".sw".toList ++ anything 1,
         exactly "~".toList] := rfl
  rw [isLeftover, hEndings, List.any_append, List.any_map]
  simp only [leftoverNames, List.mem_cons, List.not_mem_nil,
    or_false, exists_eq_or_imp, exists_eq_left,
    matchesToEnd_iff_endsLike, matchesToEnd_iff_eq,
    endsLike_letters, Bool.or_eq_true, beq_iff_eq,
    List.any_eq_true, List.any_cons, List.any_nil,
    Bool.false_eq_true, Function.comp_apply, or_assoc]

/- A line feed after a leftover name is not seen. -/
theorem exists_leftover_iff :
    (∃ pattern ∈ leftoverNames, pattern.Matches name) ↔
      isLeftover name = true ∨
        ∃ shorter, name = shorter ++ ['\n'] ∧
          isLeftover shorter = true := by
  have hAtEnd : ∀ pattern ∈ leftoverNames,
      pattern.atEnd = true := by
    simp [leftoverNames]
  simp only [isLeftover_iff]
  constructor
  · rintro ⟨pattern, hMem, hMatches⟩
    rcases (matches_iff_of_atEnd (hAtEnd pattern hMem)).mp
      hMatches with hWhole | ⟨shorter, hName, hShorter⟩
    · exact .inl ⟨pattern, hMem, hWhole⟩
    · exact .inr ⟨shorter, hName, pattern, hMem, hShorter⟩
  · rintro (⟨pattern, hMem, hWhole⟩ |
      ⟨shorter, hName, pattern, hMem, hShorter⟩)
    · exact ⟨pattern, hMem,
        (matches_iff_of_atEnd (hAtEnd pattern hMem)).mpr
          (.inl hWhole)⟩
    · exact ⟨pattern, hMem,
        (matches_iff_of_atEnd (hAtEnd pattern hMem)).mpr
          (.inr ⟨shorter, hName, hShorter⟩)⟩

/- The names that are ignored are those of the patterns. -/
theorem ignoresName_iff :
    ignoresName name = true ↔
      ∃ pattern ∈ ignoredNames, pattern.Matches name := by
  have hFeed : (Text.endsWith name ['\n'] &&
      isLeftover name.dropLast) = true ↔
        ∃ shorter, name = shorter ++ ['\n'] ∧
          isLeftover shorter = true := by
    rw [Bool.and_eq_true, Text.endsWith,
      List.isSuffixOf_iff_suffix]
    constructor
    · rintro ⟨⟨shorter, rfl⟩, hLeftover⟩
      rw [List.dropLast_concat] at hLeftover
      exact ⟨shorter, rfl, hLeftover⟩
    · rintro ⟨shorter, rfl, hLeftover⟩
      rw [List.dropLast_concat]
      exact ⟨List.suffix_append _ _, hLeftover⟩
  simp only [ignoresName, ignoredNames, Bool.or_eq_true,
    hFeed, Text.startsWith, List.isPrefixOf_iff_prefix,
    List.mem_append, or_and_right, exists_or,
    exists_leftover_iff, List.mem_cons, List.not_mem_nil,
    or_false, exists_eq_left, matches_iff_prefix, or_assoc]

end Names

-- Segments

/- The segment that a path ends with. -/
def lastSegment
    (path : Text) : Text :=
  (Text.pieces '/' path).getLast?.getD []

section Segments

variable {root path : Text}

/- Slashes in front only add empty segments. -/
theorem exists_pieces_eq_parts
    (path : Text) :
    ∃ count, Text.pieces '/' path =
      List.replicate count [] ++ parts path := by
  unfold parts
  induction path with
  | nil => exact ⟨0, rfl⟩
  | cons c rest ih =>
      by_cases hSlash : c = '/'
      · rcases ih with ⟨count, hRest⟩
        refine ⟨count + 1, ?_⟩
        simp [hSlash, Text.pieces, hRest, List.replicate_succ]
      · refine ⟨0, ?_⟩
        simp [hSlash]

theorem ignoresDirectory_iff :
    ignoresDirectory path = true ↔
      ∃ segment ∈ Text.pieces '/' path,
        segment ∈ toolDirectories := by
  have hEmpty : [] ∉ toolDirectories := by decide
  rcases exists_pieces_eq_parts path with ⟨count, hPieces⟩
  rw [ignoresDirectory, hPieces]
  simp only [List.any_eq_true, List.contains_iff_mem]
  constructor
  · rintro ⟨segment, hMem, hTool⟩
    exact ⟨segment, List.mem_append_right _ hMem, hTool⟩
  · rintro ⟨segment, hMem, hTool⟩
    rcases List.mem_append.mp hMem with hSlash | hPart
    · rw [List.eq_of_mem_replicate hSlash] at hTool
      exact absurd hTool hEmpty
    · exact ⟨segment, hPart, hTool⟩

theorem ignoresLast_eq
    (path : Text) :
    ignoresLast path = ignoresName (lastSegment path) := by
  rcases exists_pieces_eq_parts path with ⟨count, hPieces⟩
  rcases Text.exists_pieces '/'
    (path.dropWhile (· == '/')) with ⟨first, more, hParts⟩
  have hSome : parts path ≠ [] := by
    rw [parts, hParts]
    exact List.cons_ne_nil first more
  rw [ignoresLast, lastSegment, hPieces,
    List.getLast?_append_of_ne_nil _ hSome]

/-
  Does the path equal the root or lie in it, segment by
  segment? In a root that ends with a slash lies what has
  further segments in place of the last, empty one.
-/
def Encloses
    (root path : Text) : Prop :=
  let segments := Text.pieces '/' root
  segments <+: Text.pieces '/' path ∨
    segments.getLast? = some [] ∧
      segments.dropLast <+: Text.pieces '/' path ∧
        segments.dropLast ≠ Text.pieces '/' path

instance
    (root path : Text) :
    Decidable (Encloses root path) :=
  inferInstanceAs (Decidable (_ ∨ _ ∧ _ ∧ _))

/-
  Does the path go on with more letters where the root ends?
  Then it lies beside the root, at a longer name.
-/
def Overruns
    (root path : Text) : Prop :=
  ∃ front last more rest,
    Text.pieces '/' root = front ++ [last] ∧
      Text.pieces '/' path = front ++ (last ++ more) :: rest ∧
        last ≠ [] ∧ more ≠ []

/- What the spelling of a root starts. -/
theorem prefix_iff_encloses_or_overruns :
    root <+: path ↔ Encloses root path ∨ Overruns root path := by
  rcases Text.exists_pieces '/' root with ⟨first, others, hRoot⟩
  rcases List.eq_nil_or_concat' (Text.pieces '/' root) with
    hNone | ⟨front, last, hStart⟩
  · rw [hRoot] at hNone
    cases hNone
  have hEncloses : Encloses root path ↔
      front ++ [last] <+: Text.pieces '/' path ∨
        last = [] ∧ front <+: Text.pieces '/' path ∧
          front ≠ Text.pieces '/' path := by
    simp [Encloses, hStart]
  rw [Text.prefix_iff_pieces hStart, hEncloses]
  constructor
  · rintro ⟨_, rest, hPath, more, rfl⟩
    by_cases hMore : more = []
    · subst hMore
      refine .inl (.inl ⟨rest, ?_⟩)
      rw [hPath]
      simp
    by_cases hLast : last = []
    · refine .inl (.inr ⟨hLast, ⟨_, hPath.symm⟩, ?_⟩)
      rw [hPath]
      simp
    · exact .inr ⟨front, last, more, rest, hStart, hPath,
        hLast, hMore⟩
  · rintro ((⟨rest, hPath⟩ | ⟨hLast, ⟨below, hPath⟩, hOther⟩) |
      ⟨other, name, more, rest, hOther, hPath, _, _⟩)
    · refine ⟨last, rest, ?_, List.prefix_rfl⟩
      rw [← hPath]
      simp
    · cases below with
      | nil =>
          rw [List.append_nil] at hPath
          exact absurd hPath hOther
      | cons longer rest =>
          refine ⟨longer, rest, hPath.symm, ?_⟩
          rw [hLast]
          exact List.nil_prefix
    · rw [hStart] at hOther
      rcases List.append_inj' hOther rfl with ⟨rfl, hSame⟩
      rw [List.singleton_inj.mp hSame]
      exact ⟨_, rest, hPath, List.prefix_append _ _⟩

end Segments

-- Watched Paths

/-
  Is the path one to watch: that of a source, in no directory
  of a tool, with no name that is ignored, and neither at nor
  in an ignored path?
-/
structure IsWatched
    (ignored : List Text)
    (path : Text) : Prop where
  source : (Path.ofText path).suffix = Path.sourceExtension
  directories : ∀ segment ∈ Text.pieces '/' path,
    segment ∉ toolDirectories
  name : ∀ pattern ∈ ignoredNames,
    ¬ pattern.Matches (lastSegment path)
  outside : ∀ root ∈ ignored, ¬ Encloses root path

/-
  The filter passes the paths to watch, except for those that
  go on with a longer name where an ignored path ends.
-/
theorem Change.passes_iff_isWatched
    {ignored : List Text}
    {change : Change} :
    change.passes ignored = true ↔
      IsWatched ignored change.path ∧
        ∀ root ∈ ignored, ¬ Overruns root change.path := by
  have hIgnored : ignored.any (Text.startsWith change.path) =
      true ↔ ∃ root ∈ ignored, Encloses root change.path ∨
        Overruns root change.path := by
    simp only [List.any_eq_true, Text.startsWith,
      List.isPrefixOf_iff_prefix,
      prefix_iff_encloses_or_overruns]
  simp only [Change.passes, isSource, Bool.and_eq_true,
    Bool.not_eq_true', ← Bool.not_eq_true, beq_iff_eq,
    ignoresDirectory_iff, ignoresLast_eq, ignoresName_iff,
    hIgnored, not_exists, not_and, not_or]
  constructor
  · rintro ⟨⟨⟨hSource, hDirectories⟩, hName⟩, hIgnored⟩
    exact ⟨⟨hSource, hDirectories, hName,
      fun root hMem => (hIgnored root hMem).1⟩,
      fun root hMem => (hIgnored root hMem).2⟩
  · rintro ⟨hWatched, hApart⟩
    exact ⟨⟨⟨hWatched.source, hWatched.directories⟩,
      hWatched.name⟩, fun root hMem =>
        ⟨hWatched.outside root hMem, hApart root hMem⟩⟩

theorem matters_iff_isWatched
    {root : Text}
    {batch : List Change} :
    matters [root] batch = true ↔
      ∃ change ∈ batch, IsWatched [root] change.path ∧
        ¬ Overruns root change.path := by
  simp only [matters, List.any_eq_true,
    Change.passes_iff_isWatched, List.forall_mem_singleton]

end Watch

-- Rebuilding

namespace Command

/- Every build of a command comes to an end. -/
theorem exists_built
    (options : Options)
    (workspace : Workspace) :
    ∃ built, buildOnce options workspace = some built ∧
      built.workspace =
        (workspace.compile options.request).2 := by
  unfold buildOnce Workspace.compile Workspace.compileBy
  cases workspace.directory with
  | none => exact ⟨_, rfl, rfl⟩
  | some place =>
      rcases exists_outcome (workspace.surroundingsAt place)
        options.request workspace.tree with
        ⟨outcome, hOutcome⟩
      dsimp only
      rw [hOutcome]
      exact ⟨_, rfl, rfl⟩

namespace Watching

/- A watch builds again after what matters. -/
theorem deliver_eq
    (options : Options)
    (batch : List Watch.Change)
    (watching : Watching) :
    deliver options batch watching =
      if Watch.matters watching.watcher.ignored batch then
        rebuild options watching
      else
        some watching := by
  have hEmpty :=
    Watch.relevant_isEmpty watching.watcher.ignored batch
  unfold deliver
  cases hMatters :
      Watch.matters watching.watcher.ignored batch with
  | false =>
      rw [hMatters] at hEmpty
      rw [List.isEmpty_iff.mp hEmpty]
      rfl
  | true =>
      rw [hMatters] at hEmpty
      cases hRelevant :
          Watch.relevant watching.watcher.ignored batch with
      | nil =>
          rw [hRelevant] at hEmpty
          cases hEmpty
      | cons first more => rfl

/-
  A watch after its start and some batches, for the place
  where it was started. In between anything may happen to
  the workspace.
-/
inductive Running
    (options : Options)
    (place : Place) : Watching → Prop where
  | started {workspace : Workspace} {watching : Watching}
      (hStart : start options workspace =
        some (.watching watching))
      (hPlace : watching.workspace.directory = some place) :
      Running options place watching
  | edited {watching : Watching}
      (hRunning : Running options place watching)
      (workspace : Workspace) :
      Running options place
        { watching with workspace := workspace }
  | delivered {watching after : Watching}
      (hRunning : Running options place watching)
      {batch : List Watch.Change}
      (hAfter : deliver options batch watching = some after) :
      Running options place after

theorem watcher_of_start
    {options : Options}
    {workspace : Workspace}
    {watching : Watching}
    {place : Place}
    (hStart : start options workspace =
      some (.watching watching))
    (hPlace : watching.workspace.directory = some place) :
    watching.watcher = options.watcher ⟨1, place⟩ := by
  rcases Option.map_eq_some_iff.mp hStart with
    ⟨built, _, hBeginning⟩
  split at hBeginning
  · cases hBeginning
  · next found hFound =>
      cases hBeginning
      rw [hFound] at hPlace
      cases hPlace
      rfl

/- A batch comes to an end, and keeps the watcher. -/
theorem exists_delivered
    (options : Options)
    (batch : List Watch.Change)
    (watching : Watching) :
    ∃ after, deliver options batch watching = some after ∧
      after.watcher = watching.watcher := by
  rw [deliver_eq, rebuild]
  split
  · rcases exists_built options watching.workspace with
      ⟨built, hBuilt, _⟩
    rw [hBuilt]
    exact ⟨_, rfl, rfl⟩
  · exact ⟨watching, rfl, rfl⟩

/- So a watch always has the watcher it was started with. -/
theorem Running.watcher_eq
    {options : Options}
    {place : Place}
    {watching : Watching}
    (h : Running options place watching) :
    watching.watcher = options.watcher ⟨1, place⟩ := by
  induction h with
  | started hStart hPlace =>
      exact watcher_of_start hStart hPlace
  | edited _ _ ih => exact ih
  | @delivered watching _ _ batch hAfter ih =>
      rcases exists_delivered options batch watching with
        ⟨after, hSome, hKept⟩
      rw [hAfter] at hSome
      cases hSome
      rw [hKept, ih]

/-
  Whatever happened to a file, the filter passes its path
  just if it is one to watch and does not go on with a longer
  name where an ignored path ends. So a watch builds again
  after a batch just if there is such a path in it, given the
  output root. The watcher is that of the options as long as
  the watch runs, and each batch comes to an end.
-/
theorem rebuilds_for_watched_paths
    (action : Watch.Action)
    (ignored : List Text)
    (path : Text) :
    (Watch.Change.passes ignored ⟨action, path⟩ = true ↔
      Watch.IsWatched ignored path ∧
        ∀ root ∈ ignored, ¬ Watch.Overruns root path) ∧
    (∀ (options : Options) (directory : Path)
      (watching : Watching) (batch : List Watch.Change),
      watching.watcher = options.watcher directory →
        let output :=
          (Path.resolve directory options.output).text
        let noticed := ∃ change ∈ batch,
          Watch.IsWatched [output] change.path ∧
            ¬ Watch.Overruns output change.path
        (noticed → deliver options batch watching =
            rebuild options watching) ∧
          (¬ noticed →
            deliver options batch watching =
              some watching)) ∧
    ∀ (options : Options) (place : Place)
      (watching : Watching),
      Running options place watching →
        watching.watcher = options.watcher ⟨1, place⟩ ∧
          ∀ batch, ∃ after,
            deliver options batch watching = some after := by
  refine ⟨Watch.Change.passes_iff_isWatched, ?_, ?_⟩
  · intro options directory watching batch hWatcher output
      noticed
    have hIgnored : watching.watcher.ignored = [output] := by
      rw [hWatcher]
      rfl
    rw [deliver_eq, hIgnored]
    constructor
    · intro hNoticed
      exact if_pos (Watch.matters_iff_isWatched.mpr hNoticed)
    · intro hNone
      refine if_neg fun hMatters => ?_
      exact hNone (Watch.matters_iff_isWatched.mp hMatters)
  · intro options place watching hRunning
    refine ⟨hRunning.watcher_eq, fun batch => ?_⟩
    rcases exists_delivered options batch watching with
      ⟨after, hAfter, _⟩
    exact ⟨after, hAfter⟩

namespace Edited

def options : Options where
  inputs := []
  source := ['s']
  output := ['o']
  workers := some 1

def workspace : Workspace where
  tree := ⟨[([['s']], .directory)]⟩
  directory := some []
  setting := none
  processors := none

/- A change of a source that the filter passes. -/
def change : Watch.Change where
  action := .modified
  path := "/s/a.thrift".toList

theorem exists_started :
    ∃ watching,
      start options workspace = some (.watching watching) ∧
        watching.workspace.directory = some [] := by
  rcases exists_built options workspace with
    ⟨built, hBuilt, hAfter⟩
  have hPlace : built.workspace.directory = some [] := by
    rw [hAfter]
    cbv
  refine ⟨⟨options.watcher ⟨1, []⟩, built.printed,
    built.workspace⟩, ?_, hPlace⟩
  simp [start, hBuilt, hPlace]

end Edited

/- A watch that was started builds an edited source again. -/
theorem rebuilds_for_an_edited_source :
    ∃ watching after,
      start Edited.options Edited.workspace =
          some (.watching watching) ∧
        deliver Edited.options [Edited.change] watching =
          rebuild Edited.options watching ∧
        rebuild Edited.options watching = some after := by
  rcases Edited.exists_started with
    ⟨watching, hStart, hPlace⟩
  rcases rebuilds_for_watched_paths Edited.change.action
    [(Path.resolve ⟨1, []⟩ Edited.options.output).text]
    Edited.change.path with ⟨hPasses, hNoticed, hRunning⟩
  rcases hPasses.mp (by decide) with ⟨hWatched, hApart⟩
  rcases hRunning Edited.options [] watching
    (.started hStart hPlace) with ⟨hWatcher, hEnds⟩
  rcases hEnds [Edited.change] with ⟨after, hAfter⟩
  have hRebuilds := (hNoticed Edited.options ⟨1, []⟩
    watching [Edited.change] hWatcher).1
    ⟨Edited.change, .head _, hWatched, hApart _ (.head _)⟩
  exact ⟨watching, after, hStart, hRebuilds,
    hRebuilds.symm.trans hAfter⟩

/- A source beside an ignored path is one to watch. -/
theorem neighbour_is_ignored :
    let root := "/idl/gen".toList
    let path := "/idl/gen2/a.thrift".toList
    Watch.IsWatched [root] path ∧
      Watch.Change.passes [root] ⟨.modified, path⟩ =
        false := by
  intro root path
  have hName :
      ¬ Watch.ignoresName (Watch.lastSegment path) = true := by
    decide
  refine ⟨⟨by decide, by decide, ?_, by decide⟩, by decide⟩
  intro pattern hMem hMatches
  exact hName
    (Watch.ignoresName_iff.mpr ⟨pattern, hMem, hMatches⟩)

end Watching

end Command

end ThriftTypings
