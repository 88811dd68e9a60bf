import ThriftTypings.Proofs.FileTree.Links
import ThriftTypings.Proofs.Path.Containment

/-
  This file proves what becomes of a tree in which nothing
  stands at a path when directories are made and files are
  written below that path, over links or not.

  Ways that lead to something lead there in a larger tree as
  well. So either a directory on the way has the next name
  still free, and all that is made lies there, without links;
  or the way is shut, and nothing can be made at all.

  Key definitions include:
    * `FileTree.Keeps`
    * `FileTree.Enters`

  Key theorems include:
    * `FileTree.Spot.Grows.write`
    * `FileTree.Spot.Grows.denotes`
-/

namespace ThriftTypings

variable {found : Place} {more : List Text} {name : Text}

-- Paths That May Be Asked For

/- May the path be asked for, whatever its names are? -/
def Path.IsAskable
    (path : Path) : Prop :=
  '\x00' ∉ path.text ∧ path.IsShort

/- What is above what may be asked for may be asked for. -/
theorem Path.IsAskable.of_prefix
    {root path : Path}
    (h : path.IsAskable)
    (hRoot : root.IsCanonical)
    (hPath : path.IsCanonical)
    (hSlashes : root.slashes = path.slashes)
    (hSegments : root.segments <+: path.segments) :
    root.IsAskable := by
  have hText := hRoot.text_prefix hPath hSlashes hSegments
  constructor
  · intro hNull
    exact h.1 (hText.subset hNull)
  · exact (Path.length_encode_le hText).trans h.2

namespace FileTree

variable {tree now : FileTree} {last : Bool} {links : Nat}
variable {place : Place} {names : List Text}
variable {located : Located} {path : Path}

-- Ways in Larger Trees

/- Does a tree have all that another one has? -/
def Keeps
    (tree now : FileTree) : Prop :=
  ∀ place entry, tree.get? place = some entry →
    now.get? place = some entry

namespace Way

/- What leads somewhere leads there in a larger tree. -/
theorem persists
    (hKeeps : Keeps tree now)
    (h : Way tree last links place names (.present found)) :
    Way now last links place names (.present found) := by
  generalize hEnd : Located.present found = located at h ⊢
  induction h with
  | done => exact .done
  | stays hHere hSame _ ih =>
      exact .stays (hKeeps _ _ hHere) hSame (ih hEnd)
  | climbs hHere _ ih =>
      exact .climbs (hKeeps _ _ hHere) (ih hEnd)
  | misses => cases hEnd
  | enters hHere hProper hEntry _ ih =>
      exact .enters (hKeeps _ _ hHere) hProper
        (hKeeps _ _ hEntry) (ih hEnd)
  | ends hHere hProper hEntry =>
      exact .ends (hKeeps _ _ hHere) hProper
        (hKeeps _ _ hEntry)
  | stops hHere hProper hEntry hUnasked =>
      exact .stops (hKeeps _ _ hHere) hProper
        (hKeeps _ _ hEntry) hUnasked
  | crosses hHere hProper hEntry hAsked _ ih =>
      exact .crosses (hKeeps _ _ hHere) hProper
        (hKeeps _ _ hEntry) hAsked (ih hEnd)

/- What leads on passes a directory after each name. -/
theorem split
    {first second : List Text}
    (hSecond : second ≠ [])
    (h : Way tree last links place (first ++ second)
      located) :
    ∃ base,
      Way tree true links place first (.present base) ∧
        tree.get? base = some .directory := by
  generalize hNames : first ++ second = names at h
  induction h generalizing first with
  | done =>
      rw [List.append_eq_nil_iff] at hNames
      exact absurd hNames.2 hSecond
  | stays hHere hSame _ ih =>
      cases first with
      | nil => exact ⟨_, .done, hHere⟩
      | cons other first =>
          rcases List.cons.inj hNames with ⟨hOther, hMore⟩
          rcases ih hMore with ⟨base, hWay, hBase⟩
          rw [hOther]
          exact ⟨base, .stays hHere hSame hWay, hBase⟩
  | climbs hHere _ ih =>
      cases first with
      | nil => exact ⟨_, .done, hHere⟩
      | cons other first =>
          rcases List.cons.inj hNames with ⟨hOther, hMore⟩
          rcases ih hMore with ⟨base, hWay, hBase⟩
          rw [hOther]
          exact ⟨base, .climbs hHere hWay, hBase⟩
  | enters hHere hProper hEntry _ ih =>
      cases first with
      | nil => exact ⟨_, .done, hHere⟩
      | cons other first =>
          rcases List.cons.inj hNames with ⟨hOther, hMore⟩
          rcases ih hMore with ⟨base, hWay, hBase⟩
          rw [hOther]
          exact ⟨base, .enters hHere hProper hEntry hWay,
            hBase⟩
  | @crosses links place name target more located hHere
      hProper hEntry _ _ ih =>
      cases first with
      | nil => exact ⟨_, .done, hHere⟩
      | cons other first =>
          rcases List.cons.inj hNames with ⟨hOther, hMore⟩
          have hRest : Text.pieces '/' target ++ first ++
              second = Text.pieces '/' target ++ more := by
            rw [List.append_assoc]
            exact congrArg _ hMore
          rcases ih hRest with ⟨base, hWay, hBase⟩
          rw [hOther]
          exact ⟨base, .crosses hHere hProper hEntry
            (.inr rfl) hWay, hBase⟩
  -- the last name leaves nothing for a second part
  | misses hHere _ _ =>
      cases first with
      | nil => exact ⟨_, .done, hHere⟩
      | cons other first => simp [hSecond] at hNames
  | ends hHere _ _ =>
      cases first with
      | nil => exact ⟨_, .done, hHere⟩
      | cons other first => simp [hSecond] at hNames
  | stops hHere _ _ _ =>
      cases first with
      | nil => exact ⟨_, .done, hHere⟩
      | cons other first => simp [hSecond] at hNames

/-
  From a directory that names lead to, more names are
  followed in a larger tree as if one had started there.
-/
theorem followed
    {front : List Text}
    {base : Place}
    (h : Way tree true links place front (.present base))
    (hBase : tree.get? base = some .directory) :
    ∃ left, ∀ now, Keeps tree now →
      ∀ last more, more ≠ [] →
        now.follow last links place (front ++ more) =
          now.follow last left base more := by
  generalize hEnd : Located.present base = located at h
  induction h with
  | done =>
      cases hEnd
      exact ⟨_, fun _ _ _ _ _ => rfl⟩
  | stays hHere hSame _ ih =>
      rcases ih hEnd with ⟨left, hLeft⟩
      refine ⟨left, ?_⟩
      intro now hKeeps last more hMore
      rw [List.cons_append, follow]
      simp only [hKeeps _ _ hHere, ne_eq, not_true_eq_false,
        if_false, hSame, if_true]
      exact hLeft now hKeeps last more hMore
  | climbs hHere _ ih =>
      rcases ih hEnd with ⟨left, hLeft⟩
      refine ⟨left, ?_⟩
      intro now hKeeps last more hMore
      have hOther : ¬ (Path.above = [] ∨
          Path.above = Path.here) := by decide
      rw [List.cons_append, follow]
      simp only [hKeeps _ _ hHere, ne_eq, not_true_eq_false,
        if_false, hOther, if_true]
      exact hLeft now hKeeps last more hMore
  | misses => cases hEnd
  | enters hHere hProper hEntry _ ih =>
      rcases ih hEnd with ⟨left, hLeft⟩
      refine ⟨left, ?_⟩
      intro now hKeeps last more hMore
      rw [List.cons_append,
        follow_proper (hKeeps _ _ hHere) hProper,
        hKeeps _ _ hEntry]
      exact hLeft now hKeeps last more hMore
  | ends _ _ hEntry =>
      cases hEnd
      rw [hEntry] at hBase
      cases hBase
  | stops _ _ _ hUnasked => cases hUnasked
  | crosses hHere hProper hEntry _ _ ih =>
      rcases ih hEnd with ⟨left, hLeft⟩
      refine ⟨left, ?_⟩
      intro now hKeeps last more hMore
      rw [List.cons_append,
        follow_proper (hKeeps _ _ hHere) hProper,
        hKeeps _ _ hEntry]
      dsimp only
      rw [if_neg (by simp [hMore]), ← List.append_assoc]
      exact hLeft now hKeeps last more hMore

/- A name that is missing is missing from a directory. -/
theorem missing
    (h : Way tree last links place names (.missing found)) :
    ∃ above name,
      found = above ++ [name] ∧
        tree.get? above = some .directory ∧
        tree.get? found = none := by
  generalize hEnd : Located.missing found = located at h
  induction h with
  | done => cases hEnd
  | stays _ _ _ ih => exact ih hEnd
  | climbs _ _ ih => exact ih hEnd
  | misses hHere _ hEntry =>
      cases hEnd
      exact ⟨_, _, rfl, hHere, hEntry⟩
  | enters _ _ _ _ ih => exact ih hEnd
  | ends => cases hEnd
  | stops => cases hEnd
  | crosses _ _ _ _ _ ih => exact ih hEnd

/- A directory that is made is found by its path. -/
theorem made
    (h : Way tree false links place names
      (.missing found)) :
    Way (tree.put found .directory) true links place names
      (.present found) := by
  rcases h.missing with ⟨above, name, hFound, _, hNone⟩
  have hGet (other : Place) :
      (tree.put found .directory).get? other =
        if other = found then some .directory
        else tree.get? other :=
    get?_put (by simp [hFound]) _ other
  have hKeeps : Keeps tree (tree.put found .directory) := by
    intro other entry hEntry
    rw [hGet, if_neg]
    · exact hEntry
    · intro hSame
      rw [hSame, hNone] at hEntry
      cases hEntry
  have hMade := hGet found
  rw [if_pos rfl] at hMade
  generalize hEnd : Located.missing found = located at h
  induction h with
  | done => cases hEnd
  | stays hHere hSame _ ih =>
      exact .stays (hKeeps _ _ hHere) hSame (ih hEnd)
  | climbs hHere _ ih =>
      exact .climbs (hKeeps _ _ hHere) (ih hEnd)
  | misses hHere hProper _ =>
      cases hEnd
      exact .enters (hKeeps _ _ hHere) hProper hMade .done
  | enters hHere hProper hEntry _ ih =>
      exact .enters (hKeeps _ _ hHere) hProper
        (hKeeps _ _ hEntry) (ih hEnd)
  | ends => cases hEnd
  | stops => cases hEnd
  | crosses hHere hProper hEntry _ _ ih =>
      exact .crosses (hKeeps _ _ hHere) hProper
        (hKeeps _ _ hEntry) (.inr rfl) (ih hEnd)

/- Whoever comes to a directory need not ask for links. -/
theorem asked
    (h : Way tree false links place names (.present found))
    (hFound : tree.get? found = some .directory) :
    Way tree true links place names (.present found) := by
  generalize hEnd : Located.present found = located at h ⊢
  induction h with
  | done => exact .done
  | stays hHere hSame _ ih =>
      exact .stays hHere hSame (ih hEnd)
  | climbs hHere _ ih => exact .climbs hHere (ih hEnd)
  | misses => cases hEnd
  | enters hHere hProper hEntry _ ih =>
      exact .enters hHere hProper hEntry (ih hEnd)
  | ends hHere hProper hEntry =>
      exact .ends hHere hProper hEntry
  | stops _ _ hEntry _ =>
      cases hEnd
      rw [hEntry] at hFound
      cases hFound
  | crosses hHere hProper hEntry _ _ ih =>
      exact .crosses hHere hProper hEntry (.inr rfl) (ih hEnd)

/- In a rooted tree something stands where ways lead. -/
theorem entry
    (hRooted : tree.IsRooted)
    (hPlace : tree.get? place = some .directory)
    (h : Way tree last links place names (.present found)) :
    ∃ entry, tree.get? found = some entry := by
  generalize hEnd : Located.present found = located at h
  induction h with
  | done =>
      cases hEnd
      exact ⟨_, hPlace⟩
  | stays _ _ _ ih => exact ih hPlace hEnd
  | @climbs links place more located hHere _ ih =>
      refine ih ?_ hEnd
      by_cases hRoot : place.dropLast = place
      · rw [hRoot]
        exact hHere
      · exact hRooted.directory_above hHere
          (List.dropLast_prefix _) hRoot
  | misses => cases hEnd
  | enters _ _ hEntry _ ih => exact ih hEntry hEnd
  | ends _ _ hEntry =>
      cases hEnd
      exact ⟨_, hEntry⟩
  | stops _ _ hEntry _ =>
      cases hEnd
      exact ⟨_, hEntry⟩
  | @crosses links place name target more located hHere _ _
      _ _ ih =>
      refine ih ?_ hEnd
      split
      · rfl
      · exact hHere

end Way

/- What can be read can be read in a larger tree. -/
theorem read_of_keeps
    {content : List UInt8}
    (hKeeps : Keeps tree now)
    (h : tree.read path = .ok content) :
    now.read path = .ok content := by
  unfold read at h ⊢
  split at h
  · cases h
  · cases h
  · next hFind =>
      rcases find_iff_way.mp hFind with ⟨hAskable, hWay⟩
      rw [find_iff_way.mpr
        ⟨hAskable, hWay.persists hKeeps⟩]
      split at h
      · next hEntry =>
          cases h
          simp only [hKeeps _ _ hEntry]
      · cases h

/- Directories one below the other are found by names. -/
theorem follow_directories
    (hRooted : tree.IsRooted)
    (hNames : ∀ name ∈ names, Path.IsName name)
    (hShort : ∀ name ∈ names,
      (Utf8.encode name).length ≤ nameLimit)
    (h : tree.get? (place ++ names) = some .directory)
    (last : Bool)
    (links : Nat) :
    tree.follow last links place names =
      .ok (.present (place ++ names)) := by
  induction names generalizing place with
  | nil => simp [follow]
  | cons name more ih =>
      have hName := hNames name List.mem_cons_self
      have hProper : Path.IsProper name :=
        ⟨hName.nonempty, hName.notHere, hName.notAbove,
          hShort name List.mem_cons_self⟩
      have hSplit : place ++ name :: more =
          place ++ [name] ++ more := by
        simp
      have hHere : tree.get? place = some .directory :=
        hRooted.directory_above h (List.prefix_append _ _)
          (by simp)
      rw [hSplit] at h ⊢
      have hNext : tree.get? (place ++ [name]) =
          some .directory := by
        by_cases hMore : more = []
        · rw [hMore, List.append_nil] at h
          exact h
        · apply hRooted.directory_above h
            (List.prefix_append _ _)
          simpa using Ne.symm hMore
      rw [follow_proper hHere hProper, hNext]
      apply ih _ _ h
      · exact fun other hMem => hNames other (by simp [hMem])
      · exact fun other hMem => hShort other (by simp [hMem])

/- What is missing from the last of them is not. -/
theorem follow_missing
    {front : List Text}
    (hRooted : tree.IsRooted)
    (hNames : ∀ other ∈ front ++ [name],
      Path.IsName other)
    (hShort : ∀ other ∈ front ++ [name],
      (Utf8.encode other).length ≤ nameLimit)
    (hFront : tree.get? (place ++ front) = some .directory)
    (hNone : tree.get? (place ++ front ++ [name]) = none)
    (rest : List Text)
    (last : Bool)
    (links : Nat) :
    tree.follow last links place (front ++ name :: rest) =
      if rest = [] then
        .ok (.missing (place ++ front ++ [name]))
      else
        .error .notFound := by
  have hName := hNames name (by simp)
  have hProper : Path.IsProper name :=
    ⟨hName.nonempty, hName.notHere, hName.notAbove,
      hShort name (by simp)⟩
  have hWay := way_of_follow (follow_directories hRooted
    (fun other hMem => hNames other (by simp [hMem]))
    (fun other hMem => hShort other (by simp [hMem]))
    hFront true links)
  rcases hWay.followed hFront with ⟨left, hLeft⟩
  rw [hLeft tree (fun _ _ h => h) last _ (by simp),
    follow_proper hFront hProper, hNone]

-- Making Directories

/-
  What every single directory that is made on the way keeps
  is kept by making them all.
-/
theorem makeDirectories_keeps
    {P : FileTree → Prop}
    (hTree : P tree)
    (hMake : ∀ now above place, P now →
      above.slashes = path.slashes →
      above.segments <+: path.segments →
      now.find false above = .ok (.missing place) →
        P (now.put place .directory)) :
    P (tree.makeDirectories path).2 := by
  have hOne {now made : FileTree} {path : Path}
      (hPath : ∀ place,
        now.find false path = .ok (.missing place) →
          P (now.put place .directory))
      (hMade : now.makeDirectory path = .ok made) :
      P made := by
    unfold makeDirectory at hMade
    split at hMade
    · cases hMade
    · next hFind =>
        cases hMade
        exact hPath _ hFind
    · cases hMade
  have hAbove {above path : Path}
      (hPrefix : above.segments <+: path.parent.segments) :
      above.segments <+: path.segments :=
    hPrefix.trans (Path.parent_isPrefix path)
  fun_induction makeDirectories tree path with
  | case1 path made hMade =>
      exact hOne (fun place =>
        hMake tree path place hTree rfl List.prefix_rfl) hMade
  | case2 => exact hTree
  | case3 path fault _ _ _ above partly hParent ih =>
      rw [hParent] at ih
      exact ih fun now other place hNow hSlashes hSegments =>
        hMake now other place hNow hSlashes (hAbove hSegments)
  | case4 path fault _ _ _ partly hParent made hMade ih =>
      rw [hParent] at ih
      have hPartly := ih
        fun now other place hNow hSlashes hSegments =>
          hMake now other place hNow hSlashes
            (hAbove hSegments)
      exact hOne (fun place =>
        hMake partly path place hPartly rfl List.prefix_rfl)
        hMade
  | case5 path fault _ _ _ partly hParent again _ _ ih =>
      rw [hParent] at ih
      exact ih fun now other place hNow hSlashes hSegments =>
        hMake now other place hNow hSlashes (hAbove hSegments)
  | case6 path fault _ _ _ partly hParent again _ _ ih =>
      rw [hParent] at ih
      exact ih fun now other place hNow hSlashes hSegments =>
        hMake now other place hNow hSlashes (hAbove hSegments)
  | case7 => exact hTree
  | case8 => exact hTree

-- Asking for Paths

/- What may be asked for is where its names lead. -/
theorem find_of_isAskable
    (h : path.IsAskable)
    (tree : FileTree)
    (last : Bool) :
    tree.find last path =
      match tree.follow last linkLimit [] path.segments with
      | .error cause => .error (refusal cause path)
      | .ok located => .ok located := by
  have hLong : ¬ pathLimit <
      (Utf8.encode path.text).length :=
    Nat.not_lt.mpr h.2
  unfold find
  dsimp only
  rw [if_neg h.1, if_neg hLong]
  rfl

/- A path that may not be asked for is not looked for. -/
theorem find_of_not_isAskable
    (h : ¬ path.IsAskable)
    (tree : FileTree)
    (last : Bool) :
    ∃ fault, tree.find last path = .error fault ∧
      fault.isNotFound = false := by
  unfold find
  dsimp only
  split
  · exact ⟨_, rfl, rfl⟩
  · next hNull =>
      have hLong : pathLimit <
          (Utf8.encode path.text).length := by
        by_contra hShort
        exact h ⟨hNull, Nat.not_lt.mp hShort⟩
      rw [if_pos hLong]
      exact ⟨_, rfl, rfl⟩

theorem makeDirectories_of_not_isAskable
    (h : ¬ path.IsAskable)
    (tree : FileTree) :
    (tree.makeDirectories path).2 = tree := by
  rcases find_of_not_isAskable h tree false with
    ⟨fault, hFind, hFault⟩
  have hMade : tree.makeDirectory path = .error fault := by
    rw [makeDirectory, hFind]
  rw [makeDirectories, hMade]
  dsimp only
  rw [hFault, if_neg Bool.false_ne_true]
  split <;> rfl

-- Where a Way Stops

/- Do names lead from the root to a directory? -/
def Enters
    (tree : FileTree)
    (names : List Text) : Prop :=
  ∃ base,
    Way tree true linkLimit [] names (.present base) ∧
      tree.get? base = some .directory

/- A name that leads to a directory is not missing. -/
theorem Enters.not_missing
    (h : tree.Enters names) :
    ¬ Way tree false linkLimit [] names
      (.missing place) := by
  intro hMissing
  rcases h with ⟨base, hWay, _⟩
  rcases hWay.before_link with ⟨first, hFirst, _⟩
  have hSame := (follow_of_way hMissing).symm.trans
    (follow_of_way hFirst)
  cases hSame

theorem Enters.of_append
    {first second : List Text}
    (h : tree.Enters (first ++ second)) :
    tree.Enters first := by
  by_cases hNone : second = []
  · rw [hNone, List.append_nil] at h
    exact h
  · rcases h with ⟨_, hWay, _⟩
    exact hWay.split hNone

/- Names that do not lead to a directory stop at a name. -/
theorem exists_stop
    (h : ¬ tree.Enters names) :
    ∃ front name rest,
      names = front ++ name :: rest ∧
        tree.Enters front ∧
        ¬ tree.Enters (front ++ [name]) := by
  induction names using List.reverseRecOn with
  | nil => exact absurd ⟨[], .done, rfl⟩ h
  | append_singleton front name ih =>
      by_cases hFront : tree.Enters front
      · exact ⟨front, name, [], rfl, hFront, h⟩
      · rcases ih hFront with
          ⟨before, other, rest, hSplit, hEnters, hStops⟩
        refine ⟨before, other, rest ++ [name], ?_, hEnters,
          hStops⟩
        rw [hSplit]
        simp

/-
  Nothing can be made at a path or below it: no name on the
  way is missing from a directory, and nothing below is
  reached.
-/
structure IsShut
    (tree : FileTree)
    (names : List Text) : Prop where
  full : ∀ further, names <+: further →
    ∀ front, front <+: further →
      ∀ place, ¬ Way tree false linkLimit [] front
        (.missing place)
  unreached : ∀ more, more ≠ [] →
    ∀ last located, ¬ Way tree last linkLimit []
      (names ++ more) located

/- What stops at something is shut. -/
theorem isShut_of_stop
    {front rest : List Text}
    {base : Place}
    {entry : Entry}
    (hName : Path.IsName name)
    (hWay : Way tree true linkLimit [] front
      (.present base))
    (hBase : tree.get? base = some .directory)
    (hStops : ¬ tree.Enters (front ++ [name]))
    (hEntry : tree.get? (base ++ [name]) = some entry) :
    tree.IsShut (front ++ name :: rest) := by
  have hFurther {more : List Text} (hMore : more ≠ [])
      {last : Bool} {located : Located} :
      ¬ Way tree last linkLimit [] (front ++ [name] ++ more)
        located :=
    fun h => hStops (h.split hMore)
  have hHere (place : Place) :
      ¬ Way tree false linkLimit [] (front ++ [name])
        (.missing place) := by
    intro hMissing
    rcases hWay.followed hBase with ⟨left, hLeft⟩
    have hFollow := follow_of_way hMissing
    rw [hLeft tree (fun _ _ h => h) false [name] (by simp)]
      at hFollow
    cases way_of_follow hFollow with
    | stays _ hSame _ =>
        rcases hSame with hNil | hHere
        · exact hName.nonempty hNil
        · exact hName.notHere hHere
    | climbs _ _ => exact hName.notAbove rfl
    | misses _ _ hNone =>
        rw [hEntry] at hNone
        cases hNone
    | enters _ _ _ hRest => cases hRest
    | crosses _ _ _ hAsked _ => simp at hAsked
  constructor
  · intro further hNames before hBefore place
    have hStop : front ++ [name] <+: further := by
      refine List.IsPrefix.trans ?_ hNames
      exact ⟨rest, by simp⟩
    rcases List.prefix_or_prefix_of_prefix hBefore hStop with
      hAbove | hBelow
    · rcases List.prefix_concat_iff.mp hAbove with
        hSame | hFront
      · rw [hSame]
        exact hHere place
      · rcases hFront with ⟨more, hMore⟩
        rw [← hMore] at hWay
        have hEnters : tree.Enters (before ++ more) :=
          ⟨base, hWay, hBase⟩
        exact hEnters.of_append.not_missing
    · rcases hBelow with ⟨more, hMore⟩
      rw [← hMore]
      by_cases hNone : more = []
      · rw [hNone, List.append_nil]
        exact hHere place
      · exact hFurther hNone
  · intro more hMore last located
    have hSplit : front ++ name :: rest ++ more =
        front ++ [name] ++ (rest ++ more) := by
      simp
    rw [hSplit]
    exact hFurther (by simp [hMore])

/-
  Nothing is made or written at a path or below it, whatever
  is tried.
-/
structure IsSealed
    (tree : FileTree)
    (root : Path) : Prop where
  makes : ∀ path, path.IsCanonical →
    path.slashes = root.slashes →
    root.segments <+: path.segments →
      (tree.makeDirectories path).2 = tree
  writes : ∀ path more content, path.IsCanonical →
    path.slashes = root.slashes → more ≠ [] →
    path.segments = root.segments ++ more →
      ∃ fault, tree.write path content = .error fault

/-
  A place that is free: names in front of a path lead to a
  directory, from which the next name is missing, with all
  that might be below it.
-/
structure Spot
    (tree : FileTree)
    (path : Path) where
  front : List Text
  name : Text
  rest : List Text
  base : Place
  segments : path.segments = front ++ name :: rest
  leads : Way tree true linkLimit [] front (.present base)
  directory : tree.get? base = some .directory
  vacant : ∀ place, base ++ [name] <+: place →
    tree.get? place = none

theorem isSealed_of_not_isAskable
    {root : Path}
    (hRoot : root.IsCanonical)
    (h : ¬ root.IsAskable)
    (tree : FileTree) :
    tree.IsSealed root := by
  have hBelow {path : Path} (hPath : path.IsCanonical)
      (hSlashes : path.slashes = root.slashes)
      (hSegments : root.segments <+: path.segments) :
      ¬ path.IsAskable := by
    intro hAskable
    exact h (hAskable.of_prefix hRoot hPath hSlashes.symm
      hSegments)
  constructor
  · intro path hPath hSlashes hSegments
    exact makeDirectories_of_not_isAskable
      (hBelow hPath hSlashes hSegments) tree
  · intro path more content hPath hSlashes _ hSegments
    have hPrefix : root.segments <+: path.segments := by
      rw [hSegments]
      exact List.prefix_append _ _
    rcases find_of_not_isAskable
      (hBelow hPath hSlashes hPrefix) tree true with
      ⟨fault, hFind, _⟩
    exact ⟨fault, by rw [write, hFind]⟩

theorem IsShut.isSealed
    {root : Path}
    (h : tree.IsShut root.segments) :
    tree.IsSealed root := by
  constructor
  · intro path _ _ hSegments
    apply makeDirectories_keeps (P := (· = tree)) rfl
    intro now above place hNow _ hAbove hFind
    rw [hNow] at hFind
    exact absurd (find_iff_way.mp hFind).2
      (h.full _ hSegments _ hAbove place)
  · intro path more content _ _ hMore hSegments
    cases hFind : tree.find true path with
    | error fault => exact ⟨fault, by rw [write, hFind]⟩
    | ok located =>
        have hWay := (find_iff_way.mp hFind).2
        rw [hSegments] at hWay
        exact absurd hWay (h.unreached more hMore _ _)

/-
  If nothing stands at a path, either there is a free place
  on the way to it, or nothing can be made there.
-/
theorem sealed_or_spot
    (hRooted : tree.IsRooted)
    (hPath : path.IsCanonical)
    (hAbsent : tree.isThere path = false) :
    tree.IsSealed path ∨
      path.IsAskable ∧ Nonempty (Spot tree path) := by
  by_cases hAskable : path.IsAskable
  · have hOutside : ¬ tree.Enters path.segments := by
      intro hEnters
      rcases hEnters with ⟨base, hWay, _⟩
      rcases hWay.before_link with ⟨first, hFirst, _⟩
      have hFind := find_iff_way.mpr ⟨hAskable, hFirst⟩
      simp [isThere, hFind] at hAbsent
    rcases exists_stop hOutside with
      ⟨front, name, rest, hSegments, hEnters, hStops⟩
    rcases hEnters with ⟨base, hWay, hBase⟩
    have hName : Path.IsName name :=
      hPath.names name (by simp [hSegments])
    cases hEntry : tree.get? (base ++ [name]) with
    | some entry =>
        left
        apply IsShut.isSealed
        rw [hSegments]
        exact isShut_of_stop hName hWay hBase hStops hEntry
    | none =>
        refine .inr ⟨hAskable, ⟨?_⟩⟩
        refine ⟨front, name, rest, base, hSegments, hWay,
          hBase, ?_⟩
        intro place hPlace
        exact hRooted.none_below hEntry hPlace
  · exact .inl (isSealed_of_not_isAskable hPath hAskable tree)

-- What Grows at a Free Place

namespace Spot

variable {root : Path}

/- The place that is free. -/
def free
    (spot : Spot tree root) : Place :=
  spot.base ++ [spot.name]

/- The names from the directory on to the path itself. -/
def tail
    (spot : Spot tree root) : List Text :=
  spot.name :: spot.rest

/-
  What may stand at names below the directory: something
  other than a link, on the way to the path or below it, and
  a directory if it is not below.
-/
structure Admits
    (spot : Spot tree root)
    (names : List Text)
    (entry : Entry) : Prop where
  named : ∀ name ∈ names, Path.IsName name
  short : ∀ name ∈ names,
    (Utf8.encode name).length ≤ nameLimit
  comparable : names <+: spot.tail ∨ spot.tail <+: names
  directory : names <+: spot.tail → entry = .directory
  linkless : ∀ target, entry ≠ .link target

/- A tree that has grown at a free place, and only there. -/
structure Grows
    (spot : Spot tree root)
    (now : FileTree) : Prop where
  rooted : now.IsRooted
  kept : ∀ place, ¬ spot.free <+: place →
    now.get? place = tree.get? place
  listed : ∀ place entry, spot.free <+: place →
    now.get? place = some entry →
      ∃ names, place = spot.base ++ names ∧
        spot.Admits names entry

theorem grows
    (spot : Spot tree root)
    (hRooted : tree.IsRooted) :
    spot.Grows tree where
  rooted := hRooted
  kept := fun _ _ => rfl
  listed := by
    intro place entry hPlace hEntry
    rw [spot.vacant place hPlace] at hEntry
    cases hEntry

namespace Grows

variable {spot : Spot tree root}

theorem keeps
    (h : spot.Grows now) :
    Keeps tree now := by
  intro place entry hEntry
  rw [h.kept place]
  · exact hEntry
  · intro hPlace
    rw [spot.vacant place hPlace] at hEntry
    cases hEntry

theorem free_isPrefix
    (spot : Spot tree root)
    (more : List Text) :
    spot.free <+: spot.base ++ spot.name :: more :=
  ⟨more, by simp [free]⟩

/- No link stands at the free place or below it. -/
theorem linkless
    (h : spot.Grows now)
    {front more : List Text}
    (hFront : front <+: spot.name :: more)
    (target : Text) :
    now.get? (spot.base ++ front) ≠ some (.link target) := by
  intro hLink
  cases front with
  | nil =>
      rw [List.append_nil,
        h.keeps _ _ spot.directory] at hLink
      cases hLink
  | cons name others =>
      rw [(List.cons_prefix_cons.mp hFront).1] at hLink
      rcases h.listed _ _ (free_isPrefix spot others) hLink with
        ⟨_, _, hAdmits⟩
      exact hAdmits.linkless target rfl

/-
  What lies beyond the free place is found where its names
  say, from the directory on.
-/
theorem place_eq
    (h : spot.Grows now)
    (hNames : ∀ name ∈ spot.name :: more, Path.IsName name)
    (hWay : Way now last linkLimit []
      (spot.front ++ spot.name :: more) located) :
    located.place = spot.base ++ spot.name :: more ∧
      ∀ name ∈ spot.name :: more,
        (Utf8.encode name).length ≤ nameLimit := by
  rcases spot.leads.followed spot.directory with
    ⟨left, hLeft⟩
  have hFollow := follow_of_way hWay
  rw [hLeft now h.keeps last _ (by simp)] at hFollow
  have hRest := way_of_follow hFollow
  exact hRest.place_eq hNames fun _ => h.linkless

/- Something more may be put where it is admitted. -/
theorem put
    (h : spot.Grows now)
    {above : Place}
    {entry : Entry}
    (hPlace : above ++ [name] =
      spot.base ++ spot.name :: more)
    (hAbove : now.get? above = some .directory)
    (hOld : now.get? (above ++ [name]) ≠ some .directory)
    (hAdmits : spot.Admits (spot.name :: more) entry) :
    spot.Grows (now.put (above ++ [name]) entry) where
  rooted := h.rooted.put hAbove hOld
  kept := by
    intro place hOutside
    rw [get?_put (by simp), if_neg]
    · exact h.kept place hOutside
    · intro hSame
      rw [hSame, hPlace] at hOutside
      exact hOutside (free_isPrefix spot more)
  listed := by
    intro place found hInside hFound
    rw [get?_put (by simp)] at hFound
    split at hFound
    · next hSame =>
        cases hFound
        exact ⟨_, hSame.trans hPlace, hAdmits⟩
    · exact h.listed place found hInside hFound

/- What is missing on the way lies beyond the free place. -/
theorem beyond
    (h : spot.Grows now)
    {front further : List Text}
    (hRoot : root.segments <+: further)
    (hFront : front <+: further)
    (hWay : Way now false linkLimit [] front
      (.missing place)) :
    ∃ more, front = spot.front ++ spot.name :: more := by
  have hStop : spot.front ++ [spot.name] <+: further := by
    refine List.IsPrefix.trans ?_ hRoot
    rw [spot.segments]
    exact ⟨spot.rest, by simp⟩
  rcases List.prefix_or_prefix_of_prefix hFront hStop with
    hAbove | hBelow
  · rcases List.prefix_concat_iff.mp hAbove with
      hSame | hBefore
    · exact ⟨[], hSame⟩
    · rcases hBefore with ⟨others, hOthers⟩
      have hLeads := spot.leads.persists h.keeps
      rw [← hOthers] at hLeads
      have hEnters : now.Enters (front ++ others) :=
        ⟨spot.base, hLeads, h.keeps _ _ spot.directory⟩
      exact absurd hWay hEnters.of_append.not_missing
  · rcases hBelow with ⟨more, hMore⟩
    exact ⟨more, by simpa using hMore.symm⟩

/- Directories made on a way through the path leave it so. -/
theorem makeDirectories
    (h : spot.Grows now)
    (hPath : path.IsCanonical)
    {further : List Text}
    (hRoot : root.segments <+: further)
    (hFurther : path.segments <+: further) :
    spot.Grows (now.makeDirectories path).2 := by
  apply makeDirectories_keeps h
  intro now above place h _ hAbove hFind
  have hWay := (find_iff_way.mp hFind).2
  have hOn := hAbove.trans hFurther
  rcases h.beyond hRoot hOn hWay with ⟨more, hBeyond⟩
  have hNames : ∀ name ∈ spot.name :: more,
      Path.IsName name := by
    intro name hMem
    apply hPath.names
    apply hAbove.subset
    rw [hBeyond]
    exact List.mem_append_right _ hMem
  have hComparable : spot.name :: more <+: spot.tail ∨
      spot.tail <+: spot.name :: more := by
    rw [hBeyond] at hOn
    rw [spot.segments] at hRoot
    rcases List.prefix_or_prefix_of_prefix hOn hRoot with
      hShorter | hLonger
    · exact .inl
        ((List.prefix_append_right_inj _).mp hShorter)
    · exact .inr
        ((List.prefix_append_right_inj _).mp hLonger)
  rw [hBeyond] at hWay
  rcases h.place_eq hNames hWay with ⟨hPlace, hShort⟩
  rcases hWay.missing with ⟨parent, name, hFound, hParent,
    hNone⟩
  rw [hFound] at hNone ⊢
  apply h.put (hFound.symm.trans hPlace) hParent
  · rw [hNone]
    simp
  · exact ⟨hNames, hShort, hComparable, fun _ => rfl,
      by simp⟩

/- So do files written strictly below it. -/
theorem write
    (h : spot.Grows now)
    (hPath : path.IsCanonical)
    (hMore : more ≠ [])
    (hSegments : path.segments = root.segments ++ more)
    {content : List UInt8}
    {after : FileTree}
    (hWrite : now.write path content = .ok after) :
    spot.Grows after := by
  have hBeyond : path.segments =
      spot.front ++ spot.name :: (spot.rest ++ more) := by
    rw [hSegments, spot.segments]
    simp
  have hNames : ∀ name ∈ spot.name :: (spot.rest ++ more),
      Path.IsName name := by
    intro name hMem
    apply hPath.names
    rw [hBeyond]
    exact List.mem_append_right _ hMem
  have hAdmits (hShort : ∀ name ∈
      spot.name :: (spot.rest ++ more),
        (Utf8.encode name).length ≤ nameLimit) :
      spot.Admits (spot.name :: (spot.rest ++ more))
        (.file content) := by
    refine ⟨hNames, hShort, .inr ⟨more, rfl⟩, ?_, by simp⟩
    intro hShorter
    have hLength := hShorter.length_le
    have hPositive := List.length_pos_iff.mpr hMore
    simp only [tail, List.length_cons, List.length_append]
      at hLength
    omega
  unfold FileTree.write at hWrite
  split at hWrite
  · cases hWrite
  · next place hFind =>
      cases hWrite
      have hWay := (find_iff_way.mp hFind).2
      rw [hBeyond] at hWay
      rcases h.place_eq hNames hWay with ⟨hPlace, hShort⟩
      rcases hWay.missing with ⟨above, name, hFound, hAbove,
        hNone⟩
      rw [hFound] at hNone ⊢
      apply h.put (hFound.symm.trans hPlace) hAbove
      · rw [hNone]
        simp
      · exact hAdmits hShort
  · next place hFind =>
      split at hWrite
      · cases hWrite
      · next hFile =>
          cases hWrite
          have hWay := (find_iff_way.mp hFind).2
          rw [hBeyond] at hWay
          rcases h.place_eq hNames hWay with ⟨hPlace, hShort⟩
          rcases hWay.entry h.rooted rfl with ⟨entry, hEntry⟩
          rcases List.eq_nil_or_concat' place with
            hRoot | ⟨above, name, hFound⟩
          · simp [Located.place, hRoot] at hPlace
          · rw [hFound] at hEntry hFile ⊢
            apply h.put (hFound.symm.trans hPlace)
              (h.rooted _ _ _ hEntry)
            · simpa [isDirectoryAt] using hFile
            · exact hAdmits hShort

/- Directories there are denoted by what spells them. -/
theorem denotes
    (h : spot.Grows now)
    (hPath : path.IsAskable)
    {names : List Text}
    (hAdmits : spot.Admits names .directory)
    (hSegments : path.segments = spot.front ++ names)
    (hNames : names ≠ [])
    (hEntry : now.get? (spot.base ++ names) =
      some .directory) :
    now.find false path =
        .ok (.present (spot.base ++ names)) ∧
      now.Denotes path (spot.base ++ names) := by
  rcases spot.leads.followed spot.directory with
    ⟨left, hLeft⟩
  have hFind (last : Bool) : now.find last path =
      .ok (.present (spot.base ++ names)) := by
    apply find_iff_way.mpr
    refine ⟨hPath, way_of_follow ?_⟩
    rw [hSegments, hLeft now h.keeps last names hNames]
    exact follow_directories h.rooted hAdmits.named
      hAdmits.short hEntry last left
  exact ⟨hFind false, hFind true, hEntry⟩

end Grows

end Spot

end FileTree

end ThriftTypings
