import ThriftTypings.Proofs.FileTree.Plain

/-
  This file proves where paths lead in any tree, over links
  on the way or not.

  A way is a list of the turns that following a path takes.
  What holds of where a path leads is then proved turn by
  turn: without links on the way a path leads to what it
  spells, a last link is all that tells apart the two ways
  of following, and no way leads through what was removed.

  Key definitions include:
    * `Path.IsProper`
    * `FileTree.Way`

  Key theorems include:
    * `FileTree.Way.before_link`
    * `FileTree.Way.not_erased`
-/

namespace ThriftTypings

variable {more : List Text} {name : Text}

-- Ways

/- A name that is looked up, and not too long for that. -/
structure Path.IsProper
    (name : Text) : Prop where
  nonempty : name ≠ []
  notHere : name ≠ Path.here
  notAbove : name ≠ Path.above
  short : (Utf8.encode name).length ≤ nameLimit

/- Where a located entry stands, or would stand. -/
def Located.place : Located → Place
  | .present place => place
  | .missing place => place

namespace FileTree

variable {tree : FileTree} {last : Bool} {links : Nat}
variable {place : Place} {names : List Text}
variable {located : Located}

/-
  The ways from a place along names to where they lead. Each
  constructor is one turn, and each one but the last two
  needs no link.
-/
inductive Way
    (tree : FileTree)
    (last : Bool) :
    Nat → Place → List Text → Located → Prop where
  | done
      {links : Nat} {place : Place} :
      Way tree last links place [] (.present place)
  | stays
      {links : Nat} {place : Place} {name : Text}
      {more : List Text} {located : Located}
      (directory : tree.get? place = some .directory)
      (same : name = [] ∨ name = Path.here)
      (rest : Way tree last links place more located) :
      Way tree last links place (name :: more) located
  | climbs
      {links : Nat} {place : Place}
      {more : List Text} {located : Located}
      (directory : tree.get? place = some .directory)
      (rest :
        Way tree last links place.dropLast more located) :
      Way tree last links place (Path.above :: more) located
  | misses
      {links : Nat} {place : Place} {name : Text}
      (directory : tree.get? place = some .directory)
      (proper : Path.IsProper name)
      (entry : tree.get? (place ++ [name]) = none) :
      Way tree last links place [name]
        (.missing (place ++ [name]))
  | enters
      {links : Nat} {place : Place} {name : Text}
      {more : List Text} {located : Located}
      (directory : tree.get? place = some .directory)
      (proper : Path.IsProper name)
      (entry :
        tree.get? (place ++ [name]) = some .directory)
      (rest :
        Way tree last links (place ++ [name]) more located) :
      Way tree last links place (name :: more) located
  | ends
      {links : Nat} {place : Place} {name : Text}
      {content : List UInt8}
      (directory : tree.get? place = some .directory)
      (proper : Path.IsProper name)
      (entry :
        tree.get? (place ++ [name]) = some (.file content)) :
      Way tree last links place [name]
        (.present (place ++ [name]))
  | stops
      {links : Nat} {place : Place} {name target : Text}
      (directory : tree.get? place = some .directory)
      (proper : Path.IsProper name)
      (entry :
        tree.get? (place ++ [name]) = some (.link target))
      (unasked : last = false) :
      Way tree last links place [name]
        (.present (place ++ [name]))
  | crosses
      {links : Nat} {place : Place} {name target : Text}
      {more : List Text} {located : Located}
      (directory : tree.get? place = some .directory)
      (proper : Path.IsProper name)
      (entry :
        tree.get? (place ++ [name]) = some (.link target))
      (asked : more ≠ [] ∨ last = true)
      (rest :
        Way tree last links
          (if Text.startsWith target ['/'] then []
            else place)
          (Text.pieces '/' target ++ more) located) :
      Way tree last (links + 1) place (name :: more) located

theorem isProper_of_passed
    (hSame : ¬ (name = [] ∨ name = Path.here))
    (hAbove : name ≠ Path.above)
    (hShort : ¬ nameLimit < (Utf8.encode name).length) :
    Path.IsProper name := by
  rw [not_or] at hSame
  exact ⟨hSame.1, hSame.2, hAbove, Nat.not_lt.mp hShort⟩

/- What following names comes to has a way to it. -/
theorem way_of_follow
    (h : tree.follow last links place names = .ok located) :
    Way tree last links place names located := by
  fun_induction follow tree last links place names with
  | case1 links place =>
      cases h
      exact .done
  | case2 => cases h
  | case3 links place name more hHere hSame ih =>
      exact .stays (not_not.mp hHere) hSame (ih h)
  | case4 links place more hHere _ ih =>
      exact .climbs (not_not.mp hHere) (ih h)
  | case5 => cases h
  | case6 links place name hHere hSame hAbove hShort hEntry =>
      cases h
      exact .misses (not_not.mp hHere)
        (isProper_of_passed hSame hAbove hShort) hEntry
  | case7 => cases h
  | case8 links place name more hHere hSame hAbove hShort
      hEntry ih =>
      exact .enters (not_not.mp hHere)
        (isProper_of_passed hSame hAbove hShort) hEntry
        (ih h)
  | case9 links place name hHere hSame hAbove hShort content
      hEntry =>
      cases h
      exact .ends (not_not.mp hHere)
        (isProper_of_passed hSame hAbove hShort) hEntry
  | case10 => cases h
  | case11 links place name more hHere hSame hAbove hShort
      target hEntry hLast =>
      cases h
      rcases hLast with ⟨hMore, hUnasked⟩
      subst hMore
      exact .stops (not_not.mp hHere)
        (isProper_of_passed hSame hAbove hShort) hEntry
        (by simpa using hUnasked)
  | case12 => cases h
  | case13 place name more hHere hSame hAbove hShort target
      hEntry hLast fewer ih =>
      refine .crosses (not_not.mp hHere)
        (isProper_of_passed hSame hAbove hShort) hEntry ?_
        (ih h)
      by_cases hMore : more = []
      · right
        simpa [hMore] using hLast
      · exact .inl hMore

/- Following a proper name is decided by its entry. -/
theorem follow_proper
    (hHere : tree.get? place = some .directory)
    (h : Path.IsProper name)
    (more : List Text) :
    tree.follow last links place (name :: more) =
      match tree.get? (place ++ [name]) with
      | none =>
          if more = [] then .ok (.missing (place ++ [name]))
          else .error .notFound
      | some .directory =>
          tree.follow last links (place ++ [name]) more
      | some (.file _) =>
          if more = [] then .ok (.present (place ++ [name]))
          else .error .notDirectory
      | some (.link target) =>
          if more = [] ∧ !last then
            .ok (.present (place ++ [name]))
          else
            match links with
            | 0 => .error .tooManyLinks
            | fewer + 1 =>
                tree.follow last fewer
                  (if Text.startsWith target ['/'] then []
                    else place)
                  (Text.pieces '/' target ++ more) := by
  have hShort : ¬ nameLimit < (Utf8.encode name).length :=
    Nat.not_lt.mpr h.short
  rw [follow]
  refine (if_neg (not_not.mpr hHere)).trans ?_
  refine (if_neg
    (not_or.mpr ⟨h.nonempty, h.notHere⟩)).trans ?_
  refine (if_neg h.notAbove).trans ?_
  exact if_neg hShort

theorem follow_of_way
    (h : Way tree last links place names located) :
    tree.follow last links place names = .ok located := by
  induction h with
  | done => rw [follow]
  | stays hHere hSame _ ih =>
      rw [follow]
      simp only [hHere, ne_eq, not_true_eq_false, if_false,
        hSame, if_true, ih]
  | climbs hHere _ ih =>
      have hOther : ¬ (Path.above = [] ∨
          Path.above = Path.here) := by decide
      rw [follow]
      simp only [hHere, ne_eq, not_true_eq_false, if_false,
        hOther, if_true, ih]
  | misses hHere hProper hEntry =>
      simp [follow_proper hHere hProper, hEntry]
  | enters hHere hProper hEntry _ ih =>
      simp [follow_proper hHere hProper, hEntry, ih]
  | ends hHere hProper hEntry =>
      simp [follow_proper hHere hProper, hEntry]
  | stops hHere hProper hEntry hUnasked =>
      simp [follow_proper hHere hProper, hEntry, hUnasked]
  | @crosses links place name target more located hHere
      hProper hEntry hAsked _ ih =>
      rw [follow_proper hHere hProper, hEntry]
      dsimp only
      rw [if_neg, ih]
      intro hLast
      rcases hAsked with hMore | hAsked
      · exact hMore hLast.1
      · simp [hAsked] at hLast

theorem follow_eq_ok_iff :
    tree.follow last links place names = .ok located ↔
      Way tree last links place names located :=
  ⟨way_of_follow, follow_of_way⟩

/- A path leads somewhere if it may be asked for. -/
theorem find_iff_way
    {path : Path} :
    tree.find last path = .ok located ↔
      ('\x00' ∉ path.text ∧ path.IsShort) ∧
        Way tree last linkLimit [] path.segments located := by
  rw [← follow_eq_ok_iff]
  unfold find Path.IsShort
  dsimp only
  split
  · next hNull => simp [hNull]
  · next hNull =>
      split
      · next hLong => simp [Nat.not_le.mpr hLong]
      · next hLong =>
          have hShort := Nat.not_lt.mp hLong
          split
          · next hError => simp [hError]
          · next found hFound =>
              simp [hNull, hShort, hFound]

-- Where Ways Lead

namespace Way

/-
  Without links a way leads to what its names spell, and all
  of them are looked up.
-/
theorem place_eq
    (h : Way tree last links place names located)
    (hNames : ∀ name ∈ names, Path.IsName name)
    (hLinkless : ∀ front, front <+: names →
      ∀ target, tree.get? (place ++ front) ≠
        some (.link target)) :
    located.place = place ++ names ∧
      ∀ name ∈ names,
        (Utf8.encode name).length ≤ nameLimit := by
  induction h with
  | done => simp [Located.place]
  | stays _ hSame _ _ =>
      have hName := hNames _ List.mem_cons_self
      rcases hSame with hNil | hHere
      · exact absurd hNil hName.nonempty
      · exact absurd hHere hName.notHere
  | climbs _ _ _ =>
      have hName := hNames _ List.mem_cons_self
      exact absurd rfl hName.notAbove
  | misses _ hProper _ =>
      exact ⟨rfl, by simpa using hProper.short⟩
  | @enters links place name more located _ hProper _ _ ih =>
      have hMore := ih
        (fun other hMem => hNames other (by simp [hMem]))
        (fun front hFront target => by
          have hNext := hLinkless (name :: front)
            (List.cons_prefix_cons.mpr ⟨rfl, hFront⟩) target
          simpa using hNext)
      exact ⟨by simpa using hMore.1,
        List.forall_mem_cons.mpr ⟨hProper.short, hMore.2⟩⟩
  | ends _ hProper _ =>
      exact ⟨rfl, by simpa using hProper.short⟩
  | stops _ hProper _ _ =>
      exact ⟨rfl, by simpa using hProper.short⟩
  | @crosses links place name target more located _ _ hEntry
      _ _ _ =>
      have hNot := hLinkless [name] (by simp) target
      exact absurd hEntry hNot

/-
  Whoever does not follow a last link comes to the same
  place, or stands in front of a link.
-/
theorem before_link
    {found : Place}
    (h : Way tree true links place names (.present found)) :
    ∃ first,
      Way tree false links place names (.present first) ∧
        (first = found ∨
          ∃ target, tree.get? first = some (.link target)) := by
  generalize hEnd : Located.present found = located at h
  induction h with
  | done =>
      cases hEnd
      exact ⟨_, .done, .inl rfl⟩
  | stays hHere hSame _ ih =>
      rcases ih hEnd with ⟨first, hFirst, hCase⟩
      exact ⟨first, .stays hHere hSame hFirst, hCase⟩
  | climbs hHere _ ih =>
      rcases ih hEnd with ⟨first, hFirst, hCase⟩
      exact ⟨first, .climbs hHere hFirst, hCase⟩
  | misses => cases hEnd
  | enters hHere hProper hEntry _ ih =>
      rcases ih hEnd with ⟨first, hFirst, hCase⟩
      exact ⟨first, .enters hHere hProper hEntry hFirst,
        hCase⟩
  | ends hHere hProper hEntry =>
      cases hEnd
      exact ⟨_, .ends hHere hProper hEntry, .inl rfl⟩
  | stops _ _ _ hUnasked => cases hUnasked
  | @crosses links place name target more located hHere
      hProper hEntry _ _ ih =>
      by_cases hMore : more = []
      · subst hMore
        exact ⟨_, .stops hHere hProper hEntry rfl,
          .inr ⟨target, hEntry⟩⟩
      · rcases ih hEnd with ⟨first, hFirst, hCase⟩
        exact ⟨first, .crosses hHere hProper hEntry
          (.inl hMore) hFirst, hCase⟩

/- A way that ends with a name does not end at the root. -/
theorem ne_root
    {found : Place}
    {front : List Text}
    (h : Way tree false links place (front ++ [name])
      (.present found))
    (hName : Path.IsName name) :
    found ≠ [] := by
  generalize hNames : front ++ [name] = names at h
  generalize hEnd : Located.present found = located at h
  -- the last name stays the last one along the way
  induction h generalizing front with
  | done => simp at hNames
  | stays _ hSame _ ih =>
      cases front with
      | nil =>
          cases hNames
          rcases hSame with hNil | hHere
          · exact absurd hNil hName.nonempty
          · exact absurd hHere hName.notHere
      | cons other front =>
          simp only [List.cons_append, List.cons.injEq]
            at hNames
          exact ih hNames.2 hEnd
  | climbs _ _ ih =>
      cases front with
      | nil =>
          cases hNames
          exact absurd rfl hName.notAbove
      | cons other front =>
          simp only [List.cons_append, List.cons.injEq]
            at hNames
          exact ih hNames.2 hEnd
  | misses => cases hEnd
  | @enters links place other more located _ _ _ hRest ih =>
      cases front with
      | nil =>
          cases hNames
          cases hRest
          cases hEnd
          simp
      | cons other front =>
          simp only [List.cons_append, List.cons.injEq]
            at hNames
          exact ih hNames.2 hEnd
  | ends =>
      cases hEnd
      simp
  | stops =>
      cases hEnd
      simp
  | @crosses links place other target more located _ _ _
      hAsked _ ih =>
      cases front with
      | nil =>
          cases hNames
          simp at hAsked
      | cons other front =>
          simp only [List.cons_append, List.cons.injEq]
            at hNames
          rw [← hNames.2, ← List.append_assoc] at ih
          exact ih rfl hEnd

-- Ways in a Tree After Removal

theorem directory
    (h : Way tree last links place (name :: more) located) :
    tree.get? place = some .directory := by
  cases h <;> assumption

theorem tail_of_same
    (h : Way tree last links place (name :: more) located)
    (hSame : name = [] ∨ name = Path.here) :
    Way tree last links place more located := by
  have hNot : ¬ Path.IsProper name := by
    intro hProper
    rcases hSame with hNil | hHere
    · exact hProper.nonempty hNil
    · exact hProper.notHere hHere
  cases h with
  | stays _ _ hRest => exact hRest
  | climbs _ _ => simp [Path.above, Path.here] at hSame
  | misses _ hProper _ => exact absurd hProper hNot
  | enters _ hProper _ _ => exact absurd hProper hNot
  | ends _ hProper _ => exact absurd hProper hNot
  | stops _ hProper _ _ => exact absurd hProper hNot
  | crosses _ hProper _ _ _ => exact absurd hProper hNot

theorem tail_of_above
    (h : Way tree last links place (Path.above :: more)
      located) :
    Way tree last links place.dropLast more located := by
  cases h with
  | stays _ hSame _ => simp [Path.above, Path.here] at hSame
  | climbs _ hRest => exact hRest
  | misses _ hProper _ => exact absurd rfl hProper.notAbove
  | enters _ hProper _ _ =>
      exact absurd rfl hProper.notAbove
  | ends _ hProper _ => exact absurd rfl hProper.notAbove
  | stops _ hProper _ _ => exact absurd rfl hProper.notAbove
  | crosses _ hProper _ _ _ =>
      exact absurd rfl hProper.notAbove

/- A way goes on from a name into a directory or a link. -/
theorem tail_of_proper
    (h : Way tree last links place (name :: more) located)
    (hProper : Path.IsProper name)
    (hMore : more ≠ []) :
    tree.get? (place ++ [name]) = some .directory ∧
        Way tree last links (place ++ [name]) more located ∨
      ∃ target fewer,
        tree.get? (place ++ [name]) = some (.link target) ∧
          links = fewer + 1 ∧
          Way tree last fewer
            (if Text.startsWith target ['/'] then []
              else place)
            (Text.pieces '/' target ++ more) located := by
  cases h with
  | stays _ hSame _ =>
      rcases hSame with hNil | hHere
      · exact absurd hNil hProper.nonempty
      · exact absurd hHere hProper.notHere
  | climbs _ _ => exact absurd rfl hProper.notAbove
  | misses => exact absurd rfl hMore
  | enters _ _ hEntry hRest => exact .inl ⟨hEntry, hRest⟩
  | ends => exact absurd rfl hMore
  | stops => exact absurd rfl hMore
  | crosses _ _ hEntry _ hRest =>
      exact .inr ⟨_, _, hEntry, rfl, hRest⟩

/-
  No way leads on from what was removed, if the names in
  front lead there in the tree as it was.
-/
theorem not_erased
    {cleared : Place}
    (hCleared : cleared ≠ [])
    (h : Way tree true links place names located)
    (hAbove : cleared <+: located.place)
    (hMore : more ≠ [])
    {left : Located} :
    ¬ Way (tree.erase cleared) last links place
      (names ++ more) left := by
  have hFurther (front : List Text) : front ++ more ≠ [] :=
    List.append_ne_nil_of_right_ne_nil front hMore
  intro hWay
  induction h with
  | @done links place =>
      -- no directory is left to look anything up in
      have hPlace : cleared <+: place := hAbove
      rcases List.exists_cons_of_ne_nil hMore with
        ⟨name, others, hCons⟩
      rw [hCons] at hWay
      have hHere := hWay.directory
      rw [get?_erase hCleared, if_pos hPlace] at hHere
      cases hHere
  | stays _ hSame _ ih =>
      exact ih hAbove (hWay.tail_of_same hSame)
  | climbs _ _ ih =>
      exact ih hAbove hWay.tail_of_above
  | misses _ hProper hEntry =>
      rcases hWay.tail_of_proper hProper (hFurther []) with
        ⟨hNew, _⟩ | ⟨_, _, hNew, _⟩
      · rw [get?_of_erase hNew] at hEntry
        cases hEntry
      · rw [get?_of_erase hNew] at hEntry
        cases hEntry
  | enters _ hProper hEntry _ ih =>
      rcases hWay.tail_of_proper hProper (hFurther _) with
        ⟨_, hRest⟩ | ⟨_, _, hNew, _⟩
      · exact ih hAbove hRest
      · rw [get?_of_erase hNew] at hEntry
        cases hEntry
  | ends _ hProper hEntry =>
      rcases hWay.tail_of_proper hProper (hFurther []) with
        ⟨hNew, _⟩ | ⟨_, _, hNew, _⟩
      · rw [get?_of_erase hNew] at hEntry
        cases hEntry
      · rw [get?_of_erase hNew] at hEntry
        cases hEntry
  | stops _ _ _ hUnasked => cases hUnasked
  | crosses _ hProper hEntry _ _ ih =>
      rw [List.cons_append] at hWay
      rcases hWay.tail_of_proper hProper (hFurther _) with
        ⟨hNew, _⟩ | ⟨target, fewer, hNew, hLinks, hRest⟩
      · rw [get?_of_erase hNew] at hEntry
        cases hEntry
      · rw [get?_of_erase hNew] at hEntry
        cases hEntry
        cases hLinks
        rw [← List.append_assoc] at hRest
        exact ih hAbove hRest

end Way

-- What a Path Denotes

/- The directory that a path leads to, over all links. -/
structure Denotes
    (tree : FileTree)
    (path : Path)
    (place : Place) : Prop where
  find : tree.find true path = .ok (.present place)
  entry : tree.get? place = some .directory

/- Is there no link on the way that a path spells? -/
def Linkless
    (tree : FileTree)
    (path : Path) : Prop :=
  ∀ front, front <+: path.segments →
    ∀ target, tree.get? front ≠ some (.link target)

variable {path : Path}

/- Without links a path leads to what it spells. -/
theorem Linkless.place_eq
    (h : tree.Linkless path)
    (hPath : path.IsCanonical)
    (hFind : tree.find last path = .ok located) :
    located.place = path.segments := by
  have hWay := (find_iff_way.mp hFind).2
  have hPlace := (hWay.place_eq hPath.names
    fun front hFront => by
      rw [List.nil_append]
      exact h front hFront).1
  simpa using hPlace

/-
  A path that denotes a directory leads there without its
  last link as well, or it is the path of a link.
-/
theorem Denotes.before_link
    (h : tree.Denotes path place) :
    tree.find false path = .ok (.present place) ∨
      ∃ first target,
        tree.find false path = .ok (.present first) ∧
          tree.get? first = some (.link target) := by
  rcases find_iff_way.mp h.find with ⟨hLegal, hWay⟩
  rcases hWay.before_link with ⟨first, hFirst, hCase⟩
  have hFind := find_iff_way.mpr ⟨hLegal, hFirst⟩
  rcases hCase with hSame | ⟨target, hEntry⟩
  · rw [hSame] at hFind
    exact .inl hFind
  · exact .inr ⟨first, target, hFind, hEntry⟩

/- Below the root of all, a path leads to another place. -/
theorem ne_root_of_find
    (hPath : path.IsCanonical)
    (hSegments : path.segments ≠ [])
    (hFind : tree.find false path = .ok (.present place)) :
    place ≠ [] := by
  have hWay := (find_iff_way.mp hFind).2
  have hSplit := List.dropLast_concat_getLast hSegments
  rw [← hSplit] at hWay
  exact hWay.ne_root
    (hPath.names _ (List.getLast_mem hSegments))

/- Nothing can be read below what was removed. -/
theorem read_erased
    {cleared : Place}
    {root file : Path}
    {below : List Text}
    (hCleared : cleared ≠ [])
    (hRoot : tree.find true root = .ok located)
    (hAbove : cleared <+: located.place)
    (hBelow : below ≠ [])
    (hFile : file.segments = root.segments ++ below)
    (content : List UInt8) :
    (tree.erase cleared).read file ≠ .ok content := by
  intro hRead
  unfold read at hRead
  split at hRead
  · cases hRead
  · cases hRead
  · next hFind =>
      have hWay := (find_iff_way.mp hFind).2
      rw [hFile] at hWay
      exact (find_iff_way.mp hRoot).2.not_erased hCleared
        hAbove hBelow hWay

end FileTree

end ThriftTypings
