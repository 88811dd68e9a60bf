import ThriftTypings.FileTree.Change
import ThriftTypings.Proofs.Path.Canonical

/-
  This file proves what reading, writing and the making of
  directories come to in a plain tree: one without links, in
  which whatever stands somewhere stands in a directory. A
  canonical path leads there to the place it spells.

  Key definitions include:
    * `FileTree.IsRooted`
    * `FileTree.IsPlain`

  Key theorems include:
    * `FileTree.widens_makeDirectories`
    * `FileTree.makeDirectories_of_legal`
-/

namespace ThriftTypings

namespace FileTree

variable {after : FileTree} {part : FileTree}
variable {other : Place}

variable {entry : Entry} {names : List Text} {name : Text}
variable {above below : Place} {more : List Text}

variable {tree : FileTree} {place : Place} {path : Path}

-- Entries

@[simp] theorem get?_nil
    (tree : FileTree) :
    tree.get? [] = some .directory :=
  rfl

theorem lookup_filter
    (keeps : Place → Bool)
    (entries : List (Place × Entry))
    (place : Place) :
    (entries.filter fun found => keeps found.1).lookup place =
      if keeps place then entries.lookup place else none := by
  induction entries with
  | nil => simp
  | cons found rest ih =>
      rcases found with ⟨other, entry⟩
      by_cases hOther : place = other
      · subst hOther
        cases hKeeps : keeps place with
        | true => simp [hKeeps]
        | false => simp [hKeeps, ih]
      · have hNot : (place == other) = false := by
          simpa using hOther
        cases hKeeps : keeps other with
        | true => simp [hKeeps, List.lookup_cons, hNot, ih]
        | false => simp [hKeeps, List.lookup_cons, hNot, ih]

/- What stands where after something was put somewhere. -/
theorem get?_put
    (hPlace : place ≠ [])
    (entry : Entry)
    (other : Place) :
    (tree.put place entry).get? other =
      if other = place then some entry
      else tree.get? other := by
  by_cases hOther : other = place
  · subst hOther
    simp [get?, put, hPlace]
  · have hNot : (other == place) = false := by
      simpa using hOther
    have hFilter := lookup_filter (fun found => found != place)
      tree.entries other
    have hKept : (other != place) = true := by
      simpa using hOther
    simp only [hKept, if_true] at hFilter
    simp only [get?, put, List.lookup_cons, hNot, hFilter,
      hOther, if_false]

/- What stands where after a place was cleared. -/
theorem get?_erase
    (hPlace : place ≠ [])
    (other : Place) :
    (tree.erase place).get? other =
      if place <+: other then none else tree.get? other := by
  have hFilter := lookup_filter
    (fun found => !place.isPrefixOf found) tree.entries other
  by_cases hRoot : other = []
  · subst hRoot
    simp [hPlace]
  · by_cases hBelow : place <+: other
    · have hKept := List.isPrefixOf_iff_prefix.mpr hBelow
      simp only [hKept, Bool.not_true, Bool.false_eq_true,
        if_false] at hFilter
      simp only [get?, erase, hRoot, hFilter, hBelow,
        if_true, if_false]
    · have hKept : place.isPrefixOf other = false :=
        Bool.eq_false_iff.mpr fun hPrefix =>
          hBelow (List.isPrefixOf_iff_prefix.mp hPrefix)
      simp only [hKept, Bool.not_false, if_true] at hFilter
      simp only [get?, erase, hRoot, hFilter, hBelow,
        if_false]

/- Clearing a place adds nothing to a tree. -/
theorem get?_of_erase
    (h : (tree.erase place).get? other = some entry) :
    tree.get? other = some entry := by
  have hFilter := lookup_filter
    (fun found => !place.isPrefixOf found) tree.entries other
  by_cases hRoot : other = []
  · subst hRoot
    exact h
  · simp only [get?, erase, hRoot, if_false] at h ⊢
    rw [hFilter] at h
    split at h
    · exact h
    · cases h

-- Rooted Trees

/- Does everything in the tree lie in a directory? -/
def IsRooted
    (tree : FileTree) : Prop :=
  ∀ place name entry,
    tree.get? (place ++ [name]) = some entry →
      tree.get? place = some .directory

namespace IsRooted

/- Above everything there are directories only. -/
theorem directory_above
    (hRooted : tree.IsRooted)
    (hEntry : tree.get? below = some entry)
    (hAbove : above <+: below)
    (hOther : above ≠ below) :
    tree.get? above = some .directory := by
  rcases hAbove with ⟨names, rfl⟩
  induction names using List.reverseRecOn
    generalizing entry with
  | nil => simp at hOther
  | append_singleton names name ih =>
      rw [← List.append_assoc] at hEntry
      have hParent := hRooted _ _ _ hEntry
      by_cases hNames : names = []
      · simpa [hNames] using hParent
      · exact ih hParent (by simpa using hNames)

/- Below what is missing there is nothing. -/
theorem none_below
    (hRooted : tree.IsRooted)
    (hNone : tree.get? above = none)
    (hAbove : above <+: below) :
    tree.get? below = none := by
  by_contra hThere
  rcases Option.ne_none_iff_exists'.mp hThere with
    ⟨entry, hEntry⟩
  by_cases hSame : above = below
  · rw [← hSame, hNone] at hEntry
    cases hEntry
  · rw [hRooted.directory_above hEntry hAbove hSame] at hNone
    cases hNone

/-
  Something may be put into a directory, if it does not take
  the place of another directory.
-/
theorem put
    (hRooted : tree.IsRooted)
    (hParent : tree.get? place = some .directory)
    (hOld : tree.get? (place ++ [name]) ≠
      some .directory) :
    (tree.put (place ++ [name]) entry).IsRooted := by
  have hGet (other : Place) :
      (tree.put (place ++ [name]) entry).get? other =
        if other = place ++ [name] then some entry
        else tree.get? other :=
    get?_put (by simp) entry other
  intro other last found hFound
  rw [hGet] at hFound ⊢
  split at hFound
  · next hSame =>
      rcases List.append_inj' hSame rfl with ⟨rfl, _⟩
      rw [if_neg (by simp)]
      exact hParent
  · have hOther := hRooted _ _ _ hFound
    split
    · next hSame => exact absurd (hSame ▸ hOther) hOld
    · exact hOther

/- A rooted tree stays one when a place is cleared. -/
theorem erase
    (hRooted : tree.IsRooted)
    (hPlace : place ≠ []) :
    (tree.erase place).IsRooted := by
  intro other name entry hEntry
  rw [get?_erase hPlace] at hEntry ⊢
  split at hEntry
  · cases hEntry
  · next hBelow =>
      have hOther := hRooted _ _ _ hEntry
      rw [if_neg]
      · exact hOther
      · exact fun hAbove =>
          hBelow (hAbove.trans (List.prefix_append _ _))

end IsRooted

-- Plain Trees

/-
  Is the tree plain? There are no links, and everything lies
  in a directory.
-/
structure IsPlain
    (tree : FileTree) : Prop where
  linkless : ∀ place target,
    tree.get? place ≠ some (.link target)
  rooted : ∀ place name entry,
    tree.get? (place ++ [name]) = some entry →
      tree.get? place = some .directory

/- Does a file stand at the place? -/
def IsFile
    (tree : FileTree)
    (place : Place) : Prop :=
  ∃ content, tree.get? place = some (.file content)

theorem IsFile.not_directory
    (h : tree.IsFile place) :
    tree.get? place ≠ some .directory := by
  rcases h with ⟨content, hContent⟩
  simp [hContent]

theorem IsPlain.isRooted
    (hPlain : tree.IsPlain) :
    tree.IsRooted :=
  hPlain.rooted

theorem IsPlain.directory_above
    (hPlain : tree.IsPlain)
    (hEntry : tree.get? below = some entry)
    (hAbove : above <+: below)
    (hOther : above ≠ below) :
    tree.get? above = some .directory :=
  hPlain.isRooted.directory_above hEntry hAbove hOther

/- What stands in a plain tree is a directory or a file. -/
theorem IsPlain.directory_or_file
    (hPlain : tree.IsPlain)
    (hEntry : tree.get? place = some entry) :
    entry = .directory ∨ ∃ content, entry = .file content := by
  cases entry with
  | directory => exact .inl rfl
  | file content => exact .inr ⟨content, rfl⟩
  | link target =>
      exact absurd hEntry (hPlain.linkless place target)

/- A tree is plain if all that is listed in it is. -/
theorem isPlain_of_entries
    (hLinkless : ∀ found ∈ tree.entries,
      isLink found.2 = false)
    (hRooted : ∀ found ∈ tree.entries,
      tree.get? found.1.dropLast = some .directory) :
    tree.IsPlain := by
  have hListed {place : Place} {entry : Entry}
      (h : tree.get? place = some entry) :
      place = [] ∧ entry = .directory ∨
        (place, entry) ∈ tree.entries := by
    unfold get? at h
    split at h
    · next hRoot =>
        cases h
        exact .inl ⟨hRoot, rfl⟩
    · rcases List.lookup_eq_some_iff.mp h with
        ⟨before, after, hSplit, _⟩
      rw [hSplit]
      exact .inr (by simp)
  constructor
  · intro place target h
    rcases hListed h with ⟨_, hEntry⟩ | hMem
    · cases hEntry
    · cases hLinkless _ hMem
  · intro place name entry h
    rcases hListed h with ⟨hRoot, _⟩ | hMem
    · simp at hRoot
    · simpa using hRooted _ hMem

/-
  Something other than a link may be put into a directory,
  if it does not take the place of another directory.
-/
theorem IsPlain.put
    (hPlain : tree.IsPlain)
    (hParent : tree.get? place = some .directory)
    (hOld : tree.get? (place ++ [name]) ≠ some .directory)
    (hEntry : ∀ target, entry ≠ .link target) :
    (tree.put (place ++ [name]) entry).IsPlain := by
  constructor
  · intro other target
    rw [get?_put (by simp)]
    split
    · simpa using hEntry target
    · exact hPlain.linkless other target
  · exact hPlain.isRooted.put hParent hOld

/- A plain tree stays one when a place is cleared. -/
theorem IsPlain.erase
    (hPlain : tree.IsPlain)
    (hPlace : place ≠ []) :
    (tree.erase place).IsPlain := by
  constructor
  · intro other target
    rw [get?_erase hPlace]
    split
    · simp
    · exact hPlain.linkless other target
  · exact hPlain.isRooted.erase hPlace

-- Following Names

/-
  Where names lead from a directory of a plain tree: to what
  stands at the place they spell, or to nothing there if
  what is above it is a directory.
-/
inductive Leads
    (tree : FileTree)
    (place : Place)
    (names : List Text) : Located → Prop where
  | present
      {entry : Entry}
      (entry : tree.get? (place ++ names) = some entry) :
      Leads tree place names (.present (place ++ names))
  | missing
      (names_ne : names ≠ [])
      (entry : tree.get? (place ++ names) = none)
      (parent :
        tree.get? (place ++ names.dropLast) =
          some .directory) :
      Leads tree place names (.missing (place ++ names))

theorem Leads.cons
    {located : Located}
    (h : Leads tree (place ++ [name]) more located) :
    Leads tree place (name :: more) located := by
  cases h with
  | present hEntry =>
      rw [List.append_assoc] at hEntry ⊢
      exact .present hEntry
  | missing hMore hEntry hParent =>
      rw [List.append_assoc] at hEntry hParent ⊢
      refine .missing (by simp) hEntry ?_
      rw [List.dropLast_cons_of_ne_nil hMore]
      exact hParent

theorem Leads.tail
    {located : Located}
    (hMore : more ≠ [])
    (h : Leads tree place (name :: more) located) :
    Leads tree (place ++ [name]) more located := by
  have hAppend (names : List Text) :
      place ++ name :: names = place ++ [name] ++ names := by
    simp
  cases h with
  | present hEntry =>
      rw [hAppend more] at hEntry ⊢
      exact .present hEntry
  | missing _ hEntry hParent =>
      rw [List.dropLast_cons_of_ne_nil hMore] at hParent
      rw [hAppend more] at hEntry ⊢
      rw [hAppend more.dropLast] at hParent
      exact .missing hMore hEntry hParent

/- One name is followed, into a directory or to the end. -/
theorem follow_cons
    (hPlain : tree.IsPlain)
    (hHere : tree.get? place = some .directory)
    (hName : Path.IsName name)
    (hShort : (Utf8.encode name).length ≤ nameLimit)
    (last : Bool)
    (links : Nat) :
    tree.follow last links place (name :: more) =
      match tree.get? (place ++ [name]) with
      | none =>
          if more = [] then .ok (.missing (place ++ [name]))
          else .error .notFound
      | some .directory =>
          tree.follow last links (place ++ [name]) more
      | some _ =>
          if more = [] then .ok (.present (place ++ [name]))
          else .error .notDirectory := by
  have hLimit : ¬ nameLimit < (Utf8.encode name).length :=
    Nat.not_lt.mpr hShort
  rw [follow]
  simp only [hHere, ne_eq, not_true_eq_false, if_false,
    hName.nonempty, hName.notHere, or_self, hName.notAbove,
    hLimit]
  cases hEntry : tree.get? (place ++ [name]) with
  | none => rfl
  | some entry =>
      cases entry with
      | directory => rfl
      | file content => rfl
      | link target =>
          exact absurd hEntry (hPlain.linkless _ _)

/- Names that lead somewhere lead to what they spell. -/
theorem leads_of_follow
    {last : Bool}
    {links : Nat}
    {located : Located}
    (hPlain : tree.IsPlain)
    (hHere : tree.get? place = some .directory)
    (hNames : ∀ name ∈ names, Path.IsName name)
    (h : tree.follow last links place names = .ok located) :
    (∀ name ∈ names,
        (Utf8.encode name).length ≤ nameLimit) ∧
      Leads tree place names located := by
  induction names generalizing place with
  | nil =>
      simp only [follow, Except.ok.injEq] at h
      subst h
      have hLeads :
          Leads tree place [] (.present (place ++ [])) :=
        .present (by simpa using hHere)
      exact ⟨by simp, by simpa using hLeads⟩
  | cons name more ih =>
      have hName := hNames name (by simp)
      have hMore : ∀ name ∈ more, Path.IsName name :=
        fun other hMem => hNames other (by simp [hMem])
      by_cases hLong :
          nameLimit < (Utf8.encode name).length
      · rw [follow] at h
        simp [hHere, hName.nonempty, hName.notHere,
          hName.notAbove, hLong] at h
      · have hShort := Nat.not_lt.mp hLong
        rw [follow_cons hPlain hHere hName hShort] at h
        split at h
        · next hEntry =>
            split at h
            · next hEnd =>
                subst hEnd
                cases h
                refine ⟨by simpa using hShort, ?_⟩
                exact .missing (by simp) hEntry
                  (by simpa using hHere)
            · cases h
        · next hEntry =>
            rcases ih hEntry hMore h with ⟨hRest, hLeads⟩
            exact ⟨by simpa using ⟨hShort, hRest⟩,
              hLeads.cons⟩
        · next hEntry =>
            split at h
            · next hEnd =>
                subst hEnd
                cases h
                refine ⟨by simpa using hShort, ?_⟩
                exact .present hEntry
            · cases h

/- Short names lead to what they spell. -/
theorem follow_of_leads
    {located : Located}
    (hPlain : tree.IsPlain)
    (hHere : tree.get? place = some .directory)
    (hNames : ∀ name ∈ names, Path.IsName name)
    (hShort : ∀ name ∈ names,
      (Utf8.encode name).length ≤ nameLimit)
    (h : Leads tree place names located)
    (last : Bool)
    (links : Nat) :
    tree.follow last links place names = .ok located := by
  induction names generalizing place with
  | nil =>
      cases h with
      | present hEntry => simp [follow]
      | missing hNil => exact absurd rfl hNil
  | cons name more ih =>
      rw [follow_cons hPlain hHere (hNames name (by simp))
        (hShort name (by simp))]
      have hMore : ∀ name ∈ more, Path.IsName name :=
        fun other hMem => hNames other (by simp [hMem])
      have hMoreShort : ∀ name ∈ more,
          (Utf8.encode name).length ≤ nameLimit :=
        fun other hMem => hShort other (by simp [hMem])
      by_cases hEnd : more = []
      · subst hEnd
        cases h with
        | present hEntry =>
            rw [hEntry]
            split
            · next hNone => cases hNone
            · next hSome => simp [follow]
            · simp
        | missing _ hEntry _ => simp [hEntry]
      · have hStep :
            tree.get? (place ++ [name]) = some .directory := by
          cases h with
          | present hEntry =>
              refine hPlain.directory_above hEntry ?_ ?_
              · exact ⟨more, by simp⟩
              · simpa using Ne.symm hEnd
          | missing _ _ hParent =>
              rw [List.dropLast_cons_of_ne_nil hEnd] at hParent
              by_cases hLast : more.dropLast = []
              · simpa [hLast] using hParent
              · refine hPlain.directory_above hParent ?_ ?_
                · exact ⟨more.dropLast, by simp⟩
                · simpa using Ne.symm hLast
        rw [hStep]
        exact ih hStep hMore hMoreShort (h.tail hEnd)

/-
  What stands in a plain part of a tree is found there, even
  if there are links in the rest of the tree.
-/
theorem follow_of_part
    (hPlain : part.IsPlain)
    (hPart : ∀ place entry, part.get? place = some entry →
      tree.get? place = some entry)
    (hNames : ∀ name ∈ names, Path.IsName name)
    (hShort : ∀ name ∈ names,
      (Utf8.encode name).length ≤ nameLimit)
    (hEntry : part.get? (place ++ names) = some entry)
    (last : Bool)
    (links : Nat) :
    tree.follow last links place names =
      .ok (.present (place ++ names)) := by
  induction names generalizing place with
  | nil => simp [follow]
  | cons name more ih =>
      have hName := hNames name (by simp)
      have hLimit : ¬ nameLimit < (Utf8.encode name).length :=
        Nat.not_lt.mpr (hShort name (by simp))
      have hHere : part.get? place = some .directory :=
        hPlain.directory_above hEntry
          (List.prefix_append _ _) (by simp)
      rw [follow]
      simp only [hPart _ _ hHere, ne_eq, not_true_eq_false,
        if_false, hName.nonempty, hName.notHere, or_self,
        hName.notAbove, hLimit]
      have hSplit : place ++ name :: more =
          place ++ [name] ++ more := by
        simp
      rw [hSplit] at hEntry ⊢
      by_cases hEnd : more = []
      · subst hEnd
        rw [List.append_nil] at hEntry ⊢
        rw [hPart _ _ hEntry]
        rcases hPlain.directory_or_file hEntry with
          rfl | ⟨content, rfl⟩
        · simp [follow]
        · simp
      · have hStep := hPlain.directory_above hEntry
          (List.prefix_append _ _) (by simpa using Ne.symm hEnd)
        rw [hPart _ _ hStep]
        refine ih ?_ ?_ hEntry
        · exact fun other hMem => hNames other (by simp [hMem])
        · exact fun other hMem => hShort other (by simp [hMem])

/-
  Names whose place is nowhere near are not found, if no file
  stands on the way.
-/
theorem follow_notFound
    (hPlain : tree.IsPlain)
    (hHere : tree.get? place = some .directory)
    (hNames : ∀ name ∈ names, Path.IsName name)
    (hShort : ∀ name ∈ names,
      (Utf8.encode name).length ≤ nameLimit)
    (hFree : ∀ way, way <+: names →
      ¬ tree.IsFile (place ++ way))
    (h : ∀ located, ¬ Leads tree place names located)
    (last : Bool)
    (links : Nat) :
    tree.follow last links place names =
      .error .notFound := by
  induction names generalizing place with
  | nil => exact absurd (.present (by simpa using hHere)) (h _)
  | cons name more ih =>
      rw [follow_cons hPlain hHere (hNames name (by simp))
        (hShort name (by simp))]
      have hName := hFree [name] ⟨more, rfl⟩
      split
      · next hEntry =>
          rw [if_neg]
          rintro rfl
          exact h _
            (.missing (by simp) hEntry (by simpa using hHere))
      · next hEntry =>
          refine ih hEntry ?_ ?_ ?_ ?_
          · exact fun other hMem =>
              hNames other (by simp [hMem])
          · exact fun other hMem =>
              hShort other (by simp [hMem])
          · intro way hWay
            have hOn := hFree (name :: way)
              (List.cons_prefix_cons.mpr ⟨rfl, hWay⟩)
            simpa using hOn
          · exact fun located hLeads => h located hLeads.cons
      · next entry hDirectory hEntry =>
          rcases hPlain.directory_or_file hEntry with
            rfl | ⟨content, rfl⟩
          · exact absurd rfl hDirectory
          · exact absurd ⟨content, hEntry⟩ hName

-- Finding Paths

/- Where a canonical path leads in a plain tree. -/
theorem find_eq_ok_iff
    (hPlain : tree.IsPlain)
    (hPath : path.IsCanonical)
    (last : Bool)
    (located : Located) :
    tree.find last path = .ok located ↔
      path.IsLegal ∧
        Leads tree [] path.segments located := by
  constructor
  · intro h
    simp only [find] at h
    split at h
    · cases h
    · next hNull =>
        split at h
        · cases h
        · next hLong =>
            split at h
            · cases h
            · next found hFollow =>
                cases h
                rcases leads_of_follow hPlain rfl hPath.names
                    hFollow with
                  ⟨hNamed, hLeads⟩
                exact ⟨⟨hNull, Nat.not_lt.mp hLong, hNamed⟩,
                  hLeads⟩
  · rintro ⟨hLegal, hLeads⟩
    have hLong := Nat.not_lt.mpr hLegal.short
    have hFollow := follow_of_leads hPlain rfl hPath.names
      hLegal.named hLeads last linkLimit
    simp only [find, hLegal.unnulled, hLong, hFollow,
      if_false]

theorem find_of_part
    (hPlain : part.IsPlain)
    (hPart : ∀ place entry, part.get? place = some entry →
      tree.get? place = some entry)
    (hPath : path.IsCanonical)
    (hLegal : path.IsLegal)
    (hEntry : part.get? path.segments = some entry)
    (last : Bool) :
    tree.find last path = .ok (.present path.segments) := by
  have hLong := Nat.not_lt.mpr hLegal.short
  have hFollow : tree.follow last linkLimit []
      path.segments = .ok (.present ([] ++ path.segments)) :=
    follow_of_part hPlain hPart hPath.names hLegal.named
      (by simpa using hEntry) last linkLimit
  simp only [find, hLegal.unnulled, hLong, hFollow,
    List.nil_append, if_false]

theorem find_notFound
    (hPlain : tree.IsPlain)
    (hPath : path.IsCanonical)
    (hLegal : path.IsLegal)
    (hFree : ∀ way, way <+: path.segments →
      ¬ tree.IsFile way)
    (h : ∀ located, ¬ Leads tree [] path.segments located)
    (last : Bool) :
    tree.find last path =
      .error (refusal .notFound path) := by
  have hLong := Nat.not_lt.mpr hLegal.short
  have hFollow := follow_notFound hPlain rfl hPath.names
    hLegal.named (by simpa using hFree) h last linkLimit
  simp only [find, hLegal.unnulled, hLong, hFollow, if_false,
    refusal]

/- A file can be read if it is there and may be asked for. -/
theorem read_eq_ok_iff
    (hPlain : tree.IsPlain)
    (hPath : path.IsCanonical)
    (content : List UInt8) :
    tree.read path = .ok content ↔
      path.IsLegal ∧
        tree.get? path.segments = some (.file content) := by
  constructor
  · intro h
    simp only [read] at h
    split at h
    · cases h
    · cases h
    · next found hFind =>
        rcases (find_eq_ok_iff hPlain hPath _ _).mp hFind
          with
          ⟨hLegal, hLeads⟩
        cases hLeads
        split at h
        · next hEntry =>
            cases h
            exact ⟨hLegal, hEntry⟩
        · cases h
  · rintro ⟨hLegal, hEntry⟩
    have hFind := (find_eq_ok_iff hPlain hPath true _).mpr
      ⟨hLegal, .present hEntry⟩
    simp only [List.nil_append] at hFind
    simp only [read, hFind, hEntry]

/-
  A file can be written if its path may be asked for, is in
  a directory and is not itself one.
-/
theorem write_eq_ok_iff
    (hPlain : tree.IsPlain)
    (hPath : path.IsCanonical)
    (content : List UInt8)
    (after : FileTree) :
    tree.write path content = .ok after ↔
      path.IsLegal ∧
        tree.get? path.parent.segments = some .directory ∧
        tree.get? path.segments ≠ some .directory ∧
        after = tree.put path.segments (.file content) := by
  constructor
  · intro h
    simp only [write] at h
    split at h
    · cases h
    · next hFind =>
        rcases (find_eq_ok_iff hPlain hPath _ _).mp hFind
          with
          ⟨hLegal, hLeads⟩
        cases h
        cases hLeads with
        | missing _ hEntry hParent =>
            refine ⟨hLegal, hParent, ?_, rfl⟩
            simp only [List.nil_append] at hEntry
            simp [hEntry]
    · next hFind =>
        rcases (find_eq_ok_iff hPlain hPath _ _).mp hFind
          with
          ⟨hLegal, hLeads⟩
        cases hLeads with
        | present hEntry =>
            simp only [List.nil_append] at h hEntry
            split at h
            · cases h
            · next hDirectory =>
                cases h
                have hOther :
                    tree.get? path.segments ≠
                      some .directory := by
                  simpa [isDirectoryAt] using hDirectory
                refine ⟨hLegal, ?_, hOther, rfl⟩
                refine hPlain.directory_above hEntry
                  (List.dropLast_prefix _) fun hSame => ?_
                have hRoot : path.segments = [] := by
                  have hLength := congrArg List.length hSame
                  simp only [Path.parent,
                    List.length_dropLast] at hLength
                  exact List.length_eq_zero_iff.mp (by omega)
                exact hOther (by simp [hRoot])
  · rintro ⟨hLegal, hParent, hOther, rfl⟩
    cases hEntry : tree.get? path.segments with
    | none =>
        have hSegments : path.segments ≠ [] := by
          intro hNil
          simp [hNil] at hEntry
        have hFind := (find_eq_ok_iff hPlain hPath true _).mpr
          ⟨hLegal, .missing hSegments hEntry hParent⟩
        simp only [List.nil_append] at hFind
        simp only [write, hFind]
    | some entry =>
        have hFind := (find_eq_ok_iff hPlain hPath true _).mpr
          ⟨hLegal, .present hEntry⟩
        simp only [List.nil_append] at hFind
        have hNot : tree.isDirectoryAt path.segments = false :=
          by simpa [isDirectoryAt] using hOther
        simp [write, hFind, hNot]

-- Making Directories

theorem isDirectory_iff
    (hPlain : tree.IsPlain)
    (hPath : path.IsCanonical) :
    tree.isDirectory path = true ↔
      path.IsLegal ∧
        tree.get? path.segments = some .directory := by
  constructor
  · intro h
    simp only [isDirectory] at h
    split at h
    · next hFind =>
        rcases (find_eq_ok_iff hPlain hPath _ _).mp hFind
          with
          ⟨hLegal, hLeads⟩
        cases hLeads
        exact ⟨hLegal, by simpa [isDirectoryAt] using h⟩
    · cases h
  · rintro ⟨hLegal, hEntry⟩
    have hFind := (find_eq_ok_iff hPlain hPath true _).mpr
      ⟨hLegal, .present hEntry⟩
    simp only [List.nil_append] at hFind
    simp [isDirectory, hFind, isDirectoryAt, hEntry]

theorem makeDirectory_eq_ok
    (hPlain : tree.IsPlain)
    (hPath : path.IsCanonical)
    (h : tree.makeDirectory path = .ok after) :
    path.IsLegal ∧ path.segments ≠ [] ∧
      tree.get? path.segments = none ∧
      tree.get? path.parent.segments = some .directory ∧
      after = tree.put path.segments .directory := by
  simp only [makeDirectory] at h
  split at h
  · cases h
  · next hFind =>
      rcases (find_eq_ok_iff hPlain hPath _ _).mp hFind with
        ⟨hLegal, hLeads⟩
      cases h
      cases hLeads with
      | missing hSegments hEntry hParent =>
          exact ⟨hLegal, hSegments, hEntry, hParent, rfl⟩
  · cases h

/-
  A directory that may be asked for is made, is there
  already, or is not found, if there is no file on the way.
-/
theorem makeDirectory_cases
    (hPlain : tree.IsPlain)
    (hPath : path.IsCanonical)
    (hLegal : path.IsLegal)
    (hFree : ∀ way, way <+: path.segments →
      ¬ tree.IsFile way) :
    (∃ after, tree.makeDirectory path = .ok after) ∨
      (tree.isDirectory path = true ∧
        tree.makeDirectory path =
          .error (refusal .alreadyThere path)) ∨
      (tree.get? path.parent.segments ≠ some .directory ∧
        tree.makeDirectory path =
          .error (refusal .notFound path)) := by
  cases hEntry : tree.get? path.segments with
  | some entry =>
      have hFind := (find_eq_ok_iff hPlain hPath false _).mpr
        ⟨hLegal, .present hEntry⟩
      rcases hPlain.directory_or_file hEntry with
        rfl | ⟨content, rfl⟩
      · refine .inr (.inl ⟨?_, by simp [makeDirectory, hFind]⟩)
        exact (isDirectory_iff hPlain hPath).mpr
          ⟨hLegal, hEntry⟩
      · exact absurd ⟨content, hEntry⟩
          (hFree _ List.prefix_rfl)
  | none =>
      have hSegments : path.segments ≠ [] := by
        intro hNil
        simp [hNil] at hEntry
      by_cases hParent :
          tree.get? path.parent.segments = some .directory
      · have hFind :=
          (find_eq_ok_iff hPlain hPath false _).mpr
            ⟨hLegal, .missing hSegments hEntry hParent⟩
        exact .inl ⟨tree.put path.segments .directory,
          by simp [makeDirectory, hFind]⟩
      · refine .inr (.inr ⟨hParent, ?_⟩)
        have hFind := find_notFound hPlain hPath hLegal hFree
          (fun located hLeads => by
            cases hLeads with
            | present hSome =>
                simp [hEntry] at hSome
            | missing _ _ hDirectory =>
                exact hParent hDirectory)
          false
        simp only [makeDirectory, hFind]

/-
  Does one tree differ from another by directories alone, at
  missing places on the way to a given one?
-/
def Widens
    (tree : FileTree)
    (place : Place)
    (after : FileTree) : Prop :=
  ∀ other,
    after.get? other = tree.get? other ∨
      (tree.get? other = none ∧
        after.get? other = some .directory ∧
        other <+: place)

theorem widens_makeDirectory
    (hPlain : tree.IsPlain)
    (hPath : path.IsCanonical)
    (h : tree.makeDirectory path = .ok after) :
    after.IsPlain ∧ Widens tree path.segments after ∧
      after.get? path.segments = some .directory := by
  rcases makeDirectory_eq_ok hPlain hPath h with
    ⟨_, hSegments, hEntry, hParent, rfl⟩
  have hLast := List.dropLast_concat_getLast hSegments
  refine ⟨?_, ?_, ?_⟩
  · rw [← hLast]
    refine hPlain.put hParent ?_ (by simp)
    rw [hLast]
    simp [hEntry]
  · intro other
    rw [get?_put hSegments]
    split
    · next hSame =>
        subst hSame
        exact .inr ⟨hEntry, rfl, List.prefix_rfl⟩
    · exact .inl rfl
  · rw [get?_put hSegments, if_pos rfl]

theorem Widens.trans
    {middle after : FileTree}
    (hFirst : Widens tree place middle)
    (hPlace : place <+: other)
    (hSecond : Widens middle other after) :
    Widens tree other after := by
  intro found
  rcases hSecond found with hSame | ⟨hNone, hMade, hOn⟩
  · rw [hSame]
    rcases hFirst found with hKept | ⟨hGone, hNew, hAbove⟩
    · exact .inl hKept
    · exact .inr ⟨hGone, hNew, hAbove.trans hPlace⟩
  · rcases hFirst found with hKept | ⟨_, hNew, _⟩
    · exact .inr ⟨hKept ▸ hNone, hMade, hOn⟩
    · simp [hNone] at hNew

/- Making directories makes directories, and only on the way. -/
theorem widens_makeDirectories
    (hPlain : tree.IsPlain)
    (hPath : path.IsCanonical) :
    (tree.makeDirectories path).2.IsPlain ∧
      Widens tree path.segments
        (tree.makeDirectories path).2 ∧
      ((tree.makeDirectories path).1 = .ok () →
        (tree.makeDirectories path).2.get? path.segments =
          some .directory) := by
  have hSame : Widens tree path.segments tree :=
    fun _ => .inl rfl
  fun_induction makeDirectories tree path with
  | case1 path made hMade =>
      rcases widens_makeDirectory hPlain hPath hMade with
        ⟨hAfter, hWidens, hEntry⟩
      exact ⟨hAfter, hWidens, fun _ => hEntry⟩
  | case2 path fault hFault hMissing hSegments =>
      exact ⟨hPlain, hSame, by simp⟩
  | case3 path fault hFault hMissing hSegments above partly
      hParent ih =>
      simp only [hParent] at ih
      rcases ih hPath.parent fun _ => .inl rfl with
        ⟨hPartly, hWidens, _⟩
      refine ⟨hPartly, ?_, by simp⟩
      exact hWidens.trans (Path.parent_isPrefix _)
        fun _ => .inl rfl
  | case4 path fault hFault hMissing hSegments partly
      hParent made hMade ih =>
      simp only [hParent] at ih
      rcases ih hPath.parent fun _ => .inl rfl with
        ⟨hPartly, hWidens, _⟩
      rcases widens_makeDirectory hPartly hPath hMade with
        ⟨hAfter, hMore, hEntry⟩
      refine ⟨hAfter, ?_, fun _ => hEntry⟩
      exact hWidens.trans (Path.parent_isPrefix _) hMore
  | case5 path fault hFault hMissing hSegments partly
      hParent again hAgain hThere ih =>
      simp only [hParent] at ih
      rcases ih hPath.parent fun _ => .inl rfl with
        ⟨hPartly, hWidens, _⟩
      have hDirectory := (Bool.and_eq_true_iff.mp hThere).2
      refine ⟨hPartly, ?_, fun _ => ?_⟩
      · exact hWidens.trans (Path.parent_isPrefix _)
          fun _ => .inl rfl
      · exact ((isDirectory_iff hPartly hPath).mp
          hDirectory).2
  | case6 path fault hFault hMissing hSegments partly
      hParent again hAgain hThere ih =>
      simp only [hParent] at ih
      rcases ih hPath.parent fun _ => .inl rfl with
        ⟨hPartly, hWidens, _⟩
      refine ⟨hPartly, ?_, by simp⟩
      exact hWidens.trans (Path.parent_isPrefix _)
        fun _ => .inl rfl
  | case7 path fault hFault hMissing hDirectory =>
      refine ⟨hPlain, hSame, fun _ => ?_⟩
      exact ((isDirectory_iff hPlain hPath).mp hDirectory).2
  | case8 path fault hFault hMissing hDirectory =>
      exact ⟨hPlain, hSame, by simp⟩

/-
  Directories that may be asked for can be made, if there is
  no file on the way.
-/
theorem makeDirectories_of_legal
    (hPlain : tree.IsPlain)
    (hPath : path.IsCanonical)
    (hLegal : path.IsLegal)
    (hFree : ∀ way, way <+: path.segments →
      ¬ tree.IsFile way) :
    (tree.makeDirectories path).1 = .ok () := by
  fun_induction makeDirectories tree path with
  | case1 path made hMade => rfl
  | case2 path fault hFault hMissing hSegments =>
      rcases makeDirectory_cases hPlain hPath hLegal hFree
        with ⟨after, hMade⟩ | ⟨_, hThere⟩ | ⟨hParent, _⟩
      · simp [hMade] at hFault
      · rw [hThere] at hFault
        cases hFault
        simp [refusal, FileFault.isNotFound] at hMissing
      · simp [Path.parent, hSegments] at hParent
  | case3 path fault hFault hMissing hSegments above partly
      hParent ih =>
      have hMade := ih hPath.parent
        (hLegal.parent hPath) fun way hWay =>
          hFree way (hWay.trans (Path.parent_isPrefix _))
      simp [hParent] at hMade
  | case4 path fault hFault hMissing hSegments partly
      hParent made hMade ih => rfl
  | case5 path fault hFault hMissing hSegments partly
      hParent again hAgain hThere ih => rfl
  | case6 path fault hFault hMissing hSegments partly
      hParent again hAgain hThere ih =>
      have hSpec :=
        widens_makeDirectories hPlain hPath.parent
      simp only [hParent, forall_const] at hSpec
      rcases hSpec with ⟨hPartly, hWidens, hDirectory⟩
      have hStill : ∀ way, way <+: path.segments →
          ¬ partly.IsFile way := by
        rintro way hWay ⟨content, hContent⟩
        rcases hWidens way with hSame | ⟨_, hNew, _⟩
        · exact hFree way hWay ⟨content, hSame ▸ hContent⟩
        · simp [hNew] at hContent
      rcases makeDirectory_cases hPartly hPath hLegal hStill
        with ⟨after, hMade⟩ | ⟨hIs, hExists⟩ | ⟨hNot, _⟩
      · simp [hMade] at hAgain
      · rw [hExists] at hAgain
        cases hAgain
        simp [hIs, refusal, FileFault.isNotFound] at hThere
      · exact absurd hDirectory hNot
  | case7 path fault hFault hMissing hDirectory => rfl
  | case8 path fault hFault hMissing hDirectory =>
      rcases makeDirectory_cases hPlain hPath hLegal hFree
        with ⟨after, hMade⟩ | ⟨hIs, _⟩ | ⟨_, hNone⟩
      · simp [hMade] at hFault
      · exact absurd hIs hDirectory
      · rw [hNone] at hFault
        cases hFault
        simp [refusal, FileFault.isNotFound] at hMissing

end FileTree

end ThriftTypings
