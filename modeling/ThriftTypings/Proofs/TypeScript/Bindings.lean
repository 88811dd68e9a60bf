import Mathlib.Data.List.Nodup
import ThriftTypings.Proofs.Text.Decimal
import ThriftTypings.Proofs.TypeScript.Readback
import ThriftTypings.Proofs.TypeScript.Rebuilding

/-
  This file proves that the imports of a document have names
  of their own, whatever the paths of its includes are. The
  name of an import comes from its path, and gets the first
  number that is free if an earlier import has the name.

  Key definitions include:
    * `numbered` and `Searches`
    * `IsFirstFree`

  Key theorems include:
    * `areBound_bindingsFrom`
    * `Generator.imports_never_clash`
-/

namespace ThriftTypings

namespace Idl

/- The path that a definition includes, if it does. -/
def Definition.path? : Definition → Option Text
  | .inclusion found => some found.path
  | _ => none

/- The paths that definitions include, in order. -/
def includePaths
    (body : List Definition) : List Text :=
  body.filterMap Definition.path?

end Idl

namespace TypeScript

open Idl

-- Numbered Names

/- A name with a number after it. -/
def numbered
    (base : Text)
    (k : Nat) : Text :=
  base ++ "_".toList ++ Text.ofNat k

theorem candidate_succ
    (base : Text)
    (k : Nat) :
    candidate base (k + 1) = numbered base (k + 2) :=
  rfl

theorem numbered_injective
    (base : Text) :
    Function.Injective (numbered base) := by
  intro j k hEq
  have hDigits : Text.ofNat j = Text.ofNat k :=
    List.append_cancel_left hEq
  have hRead :=
    congrArg (Nat.ofDigitChars 10 · 0) hDigits
  simpa only [Text.ofDigitChars_ofNat] using hRead

theorem numbered_ne_base
    (base : Text)
    (k : Nat) :
    numbered base k ≠ base := by
  intro hEq
  have hLength := congrArg List.length hEq
  simp [numbered] at hLength

theorem candidate_injective
    (base : Text) :
    Function.Injective (candidate base) := by
  intro j k hEq
  cases j with
  | zero =>
      cases k with
      | zero => rfl
      | succ k => exact absurd hEq.symm (numbered_ne_base _ _)
  | succ j =>
      cases k with
      | zero => exact absurd hEq (numbered_ne_base _ _)
      | succ k =>
          have hNumber := numbered_injective base hEq
          omega

-- The First Free Name

variable {taken : List Text}
variable {base : Text}

/- More candidates than names that are taken: one is free. -/
theorem exists_free_candidate
    (taken : List Text)
    (base : Text) :
    ∃ k < taken.length + 1, candidate base k ∉ taken := by
  by_contra hNone
  push Not at hNone
  have hNodup :
      ((List.range (taken.length + 1)).map
        (candidate base)).Nodup :=
    List.nodup_range.map (candidate_injective base)
  have hSubset :
      (List.range (taken.length + 1)).map (candidate base) ⊆
        taken := by
    intro name hName
    rcases List.mem_map.mp hName with ⟨k, hRange, rfl⟩
    exact hNone k (List.mem_range.mp hRange)
  have hLength := hNodup.length_le_of_subset hSubset
  simp only [List.length_map, List.length_range] at hLength
  omega

/- The search stops at the first candidate that is free. -/
theorem freshBinding_eq_candidate
    (taken : List Text)
    (base : Text) :
    ∃ k, freshBinding taken base = candidate base k ∧
      candidate base k ∉ taken ∧
      ∀ j < k, candidate base j ∈ taken := by
  rcases exists_free_candidate taken base with
    ⟨free, hRange, hFree⟩
  unfold freshBinding
  rw [List.find?_map]
  cases hFound :
      (List.range (taken.length + 1)).find?
        ((fun name => !taken.contains name) ∘
          candidate base) with
  | none =>
      have hTaken := List.find?_eq_none.mp hFound free
        (List.mem_range.mpr hRange)
      simp [hFree] at hTaken
  | some k =>
      rw [List.find?_range_eq_some] at hFound
      rcases hFound with ⟨hFree, _, hEarlier⟩
      refine ⟨k, rfl, by simpa using hFree, ?_⟩
      intro j hLt
      simpa using hEarlier j hLt

/-
  The search for a free name as a loop: a name that is taken
  makes way for the next numbered one. The relation holds
  when the loop ends with the name at the end.
-/
inductive Searches
    (taken : List Text)
    (base : Text) :
    Text → Nat → Text → Prop where
  | free
      {name : Text}
      {next : Nat}
      (isFree : name ∉ taken) :
      Searches taken base name next name
  | again
      {name found : Text}
      {next : Nat}
      (isTaken : name ∈ taken)
      (more : Searches taken base (numbered base next)
        (next + 1) found) :
      Searches taken base name next found

/- From any candidate the loop gets to the first free one. -/
theorem searches_candidate
    {j k : Nat}
    (hLe : j ≤ k)
    (hFree : candidate base k ∉ taken)
    (hTaken : ∀ i, j ≤ i → i < k → candidate base i ∈ taken) :
    Searches taken base (candidate base j) (j + 2)
      (candidate base k) := by
  -- Downwards from the free candidate, one round at a time.
  induction hLe using Nat.decreasingInduction with
  | self => exact .free hFree
  | of_succ j hLt ih =>
      refine .again (hTaken j (le_refl j) hLt) ?_
      exact ih fun i hStart hEnd =>
        hTaken i (by omega) hEnd

theorem searches_freshBinding
    (taken : List Text)
    (base : Text) :
    Searches taken base base 2 (freshBinding taken base) := by
  rcases freshBinding_eq_candidate taken base with
    ⟨k, hEq, hFree, hTaken⟩
  rw [hEq]
  exact searches_candidate (Nat.zero_le k) hFree
    fun i _ hLt => hTaken i hLt

/-
  The first free name: the base itself, or else, when it is
  taken, the base with the least number from two on that
  gives a free name.
-/
def IsFirstFree
    (taken : List Text)
    (base binding : Text) : Prop :=
  binding ∉ taken ∧
    (binding = base ∨
      base ∈ taken ∧
        ∃ k, 2 ≤ k ∧ binding = numbered base k ∧
          ∀ j, 2 ≤ j → j < k → numbered base j ∈ taken)

theorem isFirstFree_freshBinding
    (taken : List Text)
    (base : Text) :
    IsFirstFree taken base (freshBinding taken base) := by
  rcases freshBinding_eq_candidate taken base with
    ⟨k, hEq, hFree, hTaken⟩
  rw [hEq]
  refine ⟨hFree, ?_⟩
  cases k with
  | zero => exact .inl rfl
  | succ k =>
      refine .inr ⟨hTaken 0 (Nat.succ_pos k), k + 2,
        by omega, candidate_succ base k, ?_⟩
      intro j hTwo hLt
      rcases Nat.exists_eq_add_of_le' hTwo with ⟨i, rfl⟩
      exact hTaken (i + 1) (by omega)

/- The base itself is given just when it is free. -/
theorem IsFirstFree.eq_base_iff
    {binding : Text}
    (h : IsFirstFree taken base binding) :
    binding = base ↔ base ∉ taken := by
  constructor
  · rintro rfl
    exact h.1
  · intro hFree
    rcases h.2 with hEq | ⟨hTaken, _⟩
    · exact hEq
    · exact absurd hTaken hFree

-- The Imports of Several Paths

/- The bindings of further imports, after those taken. -/
def bindingsFrom
    (taken paths : List Text) : List Text :=
  paths.foldl
    (fun taken path => taken ++ [importBinding taken path])
    taken

/-
  The imports of several paths are bound to names of their
  own. Each name is found by the search from the name of its
  path, among the names that earlier imports have left.
-/
structure AreBound
    (paths bindings : List Text) : Prop where
  length : bindings.length = paths.length
  distinct : bindings.Nodup
  legal : ∀ binding ∈ bindings,
    isIdentifier binding = true ∧ binding ∉ reservedWords
  first : ∀ (i : Nat) (path binding : Text),
    paths[i]? = some path → bindings[i]? = some binding →
      IsFirstFree (bindings.take i)
          (bindingName (Path.moduleStem path)) binding ∧
        Searches (bindings.take i)
          (bindingName (Path.moduleStem path))
          (bindingName (Path.moduleStem path)) 2 binding

theorem areBound_nil :
    AreBound [] [] where
  length := rfl
  distinct := .nil
  legal := nofun
  first := nofun

/- One more import takes a name that no other has. -/
theorem AreBound.snoc
    {paths bindings : List Text}
    (h : AreBound paths bindings)
    (path : Text) :
    AreBound (paths ++ [path])
      (bindings ++ [importBinding bindings path]) where
  length := by simp [h.length]
  distinct := by
    have hFree :=
      (isFirstFree_freshBinding bindings
        (bindingName (Path.moduleStem path))).1
    refine h.distinct.append (List.nodup_singleton _) ?_
    exact List.disjoint_singleton.mpr hFree
  legal := by
    intro binding hMem
    rcases List.mem_append.mp hMem with hOld | hNew
    · exact h.legal binding hOld
    · rcases importBinding_eq_candidate bindings path with
        ⟨k, hEq⟩
      have hLegal := isBinding_candidate
        (isBinding_bindingName (Path.moduleStem path)) k
      rw [List.mem_singleton.mp hNew, hEq]
      simpa [isBinding] using hLegal
  first := by
    intro i other binding hPath hBinding
    rcases Nat.lt_or_ge i paths.length with hLt | hGe
    · have hOld : i < bindings.length := h.length ▸ hLt
      rw [List.getElem?_append_left hLt] at hPath
      rw [List.getElem?_append_left hOld] at hBinding
      rw [List.take_append_of_le_length hOld.le]
      exact h.first i other binding hPath hBinding
    · have hNew : i = bindings.length := by
        have hBound :=
          (List.getElem?_eq_some_iff.mp hPath).1
        simp only [List.length_append, List.length_singleton]
          at hBound
        have hLength := h.length
        omega
      subst hNew
      rw [h.length, List.getElem?_concat_length] at hPath
      rw [List.getElem?_concat_length] at hBinding
      cases hPath
      cases hBinding
      rw [List.take_left]
      exact ⟨isFirstFree_freshBinding _ _,
        searches_freshBinding _ _⟩

theorem areBound_append
    {done : List Text}
    (h : AreBound done taken)
    (paths : List Text) :
    AreBound (done ++ paths) (bindingsFrom taken paths) := by
  induction paths generalizing done taken with
  | nil => simpa [bindingsFrom] using h
  | cons path more ih =>
      have hMore := ih (h.snoc path)
      rw [List.append_assoc] at hMore
      exact hMore

theorem areBound_bindingsFrom
    (paths : List Text) :
    AreBound paths (bindingsFrom [] paths) :=
  areBound_append areBound_nil paths

/- A numbered name may be the name of a later path. -/
example :
    bindingsFrom []
        (["p/x.thrift", "q/x.thrift", "x_2.thrift",
          "x-2.thrift"].map String.toList) =
      ["x", "x_2", "x_2_2", "x_2_3"].map String.toList := by
  decide +kernel

-- The Imports of a Document

/- The name that an item binds an import to. -/
def Item.binding? : Item → Option Text
  | .importing binding _ => some binding
  | _ => none

/- The names that imports are bound to in emitted code. -/
def boundNames
    (items : List Item) : List Text :=
  items.filterMap Item.binding?

theorem bindingsFrom_cons
    (taken : List Text)
    (definition : Definition)
    (more : List Definition) :
    bindingsFrom taken (includePaths (definition :: more)) =
      bindingsFrom
        (bindingsFrom taken (includePaths [definition]))
        (includePaths more) := by
  cases definition <;> rfl

/- A declaration takes the binding of its definition. -/
theorem takenAfter_eq
    {definition : Definition}
    {found : Declaration}
    (h : declaration taken definition = .ok found) :
    takenAfter taken found =
        bindingsFrom taken (includePaths [definition]) ∧
      takenAfter taken found =
        taken ++ boundNames found.item?.toList := by
  cases definition with
  | enum definition =>
      rcases declaration_enum_eq_ok_iff.mp h with ⟨_, _, rfl⟩
      exact ⟨rfl, (List.append_nil _).symm⟩
  | inclusion definition =>
      cases h
      exact ⟨rfl, rfl⟩
  | _ =>
      cases h
      exact ⟨rfl, (List.append_nil _).symm⟩

/- The items of declarations bind what was not yet taken. -/
theorem boundNames_of_declarationsFrom
    {body : List Definition}
    {declarations : List Declaration}
    (h : declarationsFrom taken body = .ok declarations) :
    taken ++
        boundNames (declarations.filterMap Declaration.item?) =
      bindingsFrom taken (includePaths body) := by
  induction body generalizing taken declarations with
  | nil =>
      cases h
      exact List.append_nil _
  | cons definition more ih =>
      rcases declarationsFrom_cons_eq_ok_iff.mp h with
        ⟨first, others, hFirst, hOthers, rfl⟩
      rcases takenAfter_eq hFirst with ⟨hPath, hItem⟩
      rw [bindingsFrom_cons, ← hPath, ← ih hOthers, hItem,
        List.append_assoc]
      cases hFound : first.item? with
      | none => simp [boundNames, hFound]
      | some item =>
          rw [List.filterMap_cons_some hFound]
          cases item <;> rfl

-- Builds

namespace Generator

variable {generator : Generator}

/- The generator that a walk leaves, broken off or not. -/
def leftBy : Except Broken Generator → Generator
  | .ok walked => walked
  | .error broken => broken.left

/- Members that each leave the bindings all leave them. -/
theorem bindings_foldl
    {α : Type}
    (visit : Generator → α → Generator)
    (hVisit : ∀ (before : Generator) (item : α),
      (visit before item).bindings = before.bindings)
    (items : List α) :
    (items.foldl visit generator).bindings =
      generator.bindings := by
  induction items generalizing generator with
  | nil => rfl
  | cons item more ih =>
      rw [List.foldl_cons, ih, hVisit]

theorem bindings_visitMembers
    (generator : Generator)
    (members : List EnumMember) :
    (leftBy (members.foldlM visitMember generator)).bindings =
      generator.bindings := by
  induction members generalizing generator with
  | nil => rfl
  | cons found more ih =>
      rw [List.foldlM_cons, visitMember]
      cases memberValue generator.position found with
      | error fault => rfl
      | ok value => exact ih _

/- A definition takes the binding of its path, if any. -/
theorem bindings_visit
    (generator : Generator)
    (definition : Definition) :
    (leftBy (generator.visit definition)).bindings =
      bindingsFrom generator.bindings
        (includePaths [definition]) := by
  cases definition with
  | nameSpace found => rfl
  | inclusion found => rfl
  | struct found =>
      exact bindings_foldl visitField (fun _ _ => rfl)
        found.fields
  | service found =>
      exact bindings_foldl visitFunction (fun _ _ => rfl)
        found.functions
  | enum found =>
      have hMembers := bindings_visitMembers
        { (generator.separate .enum).openBlock found.comments
            ("export const ".toList ++
              bindingName found.name ++ " =".toList) with
          position := 0 }
        found.members
      rw [visit, visitEnum]
      dsimp only at hMembers ⊢
      generalize found.members.foldlM visitMember _ = walk
        at hMembers ⊢
      cases walk <;> exact hMembers

/-
  A walk takes the bindings of the definitions that it has
  come to. These are all of them, unless it breaks off.
-/
theorem bindings_walk
    (generator : Generator)
    (body : List Definition) :
    ∃ reached, reached <+: body ∧
      (leftBy (body.foldlM visit generator)).bindings =
        bindingsFrom generator.bindings
          (includePaths reached) ∧
      ∀ walked, body.foldlM visit generator = .ok walked →
        reached = body := by
  induction body generalizing generator with
  | nil => exact ⟨[], List.nil_prefix, rfl, fun _ _ => rfl⟩
  | cons definition more ih =>
      have hFirst := bindings_visit generator definition
      rw [List.foldlM_cons]
      cases hVisit : generator.visit definition with
      | error broken =>
          rw [hVisit] at hFirst
          exact ⟨[definition],
            List.prefix_append [definition] more, hFirst,
            nofun⟩
      | ok walked =>
          rcases ih walked with
            ⟨reached, hPrefix, hBindings, hAll⟩
          rw [hVisit] at hFirst
          refine ⟨definition :: reached,
            List.cons_prefix_cons.mpr ⟨rfl, hPrefix⟩, ?_, ?_⟩
          · rw [bindingsFrom_cons, ← hFirst]
            exact hBindings
          · intro last hLast
            rw [hAll last hLast]

/-
  A build binds the imports that it comes to, in whatever
  state the generator has been before: each to the name of
  its path if no earlier import has it, and else to that
  name with the first number that is free. The names are
  distinct and can be declared. When the build gives a text,
  it has come to all includes, and their bindings are what
  is read from the text.
-/
theorem imports_never_clash
    (generator : Generator)
    (options : Options) :
    ∃ reached, reached <+: generator.document.body ∧
      AreBound (includePaths reached)
        (generator.build options).2.bindings ∧
      ∀ text, (generator.build options).1 = .ok text →
        reached = generator.document.body ∧
          ∃ items, readModule text = some items ∧
            boundNames items =
              (generator.build options).2.bindings := by
  rcases bindings_walk (generator.restart options)
      generator.document.body with
    ⟨reached, hPrefix, hBindings, hAll⟩
  have hLeft : (generator.build options).2.bindings =
      bindingsFrom [] (includePaths reached) := by
    refine Eq.trans ?_ hBindings
    rw [build]
    cases generator.document.body.foldlM visit
        (generator.restart options) with
    | error broken => rfl
    | ok walked =>
        change walked.finish.bindings = walked.bindings
        unfold finish
        split <;> rfl
  refine ⟨reached, hPrefix, ?_, ?_⟩
  · rw [hLeft]
    exact areBound_bindingsFrom _
  · intro text hText
    have hReached : reached = generator.document.body := by
      rw [build] at hText
      cases hWalk : generator.document.body.foldlM visit
          (generator.restart options) with
      | error broken =>
          rw [hWalk] at hText
          cases hText
      | ok walked => exact hAll walked hWalk
    rw [(generator.build_eq_generate options).1,
      generate_eq_ok_iff] at hText
    rcases hText with ⟨declarations, hDeclared, rfl⟩
    refine ⟨hReached, _, readModule_text hDeclared _, ?_⟩
    rw [hLeft, hReached,
      ← boundNames_of_declarationsFrom hDeclared]
    rfl

end Generator

end TypeScript

end ThriftTypings
