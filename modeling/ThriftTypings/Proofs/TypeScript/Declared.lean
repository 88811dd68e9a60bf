import Mathlib.Data.List.Forall2
import ThriftTypings.TypeScript.Generate

/-
  This file says once what generation comes to when nothing
  fails: how an import is bound, what the members of an enum
  become, and how the declarations of a document follow one
  another.

  Key theorems include:
    * `forall₂_of_declarationsFrom`
    * `generate_eq_ok_iff`
-/

namespace ThriftTypings

namespace TypeScript

open Idl

/- An import is bound to a candidate for its module. -/
theorem importBinding_eq_candidate
    (taken : List Text)
    (path : Text) :
    ∃ k, importBinding taken path =
      candidate (bindingName (Path.moduleStem path)) k := by
  unfold importBinding freshBinding
  split
  · next name hFound =>
      rcases List.mem_map.mp (List.mem_of_find?_eq_some hFound)
        with ⟨k, _, hName⟩
      exact ⟨k, hName.symm⟩
  · exact ⟨0, rfl⟩

-- Enums

/- Entries come one by one, each with its own position. -/
theorem constantsFrom_cons_eq_ok_iff
    {position : Nat}
    {found : EnumMember}
    {more : List EnumMember}
    {constants : List Constant} :
    constantsFrom position (found :: more) =
        .ok constants ↔
      ∃ value others,
        memberValue position found = .ok value ∧
        constantsFrom (position + 1) more = .ok others ∧
        ⟨commentEntries found.comments, found.name, value⟩ ::
          others = constants := by
  rw [constantsFrom]
  cases memberValue position found with
  | error fault => simp
  | ok value =>
      cases constantsFrom (position + 1) more <;> simp

variable {taken : List Text}

theorem declaration_enum_eq_ok_iff
    {found : EnumDef}
    {made : Declaration} :
    declaration taken (.enum found) = .ok made ↔
      ∃ constants,
        constantsFrom 0 found.members = .ok constants ∧
        .constants (commentEntries found.comments)
          (bindingName found.name) constants
          (commentEntries found.trailing) = made := by
  rw [declaration]
  cases constantsFrom 0 found.members <;> simp

-- Documents

variable {body : List Definition}
variable {declarations : List Declaration}

/- Declarations come one by one, each after those before. -/
theorem declarationsFrom_cons_eq_ok_iff
    {definition : Definition}
    {more : List Definition} :
    declarationsFrom taken (definition :: more) =
        .ok declarations ↔
      ∃ first others,
        declaration taken definition = .ok first ∧
        declarationsFrom (takenAfter taken first) more =
          .ok others ∧
        first :: others = declarations := by
  rw [declarationsFrom]
  cases declaration taken definition with
  | error fault => simp
  | ok first =>
      simp only [Except.ok.injEq, exists_and_left,
        exists_eq_left']
      cases declarationsFrom (takenAfter taken first) more <;>
        simp

/-
  What holds of each definition and its declaration, no
  matter which bindings are taken, holds all along a body.
-/
theorem forall₂_of_declarationsFrom
    {relates : Definition → Declaration → Prop}
    (hEach : ∀ {taken definition found},
      definition ∈ body →
        declaration taken definition = .ok found →
          relates definition found)
    (h : declarationsFrom taken body = .ok declarations) :
    List.Forall₂ relates body declarations := by
  induction body generalizing taken declarations with
  | nil =>
      cases h
      exact .nil
  | cons definition more ih =>
      rcases declarationsFrom_cons_eq_ok_iff.mp h with
        ⟨first, others, hFirst, hOthers, rfl⟩
      refine .cons (hEach (by simp) hFirst) ?_
      exact ih (fun hMem =>
        hEach (List.mem_cons_of_mem _ hMem)) hOthers

/- The text of a document is that of its declarations. -/
theorem generate_eq_ok_iff
    {document : Document}
    {text : Text} :
    generate document = .ok text ↔
      ∃ declarations,
        declarationsFrom [] document.body = .ok declarations ∧
        Module.text
            ⟨declarations, commentEntries document.trailing⟩ =
          text := by
  unfold generate Module.ofDocument
  cases declarationsFrom [] document.body <;> simp

end TypeScript

end ThriftTypings
