import Mathlib.Data.List.Nodup
import ThriftTypings.Idl.Walk

/-
  This file proves that a walk reaches every node of a
  document once and in order, apart from those below a node
  where it stops, and renames what it reaches and nothing
  else.

  The nodes of a document are listed without regard to any
  walk, each after the node that it is directly below, and
  with the kinds of all nodes that it is below.

  Key definitions include:
    * `Site` and `Document.sites`
    * `Document.renamed`

  Key theorems include:
    * `Document.mem_includes_iff`
    * `Document.walk_reaches_each_node`
-/

namespace ThriftTypings

namespace Idl

-- The Nodes of a Document

/- A node, and the kinds of the nodes that it is below. -/
structure Site where
  above : List Hook
  visit : Visit
  deriving DecidableEq, Repr

/- A function and its parameters, below a service. -/
def Function.sites
    (function : Function) : List Site :=
  ⟨[.definition .service], .function, function.name⟩ ::
    function.fields.map fun field =>
      ⟨[.definition .service, .function],
        .functionField, field.name⟩

/- A definition and the nodes below it. -/
def Definition.sites : Definition → List Site
  | .nameSpace found =>
      [⟨[], .definition .nameSpace, found.name⟩]
  | .inclusion found =>
      [⟨[], .definition .inclusion, found.path⟩]
  | .struct found =>
      ⟨[], .definition .struct, found.name⟩ ::
        found.fields.map fun field =>
          ⟨[.definition .struct], .structField, field.name⟩
  | .enum found =>
      ⟨[], .definition .enum, found.name⟩ ::
        found.members.map fun found =>
          ⟨[.definition .enum], .enumMember, found.name⟩
  | .service found =>
      ⟨[], .definition .service, found.name⟩ ::
        found.functions.flatMap Function.sites

/- All nodes of a document. -/
def Document.sites
    (document : Document) : List Site :=
  document.body.flatMap Definition.sites

-- Renamed Documents

section Renamed

variable (rename : List Hook → Text → Text)

def Function.renamed
    (function : Function) : Function :=
  { function with
    name := rename [.definition .service] function.name
    fields := function.fields.map fun field =>
      { field with
        name :=
          rename [.definition .service, .function]
            field.name } }

def Definition.renamed : Definition → Definition
  | .nameSpace found =>
      .nameSpace { found with name := rename [] found.name }
  | .inclusion found =>
      .inclusion { found with path := rename [] found.path }
  | .struct found =>
      .struct
        { found with
          name := rename [] found.name
          fields := found.fields.map fun field =>
            { field with
              name :=
                rename [.definition .struct] field.name } }
  | .enum found =>
      .enum
        { found with
          name := rename [] found.name
          members := found.members.map fun found =>
            { found with
              name :=
                rename [.definition .enum] found.name } }
  | .service found =>
      .service
        { found with
          name := rename [] found.name
          functions :=
            found.functions.map (Function.renamed rename) }

/-
  A document with other names. What becomes of a name may
  depend on the kinds of the nodes that it is below.
-/
def Document.renamed
    (document : Document) : Document :=
  { document with
    body := document.body.map (Definition.renamed rename) }

end Renamed

-- Visits in Turn

section InTurn

variable {σ α : Type}

theorem map_apply
    {β : Type}
    (make : α → β)
    (act : StateM σ α)
    (state : σ) :
    (make <$> act) state =
      (make (act state).1, (act state).2) :=
  rfl

theorem bind_apply
    {β : Type}
    (act : StateM σ α)
    (next : α → StateM σ β)
    (state : σ) :
    (act >>= next) state =
      next (act state).1 (act state).2 :=
  rfl

/- What a visit makes of its node, and of the state. -/
def Makes
    (visit : Visiting σ α)
    (after : α → α)
    (next : σ → α → σ) : Prop :=
  ∀ node state,
    visit node state = (after node, next state node)

theorem Makes.mapM
    {visit : Visiting σ α}
    {after : α → α}
    {next : σ → α → σ}
    (h : Makes visit after next)
    (nodes : List α)
    (state : σ) :
    nodes.mapM visit state =
      (nodes.map after, nodes.foldl next state) := by
  induction nodes generalizing state with
  | nil => rfl
  | cons node more ih =>
      rw [List.mapM_cons, bind_apply, bind_apply, h node, ih]
      rfl

/- Visits that do nothing do nothing in turn. -/
theorem Makes.mapM_same
    {visit : Visiting σ α}
    (h : Makes visit id fun state _ => state)
    (nodes : List α)
    (state : σ) :
    nodes.mapM visit state = (nodes, state) := by
  rw [h.mapM]
  simp

end InTurn

-- Recorded Nodes

variable (manner : Manner)

/- Does a walk go on from all of these nodes? -/
def Manner.reaches
    (above : List Hook) : Bool :=
  above.all (· ∉ manner.stops)

/- What becomes of the name of a node. -/
def Manner.rename
    (above : List Hook)
    (name : Text) : Text :=
  if manner.reaches above then name ++ manner.suffix
  else name

/- The nodes among some that a walk reaches. -/
def Manner.reached
    (sites : List Site) : List Visit :=
  (sites.filter (manner.reaches ·.above)).map Site.visit

theorem reached_flatMap
    {α : Type}
    (sites : α → List Site)
    (nodes : List α) :
    manner.reached (nodes.flatMap sites) =
      nodes.flatMap (manner.reached <| sites ·) := by
  unfold Manner.reached
  rw [List.filter_flatMap, List.map_flatMap]

@[simp] theorem reached_nil :
    manner.reached [] = [] :=
  rfl

theorem reached_cons
    (site : Site)
    (more : List Site) :
    manner.reached (site :: more) =
      if manner.reaches site.above then
        site.visit :: manner.reached more
      else manner.reached more := by
  unfold Manner.reached
  rw [List.filter_cons]
  split <;> rfl

/- Nodes below the same ones are all reached, or none is. -/
theorem reached_map
    {α : Type}
    (above : List Hook)
    (visit : α → Visit)
    (nodes : List α) :
    manner.reached
        (nodes.map fun node => ⟨above, visit node⟩) =
      if manner.reaches above then nodes.map visit
      else [] := by
  induction nodes with
  | nil => simp [Manner.reached]
  | cons node more ih =>
      rw [List.map_cons, reached_cons, ih]
      split <;> rfl

section Recording

variable {α β : Type}
variable (hook : Hook)
variable (name : α → Text)
variable (renamed : Text → α → α)

/- A node with nothing below it is recorded and renamed. -/
theorem makes_recording :
    Makes (recording manner hook name renamed pure)
      (fun node => renamed (name node ++ manner.suffix) node)
      (fun visits node =>
        visits ++ [⟨hook, name node⟩]) := by
  intro node visits
  unfold recording
  rw [ite_self]
  rfl

/- A node with others below it: they come after it. -/
theorem recording_below
    {visit : Visiting (List Visit) β}
    {after : β → β}
    {record : β → List Visit}
    (h : hook ∉ manner.stops →
      Makes visit after fun visits node =>
        visits ++ record node)
    (below : α → List β)
    (put : List β → α → α)
    (node : α)
    (visits : List Visit) :
    let found := renamed (name node ++ manner.suffix) node
    recording manner hook name renamed
        (fun found => do
          let nodes ← (below found).mapM visit
          pure (put nodes found)) node visits =
      if hook ∈ manner.stops then
        (found, visits ++ [⟨hook, name node⟩])
      else
        (put ((below found).map after) found,
          visits ++ (⟨hook, name node⟩ ::
            (below found).flatMap record)) := by
  intro found
  by_cases hStop : hook ∈ manner.stops
  · simp only [recording, hStop, if_true]
    rfl
  · simp only [recording, hStop, if_false]
    change ((below found).mapM visit >>= fun nodes =>
      pure (put nodes found))
        (visits ++ [⟨hook, name node⟩]) = _
    rw [bind_apply, (h hStop).mapM,
      List.foldl_append_eq_append, List.append_assoc]
    rfl

end Recording

theorem makes_visitFunction
    (h : Hook.definition .service ∉ manner.stops) :
    Makes (recorder manner).visitFunction
      (Function.renamed manner.rename)
      (fun visits function =>
        visits ++ manner.reached function.sites) := by
  intro function visits
  unfold Visitor.visitFunction recorder
  dsimp only
  rw [recording_below manner _ _ _ fun _ =>
    makes_recording manner _ _ _]
  split
  · next hStop =>
      simp [Function.renamed, Function.sites, reached_cons,
        reached_map, Manner.rename, Manner.reaches, h, hStop]
  · next hStop =>
      simp [Function.renamed, Function.sites, reached_cons,
        reached_map, Manner.rename, Manner.reaches, h, hStop,
        ← List.map_eq_flatMap]

/- Nothing happens to functions that are not reached. -/
theorem functions_of_stop
    (h : Hook.definition .service ∈ manner.stops)
    (functions : List Function) :
    functions.map (Function.renamed manner.rename) =
        functions ∧
      manner.reached (functions.flatMap Function.sites) =
        [] := by
  rw [reached_flatMap, List.flatMap_eq_nil_iff,
    List.map_id'']
  · simp [Function.sites, reached_cons, reached_map,
      Manner.reaches, h]
  · simp [Function.renamed, Manner.rename, Manner.reaches, h]

theorem makes_visitDefinition :
    Makes (recorder manner).visitDefinition
      (Definition.renamed manner.rename)
      (fun visits found =>
        visits ++ manner.reached found.sites) := by
  intro found visits
  have hFunctions := makes_visitFunction manner
  cases found with
  | nameSpace found | inclusion found =>
      dsimp only [Visitor.visitDefinition, recorder]
      rw [map_apply, makes_recording]
      simp [Definition.renamed, Definition.sites,
        reached_cons, Manner.rename, Manner.reaches]
  | struct found | enum found =>
      dsimp only [Visitor.visitDefinition, recorder]
      rw [map_apply, recording_below manner _ _ _ fun _ =>
        makes_recording manner _ _ _]
      split
      · next hStop =>
          simp [Definition.renamed, Definition.sites,
            reached_cons, reached_map, Manner.rename,
            Manner.reaches, hStop]
      · next hStop =>
          simp [Definition.renamed, Definition.sites,
            reached_cons, reached_map, Manner.rename,
            Manner.reaches, hStop, ← List.map_eq_flatMap]
  | service found =>
      dsimp only [Visitor.visitDefinition, recorder]
        at hFunctions ⊢
      rw [map_apply, recording_below manner _ _ _ hFunctions]
      split
      · next hStop =>
          simp [Definition.renamed, Definition.sites,
            reached_cons, Manner.rename, Manner.reaches,
            functions_of_stop manner hStop]
      · simp [Definition.renamed, Definition.sites,
          reached_cons, reached_flatMap, Manner.rename,
          Manner.reaches]

theorem Document.walk_eq
    (document : Document) :
    document.walk manner =
      (manner.reached document.sites,
        document.renamed manner.rename) := by
  unfold Document.walk Visitor.visitDocument
  rw [bind_apply, (makes_visitDefinition manner).mapM,
    List.foldl_append_eq_append, Document.sites,
    reached_flatMap]
  rfl

-- Includes

/- The paths that are collected after a definition. -/
def withInclude
    (paths : List Text) : Definition → List Text
  | .inclusion found => paths.insert found.path
  | _ => paths

/- Other definitions change nothing, whatever they hold. -/
theorem makes_collector :
    Makes collector.visitDefinition id withInclude := by
  have hPure {α : Type} :
      Makes (pure : Visiting (List Text) α) id
        fun paths _ => paths :=
    fun _ _ => rfl
  have hFunction : Makes collector.visitFunction id
      fun paths _ => paths := by
    intro function paths
    dsimp only [Visitor.visitFunction, collector, id_eq]
    rw [bind_apply, hPure.mapM_same]
    rfl
  intro found paths
  cases found with
  | nameSpace found | inclusion found => rfl
  | struct found | enum found =>
      dsimp only [Visitor.visitDefinition, collector, id_eq]
      rw [map_apply, bind_apply, hPure.mapM_same]
      rfl
  | service found =>
      dsimp only [Visitor.visitDefinition, collector, id_eq]
        at hFunction ⊢
      rw [map_apply, bind_apply, hFunction.mapM_same]
      rfl

theorem Document.collected_eq
    (document : Document) :
    document.collected =
      document.body.foldl withInclude [] := by
  unfold Document.collected Visitor.visitDocument
  rw [bind_apply, makes_collector.mapM]
  rfl

theorem mem_foldl_withInclude
    {path : Text}
    {paths : List Text}
    {body : List Definition} :
    path ∈ body.foldl withInclude paths ↔
      path ∈ paths ∨
        ∃ found, .inclusion found ∈ body ∧
          found.path = path := by
  induction body generalizing paths with
  | nil => simp
  | cons first more ih =>
      rw [List.foldl_cons, ih]
      cases first <;> grind [withInclude]

theorem nodup_foldl_withInclude
    {paths : List Text}
    (h : paths.Nodup)
    (body : List Definition) :
    (body.foldl withInclude paths).Nodup := by
  induction body generalizing paths with
  | nil => exact h
  | cons first more ih =>
      apply ih
      cases first with
      | inclusion found => exact List.Nodup.insert h
      | _ => exact h

theorem Document.mem_includes_iff
    {document : Document}
    {path : Text} :
    path ∈ document.includes ↔
      ∃ found, .inclusion found ∈ document.body ∧
        found.path = path := by
  simp [includes, collected_eq, mem_foldl_withInclude]

/-
  A walk reaches every node of a document once and in order,
  apart from those below a node where it stops. It adds the
  suffix to the names of the nodes that it reaches, and to
  nothing else. The paths that are collected are those of
  the includes, each once, whatever else there is.
-/
theorem Document.walk_reaches_each_node
    (manner : Manner)
    (document : Document) :
    (document.walk manner).1 =
        (document.sites.filter
          (manner.reaches ·.above)).map Site.visit ∧
      (document.walk manner).2 =
        document.renamed (fun above name =>
          if manner.reaches above then name ++ manner.suffix
          else name) ∧
      document.includes.Nodup ∧
      ∀ path, path ∈ document.includes ↔
        ∃ found, .inclusion found ∈ document.body ∧
          found.path = path := by
  rw [walk_eq]
  refine ⟨rfl, rfl, ?_, fun _ => mem_includes_iff⟩
  rw [includes, collected_eq,
    (List.mergeSort_perm _ _).nodup_iff]
  exact nodup_foldl_withInclude List.nodup_nil _

end Idl

end ThriftTypings
