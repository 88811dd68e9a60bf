import ThriftTypings.Idl.Record

/-
  This file proves that documents survive as data: a
  document that is written as data and checked again is the
  same, and data that is accepted as a document is written
  back with all that it said, and with the declared default
  for each key that it left out.

  The second half is stated against a table of the declared
  keys of every kind of node, and against the relation
  `Completes` between given and full data, neither of which
  knows how data is checked or written.

  Key definitions include:
    * `Shape`, `Key` and `Node.keys`
    * `Completes`

  Key theorems include:
    * `Document.data_reloads`
-/

namespace ThriftTypings

namespace Idl

variable {data : Data}

-- Declared Keys

/- The nodes of a document. -/
inductive Node where
  | document
  | definition (kind : Kind)
  | function
  | field
  | enumMember
  | annot
  | type (tag : IdlType.Tag)
  | comment (tag : Comment.Tag)
  deriving DecidableEq, Repr

/- What stands where one of several kinds of node may. -/
inductive Choice where
  | definition
  | type
  | comment
  deriving DecidableEq, Repr

/- The node that a tag announces. -/
def Choice.node? : Choice → Text → Option Node
  | .definition, word =>
      (Kind.ofWord? word).map Node.definition
  | .type, word =>
      (IdlType.Tag.ofWord? word).map Node.type
  | .comment, word =>
      (Comment.Tag.ofWord? word).map Node.comment

/- What is declared to stand under a key. -/
inductive Shape where
  | plain
  | node (node : Node)
  | choice (choice : Choice)
  | items (shape : Shape)
  | nullable (shape : Shape)
  deriving DecidableEq, Repr

/- A declared key. Without a default it must be there. -/
structure Key where
  name : Text
  shape : Shape
  default : Option Data

/- A key that must be there. -/
def Key.needed
    (name : String)
    (shape : Shape) : Key :=
  ⟨name.toList, shape, none⟩

/- A key for a list, which is empty if it is left out. -/
def Key.list
    (name : String)
    (shape : Shape) : Key :=
  ⟨name.toList, .items shape, some (.list [])⟩

/- A key that stands for nothing if it is left out. -/
def Key.absent
    (name : String)
    (shape : Shape) : Key :=
  ⟨name.toList, .nullable shape, some .null⟩

/- The key of a tag, which can only have one value. -/
def Key.tag
    (word : Text) : Key :=
  ⟨tagKey, .plain, some (.text word)⟩

/- The declared keys of a definition. -/
def Node.definitionKeys : Kind → List Key
  | .nameSpace =>
      [.tag "namespace".toList, .needed "scope" .plain,
       .needed "name" .plain,
       .list "comments" (.choice .comment)]
  | .inclusion =>
      [.tag "include".toList, .needed "path" .plain,
       .list "comments" (.choice .comment)]
  | .struct =>
      [.tag "struct".toList, .needed "name" .plain,
       .list "fields" (.node .field),
       .list "comments" (.choice .comment),
       .list "trailing_comments" (.choice .comment)]
  | .enum =>
      [.tag "enum".toList, .needed "name" .plain,
       .list "members" (.node .enumMember),
       .list "comments" (.choice .comment),
       .list "trailing_comments" (.choice .comment)]
  | .service =>
      [.tag "service".toList, .needed "name" .plain,
       .list "functions" (.node .function),
       .list "comments" (.choice .comment),
       .list "trailing_comments" (.choice .comment)]

/- The declared keys of a type. -/
def Node.typeKeys : IdlType.Tag → List Key
  | .primitive =>
      [.tag "primitive".toList, .needed "name" .plain]
  | .list =>
      [.tag "list".toList, .needed "element" (.choice .type)]
  | .map =>
      [.tag "map".toList, .needed "key" (.choice .type),
       .needed "value" (.choice .type)]
  | .named =>
      [.tag "named".toList, .needed "name" .plain]

/- The declared keys of a comment. -/
def Node.commentKeys : Comment.Tag → List Key
  | .line => [.tag "line".toList, .needed "text" .plain]
  | .block =>
      [.tag "block".toList, .needed "lines" (.items .plain)]

/- The declared keys of a node. -/
def Node.keys : Node → List Key
  | .document =>
      [.list "body" (.choice .definition),
       .list "trailing_comments" (.choice .comment)]
  | .definition kind => definitionKeys kind
  | .function =>
      [.needed "return_type" (.choice .type),
       .needed "name" .plain,
       .list "fields" (.node .field),
       .absent "annotations" (.items (.node .annot)),
       .list "comments" (.choice .comment)]
  | .field =>
      [.needed "id" .plain,
       .absent "requiredness" .plain,
       .needed "type" (.choice .type),
       .needed "name" .plain,
       .absent "annotations" (.items (.node .annot)),
       .list "comments" (.choice .comment)]
  | .enumMember =>
      [.needed "name" .plain,
       .absent "value" .plain,
       .list "comments" (.choice .comment)]
  | .annot => [.needed "name" .plain, .needed "value" .plain]
  | .type tag => typeKeys tag
  | .comment tag => commentKeys tag

-- Completed Data

mutual

/-
  The full data says all that the given data says under
  declared keys, and has the default for each declared key
  that the given data lacks. It has no other keys.
-/
inductive Completes : Shape → Data → Data → Prop where
  | plain
      (data : Data) :
      Completes .plain data data
  | items
      {shape : Shape}
      {given full : List Data}
      (each : CompletesItems shape given full) :
      Completes (.items shape) (.list given) (.list full)
  | null
      {shape : Shape} :
      Completes (.nullable shape) .null .null
  | present
      {shape : Shape}
      {given full : Data}
      (inner : Completes shape given full) :
      Completes (.nullable shape) given full
  | node
      {node : Node}
      {given full : List (Text × Data)}
      (entries : CompletesKeys node.keys given full) :
      Completes (.node node) (.record given) (.record full)
  | choice
      {choice : Choice}
      {word : Text}
      {node : Node}
      {given : List (Text × Data)}
      {full : Data}
      (tag : Data.lookup? tagKey given = some (.text word))
      (found : choice.node? word = some node)
      (inner : Completes (.node node) (.record given) full) :
      Completes (.choice choice) (.record given) full

/- The items are completed one by one, and none is lost. -/
inductive CompletesItems :
    Shape → List Data → List Data → Prop where
  | nil
      {shape : Shape} :
      CompletesItems shape [] []
  | cons
      {shape : Shape}
      {item shown : Data}
      {given full : List Data}
      (head : Completes shape item shown)
      (tail : CompletesItems shape given full) :
      CompletesItems shape (item :: given) (shown :: full)

/- The keys of the full record are the declared ones. -/
inductive CompletesKeys :
    List Key → List (Text × Data) → List (Text × Data) →
      Prop where
  | nil
      {given : List (Text × Data)} :
      CompletesKeys [] given []
  | kept
      {key : Key}
      {keys : List Key}
      {value shown : Data}
      {given full : List (Text × Data)}
      (found : Data.lookup? key.name given = some value)
      (inner : Completes key.shape value shown)
      (more : CompletesKeys keys given full) :
      CompletesKeys (key :: keys) given
        ((key.name, shown) :: full)
  | filled
      {key : Key}
      {keys : List Key}
      {shown : Data}
      {given full : List (Text × Data)}
      (missing : Data.lookup? key.name given = none)
      (filling : key.default = some shown)
      (more : CompletesKeys keys given full) :
      CompletesKeys (key :: keys) given
        ((key.name, shown) :: full)

end

-- Outcomes of Checks

end Idl

namespace Checked

variable {α β : Type}

@[simp] theorem map_ok
    (f : α → β)
    (value : α) :
    Functor.map (f := Checked) f (.ok value) =
      .ok (f value) :=
  rfl

@[simp] theorem seq_ok
    (f : α → β)
    (value : α) :
    Seq.seq (f := Checked) (.ok f) (fun _ => .ok value) =
      .ok (f value) :=
  rfl

@[simp] theorem under_ok
    (step : Step)
    (value : α) :
    under step (.ok value) = .ok value :=
  rfl

@[simp] theorem text_text
    (found : Text) :
    text (.text found) = .ok found :=
  rfl

theorem map_eq_ok_iff
    {f : α → β}
    {check : Checked α}
    {value : β} :
    f <$> check = .ok value ↔
      ∃ inner, check = .ok inner ∧ f inner = value := by
  cases check with
  | error faults =>
      constructor
      · intro h
        cases h
      · rintro ⟨_, h, _⟩
        cases h
  | ok inner =>
      constructor
      · intro h
        cases h
        exact ⟨inner, rfl, rfl⟩
      · rintro ⟨_, h, rfl⟩
        cases h
        rfl

theorem seq_eq_ok_iff
    {first : Checked (α → β)}
    {second : Checked α}
    {value : β} :
    first <*> second = .ok value ↔
      ∃ f inner,
        first = .ok f ∧ second = .ok inner ∧
          f inner = value := by
  cases first with
  | error faults =>
      constructor
      · intro h
        cases second <;> cases h
      · rintro ⟨_, _, h, _⟩
        cases h
  | ok f =>
      constructor
      · intro h
        cases second with
        | error faults => cases h
        | ok inner =>
            cases h
            exact ⟨f, inner, rfl, rfl, rfl⟩
      · rintro ⟨_, _, hFirst, rfl, rfl⟩
        cases hFirst
        rfl

theorem under_eq_ok_iff
    {step : Step}
    {check : Checked α}
    {value : α} :
    under step check = .ok value ↔ check = .ok value := by
  cases check with
  | error faults =>
      constructor <;> intro h <;> cases h
  | ok inner => exact Iff.rfl

theorem needed_eq_ok_iff
    {key : Text}
    {check : Data → Checked α}
    {entries : List (Text × Data)}
    {value : α} :
    needed key check entries = .ok value ↔
      ∃ data, Data.lookup? key entries = some data ∧
        check data = .ok value := by
  rw [needed, under_eq_ok_iff]
  cases Data.lookup? key entries with
  | none =>
      constructor
      · intro h
        cases h
      · rintro ⟨_, h, _⟩
        cases h
  | some data => simp

/- A key that stands in front is found. -/
@[simp] theorem needed_cons_self
    (key : Text)
    (check : Data → Checked α)
    (data : Data)
    (more : List (Text × Data)) :
    needed key check ((key, data) :: more) =
      under (.key key) (check data) := by
  simp [needed, Data.lookup?]

/- Another key is passed over. -/
theorem needed_cons_of_ne
    {name key : String}
    (h : name ≠ key)
    (check : Data → Checked α)
    (data : Data)
    (more : List (Text × Data)) :
    needed key.toList check ((name.toList, data) :: more) =
      needed key.toList check more := by
  simp [needed, Data.lookup?, String.toList_inj, h]

/- So is the tag. -/
theorem needed_cons_tag
    {key : String}
    (h : "kind" ≠ key)
    (check : Data → Checked α)
    (data : Data)
    (more : List (Text × Data)) :
    needed key.toList check ((Idl.tagKey, data) :: more) =
      needed key.toList check more :=
  needed_cons_of_ne h check data more

@[simp] theorem optional_cons_self
    (key : Text)
    (default : α)
    (check : Data → Checked α)
    (data : Data)
    (more : List (Text × Data)) :
    optional key default check ((key, data) :: more) =
      under (.key key) (check data) := by
  simp [optional, Data.lookup?]

theorem optional_cons_of_ne
    {name key : String}
    (h : name ≠ key)
    (default : α)
    (check : Data → Checked α)
    (data : Data)
    (more : List (Text × Data)) :
    optional key.toList default check
        ((name.toList, data) :: more) =
      optional key.toList default check more := by
  simp [optional, Data.lookup?, String.toList_inj, h]

theorem optional_cons_tag
    {key : String}
    (h : "kind" ≠ key)
    (default : α)
    (check : Data → Checked α)
    (data : Data)
    (more : List (Text × Data)) :
    optional key.toList default check
        ((Idl.tagKey, data) :: more) =
      optional key.toList default check more :=
  optional_cons_of_ne h default check data more

theorem optional_eq_ok_iff
    {key : Text}
    {default value : α}
    {check : Data → Checked α}
    {entries : List (Text × Data)} :
    optional key default check entries = .ok value ↔
      (Data.lookup? key entries = none ∧ default = value) ∨
        ∃ data, Data.lookup? key entries = some data ∧
          check data = .ok value := by
  unfold optional
  cases Data.lookup? key entries with
  | none =>
      constructor
      · intro h
        cases h
        exact .inl ⟨rfl, rfl⟩
      · rintro (⟨_, rfl⟩ | ⟨_, h, _⟩)
        · rfl
        · cases h
  | some data => simp [under_eq_ok_iff]

theorem record_eq_ok_iff
    {check : List (Text × Data) → Checked α}
    {value : α} :
    record check data = .ok value ↔
      ∃ entries, data = .record entries ∧
        check entries = .ok value := by
  constructor
  · intro h
    cases data with
    | record entries => exact ⟨entries, rfl, h⟩
    | null => cases h
    | bool _ => cases h
    | number _ _ => cases h
    | text _ => cases h
    | list _ => cases h
  · rintro ⟨entries, rfl, h⟩
    exact h

end Checked

namespace Idl

open Checked (map_ok map_eq_ok_iff seq_ok seq_eq_ok_iff
  under_ok text_text record_eq_ok_iff needed_cons_self
  needed_cons_of_ne needed_cons_tag optional_cons_self
  optional_cons_of_ne)

-- Faithful Checks

variable {α : Type}

/-
  A value that is faithful to its data: what was written is
  read again, and from whatever it was read, it is written
  with what was left out filled in.
-/
structure FaithfulAt
    (shape : Shape)
    (check : Data → Checked α)
    (value : α)
    (shown : Data) : Prop where
  reload : check shown = .ok value
  complete : ∀ given,
    check given = .ok value → Completes shape given shown

/- All values are faithful to what is written for them. -/
def Faithful
    (shape : Shape)
    (write : α → Data)
    (check : Data → Checked α) : Prop :=
  ∀ value, FaithfulAt shape check value (write value)

theorem faithful_text :
    Faithful .plain Data.text Checked.text := by
  intro value
  refine ⟨rfl, fun given h => ?_⟩
  cases given with
  | text found =>
      cases h
      exact .plain _
  | null | bool _ | number _ _ | list _ | record _ => cases h

/- Words that can be told apart by what they stand for. -/
theorem faithful_word
    {word : α → Text}
    {read : Text → Option α}
    (hRead : ∀ found value,
      read found = some value ↔ word value = found) :
    Faithful .plain (fun value => .text (word value))
      (Checked.word read) := by
  intro value
  constructor
  · have hFound : read (word value) = some value :=
      (hRead _ _).mpr rfl
    simp only [Checked.word, hFound]
    rfl
  · intro given h
    cases given with
    | text found =>
        simp only [Checked.word] at h
        cases hFound : read found with
        | none =>
            rw [hFound] at h
            cases h
        | some inner =>
            rw [hFound] at h
            cases h
            have hWord := (hRead _ _).mp hFound
            subst hWord
            exact .plain _
    | null | bool _ | number _ _ | list _ | record _ =>
        cases h

namespace Faithful

variable {shape : Shape}
variable {write : α → Data}
variable {check : Data → Checked α}

theorem itemsFrom_map
    (h : Faithful shape write check)
    (index : Nat)
    (values : List α) :
    Checked.itemsFrom check index (values.map write) =
      .ok values := by
  induction values generalizing index with
  | nil => rfl
  | cons value more ih =>
      simp only [List.map_cons, Checked.itemsFrom,
        (h value).reload, ih]
      rfl

theorem completes_itemsFrom
    (h : Faithful shape write check)
    {index : Nat}
    {given : List Data}
    {values : List α}
    (hItems : Checked.itemsFrom check index given =
      .ok values) :
    CompletesItems shape given (values.map write) := by
  induction given generalizing index values with
  | nil =>
      cases hItems
      exact .nil
  | cons item more ih =>
      rw [Checked.itemsFrom, seq_eq_ok_iff] at hItems
      obtain ⟨_, rest, hHead, hTail, rfl⟩ := hItems
      obtain ⟨value, hValue, rfl⟩ :=
        map_eq_ok_iff.mp hHead
      exact .cons
        ((h value).complete _
          (Checked.under_eq_ok_iff.mp hValue))
        (ih hTail)

/- A list is faithful if its items are. -/
theorem items
    (h : Faithful shape write check) :
    Faithful (.items shape)
      (fun values => .list (values.map write))
      (Checked.items check) := by
  intro values
  refine ⟨h.itemsFrom_map 0 values, fun given hItems => ?_⟩
  cases given with
  | list found => exact .items (h.completes_itemsFrom hItems)
  | null | bool _ | number _ _ | text _ | record _ =>
      cases hItems

/- Null stands for nothing where nothing else is null. -/
theorem nullable
    (h : Faithful shape write check)
    (hNull : ∀ value, write value ≠ .null) :
    Faithful (.nullable shape)
      (fun value => (value.map write).getD .null)
      (Checked.nullable check) := by
  intro value
  constructor
  · cases value with
    | none => rfl
    | some inner =>
        have hData := hNull inner
        have hInner := (h inner).reload
        simp only [Option.map_some, Option.getD_some]
        generalize write inner = data at hData hInner
        cases data with
        | null => exact absurd rfl hData
        | bool _ | number _ _ | text _ | list _ | record _ =>
            exact map_eq_ok_iff.mpr
              ⟨inner, hInner, rfl⟩
  · intro given hValue
    cases given with
    | null =>
        cases hValue
        exact .null
    | bool _ | number _ _ | text _ | list _ | record _ =>
        obtain ⟨inner, hInner, rfl⟩ :=
          map_eq_ok_iff.mp hValue
        exact .present ((h inner).complete _ hInner)

end Faithful

-- Keys of Records

namespace CompletesKeys

variable {check : Data → Checked α}
variable {key : Key}
variable {keys : List Key}
variable {given full : List (Text × Data)}
variable {value : α}
variable {shown : Data}

theorem of_needed
    (h : FaithfulAt key.shape check value shown)
    (hValue : Checked.needed key.name check given = .ok value)
    (more : CompletesKeys keys given full) :
    CompletesKeys (key :: keys) given
      ((key.name, shown) :: full) := by
  obtain ⟨data, hFound, hData⟩ :=
    Checked.needed_eq_ok_iff.mp hValue
  exact .kept hFound (h.complete _ hData) more

theorem of_optional
    (key : Key)
    {default : α}
    (h : FaithfulAt key.shape check value shown)
    (hValue : Checked.optional key.name default check given =
      .ok value)
    (hDefault : default = value → key.default = some shown)
    (more : CompletesKeys keys given full) :
    CompletesKeys (key :: keys) given
      ((key.name, shown) :: full) := by
  rcases Checked.optional_eq_ok_iff.mp hValue with
    ⟨hMissing, hValue⟩ | ⟨data, hFound, hData⟩
  · exact .filled hMissing (hDefault hValue) more
  · exact .kept hFound (h.complete _ hData) more

/- A list that may be left out is faithful as a list. -/
theorem of_list
    {name : String}
    {shape : Shape}
    {write : α → Data}
    {values : List α}
    (h : Faithful shape write check)
    (hValues : Checked.optional name.toList []
      (Checked.items check) given = .ok values)
    (more : CompletesKeys keys given full) :
    CompletesKeys (.list name shape :: keys) given
      ((name.toList, .list (values.map write)) :: full) :=
  of_optional (.list name shape) (h.items values)
    hValues (by rintro rfl; rfl) more

/- A tag that fits is the one that is written. -/
theorem of_fitting
    {word : Text}
    (hTag : fitting word given = .ok ())
    (more : CompletesKeys keys given full) :
    CompletesKeys (.tag word :: keys) given
      ((tagKey, .text word) :: full) := by
  refine of_optional (.tag word) ⟨?_, ?_⟩ hTag
    (fun _ => rfl) more
  · simp only [Checked.word, if_true]
    rfl
  · intro data hData
    cases data with
    | text found =>
        simp only [Checked.word] at hData
        split at hData
        · next hFound =>
            simp only [Option.ite_none_right_eq_some] at hFound
            rw [hFound.1]
            exact .plain _
        · cases hData
    | null | bool _ | number _ _ | list _ | record _ =>
        cases hData

end CompletesKeys

-- Tagged Records

/- The tag that was written in front fits. -/
theorem fitting_cons
    (word : Text)
    (more : List (Text × Data)) :
    fitting word ((tagKey, .text word) :: more) = .ok () := by
  simp [fitting, Checked.optional, Data.lookup?,
    Checked.word]
  rfl

theorem tagOf_eq_ok_iff
    {τ : Type}
    {read : Text → Option τ}
    {tag : τ} :
    tagOf read data = .ok tag ↔
      ∃ entries word,
        data = .record entries ∧
          Data.lookup? tagKey entries = some (.text word) ∧
          read word = some tag := by
  constructor
  · intro h
    cases data with
    | record entries =>
        simp only [tagOf] at h
        split at h
        · cases h
        · next word hWord =>
            split at h
            · next hTag =>
                cases h
                exact ⟨entries, word, rfl, hWord, hTag⟩
            · cases h
        · cases h
    | null | bool _ | number _ _ | text _ | list _ => cases h
  · rintro ⟨entries, word, rfl, hWord, hTag⟩
    simp only [tagOf, hWord, hTag]
    rfl

theorem tagged_eq_ok_iff
    {τ : Type}
    {read : Text → Option τ}
    {word : τ → Text}
    {check : τ → Checked α}
    {value : α} :
    tagged read word check data = .ok value ↔
      ∃ tag, tagOf read data = .ok tag ∧
        check tag = .ok value := by
  unfold tagged
  cases tagOf read data with
  | error faults =>
      constructor
      · intro h
        cases h
      · rintro ⟨_, h, _⟩
        cases h
  | ok tag =>
      constructor
      · intro h
        exact ⟨tag, rfl, Checked.under_eq_ok_iff.mp h⟩
      · rintro ⟨_, h, hValue⟩
        cases h
        exact Checked.under_eq_ok_iff.mpr hValue

/-
  A value of one of several kinds is faithful if it is
  faithful as one of its own kind.
-/
theorem FaithfulAt.choice
    {τ : Type}
    {choice : Choice}
    {node : τ → Node}
    {read : Text → Option τ}
    {word : τ → Text}
    {check : τ → Data → Checked α}
    {value : α}
    {shown : Data}
    (tag : τ)
    (hNode : ∀ found tag, read found = some tag →
      choice.node? found = some (node tag))
    (hTag : tagOf read shown = .ok tag)
    (hOwn : check tag shown = .ok value)
    (h : ∀ tag given, check tag given = .ok value →
      Completes (.node (node tag)) given shown) :
    FaithfulAt (.choice choice)
      (fun data =>
        tagged read word (fun tag => check tag data) data)
      value shown := by
  refine ⟨tagged_eq_ok_iff.mpr ⟨tag, hTag, hOwn⟩, ?_⟩
  intro given hGiven
  obtain ⟨found, hFound, hValue⟩ :=
    tagged_eq_ok_iff.mp hGiven
  obtain ⟨entries, announced, rfl, hLookup, hRead⟩ :=
    tagOf_eq_ok_iff.mp hFound
  exact .choice hLookup (hNode _ _ hRead) (h _ _ hValue)

-- Comments

namespace Comment

theorem completes_ofTagged
    {tag : Tag}
    {given : Data}
    {comment : Comment}
    (h : ofTagged tag given = .ok comment) :
    Completes (.node (.comment tag)) given comment.toData := by
  obtain ⟨entries, rfl, hFound⟩ := record_eq_ok_iff.mp h
  cases tag with
  | line =>
      simp only [seq_eq_ok_iff, map_eq_ok_iff] at hFound
      obtain ⟨_, text, ⟨_, hTag, rfl⟩, hText, rfl⟩ := hFound
      exact .node (.of_fitting hTag
        (.of_needed (faithful_text text) hText .nil))
  | block =>
      simp only [seq_eq_ok_iff, map_eq_ok_iff] at hFound
      obtain ⟨_, lines, ⟨_, hTag, rfl⟩, hLines, rfl⟩ := hFound
      exact .node (.of_fitting hTag
        (.of_needed (faithful_text.items lines) hLines .nil))

theorem ofTagged_block
    (lines : List Text) :
    ofTagged .block (toData (.block lines)) =
      .ok (.block lines) := by
  have hLines := (faithful_text.items lines).reload
  simp (disch := simp) only [ofTagged, toData,
    Checked.record, fitting_cons, needed_cons_tag,
    needed_cons_self, hLines, map_ok, seq_ok, under_ok]
  rfl

theorem faithful_ofData :
    Faithful (.choice .comment) toData ofData := by
  intro comment
  have hNode : ∀ found tag, Tag.ofWord? found = some tag →
      Choice.comment.node? found = some (.comment tag) := by
    intro found tag hTag
    simp [Choice.node?, hTag]
  cases comment with
  | line text =>
      exact .choice .line hNode rfl rfl
        fun _ _ => completes_ofTagged
  | block lines =>
      exact .choice .block hNode rfl
        (ofTagged_block lines) fun _ _ => completes_ofTagged

end Comment

-- Types

theorem Primitive.ofWord?_eq_some_iff
    (found : Text)
    (primitive : Primitive) :
    ofWord? found = some primitive ↔
      primitive.word = found := by
  constructor
  · intro h
    simpa using List.find?_some h
  · rintro rfl
    cases primitive <;> rfl

namespace IdlType

/- The types inside a type are checked like any other. -/
theorem ofTagged_record
    (tag : Tag)
    (entries : List (Text × Data)) :
    ofTagged tag (.record entries) =
      match tag with
      | .primitive =>
          (fun _ builtin => .primitive builtin) <$>
            fitting tag.word entries <*>
            Checked.needed "name".toList
              (Checked.word Primitive.ofWord?) entries
      | .list =>
          (fun _ element => .list element) <$>
            fitting tag.word entries <*>
            Checked.needed "element".toList ofData entries
      | .map =>
          (fun _ key value => .map key value) <$>
            fitting tag.word entries <*>
            Checked.needed "key".toList ofData entries <*>
            Checked.needed "value".toList ofData entries
      | .named =>
          (fun _ name => .named name) <$>
            fitting tag.word entries <*>
            Checked.needed "name".toList Checked.text
              entries := by
  rw [ofTagged.eq_def]
  -- The lookup of a type inside remembers that it found the
  -- data, which is what lets the definition end.
  cases tag with
  | primitive => rfl
  | named => rfl
  | list =>
      refine congrArg (Checked.both _)
        (congrArg (Checked.under _) ?_)
      split
      · simp only [*]
      · simp only [*]
        rfl
  | map =>
      refine congr
        (congrArg Checked.both
          (congrArg (Checked.both _)
            (congrArg (Checked.under _) ?_)))
        (congrArg (Checked.under _) ?_)
      all_goals
        split
        · simp only [*]
        · simp only [*]
          rfl

theorem sizeOf_key_lt
    (key value : IdlType) :
    sizeOf key < sizeOf (IdlType.map key value) := by
  rw [IdlType.map.sizeOf_spec]
  omega

theorem sizeOf_value_lt
    (key value : IdlType) :
    sizeOf value < sizeOf (IdlType.map key value) := by
  rw [IdlType.map.sizeOf_spec]
  omega

/-
  Whatever a type was read from, it completes. The types
  inside it are known to do so.
-/
theorem completes_ofTagged
    {tag : Tag}
    {given : Data}
    {type : IdlType}
    (hInside : ∀ inner : IdlType, sizeOf inner < sizeOf type →
      FaithfulAt (.choice .type) ofData inner inner.toData)
    (h : ofTagged tag given = .ok type) :
    Completes (.node (.type tag)) given type.toData := by
  cases given with
  | record entries =>
      rw [ofTagged_record] at h
      cases tag with
      | primitive =>
          simp only [seq_eq_ok_iff, map_eq_ok_iff] at h
          obtain ⟨_, builtin, ⟨_, hTag, rfl⟩, hName, rfl⟩ := h
          exact .node (.of_fitting hTag (.of_needed
            (faithful_word Primitive.ofWord?_eq_some_iff
              builtin) hName .nil))
      | list =>
          simp only [seq_eq_ok_iff, map_eq_ok_iff] at h
          obtain ⟨_, element, ⟨_, hTag, rfl⟩, hElement,
            rfl⟩ := h
          exact .node (.of_fitting hTag (.of_needed
            (hInside element (by simp)) hElement .nil))
      | map =>
          simp only [seq_eq_ok_iff, map_eq_ok_iff] at h
          obtain ⟨_, value, ⟨_, key, ⟨_, hTag, rfl⟩, hKey,
            rfl⟩, hValue, rfl⟩ := h
          exact .node (.of_fitting hTag (.of_needed
            (hInside key (sizeOf_key_lt key value)) hKey
            (.of_needed
              (hInside value (sizeOf_value_lt key value))
              hValue .nil)))
      | named =>
          simp only [seq_eq_ok_iff, map_eq_ok_iff] at h
          obtain ⟨_, name, ⟨_, hTag, rfl⟩, hName, rfl⟩ := h
          exact .node (.of_fitting hTag
            (.of_needed (faithful_text name) hName .nil))
  | null | bool _ | number _ _ | text _ | list _ =>
      rw [ofTagged.eq_def] at h
      cases h

/- The tag of a type. -/
def tag : IdlType → Tag
  | .primitive _ => .primitive
  | .list _ => .list
  | .map _ _ => .map
  | .named _ => .named

theorem tagOf_toData
    (type : IdlType) :
    tagOf Tag.ofWord? type.toData = .ok type.tag := by
  cases type <;> rfl

theorem ofTagged_toData
    {type : IdlType}
    (hInside : ∀ inner : IdlType, sizeOf inner < sizeOf type →
      ofData inner.toData = .ok inner) :
    ofTagged type.tag type.toData = .ok type := by
  cases type with
  | primitive builtin =>
      have hName := (faithful_word
        Primitive.ofWord?_eq_some_iff builtin).reload
      simp (disch := simp) only [toData, ofTagged_record,
        tag, fitting_cons, needed_cons_tag,
        needed_cons_self, hName, map_ok, seq_ok, under_ok]
      rfl
  | list element =>
      have hElement := hInside element (by simp)
      simp (disch := simp) only [toData, ofTagged_record,
        tag, fitting_cons, needed_cons_tag,
        needed_cons_self, hElement, map_ok, seq_ok,
        under_ok]
      rfl
  | map key value =>
      have hKey := hInside key (sizeOf_key_lt key value)
      have hValue :=
        hInside value (sizeOf_value_lt key value)
      simp (disch := simp) only [toData, ofTagged_record,
        tag, fitting_cons, needed_cons_tag,
        needed_cons_of_ne, needed_cons_self, hKey, hValue,
        map_ok, seq_ok, under_ok]
      rfl
  | named name =>
      simp (disch := simp) only [toData, ofTagged_record,
        tag, fitting_cons, needed_cons_tag,
        needed_cons_self, text_text, map_ok, seq_ok,
        under_ok]
      rfl

theorem faithful_ofData :
    Faithful (.choice .type) toData ofData := by
  intro type
  have hNode : ∀ found tag, Tag.ofWord? found = some tag →
      Choice.type.node? found = some (.type tag) := by
    intro found tag hTag
    simp [Choice.node?, hTag]
  exact .choice _ hNode type.tagOf_toData
    (ofTagged_toData fun inner _ =>
      (faithful_ofData inner).reload)
    fun _ _ => completes_ofTagged fun inner _ =>
      faithful_ofData inner
termination_by type => type

end IdlType

-- Members

theorem Annot.faithful_ofData :
    Faithful (.node .annot) toData ofData := by
  intro annot
  refine ⟨rfl, fun given h => ?_⟩
  obtain ⟨entries, rfl, hFound⟩ := record_eq_ok_iff.mp h
  simp only [seq_eq_ok_iff,
    map_eq_ok_iff] at hFound
  obtain ⟨_, value, ⟨name, hName, rfl⟩, hValue, rfl⟩ := hFound
  exact .node (.of_needed (faithful_text name) hName
    (.of_needed (faithful_text value) hValue .nil))

theorem Requiredness.ofWord?_eq_some_iff
    (found : Text)
    (requiredness : Requiredness) :
    ofWord? found = some requiredness ↔
      requiredness.word = found := by
  constructor
  · intro h
    simpa using List.find?_some h
  · rintro rfl
    cases requiredness <;> rfl

/- A requiredness, or null. -/
theorem faithful_requiredness :
    Faithful (.nullable .plain)
      (fun found : Option Requiredness =>
        Data.ofOption (found.map (·.word)))
      (Checked.nullable
        (Checked.word Requiredness.ofWord?)) := by
  intro found
  have h := (faithful_word
    Requiredness.ofWord?_eq_some_iff).nullable
      (by simp) found
  cases found <;> exact h

/- A text, or null. -/
theorem faithful_ofOption :
    Faithful (.nullable .plain) Data.ofOption
      (Checked.nullable Checked.text) := by
  intro found
  have h := faithful_text.nullable (by simp) found
  cases found <;> exact h

/- A list of annotations, or null. -/
theorem faithful_annotations :
    Faithful (.nullable (.items (.node .annot)))
      annotationsData
      (Checked.nullable (Checked.items Annot.ofData)) := by
  intro found
  have h := Annot.faithful_ofData.items.nullable
    (by simp) found
  cases found <;> exact h

theorem Field.faithful_ofData :
    Faithful (.node .field) toData ofData := by
  intro field
  constructor
  · have hType := (IdlType.faithful_ofData field.type).reload
    have hRequired :=
      (faithful_requiredness field.requiredness).reload
    have hAnnots :=
      (faithful_annotations field.annotations).reload
    have hComments :=
      (Comment.faithful_ofData.items field.comments).reload
    simp (disch := simp) only [ofData, toData,
      Checked.record, annotationsOf, commentsUnder,
      commentsData, needed_cons_self, needed_cons_of_ne,
      optional_cons_self, optional_cons_of_ne, text_text,
      hType, hRequired, hAnnots, hComments, map_ok, seq_ok,
      under_ok]
    rfl
  · intro given h
    obtain ⟨entries, rfl, hFound⟩ := record_eq_ok_iff.mp h
    simp only [seq_eq_ok_iff, map_eq_ok_iff] at hFound
    obtain ⟨_, comments, ⟨_, annotations, ⟨_, name, ⟨_, type,
      ⟨_, requiredness, ⟨id, hId, rfl⟩, hRequired, rfl⟩,
      hType, rfl⟩, hName, rfl⟩, hAnnots, rfl⟩, hComments,
      rfl⟩ := hFound
    refine .node ?_
    refine .of_needed (faithful_text id) hId ?_
    refine .of_optional _ (faithful_requiredness requiredness)
      hRequired (by rintro rfl; rfl) ?_
    refine .of_needed (IdlType.faithful_ofData type) hType ?_
    refine .of_needed (faithful_text name) hName ?_
    refine .of_optional _ (faithful_annotations annotations)
      hAnnots (by rintro rfl; rfl) ?_
    exact .of_list Comment.faithful_ofData hComments .nil

theorem EnumMember.faithful_ofData :
    Faithful (.node .enumMember) toData ofData := by
  intro enumMember
  constructor
  · have hValue := (faithful_ofOption enumMember.value).reload
    have hComments :=
      (Comment.faithful_ofData.items
        enumMember.comments).reload
    simp (disch := simp) only [ofData, toData,
      Checked.record, commentsUnder, commentsData,
      needed_cons_self, optional_cons_self,
      optional_cons_of_ne, text_text, hValue, hComments,
      map_ok, seq_ok, under_ok]
    rfl
  · intro given h
    obtain ⟨entries, rfl, hFound⟩ := record_eq_ok_iff.mp h
    simp only [seq_eq_ok_iff, map_eq_ok_iff] at hFound
    obtain ⟨_, comments, ⟨_, value, ⟨name, hName, rfl⟩,
      hValue, rfl⟩, hComments, rfl⟩ := hFound
    refine .node (.of_needed (faithful_text name) hName ?_)
    refine .of_optional _ (faithful_ofOption value) hValue
      (by rintro rfl; rfl) ?_
    exact .of_list Comment.faithful_ofData hComments .nil

theorem Function.faithful_ofData :
    Faithful (.node .function) toData ofData := by
  intro function
  constructor
  · have hType :=
      (IdlType.faithful_ofData function.returnType).reload
    have hFields :=
      (Field.faithful_ofData.items function.fields).reload
    have hAnnots :=
      (faithful_annotations function.annotations).reload
    have hComments :=
      (Comment.faithful_ofData.items function.comments).reload
    simp (disch := simp) only [ofData, toData,
      Checked.record, fieldsOf, annotationsOf,
      commentsUnder, commentsData, needed_cons_self,
      needed_cons_of_ne, optional_cons_self,
      optional_cons_of_ne, text_text, hType, hFields,
      hAnnots, hComments, map_ok, seq_ok, under_ok]
    rfl
  · intro given h
    obtain ⟨entries, rfl, hFound⟩ := record_eq_ok_iff.mp h
    simp only [seq_eq_ok_iff, map_eq_ok_iff] at hFound
    obtain ⟨_, comments, ⟨_, annotations, ⟨_, fields, ⟨_, name,
      ⟨type, hType, rfl⟩, hName, rfl⟩, hFields, rfl⟩, hAnnots,
      rfl⟩, hComments, rfl⟩ := hFound
    refine .node ?_
    refine .of_needed (IdlType.faithful_ofData type) hType ?_
    refine .of_needed (faithful_text name) hName ?_
    refine .of_list Field.faithful_ofData hFields ?_
    refine .of_optional _ (faithful_annotations annotations)
      hAnnots (by rintro rfl; rfl) ?_
    exact .of_list Comment.faithful_ofData hComments .nil

-- Definitions

namespace Definition

theorem completes_ofTagged
    {kind : Kind}
    {given : Data}
    {definition : Definition}
    (h : ofTagged kind given = .ok definition) :
    Completes (.node (.definition kind)) given
      definition.toData := by
  obtain ⟨entries, rfl, hFound⟩ := record_eq_ok_iff.mp h
  cases kind
  all_goals
    simp only [seq_eq_ok_iff, map_eq_ok_iff] at hFound
  case nameSpace =>
      obtain ⟨_, comments, ⟨_, name, ⟨_, scope,
        ⟨_, hTag, rfl⟩, hScope, rfl⟩, hName, rfl⟩,
        hComments, rfl⟩ := hFound
      refine .node (.of_fitting hTag ?_)
      refine .of_needed (faithful_text scope) hScope ?_
      refine .of_needed (faithful_text name) hName ?_
      exact .of_list Comment.faithful_ofData hComments .nil
  case inclusion =>
      obtain ⟨_, comments, ⟨_, path, ⟨_, hTag, rfl⟩, hPath,
        rfl⟩, hComments, rfl⟩ := hFound
      refine .node (.of_fitting hTag ?_)
      refine .of_needed (faithful_text path) hPath ?_
      exact .of_list Comment.faithful_ofData hComments .nil
  case struct =>
      obtain ⟨_, trailing, ⟨_, comments, ⟨_, fields, ⟨_, name,
        ⟨_, hTag, rfl⟩, hName, rfl⟩, hFields, rfl⟩,
        hComments, rfl⟩, hTrailing, rfl⟩ := hFound
      refine .node (.of_fitting hTag ?_)
      refine .of_needed (faithful_text name) hName ?_
      refine .of_list Field.faithful_ofData hFields ?_
      refine .of_list Comment.faithful_ofData hComments ?_
      exact .of_list Comment.faithful_ofData hTrailing .nil
  case enum =>
      obtain ⟨_, trailing, ⟨_, comments, ⟨_, members, ⟨_, name,
        ⟨_, hTag, rfl⟩, hName, rfl⟩, hMembers, rfl⟩,
        hComments, rfl⟩, hTrailing, rfl⟩ := hFound
      refine .node (.of_fitting hTag ?_)
      refine .of_needed (faithful_text name) hName ?_
      refine .of_list EnumMember.faithful_ofData hMembers ?_
      refine .of_list Comment.faithful_ofData hComments ?_
      exact .of_list Comment.faithful_ofData hTrailing .nil
  case service =>
      obtain ⟨_, trailing, ⟨_, comments, ⟨_, functions,
        ⟨_, name, ⟨_, hTag, rfl⟩, hName, rfl⟩, hFunctions,
        rfl⟩, hComments, rfl⟩, hTrailing, rfl⟩ := hFound
      refine .node (.of_fitting hTag ?_)
      refine .of_needed (faithful_text name) hName ?_
      refine .of_list Function.faithful_ofData hFunctions ?_
      refine .of_list Comment.faithful_ofData hComments ?_
      exact .of_list Comment.faithful_ofData hTrailing .nil

theorem tagOf_toData
    (definition : Definition) :
    tagOf Kind.ofWord? definition.toData =
      .ok definition.kind := by
  cases definition <;> rfl

theorem ofTagged_toData
    (definition : Definition) :
    ofTagged definition.kind definition.toData =
      .ok definition := by
  have hComments (found : List Comment) :=
    (Comment.faithful_ofData.items found).reload
  have hFields (found : List Field) :=
    (Field.faithful_ofData.items found).reload
  have hMembers (found : List EnumMember) :=
    (EnumMember.faithful_ofData.items found).reload
  have hFunctions (found : List Function) :=
    (Function.faithful_ofData.items found).reload
  cases definition <;>
    simp (disch := simp) only [ofTagged, toData, kind,
      Checked.record, fieldsOf, commentsUnder, commentsData,
      fitting_cons, needed_cons_tag,
      Checked.optional_cons_tag, needed_cons_self,
      needed_cons_of_ne, optional_cons_self,
      optional_cons_of_ne, text_text, hFields, hMembers,
      hFunctions, hComments, map_ok, seq_ok, under_ok] <;>
    rfl

theorem faithful_ofData :
    Faithful (.choice .definition) toData ofData := by
  intro definition
  have hNode : ∀ found kind, Kind.ofWord? found = some kind →
      Choice.definition.node? found =
        some (.definition kind) := by
    intro found kind hKind
    simp [Choice.node?, hKind]
  exact .choice _ hNode definition.tagOf_toData
    definition.ofTagged_toData fun _ _ => completes_ofTagged

end Definition

-- Documents

namespace Document

theorem faithful_ofData :
    Faithful (.node .document) toData ofData := by
  intro document
  constructor
  · have hBody :=
      (Definition.faithful_ofData.items document.body).reload
    have hTrailing :=
      (Comment.faithful_ofData.items document.trailing).reload
    simp (disch := simp) only [ofData, toData,
      Checked.record, commentsUnder, commentsData,
      optional_cons_self, optional_cons_of_ne, hBody,
      hTrailing, map_ok, seq_ok, under_ok]
    rfl
  · intro given h
    obtain ⟨entries, rfl, hFound⟩ := record_eq_ok_iff.mp h
    simp only [seq_eq_ok_iff, map_eq_ok_iff] at hFound
    obtain ⟨_, trailing, ⟨body, hBody, rfl⟩, hTrailing,
      rfl⟩ := hFound
    refine .node ?_
    refine .of_list Definition.faithful_ofData hBody ?_
    exact .of_list Comment.faithful_ofData hTrailing .nil

/-
  A document that is written as data and checked again is
  the same. Data that is accepted as a document is written
  back with all that it said under declared keys, with the
  defaults for those it lacked, and with no other keys.
-/
theorem data_reloads :
    (∀ document : Document,
      ofData document.toData = .ok document) ∧
      ∀ (given : Data) (document : Document),
        ofData given = .ok document →
          Completes (.node .document) given
            document.toData :=
  ⟨fun document => (faithful_ofData document).reload,
    fun _ document => (faithful_ofData document).complete _⟩

/-
  A struct with one field, of a list of maps. Everything
  that may be left out is, and one key is not declared.
-/
def sparseData : Data :=
  .record
    [("body".toList, .list
       [.record
         [("name".toList, .text ['S']),
          ("colour".toList, .null),
          (tagKey, .text "struct".toList),
          ("fields".toList, .list
            [.record
              [("type".toList, .record
                 [(tagKey, .text "list".toList),
                  ("element".toList, .record
                    [(tagKey, .text "map".toList),
                     ("key".toList, .record
                       [(tagKey, .text "primitive".toList),
                        ("name".toList, .text "i32".toList)]),
                     ("value".toList, .record
                       [(tagKey, .text "named".toList),
                        ("name".toList, .text ['T'])])])]),
               ("id".toList, .text ['1']),
               ("name".toList, .text ['f'])]])]])]

/- The document that the sparse data stands for. -/
def sparseDocument : Document where
  body :=
    [.struct
      { name := ['S']
        fields :=
          [{ id := ['1']
             requiredness := none
             type :=
               .list (.map (.primitive .i32) (.named ['T']))
             name := ['f']
             annotations := none
             comments := [] }]
        comments := []
        trailing := [] }]
  trailing := []

/- Sparse data is accepted, completed and reloaded. -/
theorem sparse_data_reloads :
    ofData sparseData = .ok sparseDocument ∧
      ofData sparseDocument.toData = .ok sparseDocument ∧
      Completes (.node .document) sparseData
        sparseDocument.toData := by
  have hSparse : ofData sparseData = .ok sparseDocument := by
    with_unfolding_all rfl
  exact ⟨hSparse, data_reloads.1 sparseDocument,
    data_reloads.2 sparseData sparseDocument hSparse⟩

end Document

end Idl

end ThriftTypings
