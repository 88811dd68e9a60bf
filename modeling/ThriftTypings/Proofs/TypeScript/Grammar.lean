import ThriftTypings.Proofs.TypeScript.Skeleton
import ThriftTypings.Proofs.TypeScript.Tokens

/-
  This file defines the grammar of emitted code, as trees
  with the tokens that they are spelled with, and a reader
  of tokens.

  The reader is proved exact: it reads a tree from some
  tokens if and only if the tree is well formed and spelled
  with them.

  Key definitions include:
    * `Key`, `TypeTree`, `Member`, `Item`
    * `Item.tokens` and `Item.WellFormed`

  Key theorems include:
    * `reads_item`
    * `readModule_eq_some_iff`
-/

namespace ThriftTypings

namespace TypeScript

variable {rest : List Token}

-- Trees

/- A word of the language. -/
def keyword
    (word : String) : Token :=
  .word word.toList

/- Is the word a name that can be declared? -/
def isBinding
    (name : Text) : Bool :=
  isIdentifier name && !reservedWords.contains name

/- A key: an identifier, or any name in quotes. -/
inductive Key where
  | plain (name : Text)
  | quoted (name : Text)
  deriving DecidableEq, Repr

namespace Key

/- The name that a key stands for. -/
def name : Key → Text
  | .plain name => name
  | .quoted name => name

/- The token of a key. -/
def token : Key → Token
  | .plain name => .word name
  | .quoted name => .string name

/- Only identifiers may stand without quotes. -/
def WellFormed : Key → Prop
  | .plain name => isIdentifier name = true
  | .quoted _ => True

end Key

/-
  A type: no value, a name with members of it, an array or a
  record.
-/
inductive TypeTree where
  | void
  | named (head : Text) (members : List Text)
  | array (element : TypeTree)
  | record (key value : TypeTree)
  deriving DecidableEq, Repr

namespace TypeTree

/- The tokens of a type. -/
def tokens : TypeTree → List Token
  | .void => [keyword "void"]
  | .named head members =>
      [.word (Text.joined ['.'] (head :: members))]
  | .array element =>
      [keyword "Array", .mark '<'] ++ element.tokens ++
        [.mark '>']
  | .record key value =>
      [keyword "Record", .mark '<'] ++ key.tokens ++
        [.mark ','] ++ value.tokens ++ [.mark '>']

/- Are the names in a type identifiers? -/
def WellFormed : TypeTree → Prop
  | .void => True
  | .named head members =>
      isBinding head = true ∧
        ∀ name ∈ members, isIdentifier name = true
  | .array element => element.WellFormed
  | .record key value => key.WellFormed ∧ value.WellFormed

/- Is the type a single word? -/
def isSimple : TypeTree → Bool
  | .void => true
  | .named _ _ => true
  | .array _ => false
  | .record _ _ => false

/- How deep a type is nested. -/
def depth : TypeTree → Nat
  | .void => 1
  | .named _ _ => 1
  | .array element => element.depth + 1
  | .record key value => max key.depth value.depth + 1

theorem depth_pos
    (type : TypeTree) :
    0 < type.depth := by
  cases type <;> simp [depth]

theorem depth_le_length
    (type : TypeTree) :
    type.depth ≤ type.tokens.length := by
  induction type with
  | void => simp [depth, tokens]
  | named head members => simp [depth, tokens]
  | array element ih =>
      simp only [depth, tokens, List.length_append,
        List.length_cons]
      omega
  | record key value ihKey ihValue =>
      simp only [depth, tokens, List.length_append,
        List.length_cons]
      omega

end TypeTree

/- A parameter: its name and its type. -/
abbrev ParameterTree := Text × TypeTree

/- The tokens of a parameter. -/
def parameterTokens
    (parameter : ParameterTree) : List Token :=
  [.word parameter.1, .mark ':'] ++ parameter.2.tokens

/- The tokens of parameters, with commas between them. -/
def parametersTokens : List ParameterTree → List Token
  | [] => []
  | first :: more =>
      parameterTokens first ++
        more.flatMap fun parameter =>
          .mark ',' :: parameterTokens parameter

/- Is the name of a parameter one, and the type well formed? -/
def ParameterFits
    (parameter : ParameterTree) : Prop :=
  isBinding parameter.1 = true ∧ parameter.2.WellFormed

/- A member of an interface: a property or a method. -/
inductive Member where
  | property (key : Key) (optional : Bool) (type : TypeTree)
  | method (key : Key) (parameters : List ParameterTree)
      (result : TypeTree)
  deriving DecidableEq, Repr

namespace Member

/- The tokens of a member. -/
def tokens : Member → List Token
  | .property key optional type =>
      [key.token] ++ (if optional then [.mark '?'] else []) ++
        [.mark ':'] ++ type.tokens ++ [.mark ';']
  | .method key parameters result =>
      [key.token, .mark '('] ++ parametersTokens parameters ++
        [.mark ')', .mark ':'] ++ result.tokens ++ [.mark ';']

/- Are the keys, names and types in a member well formed? -/
def WellFormed : Member → Prop
  | .property key _ type =>
      key.WellFormed ∧ type.WellFormed
  | .method key parameters result =>
      key.WellFormed ∧
        (∀ parameter ∈ parameters, ParameterFits parameter) ∧
        result.WellFormed

end Member

/- The tokens of an integer. -/
def integerTokens : Int → List Token
  | .ofNat n => [.word (Text.ofNat n)]
  | .negSucc n => [.mark '-', .word (Text.ofNat (n + 1))]

/- An entry of a constant object: its key and its value. -/
abbrev EntryTree := Key × Int

/- The tokens of an entry. -/
def entryTokens
    (entry : EntryTree) : List Token :=
  [entry.1.token, .mark ':'] ++ integerTokens entry.2 ++
    [.mark ',']

/-
  An item of a module: the import of a module, an interface,
  or a constant object with the type of its values.
-/
inductive Item where
  | importing (binding specifier : Text)
  | interface (name : Text) (members : List Member)
  | constants (name : Text) (entries : List EntryTree)
  deriving DecidableEq, Repr

namespace Item

/- The tokens after the braces of a constant object. -/
def constantsEnd
    (name : Text) : List Token :=
  [keyword "as", keyword "const", .mark ';',
   keyword "export", keyword "type", .word name, .mark '=',
   keyword "typeof", .word name, .mark '[', keyword "keyof",
   keyword "typeof", .word name, .mark ']', .mark ';']

/- The tokens of an item. -/
def tokens : Item → List Token
  | .importing binding specifier =>
      [keyword "import", .mark '*', keyword "as",
       .word binding, keyword "from", .string specifier,
       .mark ';']
  | .interface name members =>
      [keyword "export", keyword "interface", .word name,
       .mark '\x7b'] ++
        members.flatMap Member.tokens ++ [.mark '\x7d']
  | .constants name entries =>
      [keyword "export", keyword "const", .word name,
       .mark '=', .mark '\x7b'] ++
        entries.flatMap entryTokens ++ [.mark '\x7d'] ++
        constantsEnd name

/- Are the names, keys and types in an item well formed? -/
def WellFormed : Item → Prop
  | .importing binding _ => isBinding binding = true
  | .interface name members =>
      isBinding name = true ∧
        ∀ found ∈ members, found.WellFormed
  | .constants name entries =>
      isBinding name = true ∧
        ∀ entry ∈ entries, entry.1.WellFormed

end Item

-- Readers

/- What reads a tree from the front of some tokens. -/
abbrev Reader
    (α : Type) :=
  List Token → Option (α × List Token)

/-
  A reader is exact: what it reads is spelled as it stands
  and fits, and all that fits is read, wherever it may end.
-/
structure Reader.Reads
    {α : Type}
    (reader : Reader α)
    (print : α → List Token)
    (fits : α → Prop)
    (ends : List Token → Prop) : Prop where
  sound : ∀ {found x rest}, reader found = some (x, rest) →
    found = print x ++ rest ∧ fits x
  complete : ∀ {x rest}, fits x → ends rest →
    reader (print x ++ rest) = some (x, rest)

/- The tokens after given ones. -/
def expect
    (pattern found : List Token) : Option (List Token) :=
  found.dropPrefix? pattern

theorem expect_eq_some_iff
    {pattern found rest : List Token} :
    expect pattern found = some rest ↔
      found = pattern ++ rest := by
  unfold expect
  rw [List.dropPrefix?_eq_some_iff]
  simp

@[simp] theorem expect_append
    (pattern rest : List Token) :
    expect pattern (pattern ++ rest) = some rest :=
  expect_eq_some_iff.mpr rfl

variable {α : Type}

/- Reads trees as long as there are any, so many at most. -/
def manyWithin
    (reader : Reader α) :
    Nat → List Token → List α × List Token
  | 0, found => ([], found)
  | count + 1, found =>
      match reader found with
      | none => ([], found)
      | some (x, rest) =>
          let (more, after) := manyWithin reader count rest
          (x :: more, after)

/- Reads trees as long as there are any. -/
def many
    (reader : Reader α)
    (found : List Token) : List α × List Token :=
  manyWithin reader found.length found

section Many

variable {reader : Reader α}
variable {print : α → List Token}
variable {fits : α → Prop}
variable {ends : List Token → Prop}

theorem sound_manyWithin
    (h : Reader.Reads reader print fits ends)
    {count : Nat}
    {found rest : List Token}
    {xs : List α}
    (hRead : manyWithin reader count found = (xs, rest)) :
    found = xs.flatMap print ++ rest ∧
      ∀ x ∈ xs, fits x := by
  induction count generalizing found xs with
  | zero =>
      cases hRead
      simp
  | succ count ih =>
      simp only [manyWithin] at hRead
      split at hRead
      · cases hRead
        simp
      · next x after hFirst =>
          rcases h.sound hFirst with ⟨hFound, hFits⟩
          cases hRead
          rcases ih rfl with ⟨hAfter, hMore⟩
          constructor
          · rw [hFound, List.flatMap_cons, List.append_assoc,
              ← hAfter]
          · intro y hMem
            rcases List.mem_cons.mp hMem with rfl | hLater
            · exact hFits
            · exact hMore y hLater

theorem complete_manyWithin
    (h : Reader.Reads reader print fits ends)
    (hNext : ∀ x rest, fits x → ends (print x ++ rest))
    {count : Nat}
    {xs : List α}
    (hCount : xs.length ≤ count)
    (hFits : ∀ x ∈ xs, fits x)
    (hEnds : ends rest)
    (hNone : reader rest = none) :
    manyWithin reader count (xs.flatMap print ++ rest) =
      (xs, rest) := by
  induction count generalizing xs with
  | zero =>
      have hNil : xs = [] :=
        List.length_eq_zero_iff.mp (Nat.le_zero.mp hCount)
      subst hNil
      rfl
  | succ count ih =>
      cases xs with
      | nil => simp [manyWithin, hNone]
      | cons x more =>
          have hMore : ∀ y ∈ more, fits y :=
            fun y hMem => hFits y (by simp [hMem])
          have hAfter : ends (more.flatMap print ++ rest) := by
            cases more with
            | nil => simpa using hEnds
            | cons y others =>
                rw [List.flatMap_cons, List.append_assoc]
                exact hNext y _ (hMore y (by simp))
          have hFirst :=
            h.complete (hFits x (by simp)) hAfter
          rw [List.flatMap_cons, List.append_assoc]
          simp only [manyWithin, hFirst]
          rw [ih (by simpa using hCount) hMore]

/- There are no more trees than tokens of them. -/
theorem complete_many
    (h : Reader.Reads reader print fits ends)
    (hNext : ∀ x rest, fits x → ends (print x ++ rest))
    (hPrint : ∀ x, print x ≠ [])
    {xs : List α}
    (hFits : ∀ x ∈ xs, fits x)
    (hEnds : ends rest)
    (hNone : reader rest = none) :
    many reader (xs.flatMap print ++ rest) = (xs, rest) := by
  have hLength : xs.length ≤ (xs.flatMap print).length := by
    clear hFits
    induction xs with
    | nil => simp
    | cons x more ih =>
        have hFirst := List.length_pos_iff.mpr (hPrint x)
        simp only [List.length_cons, List.flatMap_cons,
          List.length_append]
        omega
  refine complete_manyWithin h hNext ?_ hFits hEnds hNone
  rw [List.length_append]
  omega

end Many

-- Putting Readers Together

/- Nothing in particular has to follow. -/
def Anywhere
    (_ : List Token) : Prop :=
  True

namespace Reader

variable {β : Type}

/- Reads nothing, and gives a value for it. -/
def give
    (x : α) : Reader α :=
  fun found => some (x, found)

/- Reads what follows given tokens. -/
def after
    (pattern : List Token)
    (reader : Reader α) : Reader α :=
  fun found =>
    match expect pattern found with
    | none => none
    | some rest => reader rest

/- Reads what has certain tokens after it. -/
def before
    (reader : Reader α)
    (pattern : α → List Token) : Reader α :=
  fun found =>
    match reader found with
    | none => none
    | some (x, rest) =>
        (expect (pattern x) rest).map fun left => (x, left)

/- Reads one thing and then another. -/
def pair
    (first : Reader α)
    (second : Reader β) : Reader (α × β) :=
  fun found =>
    match first found with
    | none => none
    | some (x, rest) =>
        (second rest).map fun (y, left) => ((x, y), left)

/- Reads as many as there are, up to and over given tokens. -/
def list
    (reader : Reader α)
    (closing : List Token) : Reader (List α) :=
  before (fun found => some (many reader found))
    fun _ => closing

/- Reads something, and gives what is made of it. -/
def image
    (f : α → β)
    (reader : Reader α) : Reader β :=
  fun found => (reader found).map fun (x, rest) => (f x, rest)

/- Reads one thing, or else another. -/
def either
    (first second : Reader α) : Reader α :=
  fun found =>
    match first found with
    | none => second found
    | some result => some result

namespace Reads

variable {reader : Reader α}
variable {print : α → List Token}
variable {fits : α → Prop}
variable {ends : List Token → Prop}

theorem congr
    (h : Reads reader print fits ends)
    {print' : α → List Token}
    {fits' : α → Prop}
    (hPrint : ∀ x, fits x → print' x = print x)
    (hFits : ∀ x, fits' x ↔ fits x) :
    Reads reader print' fits' ends where
  sound {found x rest} hRead := by
    rcases h.sound hRead with ⟨hFound, hx⟩
    rw [hPrint x hx]
    exact ⟨hFound, (hFits x).mpr hx⟩
  complete {x rest} hx hEnds := by
    have hFit := (hFits x).mp hx
    rw [hPrint x hFit]
    exact h.complete hFit hEnds

/- What may end anywhere may end at some places. -/
theorem of_anywhere
    (h : Reads reader print fits Anywhere)
    (ends : List Token → Prop) :
    Reads reader print fits ends where
  sound := h.sound
  complete hx _ := h.complete hx trivial

theorem give
    (x : α) :
    Reads (Reader.give x) (fun _ => []) (· = x)
      Anywhere where
  sound {found y rest} h := by
    cases h
    exact ⟨rfl, rfl⟩
  complete {y rest} hSame _ := by
    rw [hSame]
    rfl

theorem after
    (h : Reads reader print fits ends)
    (pattern : List Token) :
    Reads (Reader.after pattern reader)
      (fun x => pattern ++ print x) fits ends where
  sound {found x rest} hRead := by
    unfold Reader.after at hRead
    split at hRead
    · cases hRead
    · next middle hExpect =>
        rcases h.sound hRead with ⟨hMiddle, hx⟩
        rw [expect_eq_some_iff.mp hExpect, hMiddle]
        exact ⟨by simp, hx⟩
  complete {x rest} hx hEnds := by
    unfold Reader.after
    rw [List.append_assoc, expect_append]
    exact h.complete hx hEnds

theorem before
    (h : Reads reader print fits ends)
    (pattern : α → List Token)
    (hNext : ∀ x rest, ends (pattern x ++ rest)) :
    Reads (Reader.before reader pattern)
      (fun x => print x ++ pattern x) fits Anywhere where
  sound {found x rest} hRead := by
    unfold Reader.before at hRead
    split at hRead
    · cases hRead
    · next y middle hFirst =>
        rcases Option.map_eq_some_iff.mp hRead with
          ⟨left, hExpect, hLast⟩
        cases hLast
        rcases h.sound hFirst with ⟨hFound, hx⟩
        rw [hFound, expect_eq_some_iff.mp hExpect]
        exact ⟨by simp, hx⟩
  complete {x rest} hx _ := by
    unfold Reader.before
    rw [List.append_assoc, h.complete hx (hNext x rest)]
    simp

theorem pair
    {second : Reader β}
    {printSecond : β → List Token}
    {fitsSecond : β → Prop}
    {endsSecond : List Token → Prop}
    (hFirst : Reads reader print fits ends)
    (hSecond :
      Reads second printSecond fitsSecond endsSecond)
    (hNext : ∀ y rest, fitsSecond y → endsSecond rest →
      ends (printSecond y ++ rest)) :
    Reads (Reader.pair reader second)
      (fun both => print both.1 ++ printSecond both.2)
      (fun both => fits both.1 ∧ fitsSecond both.2)
      endsSecond where
  sound {found both rest} hRead := by
    unfold Reader.pair at hRead
    split at hRead
    · cases hRead
    · next x middle hOne =>
        rcases Option.map_eq_some_iff.mp hRead with
          ⟨⟨y, left⟩, hTwo, hLast⟩
        cases hLast
        rcases hFirst.sound hOne with ⟨hFound, hx⟩
        rcases hSecond.sound hTwo with ⟨hMiddle, hy⟩
        rw [hFound, hMiddle]
        exact ⟨by simp, hx, hy⟩
  complete {both rest} hBoth hEnds := by
    rcases both with ⟨x, y⟩
    have hOne := hFirst.complete hBoth.1
      (hNext y rest hBoth.2 hEnds)
    have hTwo := hSecond.complete hBoth.2 hEnds
    unfold Reader.pair
    rw [List.append_assoc, hOne]
    simp [hTwo]

theorem list
    (h : Reads reader print fits ends)
    (closing : List Token)
    (hPrint : ∀ x, print x ≠ [])
    (hNext : ∀ x rest, fits x → ends (print x ++ rest))
    (hEnds : ∀ rest, ends (closing ++ rest))
    (hNone : ∀ rest, reader (closing ++ rest) = none) :
    Reads (Reader.list reader closing)
      (fun xs => xs.flatMap print ++ closing)
      (fun xs => ∀ x ∈ xs, fits x) Anywhere where
  sound {found xs rest} hRead := by
    unfold Reader.list Reader.before at hRead
    dsimp only at hRead
    rcases Option.map_eq_some_iff.mp hRead with
      ⟨left, hExpect, hLast⟩
    cases hLast
    have hMany := sound_manyWithin h
      (rfl : manyWithin reader found.length found = _)
    rcases hMany with ⟨hFound, hFits⟩
    have hClosing := expect_eq_some_iff.mp hExpect
    refine ⟨?_, hFits⟩
    rw [List.append_assoc, ← hClosing]
    exact hFound
  complete {xs rest} hFits _ := by
    have hMany := complete_many h hNext hPrint hFits
      (hEnds rest) (hNone rest)
    unfold Reader.list Reader.before
    rw [List.append_assoc]
    simp [hMany]

theorem image
    (h : Reads reader print fits ends)
    {f : α → β}
    {print' : β → List Token}
    {fits' : β → Prop}
    (hPrint : ∀ x, print' (f x) = print x)
    (hFits : ∀ y, fits' y ↔ ∃ x, fits x ∧ f x = y) :
    Reads (Reader.image f reader) print' fits' ends where
  sound {found y rest} hRead := by
    rcases Option.map_eq_some_iff.mp hRead with
      ⟨⟨x, left⟩, hInner, hLast⟩
    cases hLast
    rcases h.sound hInner with ⟨hFound, hx⟩
    rw [hPrint]
    exact ⟨hFound, (hFits _).mpr ⟨x, hx, rfl⟩⟩
  complete {y rest} hy hEnds := by
    rcases (hFits y).mp hy with ⟨x, hx, rfl⟩
    unfold Reader.image
    rw [hPrint, h.complete hx hEnds]
    rfl

theorem either
    {second : Reader α}
    {fitsSecond : α → Prop}
    (hFirst : Reads reader print fits ends)
    (hSecond : Reads second print fitsSecond ends)
    (hApart : ∀ x rest, fitsSecond x → ends rest →
      reader (print x ++ rest) = none) :
    Reads (Reader.either reader second) print
      (fun x => fits x ∨ fitsSecond x) ends where
  sound {found x rest} hRead := by
    unfold Reader.either at hRead
    split at hRead
    · rcases hSecond.sound hRead with ⟨hFound, hx⟩
      exact ⟨hFound, .inr hx⟩
    · next hOne =>
        cases hRead
        rcases hFirst.sound hOne with ⟨hFound, hx⟩
        exact ⟨hFound, .inl hx⟩
  complete {x rest} hx hEnds := by
    unfold Reader.either
    rcases hx with hx | hx
    · rw [hFirst.complete hx hEnds]
    · rw [hApart x rest hx hEnds]
      exact hSecond.complete hx hEnds

end Reads

end Reader

-- Names and Numbers

/- Reads a name that can be declared. -/
def readBinding : Reader Text
  | .word name :: rest =>
      if isBinding name then some (name, rest) else none
  | _ => none

theorem reads_binding :
    Reader.Reads readBinding (fun name => [.word name])
      (fun name => isBinding name = true) Anywhere where
  sound {found name rest} h := by
    unfold readBinding at h
    split at h
    · split at h
      · next hName =>
          cases h
          exact ⟨rfl, hName⟩
      · cases h
    · cases h
  complete {name rest} hName _ := by
    simp [readBinding, hName]

/- Reads a key. -/
def readKey : Reader Key
  | .word name :: rest =>
      if isIdentifier name then some (.plain name, rest)
      else none
  | .string name :: rest => some (.quoted name, rest)
  | _ => none

theorem reads_key :
    Reader.Reads readKey (fun key => [key.token])
      Key.WellFormed Anywhere where
  sound {found key rest} h := by
    unfold readKey at h
    split at h
    · split at h
      · next hName =>
          cases h
          exact ⟨rfl, hName⟩
      · cases h
    · cases h
      exact ⟨rfl, trivial⟩
    · cases h
  complete {key rest} hKey _ := by
    cases key with
    | plain name =>
        have hName : isIdentifier name = true := hKey
        simp [readKey, Key.token, hName]
    | quoted name => rfl

/- The number that a word spells in decimal digits. -/
def natural?
    (word : Text) : Option Nat :=
  let n := Nat.ofDigitChars 10 word 0
  if Text.ofNat n = word then some n else none

theorem natural?_eq_some_iff
    {word : Text}
    {n : Nat} :
    natural? word = some n ↔ word = Text.ofNat n := by
  unfold natural?
  constructor
  · intro h
    dsimp only at h
    split at h
    · next hWord =>
        cases h
        exact hWord.symm
    · cases h
  · rintro rfl
    have hValue :
        Nat.ofDigitChars 10 (Text.ofNat n) 0 = n :=
      Nat.ofDigitChars_toDigits (by decide) (by decide)
    simp [hValue]

/- Reads an integer. A sign stands only before a positive. -/
def readInteger : Reader Int
  | .mark '-' :: .word digits :: rest =>
      match natural? digits with
      | some (n + 1) => some (.negSucc n, rest)
      | _ => none
  | .word digits :: rest =>
      match natural? digits with
      | some n => some (.ofNat n, rest)
      | none => none
  | _ => none

theorem reads_integer :
    Reader.Reads readInteger integerTokens (fun _ => True)
      Anywhere where
  sound {found value rest} h := by
    unfold readInteger at h
    split at h
    · split at h
      · next hDigits =>
          cases h
          rw [natural?_eq_some_iff.mp hDigits]
          exact ⟨rfl, trivial⟩
      · cases h
    · split at h
      · next hDigits =>
          cases h
          rw [natural?_eq_some_iff.mp hDigits]
          exact ⟨rfl, trivial⟩
      · cases h
    · cases h
  complete {value rest} _ _ := by
    cases value with
    | ofNat n =>
        have hDigits := natural?_eq_some_iff.mpr
          (rfl : Text.ofNat n = Text.ofNat n)
        simp [readInteger, integerTokens, hDigits]
    | negSucc n =>
        have hDigits := natural?_eq_some_iff.mpr
          (rfl : Text.ofNat (n + 1) = Text.ofNat (n + 1))
        simp [readInteger, integerTokens, hDigits]

-- Types

/- The type that a word stands for. -/
def typeOfWord?
    (word : Text) : Option TypeTree :=
  if word = "void".toList then some .void
  else
    match Text.pieces '.' word with
    | [] => none
    | head :: members =>
        if isBinding head && members.all isIdentifier then
          some (.named head members)
        else
          none

/- Reads a type that is a single word. -/
def readTypeName : Reader TypeTree
  | .word word :: rest =>
      (typeOfWord? word).map fun type => (type, rest)
  | _ => none

/- Reads an array type, given how to read the elements'. -/
def readArray
    (nested : Reader TypeTree) : Reader TypeTree :=
  ((nested.before fun _ => [.mark '>']).after
    [keyword "Array", .mark '<']).image TypeTree.array

/- Reads a record type, given how to read the types inside. -/
def readRecord
    (nested : Reader TypeTree) : Reader TypeTree :=
  (((nested.before fun _ => [.mark ',']).pair
    (nested.before fun _ => [.mark '>'])).after
      [keyword "Record", .mark '<']).image
        fun (key, value) => .record key value

/- Reads a type that is nested at most so deep. -/
def readTypeWithin : Nat → Reader TypeTree
  | 0 => fun _ => none
  | depth + 1 =>
      (readArray (readTypeWithin depth)).either
        ((readRecord (readTypeWithin depth)).either
          readTypeName)

/- Reads a type. It is not nested deeper than it is long. -/
def readType : Reader TypeTree :=
  fun found => readTypeWithin found.length found

/- A name may end here, as no list of types opens. -/
def EndsType
    (rest : List Token) : Prop :=
  rest.head? ≠ some (.mark '<')

/- No identifier is dotted. -/
theorem not_mem_of_isIdentifier
    {name : Text}
    (h : isIdentifier name = true) :
    '.' ∉ name := by
  intro hDot
  rcases continuesWord_of_isIdentifier h '.' hDot with
    hDollar | hWord
  · exact absurd hDollar (by decide)
  · exact absurd hWord (by decide)

theorem isIdentifier_of_isBinding
    {name : Text}
    (h : isBinding name = true) :
    isIdentifier name = true :=
  (Bool.and_eq_true_iff.mp h).1

theorem typeOfWord?_eq_some
    {word : Text}
    {type : TypeTree}
    (h : typeOfWord? word = some type) :
    [.word word] = type.tokens ∧
      type.WellFormed ∧ type.isSimple = true := by
  unfold typeOfWord? at h
  split at h
  · next hVoid =>
      cases h
      rw [hVoid]
      exact ⟨rfl, trivial, rfl⟩
  · split at h
    · cases h
    · next head members hPieces =>
        split at h
        · next hNames =>
            cases h
            have hWord := Text.joined_pieces '.' word
            rw [hPieces] at hWord
            simp only [Bool.and_eq_true,
              List.all_eq_true] at hNames
            refine ⟨?_, hNames, rfl⟩
            rw [TypeTree.tokens, hWord]
        · cases h

/- The word of a name stands for that name. -/
theorem typeOfWord?_named
    {head : Text}
    {members : List Text}
    (h : (TypeTree.named head members).WellFormed) :
    typeOfWord? (Text.joined ['.'] (head :: members)) =
      some (.named head members) := by
  rcases h with ⟨hHead, hMembers⟩
  have hParts : ∀ part ∈ head :: members, '.' ∉ part := by
    intro part hPart
    rcases List.mem_cons.mp hPart with rfl | hMember
    · exact not_mem_of_isIdentifier
        (isIdentifier_of_isBinding hHead)
    · exact not_mem_of_isIdentifier (hMembers part hMember)
  have hPieces := Text.pieces_joined (by simp) hParts
  -- the void is one piece, and not a name to declare
  have hVoid :
      Text.joined ['.'] (head :: members) ≠ "void".toList := by
    intro hWord
    rw [hWord] at hPieces
    have hOne : Text.pieces '.' "void".toList =
        ["void".toList] := by
      decide
    rw [hOne] at hPieces
    cases hPieces
    exact absurd hHead (by decide)
  unfold typeOfWord?
  rw [if_neg hVoid, hPieces]
  simp only [hHead, Bool.true_and]
  rw [if_pos (List.all_eq_true.mpr hMembers)]

theorem endsType_mark
    {c : Char}
    (h : c ≠ '<')
    (rest : List Token) :
    EndsType (.mark c :: rest) := by
  unfold EndsType
  simpa using h

theorem reads_typeName :
    readTypeName.Reads TypeTree.tokens
      (fun type => type.WellFormed ∧ type.isSimple = true)
      Anywhere where
  sound {found type rest} h := by
    unfold readTypeName at h
    split at h
    · rcases Option.map_eq_some_iff.mp h with
        ⟨named, hWord, hLast⟩
      cases hLast
      rcases typeOfWord?_eq_some hWord with ⟨hTokens, hFits⟩
      rw [← hTokens]
      exact ⟨rfl, hFits⟩
    · cases h
  complete {type rest} hFits _ := by
    rcases hFits with ⟨hFits, hSimple⟩
    cases type with
    | void => rfl
    | named head members =>
        simp [TypeTree.tokens, readTypeName,
          typeOfWord?_named hFits]
    | array element => cases hSimple
    | record key value => cases hSimple

/- No list of types opens after a type of one word. -/
theorem opening_of_word
    {type : TypeTree}
    (hSimple : type.isSimple = true)
    (hEnds : EndsType rest)
    (word : String)
    (reader : Reader α)
    (f : α → TypeTree) :
    (reader.after [keyword word, .mark '<']).image f
      (type.tokens ++ rest) = none := by
  have hExpect (other : Text) :
      expect [keyword word, .mark '<']
        (.word other :: rest) = none := by
    apply Option.eq_none_iff_forall_ne_some.mpr
    intro left hLeft
    have hSame := expect_eq_some_iff.mp hLeft
    simp only [List.cons_append, List.nil_append,
      List.cons.injEq] at hSame
    rw [hSame.2] at hEnds
    exact hEnds rfl
  unfold Reader.image Reader.after
  cases type with
  | void =>
      have hVoid := hExpect "void".toList
      simp [TypeTree.tokens, keyword] at hVoid ⊢
      simp [hVoid]
  | named head members => simp [TypeTree.tokens, hExpect]
  | array element => cases hSimple
  | record key value => cases hSimple

section Nested

variable {depth : Nat}
variable {nested : Reader TypeTree}

theorem reads_array
    (h : nested.Reads TypeTree.tokens
      (fun type => type.WellFormed ∧ type.depth ≤ depth)
      EndsType) :
    (readArray nested).Reads TypeTree.tokens
      (fun type =>
        (type.WellFormed ∧ type.depth ≤ depth + 1) ∧
          ∃ element, type = .array element)
      Anywhere := by
  refine ((h.before _ fun _ _ =>
    endsType_mark (by decide) _).after _).image ?_ ?_
  · intro element
    simp [TypeTree.tokens]
  · intro type
    cases type <;>
      simp [TypeTree.WellFormed, TypeTree.depth]

theorem reads_record
    (h : nested.Reads TypeTree.tokens
      (fun type => type.WellFormed ∧ type.depth ≤ depth)
      EndsType) :
    (readRecord nested).Reads TypeTree.tokens
      (fun type =>
        (type.WellFormed ∧ type.depth ≤ depth + 1) ∧
          ∃ key value, type = .record key value)
      Anywhere := by
  have hKey := h.before (fun _ => [.mark ',']) fun _ _ =>
    endsType_mark (by decide) _
  have hValue := h.before (fun _ => [.mark '>']) fun _ _ =>
    endsType_mark (by decide) _
  refine ((hKey.pair hValue fun _ _ _ _ =>
    trivial).after _).image ?_ ?_
  · intro both
    simp [TypeTree.tokens]
  · intro type
    cases type with
    | record key value =>
        simp only [TypeTree.WellFormed, TypeTree.depth,
          Nat.add_le_add_iff_right, Nat.max_le]
        simp [and_and_and_comm]
    | _ => simp

end Nested

theorem reads_typeWithin
    (depth : Nat) :
    (readTypeWithin depth).Reads TypeTree.tokens
      (fun type => type.WellFormed ∧ type.depth ≤ depth)
      EndsType := by
  induction depth with
  | zero =>
      constructor
      · intro found type rest h
        cases h
      · intro type rest hFits _
        have hDepth := type.depth_pos
        omega
  | succ depth ih =>
      have hArray := (reads_array ih).of_anywhere EndsType
      have hRecord := (reads_record ih).of_anywhere EndsType
      have hName := reads_typeName.of_anywhere EndsType
      have hShort := hRecord.either hName ?_
      · refine (hArray.either hShort ?_).congr
          (fun _ _ => rfl) ?_
        · rintro type rest
            (⟨_, key, value, rfl⟩ | ⟨_, hSimple⟩) hEnds
          · rfl
          · exact opening_of_word hSimple hEnds _ _ _
        · intro type
          cases type <;>
            simp [TypeTree.depth, TypeTree.isSimple]
      · rintro type rest ⟨_, hSimple⟩ hEnds
        exact opening_of_word hSimple hEnds _ _ _

theorem reads_type :
    readType.Reads TypeTree.tokens TypeTree.WellFormed
      EndsType where
  sound h := by
    rcases (reads_typeWithin _).sound h with
      ⟨hFound, hFits, _⟩
    exact ⟨hFound, hFits⟩
  complete {type rest} hFits hEnds := by
    have hDepth := type.depth_le_length
    refine (reads_typeWithin _).complete ⟨hFits, ?_⟩ hEnds
    rw [List.length_append]
    omega

-- Members

/- Reads a parameter. -/
def readParameter : Reader ParameterTree :=
  readBinding.pair (readType.after [.mark ':'])

theorem reads_parameter :
    readParameter.Reads parameterTokens ParameterFits
      EndsType :=
  reads_binding.pair (reads_type.after [.mark ':'])
    fun _ _ _ _ => trivial

/- Reads a comma and the parameter after it. -/
def readNextParameter : Reader ParameterTree :=
  readParameter.after [.mark ',']

/- Reads one parameter or more, and the parenthesis. -/
def readSomeParameters : Reader (List ParameterTree) :=
  (readParameter.pair
    (readNextParameter.list [.mark ')'])).image
      fun (first, more) => first :: more

/- Reads parameters, and the parenthesis after them. -/
def readParameters : Reader (List ParameterTree) :=
  ((Reader.give []).after [.mark ')']).either
    readSomeParameters

theorem reads_someParameters :
    readSomeParameters.Reads
      (fun parameters =>
        parametersTokens parameters ++ [.mark ')'])
      (fun parameters => parameters ≠ [] ∧
        ∀ parameter ∈ parameters, ParameterFits parameter)
      Anywhere := by
  have hNext : readNextParameter.Reads
      (fun parameter => .mark ',' :: parameterTokens parameter)
      ParameterFits EndsType :=
    reads_parameter.after [.mark ',']
  have hList := hNext.list [.mark ')'] (by simp)
    (fun _ _ _ => endsType_mark (by decide) _)
    (fun _ => endsType_mark (by decide) _) (fun _ => rfl)
  have hPair := reads_parameter.pair hList ?_
  · refine hPair.image ?_ ?_
    · intro both
      simp [parametersTokens]
    · intro parameters
      cases parameters with
      | nil => simp
      | cons first more => simp
  · intro more rest _ _
    cases more with
    | nil => exact endsType_mark (by decide) _
    | cons second others => exact endsType_mark (by decide) _

theorem reads_parameters :
    readParameters.Reads
      (fun parameters =>
        parametersTokens parameters ++ [.mark ')'])
      (fun parameters =>
        ∀ parameter ∈ parameters, ParameterFits parameter)
      Anywhere := by
  have hNone : Reader.Reads
      ((Reader.give []).after [.mark ')'])
      (fun parameters =>
        parametersTokens parameters ++ [.mark ')'])
      (· = []) Anywhere := by
    refine ((Reader.Reads.give []).after [.mark ')']).congr
      ?_ fun _ => Iff.rfl
    intro parameters hNil
    rw [hNil]
    rfl
  refine (hNone.either reads_someParameters ?_).congr
    (fun _ _ => rfl) ?_
  · -- a parameter does not begin with a parenthesis
    intro parameters rest hSome _
    cases parameters with
    | nil => exact absurd rfl hSome.1
    | cons first more => rfl
  · intro parameters
    cases parameters with
    | nil => simp
    | cons first more => simp

/- Reads the mark of an optional property, if there is one. -/
def readOptional : Reader Bool :=
  ((Reader.give true).after [.mark '?']).either
    (Reader.give false)

/- The tokens of the mark, or none. -/
def optionalTokens
    (optional : Bool) : List Token :=
  if optional then [.mark '?'] else []

theorem reads_optional :
    readOptional.Reads optionalTokens (fun _ => True)
      (fun rest => rest.head? ≠ some (.mark '?')) := by
  have hMarked : Reader.Reads
      ((Reader.give true).after [.mark '?']) optionalTokens
      (· = true) Anywhere :=
    ((Reader.Reads.give true).after [.mark '?']).congr
      (fun _ hTrue => by simp [optionalTokens, hTrue])
      fun _ => Iff.rfl
  have hUnmarked : Reader.Reads (Reader.give false)
      optionalTokens (· = false) Anywhere :=
    (Reader.Reads.give false).congr
      (fun _ hFalse => by simp [optionalTokens, hFalse])
      fun _ => Iff.rfl
  refine ((hMarked.of_anywhere _).either
    (hUnmarked.of_anywhere _) ?_).congr
      (fun _ _ => rfl) (by simp)
  intro optional rest hFalse hEnds
  have hExpect : expect [.mark '?'] rest = none := by
    apply Option.eq_none_iff_forall_ne_some.mpr
    intro left hLeft
    rw [expect_eq_some_iff.mp hLeft] at hEnds
    exact hEnds rfl
  simp [hFalse, optionalTokens, Reader.after, hExpect]

/- Reads the type of a member, and what ends the member. -/
def readMemberType : Reader TypeTree :=
  (readType.before fun _ => [.mark ';']).after [.mark ':']

theorem reads_memberType :
    readMemberType.Reads
      (fun type => [.mark ':'] ++ (type.tokens ++ [.mark ';']))
      TypeTree.WellFormed Anywhere :=
  (reads_type.before _ fun _ _ =>
    endsType_mark (by decide) _).after [.mark ':']

/- Reads a property. -/
def readProperty : Reader Member :=
  (readKey.pair (readOptional.pair readMemberType)).image
    fun (key, optional, type) => .property key optional type

/- Reads a method. -/
def readMethod : Reader Member :=
  (readKey.pair ((readParameters.pair readMemberType).after
    [.mark '('])).image
      fun (key, parameters, result) =>
        .method key parameters result

/- Reads a member. -/
def readMember : Reader Member :=
  readMethod.either readProperty

theorem reads_property :
    readProperty.Reads Member.tokens
      (fun found => found.WellFormed ∧
        ∃ key optional type,
          found = .property key optional type)
      Anywhere := by
  have hRest := reads_optional.pair reads_memberType
    fun _ _ _ _ => by simp
  refine (reads_key.pair hRest fun _ _ _ _ =>
    trivial).image ?_ ?_
  · rintro ⟨key, optional, type⟩
    simp [Member.tokens, optionalTokens]
  · intro found
    cases found with
    | property key optional type =>
        simp [Member.WellFormed]
    | method key parameters result => simp

theorem reads_method :
    readMethod.Reads Member.tokens
      (fun found => found.WellFormed ∧
        ∃ key parameters result,
          found = .method key parameters result)
      Anywhere := by
  have hRest := (reads_parameters.pair reads_memberType
    fun _ _ _ _ => trivial).after [.mark '(']
  refine (reads_key.pair hRest fun _ _ _ _ =>
    trivial).image ?_ ?_
  · rintro ⟨key, parameters, result⟩
    simp [Member.tokens]
  · intro found
    cases found with
    | property key optional type => simp
    | method key parameters result =>
        simp [Member.WellFormed, and_assoc]

theorem reads_member :
    readMember.Reads Member.tokens Member.WellFormed
      Anywhere := by
  refine (reads_method.either reads_property ?_).congr
    (fun _ _ => rfl) ?_
  · -- after the key of a property there is no parenthesis
    rintro found rest ⟨hFits, key, optional, type, rfl⟩ _
    have hKey (others : List Token) :
        readKey (key.token :: others) = some (key, others) :=
      reads_key.complete hFits.1 trivial
    unfold readMethod Reader.image Reader.pair
    cases optional <;>
      simp [Member.tokens, hKey, Reader.after, expect,
        List.dropPrefix?]
  · intro found
    cases found <;> simp

-- Items

/- Reads an entry of a constant object. -/
def readEntry : Reader EntryTree :=
  readKey.pair
    ((readInteger.before fun _ => [.mark ',']).after
      [.mark ':'])

theorem reads_entry :
    readEntry.Reads entryTokens
      (fun entry => entry.1.WellFormed) Anywhere := by
  have hValue :=
    (reads_integer.before (fun _ => [.mark ','])
      fun _ _ => trivial).after [.mark ':']
  refine (reads_key.pair hValue fun _ _ _ _ =>
    trivial).congr ?_ ?_
  · intro entry _
    simp [entryTokens]
  · simp

/- Reads a string. -/
def readString : Reader Text
  | .string text :: rest => some (text, rest)
  | _ => none

theorem reads_string :
    readString.Reads (fun text => [.string text])
      (fun _ => True) Anywhere where
  sound {found text rest} h := by
    unfold readString at h
    split at h
    · cases h
      exact ⟨rfl, trivial⟩
    · cases h
  complete _ _ := rfl

/- Reads the import of a module. -/
def readImporting : Reader Item :=
  ((readBinding.pair
    ((readString.before fun _ => [.mark ';']).after
      [keyword "from"])).after
        [keyword "import", .mark '*', keyword "as"]).image
          fun (binding, specifier) =>
            .importing binding specifier

/- Reads an interface. -/
def readInterface : Reader Item :=
  ((readBinding.pair
    ((readMember.list [.mark '\x7d']).after
      [.mark '\x7b'])).after
        [keyword "export", keyword "interface"]).image
          fun (name, members) => .interface name members

/- Reads a constant object with the type of its values. -/
def readConstants : Reader Item :=
  (((readBinding.pair
    ((readEntry.list [.mark '\x7d']).after
      [.mark '=', .mark '\x7b'])).before
        fun both => Item.constantsEnd both.1).after
          [keyword "export", keyword "const"]).image
            fun (name, entries) => .constants name entries

/- Reads an item of a module. -/
def readItem : Reader Item :=
  readImporting.either (readInterface.either readConstants)

/- Reads a whole module from its tokens. -/
def readItems
    (found : List Token) : Option (List Item) :=
  match many readItem found with
  | (items, []) => some items
  | _ => none

/- Reads a module from its text, without the comments. -/
def readModule
    (text : Text) : Option (List Item) :=
  (tokens (uncomment .code text)).bind readItems

theorem reads_importing :
    readImporting.Reads Item.tokens
      (fun item => item.WellFormed ∧
        ∃ binding specifier,
          item = .importing binding specifier)
      Anywhere := by
  have hString :=
    (reads_string.before (fun _ => [.mark ';'])
      fun _ _ => trivial).after [keyword "from"]
  refine ((reads_binding.pair hString fun _ _ _ _ =>
    trivial).after _).image ?_ ?_
  · intro both
    rfl
  · intro item
    cases item <;> simp [Item.WellFormed]

theorem reads_interface :
    readInterface.Reads Item.tokens
      (fun item => item.WellFormed ∧
        ∃ name members, item = .interface name members)
      Anywhere := by
  have hPrint (found : Member) : found.tokens ≠ [] := by
    cases found <;> simp [Member.tokens]
  have hMembers :=
    (reads_member.list [.mark '\x7d'] hPrint
      (fun _ _ _ => trivial) (fun _ => trivial)
      fun _ => rfl).after [.mark '\x7b']
  refine ((reads_binding.pair hMembers fun _ _ _ _ =>
    trivial).after _).image ?_ ?_
  · intro both
    simp [Item.tokens]
  · intro item
    cases item <;> simp [Item.WellFormed]

theorem reads_constants :
    readConstants.Reads Item.tokens
      (fun item => item.WellFormed ∧
        ∃ name entries, item = .constants name entries)
      Anywhere := by
  have hEntries :=
    (reads_entry.list [.mark '\x7d'] (by simp [entryTokens])
      (fun _ _ _ => trivial) (fun _ => trivial)
      fun _ => rfl).after [.mark '=', .mark '\x7b']
  refine (((reads_binding.pair hEntries fun _ _ _ _ =>
    trivial).before _ fun _ _ => trivial).after _).image ?_ ?_
  · intro both
    simp [Item.tokens]
  · intro item
    cases item <;> simp [Item.WellFormed]

theorem reads_item :
    readItem.Reads Item.tokens Item.WellFormed Anywhere := by
  have hExported := reads_interface.either reads_constants ?_
  · refine (reads_importing.either hExported ?_).congr
      (fun _ _ => rfl) ?_
    · rintro item rest
        (⟨_, name, members, rfl⟩ | ⟨_, name, entries, rfl⟩) _
      · rfl
      · rfl
    · intro item
      cases item <;> simp
  · rintro item rest ⟨_, name, entries, rfl⟩ _
    rfl

/-
  A module is read from exactly the tokens that its items
  are spelled with.
-/
theorem readItems_eq_some_iff
    {found : List Token}
    {items : List Item} :
    readItems found = some items ↔
      found = items.flatMap Item.tokens ∧
        ∀ item ∈ items, item.WellFormed := by
  unfold readItems
  constructor
  · intro h
    split at h
    · next hMany =>
        cases h
        have hSound := sound_manyWithin reads_item hMany
        rwa [List.append_nil] at hSound
    · cases h
  · rintro ⟨rfl, hFits⟩
    have hPrint (item : Item) : item.tokens ≠ [] := by
      cases item <;> simp [Item.tokens]
    have hMany := complete_many reads_item
      (fun _ _ _ => trivial) hPrint hFits trivial
      (rfl : readItem [] = none)
    rw [List.append_nil] at hMany
    rw [hMany]

/-
  Is a text in the grammar, as these items? Its comments are
  left aside.
-/
def IsModule
    (text : Text)
    (items : List Item) : Prop :=
  tokens (uncomment .code text) =
      some (items.flatMap Item.tokens) ∧
    ∀ item ∈ items, item.WellFormed

/- So the text alone says which items it is made of. -/
theorem readModule_eq_some_iff
    {text : Text}
    {items : List Item} :
    readModule text = some items ↔ IsModule text items := by
  unfold readModule IsModule
  constructor
  · intro h
    rcases Option.bind_eq_some_iff.mp h with
      ⟨found, hFound, hItems⟩
    rcases readItems_eq_some_iff.mp hItems with ⟨rfl, hFits⟩
    exact ⟨hFound, hFits⟩
  · rintro ⟨hFound, hFits⟩
    rw [hFound]
    exact readItems_eq_some_iff.mpr ⟨rfl, hFits⟩

end TypeScript

end ThriftTypings
