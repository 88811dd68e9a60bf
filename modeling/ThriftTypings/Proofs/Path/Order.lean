import Mathlib.Data.Char
import Mathlib.Data.List.Lex
import Mathlib.Data.Prod.Lex
import ThriftTypings.Path.Basic

/-
  This file proves that the orders of texts and of paths are
  linear: they are the lexicographic ones. So a list of paths
  is sorted in one way only.

  Key theorems include:
    * `Path.le_iff` and `Path.eq_of_le`
    * `Path.pairwise_mergeSort`
-/

namespace ThriftTypings

-- The Order of Texts

namespace Text

/- The order of texts is the lexicographic one. -/
theorem le_iff
    {first second : Text} :
    le first second = true ↔ first ≤ second := by
  rw [← not_lt]
  induction first generalizing second with
  | nil => simp [le]
  | cons a as ih =>
      cases second with
      | nil => simp [le]
      | cons b bs =>
          rw [List.cons_lt_cons_iff]
          by_cases hSame : a = b
          · subst hSame
            simp [le, ih]
          · have hOrder : a.toNat < b.toNat ↔ a < b :=
              UInt32.lt_iff_toNat_lt.symm
            have hNot : ¬ b < a ↔ a < b :=
              ⟨fun h => lt_of_le_of_ne (not_lt.mp h) hSame,
                fun h => not_lt.mpr h.le⟩
            simp [le, hSame, Ne.symm hSame, hOrder, hNot]

/- The order of lists of texts is the lexicographic one. -/
theorem listLe_iff
    {first second : List Text} :
    listLe first second = true ↔ first ≤ second := by
  rw [← not_lt]
  induction first generalizing second with
  | nil => simp [listLe]
  | cons a as ih =>
      cases second with
      | nil => simp [listLe]
      | cons b bs =>
          rw [List.cons_lt_cons_iff]
          by_cases hSame : a = b
          · subst hSame
            simp [listLe, ih]
          · simp [listLe, hSame, Ne.symm hSame, le_iff]

end Text

-- The Order of Paths

namespace Path

/- What paths are ordered by, the first of it first. -/
def key
    (path : Path) : Nat ×ₗ List Text :=
  toLex (path.slashes, path.segments)

theorem le_iff
    {first second : Path} :
    le first second = true ↔ first.key ≤ second.key := by
  rw [key, key, Prod.Lex.toLex_le_toLex]
  by_cases hSame : first.slashes = second.slashes
  · simp [le, hSame, Text.listLe_iff]
  · simp [le, hSame]

theorem eq_of_le
    {first second : Path}
    (hFirst : le first second = true)
    (hSecond : le second first = true) :
    first = second := by
  rw [le_iff] at hFirst hSecond
  have hKey := congrArg ofLex (le_antisymm hFirst hSecond)
  cases first
  cases second
  simpa [key] using hKey

/- Sorted paths are in order. -/
theorem pairwise_mergeSort
    (paths : List Path) :
    (paths.mergeSort le).Pairwise
      fun first second => le first second = true := by
  refine List.pairwise_mergeSort ?_ ?_ paths
  · intro first second third hFirst hSecond
    rw [le_iff] at hFirst hSecond ⊢
    exact hFirst.trans hSecond
  · intro first second
    rw [Bool.or_eq_true, le_iff, le_iff]
    exact le_total _ _

end Path

end ThriftTypings
