import ThriftTypings.Text.Integer

/-
  This file proves what integer is read from a sign and
  decimal digits, and that an integer is written in the one
  way that has no zeros to spare.

  Key definitions include:
    * `Text.digitsOf` and `Text.denoted`
    * `Text.IsCanonical`

  Key theorems include:
    * `Text.isCanonical_ofInt`
    * `Text.denoted_ofInt`
-/

namespace ThriftTypings

namespace Text

-- Signs and Digits

/- The digits of a number, without the sign before them. -/
def digitsOf : Text → Text
  | '-' :: digits => digits
  | digits => digits

/- The integer that a sign and digits denote. -/
def denoted : Text → Int
  | '-' :: digits => -Int.ofNat (Nat.ofDigitChars 10 digits 0)
  | digits => Int.ofNat (Nat.ofDigitChars 10 digits 0)

/-
  A number in its only form without zeros to spare: digits
  with no zero in front, except for zero itself, which has
  no sign.
-/
def IsCanonical
    (number : Text) : Prop :=
  digitsOf number ≠ [] ∧
    (∀ c ∈ digitsOf number, c.isDigit = true) ∧
    ((digitsOf number).head? = some '0' → number = ['0'])

-- Reading

theorem toNat_of_isDigit
    {c : Char}
    (h : c.isDigit = true) :
    48 ≤ c.toNat ∧ c.toNat ≤ 57 := by
  simp only [Char.isDigit, Bool.and_eq_true,
    decide_eq_true_eq] at h
  exact h

section Digits

variable {digits : Text}

/- Digits are plain already. -/
theorem map_plainChar
    (h : ∀ c ∈ digits, c.isDigit = true) :
    digits.map plainChar = digits := by
  rw [List.map_congr_left (g := id), List.map_id]
  intro c hc
  have hCode := toNat_of_isDigit (h c hc)
  rw [plainChar, if_pos (by omega), id]

theorem digitRun_digits
    {allowed : Bool}
    (hSome : allowed = true ∨ digits ≠ [])
    (h : ∀ c ∈ digits, c.isDigit = true) :
    digitRun allowed digits =
      some (digits.map (fun c => c.toNat - '0'.toNat), []) := by
  induction digits generalizing allowed with
  | nil => simpa [digitRun] using hSome
  | cons c rest ih =>
      have hMore := ih (.inl rfl) fun d hd =>
        h d (List.mem_cons_of_mem _ hd)
      simp [digitRun, digit?, h c (by simp), hMore]

theorem digitsValue_digits
    (digits : Text) :
    digitsValue (digits.map (fun c => c.toNat - '0'.toNat)) =
      Nat.ofDigitChars 10 digits 0 := by
  simp only [digitsValue, List.foldl_map,
    Nat.ofDigitChars_eq_foldl, Nat.mul_comm]

/- Digits begin with no blank and no sign. -/
theorem front_of_digits
    (hSome : digits ≠ [])
    (h : ∀ c ∈ digits, c.isDigit = true) :
    digits.dropWhile isNumberBlank = digits ∧
      signed digits = (false, digits) ∧
      digitsOf digits = digits ∧
      denoted digits =
        Int.ofNat (Nat.ofDigitChars 10 digits 0) := by
  cases digits with
  | nil => exact absurd rfl hSome
  | cons c rest =>
      have hCode := toNat_of_isDigit (h c (by simp))
      have hMinus : c ≠ '-' := by
        rintro rfl
        exact absurd hCode (by decide)
      have hPlus : c ≠ '+' := by
        rintro rfl
        exact absurd hCode (by decide)
      have hSpace : c ≠ ' ' := by
        rintro rfl
        exact absurd hCode (by decide)
      have hBlank : isNumberBlank c = false := by
        simp only [isNumberBlank, within,
          Bool.or_eq_false_iff, Bool.and_eq_false_iff,
          decide_eq_false_iff_not, beq_eq_false_iff_ne]
        exact ⟨.inr (by omega), hSpace⟩
      refine ⟨by simp [hBlank], ?_, ?_, ?_⟩
      · simp [signed, hMinus, hPlus]
      · simp [digitsOf, hMinus]
      · simp [denoted, hMinus]

/- What is read once the sign is told from the digits. -/
theorem toInteger_of_signed
    {number : Text}
    {negative : Bool}
    (hSigned :
      signed ((number.map plainChar).dropWhile
        isNumberBlank) = (negative, digits))
    (hSome : digits ≠ [])
    (h : ∀ c ∈ digits, c.isDigit = true) :
    toInteger number =
      if digitLimit < digits.length then
        .error (.tooLong digits.length)
      else
        .ok
          (if negative then
            -Int.ofNat (Nat.ofDigitChars 10 digits 0)
          else Int.ofNat (Nat.ofDigitChars 10 digits 0)) := by
  have hRun := digitRun_digits (.inr hSome : false = true ∨ _) h
  simp only [toInteger, hSigned, hRun, List.length_map,
    digitsValue_digits, List.all_nil, if_true]

/- Digits are read for what they denote, up to a limit. -/
theorem toInteger_digits
    (hSome : digits ≠ [])
    (h : ∀ c ∈ digits, c.isDigit = true) :
    toInteger digits =
      if digitLimit < (digitsOf digits).length then
        .error (.tooLong (digitsOf digits).length)
      else .ok (denoted digits) := by
  rcases front_of_digits hSome h with
    ⟨hBlank, hSigned, hDigits, hDenoted⟩
  have hPlain :
      signed ((digits.map plainChar).dropWhile
        isNumberBlank) = (false, digits) := by
    rw [map_plainChar h, hBlank, hSigned]
  rw [hDigits, hDenoted]
  exact toInteger_of_signed hPlain hSome h

theorem toInteger_minus
    (hSome : digits ≠ [])
    (h : ∀ c ∈ digits, c.isDigit = true) :
    toInteger ('-' :: digits) =
      if digitLimit < (digitsOf ('-' :: digits)).length then
        .error (.tooLong (digitsOf ('-' :: digits)).length)
      else .ok (denoted ('-' :: digits)) := by
  have hSigned :
      signed ((('-' :: digits).map plainChar).dropWhile
        isNumberBlank) = (true, digits) := by
    rw [List.map_cons, map_plainChar h]
    rfl
  exact toInteger_of_signed hSigned hSome h

end Digits

-- Writing

/- Only zero is written with a zero in front. -/
theorem eq_zero_of_head?_ofNat
    {n : Nat}
    (h : (ofNat n).head? = some '0') :
    n = 0 := by
  induction n using Nat.strongRecOn with
  | ind n ih =>
      rw [ofNat, Nat.toDigits_eq_if (by decide)] at h
      split at h
      · next hSmall =>
          have hDigits : ∀ m < 10,
              Nat.digitChar m = '0' → m = 0 := by
            decide
          exact hDigits n hSmall (by simpa using h)
      · next hLarge =>
          have hFront :
              (Nat.toDigits 10 (n / 10)).head? = some '0' := by
            cases hDigits : Nat.toDigits 10 (n / 10) with
            | nil => exact absurd hDigits Nat.toDigits_ne_nil
            | cons c rest => simpa [hDigits] using h
          have hZero := ih (n / 10) (by omega) hFront
          omega

theorem isDigit_of_mem_ofNat
    {n : Nat}
    {c : Char}
    (h : c ∈ ofNat n) :
    c.isDigit = true :=
  Nat.isDigit_of_mem_toDigits (by decide) (by decide) h

theorem ofDigitChars_ofNat
    (n : Nat) :
    Nat.ofDigitChars 10 (ofNat n) 0 = n :=
  Nat.ofDigitChars_toDigits (by decide) (by decide)

theorem front_of_ofNat
    (n : Nat) :
    digitsOf (ofNat n) = ofNat n ∧
      denoted (ofNat n) = Int.ofNat n := by
  have hSome : ofNat n ≠ [] := Nat.toDigits_ne_nil
  rcases front_of_digits hSome fun c hc =>
    isDigit_of_mem_ofNat hc with ⟨_, _, hDigits, hDenoted⟩
  rw [ofDigitChars_ofNat] at hDenoted
  exact ⟨hDigits, hDenoted⟩

/- Integers are written without zeros to spare. -/
theorem isCanonical_ofInt
    (value : Int) :
    IsCanonical (ofInt value) := by
  cases value with
  | ofNat n =>
      rw [IsCanonical, ofInt, (front_of_ofNat n).1]
      refine ⟨Nat.toDigits_ne_nil,
        fun c hc => isDigit_of_mem_ofNat hc, fun hZero => ?_⟩
      rw [eq_zero_of_head?_ofNat hZero]
      rfl
  | negSucc n =>
      refine ⟨Nat.toDigits_ne_nil,
        fun c hc => isDigit_of_mem_ofNat hc, fun hZero => ?_⟩
      exact absurd (eq_zero_of_head?_ofNat hZero) (by simp)

/- What is written denotes the integer. -/
theorem denoted_ofInt
    (value : Int) :
    denoted (ofInt value) = value := by
  cases value with
  | ofNat n => exact (front_of_ofNat n).2
  | negSucc n =>
      change -Int.ofNat (Nat.ofDigitChars 10
        (ofNat (n + 1)) 0) = Int.negSucc n
      rw [ofDigitChars_ofNat]
      rfl

end Text

end ThriftTypings
