import Bourse.Json.Number
import Bourse.Text.Decimal
import Mathlib.Data.Nat.Digits.Defs
import Mathlib.Tactic.SplitIfs

/-!
# Numerals

The digits that a number is written with give it back, in both places where digits are read:
against a bound, and as much of them as a word takes. Digits only raise the value in front of
them, so if the number they end with is within the bound, every value on the way is. What is read
against a bound are therefore exactly the numerals of the numbers below it: `read_natural_iff`.

A number is written with digits and nothing else, at least one, and begins with a zero only if it
is zero. A numeral that is read may begin with any number of zeros, and with one plus sign.
-/

namespace Bourse.Text

/-- The digits of a number are digits. -/
theorem is_digit_of_digits {value : Nat} {c : Char} (member : c ∈ digits value) :
    c.isDigit = true :=
  Nat.isDigit_of_mem_toDigits (by decide) (by decide) member

/-- Every number has a digit. -/
theorem digits_ne_nil (value : Nat) : digits value ≠ [] := Nat.toDigits_ne_nil

/-- Only zero is written with a zero in front. -/
theorem eq_zero_of_digits {value : Nat} {rest : List Char} (begins : digits value = '0' :: rest) :
    value = 0 := by
  induction value using Nat.strong_induction_on generalizing rest with
  | _ value induction =>
    by_cases single : value < 10
    · rw [digits, Nat.toDigits_of_lt_base single] at begins
      exact Nat.digitChar_eq_zero.mp (List.cons.inj begins).1
    · -- the first digit is that of the number without its last digit
      have more : digits value = digits (value / 10) ++ [(value % 10).digitChar] :=
        Nat.toDigits_of_base_le (by decide) (by omega)
      obtain ⟨first, later, shorter⟩ := List.exists_cons_of_ne_nil (digits_ne_nil (value / 10))
      rw [more, shorter, List.cons_append] at begins
      have zero : value / 10 = 0 :=
        induction (value / 10) (by omega) (shorter.trans (by rw [(List.cons.inj begins).1]))
      omega

/-- Digits do not lower the value in front of them. -/
theorem le_of_digit_chars (value : Nat) (cs : List Char) :
    value ≤ Nat.ofDigitChars 10 cs value := by
  rw [Nat.ofDigitChars_eq_ofDigitChars_zero]
  have power : 1 ≤ 10 ^ cs.length := Nat.one_le_pow _ _ (by decide)
  have raised : 1 * value ≤ 10 ^ cs.length * value := Nat.mul_le_mul_right value power
  omega

/-- Digits are read against a bound above the number that they make. -/
theorem read_digits_of_lt {bound value : Nat} {cs : List Char} (digits : ∀ c ∈ cs, c.isDigit = true)
    (below : Nat.ofDigitChars 10 cs value < bound) :
    readDigits bound value cs = .ok (Nat.ofDigitChars 10 cs value) := by
  induction cs generalizing value with
  | nil => rfl
  | cons c cs induction =>
    obtain ⟨digit, others⟩ := List.forall_mem_cons.mp digits
    rw [Nat.ofDigitChars_cons] at below ⊢
    have next : 10 * value + (c.toNat - '0'.toNat) < bound :=
      Nat.lt_of_le_of_lt (le_of_digit_chars _ cs) below
    simp only [readDigits, digit, Bool.not_true, Bool.false_eq_true, if_false, if_pos next]
    exact induction others below

/-- Digits are read, and nothing else is, to the number that they make. A number from one digit on
is below the bound. -/
theorem read_digits_iff {bound value read : Nat} {cs : List Char} :
    readDigits bound value cs = .ok read ↔
      (∀ c ∈ cs, c.isDigit = true) ∧ Nat.ofDigitChars 10 cs value = read ∧
        (cs ≠ [] → read < bound) := by
  constructor
  · intro digits
    induction cs generalizing value with
    | nil =>
      cases digits
      exact ⟨nofun, rfl, fun some => absurd rfl some⟩
    | cons c cs induction =>
      simp only [readDigits] at digits
      split_ifs at digits with invalid next
      obtain ⟨others, made, below⟩ := induction digits
      refine ⟨List.forall_mem_cons.mpr ⟨by simpa using invalid, others⟩, made, fun _ => ?_⟩
      cases cs with
      | nil =>
        cases digits
        exact next
      | cons second later => exact below (List.cons_ne_nil second later)
  · rintro ⟨digits, rfl, below⟩
    cases cs with
    | nil => rfl
    | cons c cs => exact read_digits_of_lt digits (below (List.cons_ne_nil c cs))

/-- Whether characters are digits, at least one, that make a number. -/
structure Denotes (cs : List Char) (value : Nat) : Prop where
  some : cs ≠ []
  digits : ∀ c ∈ cs, c.isDigit = true
  made : Nat.ofDigitChars 10 cs 0 = value

/-- Whether characters are a numeral of a number: its digits, behind one plus sign or none. -/
inductive Numeral (value : Nat) : List Char → Prop where
  | unsigned {cs : List Char} (denotes : Denotes cs value) : Numeral value cs
  | signed {cs : List Char} (denotes : Denotes cs value) : Numeral value ('+' :: cs)

/-- No digits begin with a plus sign. -/
theorem Denotes.unsigned {cs rest : List Char} {value : Nat} (denotes : Denotes cs value) :
    cs ≠ '+' :: rest := by
  rintro rfl
  have digit := denotes.digits '+' List.mem_cons_self
  contradiction

/-- Digits are read as the number that they denote, below any bound above it. -/
theorem Denotes.read {bound value : Nat} {cs : List Char} (denotes : Denotes cs value)
    (below : value < bound) : readDigits bound 0 cs = .ok value :=
  read_digits_iff.mpr ⟨denotes.digits, denotes.made, fun _ => below⟩

/-- What is read from digits is the number that they denote, and it is below the bound. -/
theorem denotes_of_read {bound value : Nat} {cs : List Char} (some : cs ≠ [])
    (read : readDigits bound 0 cs = .ok value) : value < bound ∧ Denotes cs value := by
  obtain ⟨digits, made, below⟩ := read_digits_iff.mp read
  exact ⟨below some, some, digits, made⟩

/-- What is read against a bound are the numerals of the numbers below it. -/
theorem read_natural_iff {bound value : Nat} {cs : List Char} :
    readNatural bound cs = .ok value ↔ value < bound ∧ Numeral value cs := by
  constructor
  · intro read
    unfold readNatural at read
    split at read
    case h_1 | h_2 => contradiction
    case h_3 digits alone =>
      have some : digits ≠ [] := fun none => alone (none ▸ rfl)
      obtain ⟨below, denotes⟩ := denotes_of_read some read
      exact ⟨below, .signed denotes⟩
    case h_4 none _ _ =>
      obtain ⟨below, denotes⟩ := denotes_of_read none read
      exact ⟨below, .unsigned denotes⟩
  · rintro ⟨below, denotes | denotes⟩
    case unsigned =>
      unfold readNatural
      split
      case h_1 => exact absurd rfl denotes.some
      case h_2 | h_3 => exact absurd rfl denotes.unsigned
      case h_4 => exact denotes.read below
    case signed =>
      unfold readNatural
      split
      case h_1 digits none => contradiction
      case h_2 digits same => exact absurd (List.cons.inj same).2 denotes.some
      case h_3 digits same =>
        obtain rfl := (List.cons.inj same).2
        exact denotes.read below
      case h_4 signless => exact absurd rfl (signless _)

/-- A number is denoted by the digits that it is written with. -/
theorem denotes_digits (value : Nat) : Denotes (digits value) value where
  some := digits_ne_nil value
  digits := fun _ member => is_digit_of_digits member
  made := Nat.ofDigitChars_ten_toDigits

end Bourse.Text

namespace Bourse.Json

/-- A word takes all digits of a number that it holds. -/
theorem absorb_of_lt {value : Nat} {cs : List Char}
    (below : Nat.ofDigitChars 10 cs value < Word.limit) :
    absorb value cs = (Nat.ofDigitChars 10 cs value, []) := by
  induction cs generalizing value with
  | nil => rfl
  | cons c cs induction =>
    rw [Nat.ofDigitChars_cons] at below ⊢
    have next : 10 * value + (c.toNat - '0'.toNat) < Word.limit :=
      Nat.lt_of_le_of_lt (Text.le_of_digit_chars _ cs) below
    simp only [absorb, if_pos next]
    exact induction below

/-- A word takes all digits of a number that it holds, and nothing is left. -/
theorem absorb_digits {value : Nat} (below : value < Word.limit) :
    absorb 0 (Text.digits value) = (value, []) := by
  have made : Nat.ofDigitChars 10 (Text.digits value) 0 = value := Nat.ofDigitChars_ten_toDigits
  rw [absorb_of_lt (made.symm ▸ below), made]

end Bourse.Json
