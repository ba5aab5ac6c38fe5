import Bourse.Order.Basic
import Bourse.Proofs.Numerals
import Bourse.Proofs.Texts
import Mathlib.Logic.Function.Basic

/-!
# Identifiers as texts

An identifier is written with at least ten digits, and with zeros in front only as far as they are
needed for that. It is read more freely than it is written: with any number of zeros in front of
its digits, behind a plus sign, and with blanks around it. So what is written is one of the
numerals that are read, and no two identifiers share a numeral.

The bound of a word needs no care in between, however long a numeral is: what is read against it
are the numerals of the numbers below it, by `read_natural_iff`.
-/

namespace Bourse

namespace Text

/-! ## Zeros in front -/

/-- Whether characters are the digits of a number with zeros in front up to a width. A number that
is wider by itself has none. -/
structure Padded (width value : Nat) (cs : List Char) : Prop where
  denotes : Denotes cs value
  wide : width ≤ cs.length
  filled : width < cs.length → cs.head? ≠ some '0'

/-- Zeros in front make no difference to the number. -/
theorem Denotes.pad_zeros {cs : List Char} {value : Nat} (denotes : Denotes cs value)
    (width : Nat) : Denotes (padZeros width cs) value where
  some := fun none => denotes.some (List.append_eq_nil_iff.mp none).2
  digits := by
    refine List.forall_mem_append.mpr ⟨fun c member => ?_, denotes.digits⟩
    obtain rfl := List.eq_of_mem_replicate member
    decide
  made := by
    rw [padZeros, Nat.ofDigitChars_append, Nat.ofDigitChars_replicate_zero, Nat.mul_zero]
    exact denotes.made

/-- The digits of a number, padded to a width, are its padded numeral. -/
theorem padded_digits {width : Nat} (positive : 0 < width) (value : Nat) :
    Padded width value (padZeros width (digits value)) := by
  have length : (padZeros width (digits value)).length =
      width - (digits value).length + (digits value).length := by
    rw [padZeros, List.length_append, List.length_replicate]
  refine ⟨(denotes_digits value).pad_zeros width, by omega, ?_⟩
  intro wider zero
  have unfilled : padZeros width (digits value) = digits value := by
    rw [padZeros, Nat.sub_eq_zero_of_le (by omega)]
    rfl
  rw [unfilled] at wider zero
  -- the only number with a zero in front is zero, and it is no wider than one digit
  obtain ⟨rest, written⟩ := List.head?_eq_some_iff.mp zero
  obtain rfl := eq_zero_of_digits written
  have single : (digits 0).length = 1 := rfl
  omega

/-! ## Numerals between blanks -/

/-- No numeral has a blank. -/
theorem Numeral.unblank {value : Nat} {cs : List Char} (numeral : Numeral value cs) :
    ∀ c ∈ cs, isBlank c = false := by
  have digits {cs : List Char} (denotes : Denotes cs value) : ∀ c ∈ cs, isBlank c = false :=
    fun c member => not_blank_of_alphanum (alphanum_of_digit (denotes.digits c member))
  cases numeral with
  | unsigned denotes => exact digits denotes
  | signed denotes => exact List.forall_mem_cons.mpr ⟨by decide, digits denotes⟩

end Text

namespace OrderId

/-- The texts of an identifier are its numerals between blanks. -/
theorem parse_iff {text : String} {id : OrderId} :
    parse text = .ok id ↔
      ∃ numeral, Text.Surrounded numeral text.toList ∧ Text.Numeral id.value.toNat numeral := by
  constructor
  · intro parsed
    unfold parse at parsed
    cases read : Text.readNatural Word.limit (Text.trimmed text.toList) with
    | error fault =>
      rw [read] at parsed
      contradiction
    | ok value =>
      rw [read] at parsed
      cases parsed
      obtain ⟨below, numeral⟩ := Text.read_natural_iff.mp read
      have kept : value.toUInt64.toNat = value := Nat.mod_eq_of_lt below
      refine ⟨_, Text.surrounded_trimmed text.toList, ?_⟩
      rwa [kept]
  · rintro ⟨numeral, surrounded, denoted⟩
    have trimmed := (Text.trimmed_eq_iff denoted.unblank).mpr surrounded
    have read : Text.readNatural Word.limit numeral = .ok id.value.toNat :=
      Text.read_natural_iff.mpr ⟨id.value.toNat_lt, denoted⟩
    rw [parse, trimmed, read]
    show Except.ok (⟨id.value.toNat.toUInt64⟩ : OrderId) = .ok id
    simp

/-- The text of an identifier is its numeral, padded to ten digits. -/
theorem padded_render (id : OrderId) : Text.Padded 10 id.value.toNat id.render.toList := by
  rw [render, String.toList_ofList]
  exact Text.padded_digits (by decide) id.value.toNat

/-- An identifier is read from what is written for it, with any blanks around it. -/
theorem parse_render {id : OrderId} {text : String}
    (surrounded : Text.Surrounded id.render.toList text.toList) : parse text = .ok id :=
  parse_iff.mpr ⟨_, surrounded, .unsigned id.padded_render.denotes⟩

/-- An identifier is written with ten digits or more, zeros in front only up to the tenth, no two
alike, and is read again with any blanks around it. What is read are exactly the numerals of the
numbers below two to the power of 64 between blanks, each to its number. -/
theorem identifiers_survive_text :
    (∀ id : OrderId, Text.Padded 10 id.value.toNat id.render.toList ∧
      ∀ text : String, Text.Surrounded id.render.toList text.toList → parse text = .ok id) ∧
    Function.Injective render ∧
    ∀ (text : String) (value : Nat), (∃ id, parse text = .ok id ∧ id.value.toNat = value) ↔
      value < 2 ^ 64 ∧
        ∃ numeral, Text.Surrounded numeral text.toList ∧ Text.Numeral value numeral := by
  refine ⟨fun id => ⟨id.padded_render, fun text => parse_render⟩, ?injective, ?read⟩
  case injective =>
    intro id other same
    have own : parse id.render = .ok id := parse_render (.refl _)
    have others : parse id.render = .ok other := parse_render (same ▸ .refl _)
    exact Except.ok.inj (own.symm.trans others)
  case read =>
    intro text value
    constructor
    · rintro ⟨id, parsed, rfl⟩
      exact ⟨id.value.toNat_lt, parse_iff.mp parsed⟩
    · rintro ⟨below, numeral⟩
      have kept : (OrderId.mk value.toUInt64).value.toNat = value := Nat.mod_eq_of_lt below
      exact ⟨⟨value.toUInt64⟩, parse_iff.mpr (kept.symm ▸ numeral), kept⟩

/-- The greatest identifier is read from its twenty digits between blanks, which reading does not
count. -/
theorem greatest_identifier_survives :
    Text.Surrounded (render ⟨18446744073709551615⟩).toList "\u3000 18446744073709551615\n".toList ∧
      parse "\u3000 18446744073709551615\n" = .ok ⟨18446744073709551615⟩ := by
  have surrounded : Text.Surrounded (render ⟨18446744073709551615⟩).toList
      "\u3000 18446744073709551615\n".toList :=
    ⟨['\u3000', ' '], ['\n'], by decide, List.all_eq_true.mp (by decide),
      List.all_eq_true.mp (by decide)⟩
  exact ⟨surrounded, (identifiers_survive_text.1 _).2 _ surrounded⟩

end OrderId

end Bourse
