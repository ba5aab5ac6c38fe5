import Bourse.Text.Utf8
import Mathlib.Data.List.Basic

/-!
# The order of bytes

A text that comes before another one, character by character, also comes before it when both are
written as bytes. The reason is that a character with a greater number never has a smaller first
byte, and where the bytes of two characters begin with the same ones, the next bytes have the rest
of the number to tell them apart.
-/

namespace Bourse.Text

/-- How a number is written as the bytes of a character. -/
inductive Written (number : Nat) : List UInt8 → Prop where
  | one (least : number ≤ 127) : Written number [.ofNat number]
  | two (above : 127 < number) (least : number ≤ 2047) :
      Written number [.ofNat (number / 64 % 32 + 192), .ofNat (number % 64 + 128)]
  | three (above : 2047 < number) (least : number ≤ 65535) :
      Written number [.ofNat (number / 4096 % 16 + 224), .ofNat (number / 64 % 64 + 128),
        .ofNat (number % 64 + 128)]
  | four (above : 65535 < number) (least : number < 1114112) :
      Written number [.ofNat (number / 262144 % 8 + 240), .ofNat (number / 4096 % 64 + 128),
        .ofNat (number / 64 % 64 + 128), .ofNat (number % 64 + 128)]

/-- The bytes of a character are one of the four ways to write its number. -/
theorem written_char (c : Char) : Written c.val.toNat (String.utf8EncodeChar c) := by
  have bounded : c.val.toNat < 1114112 := by
    rcases c.valid with low | ⟨-, high⟩
    · exact Nat.lt_trans low (by decide)
    · exact high
  unfold String.utf8EncodeChar
  dsimp only
  split
  case isTrue least => exact .one least
  case isFalse above =>
    split
    case isTrue least => exact .two (by omega) least
    case isFalse above =>
      split
      case isTrue least => exact .three (by omega) least
      case isFalse above => exact .four (by omega) bounded

/-- A byte that is not greater comes first, unless it is the same and the bytes behind it come
first. -/
theorem byte_lt {first second : Nat} {rest others : List UInt8} (bounded : second < 256)
    (least : first ≤ second) (equal : first = second → rest < others) :
    UInt8.ofNat first :: rest < UInt8.ofNat second :: others := by
  rw [List.cons_lt_cons_iff]
  rcases Nat.lt_or_eq_of_le least with less | rfl
  · left
    rw [UInt8.lt_iff_toNat_lt, UInt8.toNat_ofNat', UInt8.toNat_ofNat']
    omega
  · exact .inr ⟨rfl, equal rfl⟩

/-- Whatever comes behind, the bytes of a smaller number come first. -/
theorem Written.lt {number greater : Nat} {bytes others : List UInt8}
    (written : Written number bytes) (also : Written greater others) (below : number < greater)
    (behind beside : List UInt8) : bytes ++ behind < others ++ beside := by
  cases written with
  | one least =>
    cases also with
    | one => exact byte_lt (by omega) (by omega) (by omega)
    | two => exact byte_lt (by omega) (by omega) (by omega)
    | three => exact byte_lt (by omega) (by omega) (by omega)
    | four => exact byte_lt (by omega) (by omega) (by omega)
  | two above least =>
    cases also with
    | one => omega
    | two =>
      refine byte_lt (by omega) (by omega) fun same => ?_
      exact byte_lt (by omega) (by omega) (by omega)
    | three => exact byte_lt (by omega) (by omega) (by omega)
    | four => exact byte_lt (by omega) (by omega) (by omega)
  | three above least =>
    cases also with
    | one => omega
    | two => omega
    | three =>
      refine byte_lt (by omega) (by omega) fun same => ?_
      refine byte_lt (by omega) (by omega) fun same => ?_
      exact byte_lt (by omega) (by omega) (by omega)
    | four => exact byte_lt (by omega) (by omega) (by omega)
  | four above least =>
    cases also with
    | one => omega
    | two => omega
    | three => omega
    | four =>
      refine byte_lt (by omega) (by omega) fun same => ?_
      refine byte_lt (by omega) (by omega) fun same => ?_
      refine byte_lt (by omega) (by omega) fun same => ?_
      exact byte_lt (by omega) (by omega) (by omega)

/-- Characters in the order of their numbers are in the order of their bytes. -/
theorem bytes_lt {first second : List Char} (less : first < second) :
    first.flatMap String.utf8EncodeChar < second.flatMap String.utf8EncodeChar := by
  induction first generalizing second with
  | nil =>
    cases second with
    | nil => exact absurd less (List.lt_irrefl [])
    | cons c rest =>
      rw [List.flatMap_nil, List.flatMap_cons]
      have written := written_char c
      generalize String.utf8EncodeChar c = bytes at written ⊢
      cases written <;> exact List.nil_lt_cons _ _
  | cons c rest induction =>
    cases second with
    | nil => contradiction
    | cons d others =>
      rw [List.flatMap_cons, List.flatMap_cons]
      rcases List.cons_lt_cons_iff.mp less with below | ⟨rfl, later⟩
      · exact (written_char c).lt (written_char d) below _ _
      · exact List.append_left_lt (induction later)

/-- A text that comes first is written with the bytes that come first. -/
theorem utf8_lt {first second : String} (less : first < second) : utf8 first < utf8 second :=
  bytes_lt (String.lt_iff.mp less)

end Bourse.Text
