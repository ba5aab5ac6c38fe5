import Bourse.Proofs.ByteOrder
import Bourse.Proofs.PlainPaths

/-!
# Escapes in a path

A client escapes what may not stand in a path and leaves a percent sign alone, so the text that
the service decodes is not the one that was escaped: what looked like an escape before is decoded
with the others. But that is all. The bytes of an escaped text are decoded to the same bytes as
those of the text itself: `decoded_escaped`. The reason is that no hexadecimal digit is escaped
and a percent sign is none, so that the first bytes of an escaped text are an escape exactly if
they stand in the text, or stand for one of its bytes.

Decoding shortens whatever it changes: `percent_decoded_length`.
-/

namespace Bourse.Text

/-! ## One escape -/

/-- The digits of an escape are letters and digits. -/
theorem alphanum_of_hex {c : Char} {value : Nat} (digit : hexDigit? c = some value) :
    c.isAlphanum = true := by
  have letter (alpha : c.isUpper = true ∨ c.isLower = true) : c.isAlphanum = true :=
    Bool.or_eq_true_iff.mpr (.inl (Bool.or_eq_true_iff.mpr alpha))
  unfold hexDigit? at digit
  split at digit
  case isTrue number => exact alphanum_of_digit number
  case isFalse =>
    split at digit
    case isTrue small =>
      have last : c.val ≤ 'z'.val := UInt32.le_trans small.2 (by decide)
      exact letter (.inr (Bool.and_eq_true_iff.mpr ⟨decide_eq_true small.1, decide_eq_true last⟩))
    case isFalse =>
      split at digit
      case isTrue capital =>
        have last : c.val ≤ 'Z'.val := UInt32.le_trans capital.2 (by decide)
        exact letter (.inl (decide_eq_true ⟨capital.1, last⟩))
      case isFalse => contradiction

/-- The bytes of an escape are those of letters and digits. -/
theorem alphanum_of_escape {high low b : UInt8} (escape : escapedByte? high low = some b) :
    (Char.ofNat high.toNat).isAlphanum = true ∧ (Char.ofNat low.toNat).isAlphanum = true := by
  unfold escapedByte? at escape
  split at escape
  case h_1 first second => exact ⟨alphanum_of_hex first, alphanum_of_hex second⟩
  case h_2 => contradiction

/-- What is written for a byte that is escaped. -/
theorem escape_of_byte (b : UInt8) :
    ∃ high low, utf8 (String.ofList (percentEncoded b)) = [0x25, high, low] ∧
      escapedByte? high low = some b := by
  have digits : ∀ value < 16, ∃ digit : UInt8,
      String.utf8EncodeChar (hexDigit value).toUpper = [digit] ∧
        hexDigit? (Char.ofNat digit.toNat) = some value := by
    intro value bounded
    refine ⟨.ofNat (hexDigit value).toUpper.toNat, ?_⟩
    revert value
    decide
  have bounded := b.toNat_lt
  obtain ⟨high, writtenHigh, readHigh⟩ := digits (b.toNat / 16) (by omega)
  obtain ⟨low, writtenLow, readLow⟩ := digits (b.toNat % 16) (by omega)
  refine ⟨high, low, ?_, ?_⟩
  · have percent : String.utf8EncodeChar '%' = [0x25] := by decide
    simp [utf8, percentEncoded, writtenHigh, writtenLow, percent]
  · simp only [escapedByte?, readHigh, readLow]
    rw [Nat.div_add_mod' b.toNat 16, UInt8.ofNat_toNat]

/-! ## Decoding -/

/-- A byte that is no percent sign stands for itself. -/
theorem percent_decoded_other {b : UInt8} (other : b ≠ 0x25) (rest : List UInt8) :
    percentDecoded (b :: rest) = b :: percentDecoded rest := by
  rw [percentDecoded.eq_def]
  split
  case h_1 same => exact absurd (List.cons.inj same).1 other
  case h_2 same =>
    obtain ⟨rfl, rfl⟩ := List.cons.inj same
    rfl
  case h_3 same => contradiction

/-- An escape stands for its byte. -/
theorem percent_decoded_escape {high low b : UInt8} (escape : escapedByte? high low = some b)
    (rest : List UInt8) :
    percentDecoded (0x25 :: high :: low :: rest) = b :: percentDecoded rest := by
  rw [percentDecoded, escape]

/-- A percent sign in front of no escape stands for itself. -/
theorem percent_decoded_alone {rest : List UInt8}
    (alone : ∀ high low later, rest = high :: low :: later → escapedByte? high low = none) :
    percentDecoded (0x25 :: rest) = 0x25 :: percentDecoded rest := by
  match rest with
  | [] => rfl
  | [b] => rfl
  | high :: low :: later => rw [percentDecoded, alone high low later rfl]

/-- Decoding shortens whatever it changes. -/
theorem percent_decoded_length (bytes : List UInt8) :
    (percentDecoded bytes).length < bytes.length ∨ percentDecoded bytes = bytes := by
  fun_induction percentDecoded bytes with
  | case1 high low rest b escape induction =>
    left
    rcases induction with shorter | same
    · simp only [List.length_cons]
      omega
    · rw [same]
      simp only [List.length_cons]
      omega
  | case2 high low rest none induction =>
    rcases induction with shorter | same
    · exact .inl (Nat.succ_lt_succ shorter)
    · exact .inr (congrArg _ same)
  | case3 b rest _ induction =>
    rcases induction with shorter | same
    · exact .inl (Nat.succ_lt_succ shorter)
    · exact .inr (congrArg _ same)
  | case4 => exact .inr rfl

/-! ## Escaped texts -/

/-- What a path has for a byte. -/
def spelledByte (b : UInt8) : List UInt8 :=
  if Client.isEscapedInPath (Char.ofNat b.toNat) then utf8 (String.ofList (percentEncoded b))
  else [b]

/-- A letter, a digit and a percent sign are spelled by themselves. -/
theorem spelled_plain {b : UInt8} (plain : Client.isEscapedInPath (Char.ofNat b.toNat) = false) :
    spelledByte b = [b] := by
  rw [spelledByte, plain]
  rfl

/-- A byte is spelled by itself, or it is no percent sign and spelled by its escape. -/
theorem spelled_cases (b : UInt8) :
    spelledByte b = [b] ∨
      ∃ high low, spelledByte b = [0x25, high, low] ∧
        escapedByte? high low = some b ∧ b ≠ 0x25 := by
  cases special : Client.isEscapedInPath (Char.ofNat b.toNat) with
  | false => exact .inl (spelled_plain special)
  | true =>
    obtain ⟨high, low, written, escape⟩ := escape_of_byte b
    refine .inr ⟨high, low, ?_, escape, ?_⟩
    · rw [spelledByte, special]
      exact written
    · rintro rfl
      exact absurd special (by decide)

/-- Where spelled bytes begin with an escape, the bytes themselves begin with it, since no escape
contains a percent sign. -/
theorem begins_of_spelled {bytes later : List UInt8} {high low b : UInt8}
    (begins : bytes.flatMap spelledByte = high :: low :: later)
    (escape : escapedByte? high low = some b) : ∃ rest, bytes = high :: low :: rest := by
  obtain ⟨highLetter, lowLetter⟩ := alphanum_of_escape escape
  have percent : (Char.ofNat (0x25 : UInt8).toNat).isAlphanum = false := by decide
  cases bytes with
  | nil => contradiction
  | cons first bytes =>
    rw [List.flatMap_cons] at begins
    rcases spelled_cases first with plain | ⟨_, _, spelled, -, -⟩
    · rw [plain, List.singleton_append] at begins
      obtain ⟨rfl, behind⟩ := List.cons.inj begins
      cases bytes with
      | nil => contradiction
      | cons second bytes =>
        rw [List.flatMap_cons] at behind
        rcases spelled_cases second with plain | ⟨_, _, spelled, -, -⟩
        · rw [plain, List.singleton_append] at behind
          obtain ⟨rfl, -⟩ := List.cons.inj behind
          exact ⟨bytes, rfl⟩
        · rw [spelled] at behind
          obtain ⟨rfl, -⟩ := List.cons.inj behind
          rw [percent] at lowLetter
          contradiction
    · rw [spelled] at begins
      obtain ⟨rfl, -⟩ := List.cons.inj begins
      rw [percent] at highLetter
      contradiction

/-- Spelled bytes are decoded to what the bytes themselves are decoded to. -/
theorem decoded_spelled (bytes : List UInt8) :
    percentDecoded (bytes.flatMap spelledByte) = percentDecoded bytes := by
  have percent : spelledByte 0x25 = [0x25] := spelled_plain (by decide)
  fun_induction percentDecoded bytes with
  | case1 high low rest b escape induction =>
    obtain ⟨highLetter, lowLetter⟩ := alphanum_of_escape escape
    rw [List.flatMap_cons, List.flatMap_cons, List.flatMap_cons, percent,
      spelled_plain (not_escaped_of_alphanum highLetter),
      spelled_plain (not_escaped_of_alphanum lowLetter), ← induction]
    exact percent_decoded_escape escape _
  | case2 high low rest none induction =>
    rw [List.flatMap_cons, percent, ← induction]
    refine percent_decoded_alone fun first second later begins => ?_
    by_contra escape
    obtain ⟨b, escape⟩ := Option.ne_none_iff_exists'.mp escape
    obtain ⟨_, same⟩ := begins_of_spelled begins escape
    obtain ⟨rfl, behind⟩ := List.cons.inj same
    obtain ⟨rfl, -⟩ := List.cons.inj behind
    rw [none] at escape
    contradiction
  | case3 b rest short induction =>
    rw [List.flatMap_cons, ← induction]
    by_cases sign : b = 0x25
    · subst sign
      rw [percent]
      refine percent_decoded_alone fun first second later begins => ?_
      by_contra escape
      obtain ⟨b, escape⟩ := Option.ne_none_iff_exists'.mp escape
      obtain ⟨_, rfl⟩ := begins_of_spelled begins escape
      exact short _ _ _ rfl rfl
    · rcases spelled_cases b with plain | ⟨high, low, spelled, escape, -⟩
      · rw [plain]
        exact percent_decoded_other sign _
      · rw [spelled]
        exact percent_decoded_escape escape _
  | case4 => rfl

/-- What lies beyond ASCII is escaped in a path. -/
theorem escaped_beyond_ascii {c : Char} (beyond : 127 < c.toNat) :
    Client.isEscapedInPath c = true := by
  have last : '~' < c := by
    rw [Char.lt_def, UInt32.lt_iff_toNat_lt]
    exact Nat.lt_of_lt_of_le (by decide) beyond
  simp [Client.isEscapedInPath, last]

/-- A character is escaped as each of its bytes is. -/
theorem escaped_as_bytes (c : Char) :
    ∀ b ∈ String.utf8EncodeChar c,
      Client.isEscapedInPath (Char.ofNat b.toNat) = Client.isEscapedInPath c := by
  have high {value : Nat} (above : 127 < value) (below : value < 256) :
      Client.isEscapedInPath (Char.ofNat (UInt8.ofNat value).toNat) = true := by
    have valid : value.isValidChar := .inl (by omega)
    rw [UInt8.toNat_ofNat', Nat.mod_eq_of_lt below]
    refine escaped_beyond_ascii ?_
    rw [Char.ofNat, dif_pos valid]
    exact above
  have beyond (above : 127 < c.val.toNat) : Client.isEscapedInPath c = true :=
    escaped_beyond_ascii above
  have written := written_char c
  generalize String.utf8EncodeChar c = bytes at written ⊢
  cases written with
  | one least =>
    intro b member
    obtain rfl := List.mem_singleton.mp member
    have same : (UInt8.ofNat c.val.toNat).toNat = c.toNat := Nat.mod_eq_of_lt (by omega)
    rw [same, Char.ofNat_toNat]
  | two above least =>
    rw [beyond above]
    simp only [List.forall_mem_cons]
    exact ⟨high (by omega) (by omega), high (by omega) (by omega), nofun⟩
  | three above least =>
    rw [beyond (by omega)]
    simp only [List.forall_mem_cons]
    exact ⟨high (by omega) (by omega), high (by omega) (by omega), high (by omega) (by omega),
      nofun⟩
  | four above least =>
    rw [beyond (by omega)]
    simp only [List.forall_mem_cons]
    exact ⟨high (by omega) (by omega), high (by omega) (by omega), high (by omega) (by omega),
      high (by omega) (by omega), nofun⟩

/-- The bytes of an escaped text spell those of the text. -/
theorem utf8_escaped (cs : List Char) :
    utf8 (String.ofList (Client.escaped Client.isEscapedInPath cs)) =
      (utf8 (String.ofList cs)).flatMap spelledByte := by
  rw [utf8, utf8, String.toList_ofList, String.toList_ofList, Client.escaped, List.flatMap_assoc,
    List.flatMap_assoc, List.flatMap_def, List.flatMap_def]
  refine congrArg List.flatten (List.map_congr_left fun c _ => ?_)
  have bytes := escaped_as_bytes c
  cases special : Client.isEscapedInPath c with
  | true =>
    rw [if_pos rfl, List.flatMap_assoc, List.flatMap_def, List.flatMap_def]
    refine congrArg List.flatten (List.map_congr_left fun b member => ?_)
    rw [spelledByte, bytes b member, special, if_pos rfl, utf8, String.toList_ofList]
  | false =>
    rw [if_neg (by decide), List.flatMap_singleton, List.flatMap_def]
    have plain : (String.utf8EncodeChar c).map spelledByte =
        (String.utf8EncodeChar c).map fun b => [b] :=
      List.map_congr_left fun b member => spelled_plain ((bytes b member).trans special)
    rw [plain, ← List.flatMap_def, List.flatMap_singleton']

/-- An escaped text is decoded to what the text itself is decoded to. -/
theorem decoded_escaped (cs : List Char) :
    percentDecoded (utf8 (String.ofList (Client.escaped Client.isEscapedInPath cs))) =
      percentDecoded (utf8 (String.ofList cs)) := by
  rw [utf8_escaped, decoded_spelled]

end Bourse.Text
