import Bourse.Proofs.Addresses
import Bourse.Proofs.IdentifierTexts

/-!
# Paths of letters and digits

The client writes an address and the service takes its path apart again. Where every part of the
path consists of letters and digits, nothing on the way changes it: no part is escaped, left out
or taken for dots, and the service finds the very parts that the client put together.

The identifier of an order is such a part, and it is read from it as it was written.
-/

namespace Bourse

/-! ## Letters and digits -/

/-- Letters and digits are not escaped in a path. -/
theorem not_escaped_of_alphanum {c : Char} (letter : c.isAlphanum = true) :
    Client.isEscapedInPath c = false := by
  have each := of_alphanum (fun c => !Client.isEscapedInPath c) (by decide) letter
  simpa using each

/-- Letters and digits stay what they are in an address. -/
theorem unmarked_of_alphanum {c : Char} (letter : c.isAlphanum = true) :
    Client.isMark c = false := by
  have each := of_alphanum (fun c => !Client.isMark c) (by decide) letter
  simpa using each

/-- No letter or digit is written with the byte of a percent sign. -/
theorem no_percent_of_alphanum {c : Char} (letter : c.isAlphanum = true) :
    0x25 ∉ String.utf8EncodeChar c := by
  have each := of_alphanum (fun c => !(String.utf8EncodeChar c).contains 0x25) (by decide) letter
  simpa using each

/-! ## Paths -/

/-- Parts of letters and digits. -/
def PlainParts (parts : List (List Char)) : Prop :=
  ∀ part ∈ parts, ∀ c ∈ part, c.isAlphanum = true

/-- The characters of a plain path. -/
theorem PlainParts.chars {parts : List (List Char)} (plain : PlainParts parts) {c : Char}
    (member : c ∈ pathOf parts) : c = '/' ∨ c.isAlphanum = true := by
  obtain ⟨part, listed, inside⟩ := List.mem_flatMap.mp member
  rcases List.mem_cons.mp inside with slash | own
  · exact .inl slash
  · exact .inr (plain part listed c own)

/-- Nothing else is in a plain path. -/
theorem PlainParts.ne {parts : List (List Char)} (plain : PlainParts parts) {c : Char}
    (member : c ∈ pathOf parts) (other : Char) (special : other ≠ '/' ∧ other.isAlphanum = false) :
    c ≠ other := by
  rintro rfl
  rcases plain.chars member with slash | letter
  · exact special.1 slash
  · rw [special.2] at letter
    contradiction

/-- No special character is in a plain path. -/
theorem PlainParts.absent {parts : List (List Char)} (plain : PlainParts parts) (other : Char)
    (special : other ≠ '/' ∧ other.isAlphanum = false) : other ∉ pathOf parts :=
  fun member => plain.ne member other special rfl

/-- A plain path stops at no special character. -/
theorem PlainParts.take_while {parts : List (List Char)} (plain : PlainParts parts) (mark : Char)
    (special : mark ≠ '/' ∧ mark.isAlphanum = false) :
    (pathOf parts).takeWhile (· != mark) = pathOf parts :=
  List.takeWhile_eq_self_iff.mpr fun c member => by simp [plain.ne member mark special]

/-- Nothing stands behind a special character in a plain path. -/
theorem PlainParts.drop_while {parts : List (List Char)} (plain : PlainParts parts) (mark : Char)
    (special : mark ≠ '/' ∧ mark.isAlphanum = false) :
    (pathOf parts).dropWhile (· != mark) = [] :=
  List.dropWhile_eq_nil_iff.mpr fun c member => by simp [plain.ne member mark special]

/-- No part of a plain path has a slash. -/
theorem PlainParts.whole {parts : List (List Char)} (plain : PlainParts parts) :
    ∀ part ∈ parts, '/' ∉ part := by
  intro part listed member
  exact absurd (plain part listed '/' member) (by decide)

/-- The pieces of a plain path are its parts behind an empty piece. -/
theorem pieces_path {parts : List (List Char)} (plain : PlainParts parts) :
    Text.pieces '/' (pathOf parts) = [] :: parts := pieces_of_whole plain.whole

namespace Client

/-- A part of letters and digits is no dots. -/
theorem not_dots {part : List Char} (plain : ∀ c ∈ part, c.isAlphanum = true) :
    isDots part = false := by
  have lower : ∀ c ∈ part.map Char.toLower, c.isAlphanum = true := by
    intro c member
    obtain ⟨own, listed, rfl⟩ := List.mem_map.mp member
    exact lower_alphanum (plain own listed)
  have apart (dots : String) (special : dots.toList.any (!·.isAlphanum) = true) :
      String.ofList (part.map Char.toLower) ≠ dots := by
    rintro rfl
    obtain ⟨c, member, other⟩ := List.any_eq_true.mp special
    rw [String.toList_ofList] at member
    rw [lower c member] at other
    contradiction
  have single : isSingleDot part = false := by
    simp [isSingleDot, apart "." (by decide), apart "%2e" (by decide)]
  have double : isDoubleDot part = false := by
    simp [isDoubleDot, apart ".." (by decide), apart ".%2e" (by decide),
      apart "%2e." (by decide), apart "%2e%2e" (by decide)]
  rw [isDots, single, double]
  rfl

/-- Letters and digits are left as they are. -/
theorem escaped_plain {part : List Char} (plain : ∀ c ∈ part, c.isAlphanum = true) :
    escaped isEscapedInPath part = part := by
  induction part with
  | nil => rfl
  | cons c part induction =>
    obtain ⟨first, rest⟩ := List.forall_mem_cons.mp plain
    have later : part.flatMap (fun c => if isEscapedInPath c = true then
        (String.utf8EncodeChar c).flatMap Text.percentEncoded else [c]) = part := induction rest
    rw [escaped, List.flatMap_cons, later, not_escaped_of_alphanum first]
    rfl

/-- The segments of a plain path are its parts. -/
theorem segments_of_plain {parts : List (List Char)} (plain : PlainParts parts) :
    segmentsOf (pathOf parts) = parts := by
  have unmarked : ∀ c ∈ pathOf parts, isMark c = false := by
    intro c member
    rcases plain.chars member with rfl | letter
    · decide
    · exact unmarked_of_alphanum letter
  have dotless : ∀ part ∈ parts, isDots part = false :=
    fun part listed => not_dots (plain part listed)
  exact segments_of_path unmarked plain.whole dotless

/-- A plain path is its own target. -/
theorem target_of_plain {parts : List (List Char)} (plain : PlainParts parts) :
    targetOf (String.ofList (pathOf parts)) = String.ofList (pathOf parts) := by
  obtain ⟨query, mark, target⟩ := target_eq (String.ofList (pathOf parts))
  have none : query = [] := by
    cases query with
    | nil => rfl
    | cons c query =>
      have question := (mark c rfl).2
      rw [String.toList_ofList] at question
      exact absurd question (plain.absent '?' (by decide))
  have unescaped : parts.map (escaped isEscapedInPath) = parts :=
    (List.map_congr_left fun part listed => escaped_plain (plain part listed)).trans (List.map_id _)
  rw [target, none, String.toList_ofList, segments_of_plain plain, unescaped, List.append_nil]

end Client

namespace HttpRequest

/-- A plain path is taken for a path without a query. -/
theorem split_plain {part : List Char} {parts : List (List Char)}
    (plain : PlainParts (part :: parts)) :
    splitTarget (String.ofList (pathOf (part :: parts))) = (pathOf (part :: parts), []) := by
  have server : behindServer (pathOf (part :: parts)) = pathOf (part :: parts) := by
    rw [path_of_cons]
    rfl
  simp only [splitTarget, String.toList_ofList, server, plain.take_while '#' (by decide),
    plain.take_while '?' (by decide), plain.drop_while '?' (by decide), List.drop_nil]

end HttpRequest

/-! ## Parts -/

/-- Bytes without the percent sign stand for themselves. -/
theorem Text.percent_decoded_plain {bytes : List UInt8} (plain : 0x25 ∉ bytes) :
    percentDecoded bytes = bytes := by
  fun_induction percentDecoded bytes with
  | case1 | case2 => simp at plain
  | case3 b rest _ induction => rw [induction fun later => plain (List.mem_cons_of_mem _ later)]
  | case4 => rfl

/-- A part of letters and digits stands for itself. -/
theorem decoded_plain {part : List Char} (plain : ∀ c ∈ part, c.isAlphanum = true) :
    decodedPart part = some (String.ofList part) := by
  have bytes : 0x25 ∉ Text.utf8 (String.ofList part) := by
    intro percent
    rw [Text.utf8, String.toList_ofList] at percent
    obtain ⟨c, member, own⟩ := List.mem_flatMap.mp percent
    exact no_percent_of_alphanum (plain c member) own
  rw [decodedPart, Text.percent_decoded_plain bytes, Text.read_utf8]

/-- The digits of a number are a plain part. -/
theorem alphanum_of_digits {value : Nat} {c : Char} (member : c ∈ Text.digits value) :
    c.isAlphanum = true := alphanum_of_digit (Text.is_digit_of_digits member)

/-- An identifier is read from its digits. -/
theorem OrderId.parse_digits (id : OrderId) :
    OrderId.parse (Text.natural id.value.toNat) = .ok id := by
  have plain : Text.Surrounded (Text.digits id.value.toNat)
      (Text.natural id.value.toNat).toList := by
    rw [Text.natural, String.toList_ofList]
    exact .refl _
  exact parse_iff.mpr ⟨_, plain, .unsigned (Text.denotes_digits id.value.toNat)⟩

end Bourse
