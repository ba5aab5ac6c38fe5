import Bourse.Json.Reader
import Bourse.Json.Writer
import Bourse.Proofs.Numerals

/-!
# Reading back what was written

A document without any space is read back from its text: every string, with whatever characters
it has, and all members of an object in their order. A number is read as far as a word takes
its digits, so it comes back as it was unless it lies beyond a word. Nothing of the text is left
over. A cut is written as nothing at all, so a document with a cut is outside.

A document is exact if its text says everything about it: its numbers are integers of a word,
and its strings denote texts. An exact document is read back as it was.
-/

namespace Bourse.Json

/-! ## Strings -/

/-- The value of a hexadecimal digit that is written. -/
theorem hex_digit_read {value : Nat} (small : value < 16) :
    Text.hexDigit? (Text.hexDigit value) = some value := by
  have all : ∀ value < 16, Text.hexDigit? (Text.hexDigit value) = some value := by decide
  exact all value small

/-- The four digits of a control character. -/
theorem code_unit_control {value : Nat} (control : value < 32) :
    codeUnit? '0' '0' (Text.hexDigit (value / 16)) (Text.hexDigit (value % 16)) = some value := by
  have high := hex_digit_read (show value / 16 < 16 by omega)
  have low := hex_digit_read (show value % 16 < 16 by omega)
  have zero : Text.hexDigit? '0' = some 0 := by decide
  simp only [codeUnit?, zero, high, low, bind, Option.bind, pure, Option.some.injEq]
  omega

/-- A character of a string is read from its escape, or as it stands. -/
theorem read_units_escaped (c : Char) (rest : List Char) :
    readUnits (escaped c ++ rest) =
      (readUnits rest).map fun read => (c.toNat :: read.1, read.2) := by
  -- a letter behind a backslash
  have short {e : Char} (own : shortEscape? e = some c) (plain : e ≠ 'u') :
      readUnits ('\\' :: e :: rest) =
        (readUnits rest).map fun read => (c.toNat :: read.1, read.2) := by
    cases h : readUnits rest <;> simp [readUnits, own, plain, h]
  unfold escaped
  split_ifs with quote backslash backspace tab line form carriage control
  · exact short (by rw [eq_of_beq quote]; rfl) (by decide)
  · exact short (by rw [eq_of_beq backslash]; rfl) (by decide)
  · exact short (by rw [eq_of_beq backspace]; rfl) (by decide)
  · exact short (by rw [eq_of_beq tab]; rfl) (by decide)
  · exact short (by rw [eq_of_beq line]; rfl) (by decide)
  · exact short (by rw [eq_of_beq form]; rfl) (by decide)
  · exact short (by rw [eq_of_beq carriage]; rfl) (by decide)
  · have unit := code_unit_control (show c.toNat < 32 from control)
    cases h : readUnits rest <;> simp [readUnits, unit, h]
  · have quote : c ≠ '"' := by simpa using quote
    have backslash : c ≠ '\\' := by simpa using backslash
    cases h : readUnits rest <;> simp [readUnits, backslash, control, h]

/-- Strings are read up to their closing quotation mark. -/
theorem read_units_text (cs rest : List Char) :
    readUnits (cs.flatMap escaped ++ '"' :: rest) = some (cs.map Char.toNat, rest) := by
  induction cs with
  | nil => simp [readUnits]
  | cons c cs induction =>
    rw [List.flatMap_cons, List.append_assoc, read_units_escaped, induction]
    rfl

/-- A character is no half of a surrogate pair. -/
theorem not_surrogate (c : Char) : isLeading c.toNat = false ∧ isTrailing c.toNat = false := by
  have valid := c.valid
  simp only [UInt32.isValidChar, Nat.isValidChar] at valid
  simp only [isLeading, isTrailing, Char.toNat]
  constructor <;> simp only [Bool.and_eq_false_iff, decide_eq_false_iff_not] <;> omega

/-- The code points of characters stand for them. -/
theorem join_units_text (cs : List Char) : joinUnits (cs.map Char.toNat) = some cs := by
  induction cs with
  | nil => rfl
  | cons c cs induction =>
    obtain ⟨leading, trailing⟩ := not_surrogate c
    cases cs with
    | nil => simp [joinUnits, leading, trailing]
    | cons second cs =>
      rw [List.map_cons] at induction
      simp [joinUnits, leading, trailing, induction]

/-- A string literal is read back behind its opening quotation mark. -/
theorem read_literal_written (literal : Literal) :
    ∃ inside, writeString literal = '"' :: inside ∧
      ∀ rest, readLiteral (inside ++ rest) = some (literal, rest) := by
  cases literal with
  | none => exact ⟨"\\ud800\"".toList, rfl, fun rest => rfl⟩
  | some value =>
    refine ⟨value.toList.flatMap escaped ++ ['"'], rfl, fun rest => ?_⟩
    simp only [readLiteral, List.append_assoc, List.singleton_append, read_units_text,
      Option.map_some, join_units_text, String.ofList_toList]

/-! ## Numbers -/

/-- What may stand behind a value inside of a document: nothing, a separator or an end. -/
def Ends (rest : List Char) : Prop := ∀ c ∈ rest.head?, c = ',' ∨ c = ']' ∨ c = '}'

/-- Nothing may stand behind a value. -/
theorem ends_nil : Ends [] := by
  intro c member
  cases member

/-- A separator or an end may, whatever follows it. -/
theorem Ends.of_cons {c : Char} {rest : List Char} (ends : c = ',' ∨ c = ']' ∨ c = '}') :
    Ends (c :: rest) := by
  intro other member
  cases member
  exact ends

/-- Digits are separated from what is no digit. -/
theorem span_digits_append {cs rest : List Char} (digits : ∀ c ∈ cs, c.isDigit = true)
    (stops : ∀ c ∈ rest.head?, c.isDigit = false) : spanDigits (cs ++ rest) = (cs, rest) := by
  unfold spanDigits
  rw [List.takeWhile_append_of_pos digits, List.dropWhile_append_of_pos digits]
  cases rest with
  | nil => simp
  | cons c rest => simp [stops c rfl]

/-- The digits of a number are a whole number of a document. -/
theorem read_whole_digits (value : Nat) {rest : List Char}
    (stops : ∀ c ∈ rest.head?, c.isDigit = false) :
    readWhole (Text.digits value ++ rest) = some (Text.digits value, rest) := by
  unfold readWhole
  rw [span_digits_append (fun c member => Text.is_digit_of_digits member) stops]
  dsimp only
  split
  · exact absurd ‹_› (Text.digits_ne_nil value)
  · rfl
  · -- more digits behind a zero: but zero has one digit
    rename_i single begins
    rw [Text.eq_zero_of_digits begins] at begins
    exact absurd (List.cons.inj begins).2.symm single
  · rfl

/-- Digits stop where a value may end. -/
theorem stops_of_ends {rest : List Char} (ends : Ends rest) :
    ∀ c ∈ rest.head?, c.isDigit = false := by
  intro c member
  rcases ends c member with rfl | rfl | rfl <;> rfl

/-- No fraction is read where a value may end. -/
theorem read_fraction_of_ends {rest : List Char} (ends : Ends rest) :
    readFraction rest = some (none, rest) := by
  unfold readFraction
  split
  · rename_i tail
    have point := ends '.' rfl
    simp at point
  · rfl

/-- No exponent is read there either. -/
theorem read_exponent_of_ends {rest : List Char} (ends : Ends rest) :
    readExponent rest = some (none, rest) := by
  cases rest with
  | nil => rfl
  | cons c rest => rcases ends c rfl with rfl | rfl | rfl <;> rfl

/-- The number that the digits of a number are read as. -/
def Number.reread : Number → Number
  | .integer negative magnitude => .ofDigits negative (Text.digits magnitude) none none
  | .decimal negative mantissa exponent =>
    .ofDigits negative (Text.digits mantissa) none (some exponent)

/-- The digits of an integer of a word are read as that integer. -/
theorem Number.reread_integer (negative : Bool) {magnitude : Nat}
    (below : magnitude < Word.limit) :
    (Number.integer negative magnitude).reread = .integer negative magnitude := by
  simp [reread, ofDigits, absorb_digits below]

/-- An integer is read back behind its sign. -/
theorem read_number_integer (negative : Bool) (magnitude : Nat) {rest : List Char}
    (ends : Ends rest) :
    readNumber negative (Text.digits magnitude ++ rest) =
      some ((Number.integer negative magnitude).reread, rest) := by
  unfold readNumber
  rw [read_whole_digits magnitude (stops_of_ends ends)]
  simp [read_fraction_of_ends ends, read_exponent_of_ends ends, Number.reread]

/-- An exponent is read back from its mark on. -/
theorem read_exponent_written (exponent : Int) {rest : List Char} (ends : Ends rest) :
    readExponent ('e' :: ((if exponent < 0 then ['-'] else []) ++
      (Text.digits exponent.natAbs ++ rest))) = some (some exponent, rest) := by
  have span : spanDigits (Text.digits exponent.natAbs ++ rest) =
      (Text.digits exponent.natAbs, rest) :=
    span_digits_append (fun c member => Text.is_digit_of_digits member) (stops_of_ends ends)
  have value : valueOf (Text.digits exponent.natAbs) = exponent.natAbs :=
    Nat.ofDigitChars_ten_toDigits
  obtain ⟨first, later, written⟩ :=
    List.exists_cons_of_ne_nil (Text.digits_ne_nil exponent.natAbs)
  have digit : first.isDigit = true := Text.is_digit_of_digits (written ▸ List.mem_cons_self)
  have minus : first ≠ '-' := by rintro rfl; contradiction
  have plus : first ≠ '+' := by rintro rfl; contradiction
  rw [written] at span value ⊢
  rw [List.cons_append] at span
  by_cases negative : exponent < 0
  · have signed : -|exponent| = exponent := by rw [abs_of_neg negative, neg_neg]
    simp [readExponent, negative, span, value, signed]
  · have signed : |exponent| = exponent := abs_of_nonneg (not_lt.mp negative)
    simp [readExponent, negative, minus, plus, span, value, signed]

/-- A decimal is read back behind its sign. -/
theorem read_number_decimal (negative : Bool) (mantissa : Nat) (exponent : Int)
    {rest : List Char} (ends : Ends rest) :
    readNumber negative (Text.digits mantissa ++ ('e' ::
      ((if exponent < 0 then ['-'] else []) ++ (Text.digits exponent.natAbs ++ rest)))) =
      some ((Number.decimal negative mantissa exponent).reread, rest) := by
  have read := read_exponent_written exponent ends
  generalize (if exponent < 0 then ['-'] else []) ++ (Text.digits exponent.natAbs ++ rest) =
    behind at read ⊢
  have mark : ∀ c ∈ ('e' :: behind).head?, c.isDigit = false := by
    intro c member
    cases member
    rfl
  unfold readNumber
  rw [read_whole_digits mantissa mark]
  simp [readFraction, read, Number.reread]

/-- Behind its sign a number begins with a digit, and is read back from there. -/
theorem read_number_written (value : Number) {rest : List Char} (ends : Ends rest) :
    ∃ negative first others, first.isDigit = true ∧
      writeNumber value = (if negative then ['-'] else []) ++ first :: others ∧
      readNumber negative (first :: (others ++ rest)) = some (value.reread, rest) := by
  cases value with
  | integer negative magnitude =>
    have read := read_number_integer negative magnitude ends
    obtain ⟨first, later, written⟩ := List.exists_cons_of_ne_nil (Text.digits_ne_nil magnitude)
    refine ⟨negative, first, later, Text.is_digit_of_digits (written ▸ List.mem_cons_self), ?_, ?_⟩
    · rw [writeNumber, written]
    · rwa [written] at read
  | decimal negative mantissa exponent =>
    have read := read_number_decimal negative mantissa exponent ends
    obtain ⟨first, later, written⟩ := List.exists_cons_of_ne_nil (Text.digits_ne_nil mantissa)
    refine ⟨negative, first, later ++ 'e' :: ((if exponent < 0 then ['-'] else []) ++
      Text.digits exponent.natAbs), Text.is_digit_of_digits (written ▸ List.mem_cons_self), ?_, ?_⟩
    · rw [writeNumber, written, List.append_assoc, List.cons_append]
    · rw [written] at read
      simpa only [List.append_assoc, List.cons_append] using read

/-! ## Documents -/

mutual

/-- The document that the text of a document is read as: the same, with each number as its
digits are read. -/
def reread : Json → Json
  | .number value => .number value.reread
  | .array items => .array (itemsReread items)
  | .object members => .object (membersReread members)
  | other => other

/-- What the texts of items are read as. -/
def itemsReread : List Json → List Json
  | [] => []
  | item :: rest => item.reread :: itemsReread rest

/-- What the texts of members are read as. -/
def membersReread : List (Literal × Json) → List (Literal × Json)
  | [] => []
  | (key, value) :: rest => (key, value.reread) :: membersReread rest

end

/-- What begins with a digit is a number without a sign. -/
theorem read_scalar_unsigned {c : Char} {cs : List Char} (digit : c.isDigit = true) :
    readScalar (c :: cs) =
      (readNumber false (c :: cs)).map fun read => (.number read.1, read.2) := by
  unfold readScalar
  split
  case h_6 => rfl
  all_goals
    rename_i begins
    obtain ⟨rfl, -⟩ := List.cons.inj begins
    contradiction

/-- Whether a value has no parts. -/
def isScalar : Json → Bool
  | .array _ | .object _ => false
  | _ => true

/-- The characters that do not begin a scalar: space and brackets. -/
def foreign : List Char := [' ', '\n', '\t', '\r', '[', ']', '{', '}']

/-- A scalar begins neither with space nor with a bracket, and is read back from its first
character. -/
theorem read_scalar_written {document : Json} {rest : List Char} (scalar : document.isScalar = true)
    (whole : document.isWhole = true) (ends : Ends rest) :
    ∃ first others, document.write = first :: others ∧ first ∉ foreign ∧
      readScalar (first :: (others ++ rest)) = some (document.reread, rest) := by
  cases document with
  | null => exact ⟨_, _, rfl, by decide, rfl⟩
  | bool value => cases value <;> exact ⟨_, _, rfl, by decide, rfl⟩
  | string literal =>
    obtain ⟨inside, written, read⟩ := read_literal_written literal
    refine ⟨'"', inside, written, by decide, ?_⟩
    simp [readScalar, read, reread]
  | number value =>
    obtain ⟨negative, first, others, digit, written, read⟩ := read_number_written value ends
    cases negative with
    | true =>
      refine ⟨'-', first :: others, written, by decide, ?_⟩
      simp [readScalar, read, reread]
    | false =>
      refine ⟨first, others, written, ?_, ?_⟩
      · intro listed
        have none_digit : ∀ c ∈ foreign, c.isDigit = false := by simp [foreign]
        rw [none_digit first listed] at digit
        contradiction
      · rw [read_scalar_unsigned digit, read]
        rfl
  | array => contradiction
  | object => contradiction
  | cut => contradiction

/-- What begins with no space is left as it is. -/
theorem skip_space_cons {c : Char} {cs : List Char} (visible : c ∉ [' ', '\n', '\t', '\r']) :
    skipSpace (c :: cs) = c :: cs := by
  simp only [List.mem_cons, List.not_mem_nil, or_false, not_or] at visible
  obtain ⟨space, line, tab, carriage⟩ := visible
  simp [skipSpace, space, line, tab, carriage]

/-- The text of a value begins with neither space nor the end of an array. -/
theorem write_begins {document : Json} (whole : document.isWhole = true) :
    ∃ first others, document.write = first :: others ∧
      first ∉ [' ', '\n', '\t', '\r'] ∧ first ≠ ']' := by
  by_cases scalar : document.isScalar = true
  · obtain ⟨first, others, written, own, -⟩ := read_scalar_written scalar whole ends_nil
    refine ⟨first, others, written, ?_, ?_⟩ <;> simp_all [foreign]
  · cases document with
    | array items => cases items <;> exact ⟨'[', _, rfl, by decide, by decide⟩
    | object members => cases members <;> exact ⟨'{', _, rfl, by decide, by decide⟩
    | _ => exact absurd rfl scalar

/-- A scalar is a value. -/
theorem read_value_scalar {document : Json} {rest : List Char} (fuel : Nat)
    (scalar : document.isScalar = true) (whole : document.isWhole = true) (ends : Ends rest) :
    readValue (fuel + 1) (document.write ++ rest) = (document.reread, some rest) := by
  obtain ⟨first, others, written, own, read⟩ := read_scalar_written scalar whole ends
  simp only [foreign, List.mem_cons, List.not_mem_nil, or_false, not_or] at own
  have visible : skipSpace (first :: (others ++ rest)) = first :: (others ++ rest) :=
    skip_space_cons (by simp [own])
  rw [written, List.cons_append, readValue, visible]
  split
  · simp_all
  · simp_all
  · rw [read]

/-- What stands behind an item ends it. -/
theorem ends_items (items : List Json) (rest : List Char) : Ends (writeItems items ++ rest) := by
  cases items <;> exact Ends.of_cons (by decide)

/-- What stands behind a member ends it. -/
theorem ends_members (members : List (Literal × Json)) (rest : List Char) :
    Ends (writeMembers members ++ rest) := by
  rcases members with _ | ⟨⟨key, value⟩, members⟩ <;> exact Ends.of_cons (by decide)

-- The recursion of the three laws is that of the reader, on its fuel.
mutual

/-- A document is read back from its text, whatever ends it. -/
theorem read_value_written : ∀ (document : Json) (fuel : Nat) (rest : List Char),
    document.isWhole = true → document.write.length < fuel → Ends rest →
    readValue fuel (document.write ++ rest) = (document.reread, some rest)
  | _, 0, _, _, enough, _ => absurd enough (Nat.not_lt_zero _)
  | .null, fuel + 1, _, whole, _, ends => read_value_scalar fuel rfl whole ends
  | .bool _, fuel + 1, _, whole, _, ends => read_value_scalar fuel rfl whole ends
  | .number _, fuel + 1, _, whole, _, ends => read_value_scalar fuel rfl whole ends
  | .string _, fuel + 1, _, whole, _, ends => read_value_scalar fuel rfl whole ends
  | .cut, _ + 1, _, whole, _, _ => by contradiction
  | .array [], _ + 1, _, _, _, _ => rfl
  | .array (item :: items), fuel + 1, rest, whole, enough, _ => by
    simp only [isWhole, itemsWhole, Bool.and_eq_true] at whole
    simp only [write, List.length_cons] at enough
    have read := read_items_written item items fuel rest whole.1 whole.2 (by omega)
    obtain ⟨first, others, written, visible, inside⟩ := write_begins whole.1
    rw [written, List.cons_append] at read
    rw [write, written, readValue]
    simp (disch := decide) only [List.cons_append, List.append_assoc, skip_space_cons,
      skip_space_cons visible]
    split
    · exact absurd (List.cons.inj ‹_›).1 inside
    · rw [read, reread, itemsReread]
  | .object [], _ + 1, _, _, _, _ => rfl
  | .object ((key, value) :: members), fuel + 1, rest, whole, enough, _ => by
    simp only [isWhole, membersWhole, Bool.and_eq_true] at whole
    simp only [write, List.length_cons] at enough
    have read := read_members_written key value members fuel rest whole.1 whole.2 (by omega)
    obtain ⟨inside, written, -⟩ := read_literal_written key
    rw [written, List.cons_append] at read
    rw [write, written, readValue]
    simp (disch := decide) only [List.cons_append, List.append_assoc, skip_space_cons]
    split
    · exact absurd (List.cons.inj ‹_›).1 (by decide)
    · rw [read, reread, membersReread]

/-- Items are read back up to the end of their array. -/
theorem read_items_written : ∀ (item : Json) (items : List Json) (fuel : Nat) (rest : List Char),
    item.isWhole = true → itemsWhole items = true →
    (item.write ++ writeItems items).length < fuel →
    readItems fuel (item.write ++ (writeItems items ++ rest)) =
      (item.reread :: itemsReread items, some rest)
  | _, _, 0, _, _, _, enough => absurd enough (Nat.not_lt_zero _)
  | item, [], fuel + 1, rest, whole, _, enough => by
    simp only [writeItems, List.length_append, List.length_cons] at enough
    have read := read_value_written item fuel (']' :: rest) whole (by omega)
      (Ends.of_cons (by decide))
    rw [readItems, writeItems, List.singleton_append, read]
    rfl
  | item, next :: items, fuel + 1, rest, whole, others, enough => by
    simp only [itemsWhole, Bool.and_eq_true] at others
    simp only [writeItems, List.length_append, List.length_cons] at enough
    have read := read_value_written item fuel (writeItems (next :: items) ++ rest) whole
      (by omega) (ends_items _ _)
    have behind := read_items_written next items fuel rest others.1 others.2
      (by rw [List.length_append]; omega)
    rw [readItems, read]
    simp (disch := decide) only [writeItems, List.cons_append, List.append_assoc,
      skip_space_cons, behind, itemsReread]

/-- Members are read back up to the end of their object. -/
theorem read_members_written : ∀ (key : Literal) (value : Json) (members : List (Literal × Json))
    (fuel : Nat) (rest : List Char),
    value.isWhole = true → membersWhole members = true →
    (writeString key ++ ':' :: (value.write ++ writeMembers members)).length < fuel →
    readMembers fuel (writeString key ++ ':' :: (value.write ++ (writeMembers members ++ rest))) =
      ((key, value.reread) :: membersReread members, some rest)
  | _, _, _, 0, _, _, _, enough => absurd enough (Nat.not_lt_zero _)
  | key, value, [], fuel + 1, rest, whole, _, enough => by
    simp only [writeMembers, List.length_append, List.length_cons] at enough
    obtain ⟨inside, written, literal⟩ := read_literal_written key
    have read := read_value_written value fuel ('}' :: rest) whole (by omega)
      (Ends.of_cons (by decide))
    rw [readMembers, written, writeMembers, List.singleton_append]
    simp (disch := decide) only [List.cons_append, literal, read, skip_space_cons, membersReread]
  | key, value, (next, other) :: members, fuel + 1, rest, whole, others, enough => by
    simp only [membersWhole, Bool.and_eq_true] at others
    simp only [writeMembers, List.length_append, List.length_cons] at enough
    obtain ⟨inside, written, literal⟩ := read_literal_written key
    have read := read_value_written value fuel (writeMembers ((next, other) :: members) ++ rest)
      whole (by omega) (ends_members _ _)
    have behind := read_members_written next other members fuel rest others.1 others.2
      (by simp only [List.length_append, List.length_cons]; omega)
    rw [readMembers, written]
    simp (disch := decide) only [List.cons_append, literal, read, skip_space_cons]
    simp (disch := decide) only [writeMembers, List.cons_append, List.append_assoc,
      skip_space_cons, behind, membersReread]

end

/-- What a text is read as is what stands first in it, and nothing is left behind that. -/
theorem read_first_whole {document : Json} (whole : document.isWhole = true) :
    readFirst document.compact = (document.reread, some []) := by
  have read := read_value_written document (document.write.length + 1) [] whole
    (Nat.lt_succ_self _) ends_nil
  rw [List.append_nil] at read
  simpa only [readFirst, compact, String.length_ofList, String.toList_ofList] using read

/-- The text of every document without a cut is read. -/
theorem read_whole {document : Json} (whole : document.isWhole = true) :
    read? document.compact = some document.reread := by
  rw [read?, read_first_whole whole]
  rfl

/-! ## Exact documents -/

mutual

/-- Whether the text of the document says everything about it: its numbers are integers of a
word, its strings and keys denote texts, and it has no cut. -/
def isExact : Json → Bool
  | .number (.integer _ magnitude) => magnitude < Word.limit
  | .number (.decimal ..) => false
  | .string literal => literal.isSome
  | .array items => itemsExact items
  | .object members => membersExact members
  | .cut => false
  | _ => true

/-- Whether the text of each item says everything about it. -/
def itemsExact : List Json → Bool
  | [] => true
  | item :: rest => item.isExact && itemsExact rest

/-- Whether the text of each member says everything about it. -/
def membersExact : List (Literal × Json) → Bool
  | [] => true
  | (key, value) :: rest => key.isSome && value.isExact && membersExact rest

end

/-- A word is within the doubles. -/
theorem not_beyond_double (negative : Bool) {magnitude : Nat} (below : magnitude < Word.limit) :
    (Number.integer negative magnitude).beyondDouble = false := by
  have limits : Word.limit ≤ doubleLimit := by decide +kernel
  rw [Number.beyondDouble, decide_eq_false_iff_not, Nat.not_le]
  exact Nat.lt_of_lt_of_le below limits

mutual

/-- An exact document has no cut, denotes something everywhere, and is read as itself. -/
theorem laws_of_exact : ∀ {document : Json}, document.isExact = true →
    document.isWhole = true ∧ document.isDenoting = true ∧ document.reread = document
  | .null, _ | .bool _, _ => ⟨rfl, rfl, rfl⟩
  | .number (.integer negative magnitude), exact => by
    have below : magnitude < Word.limit := of_decide_eq_true exact
    refine ⟨rfl, ?_, ?_⟩
    · rw [isDenoting, not_beyond_double negative below]
      rfl
    · rw [reread, Number.reread_integer negative below]
  | .string _, exact => ⟨rfl, exact, rfl⟩
  | .array _, exact => by
    obtain ⟨whole, denoting, same⟩ := items_laws_of_exact exact
    exact ⟨whole, denoting, congrArg array same⟩
  | .object _, exact => by
    obtain ⟨whole, denoting, same⟩ := members_laws_of_exact exact
    exact ⟨whole, denoting, congrArg object same⟩

/-- The laws of an exact document hold of all items of an exact array. -/
theorem items_laws_of_exact : ∀ {items : List Json}, itemsExact items = true →
    itemsWhole items = true ∧ itemsDenoting items = true ∧ itemsReread items = items
  | [], _ => ⟨rfl, rfl, rfl⟩
  | item :: items, exact => by
    simp only [itemsExact, Bool.and_eq_true] at exact
    have first := laws_of_exact exact.1
    have rest := items_laws_of_exact exact.2
    simp only [itemsWhole, itemsDenoting, itemsReread, first, rest, Bool.and_self, and_self]

/-- They hold of all members of an exact object. -/
theorem members_laws_of_exact : ∀ {members : List (Literal × Json)},
    membersExact members = true →
    membersWhole members = true ∧ membersDenoting members = true ∧
      membersReread members = members
  | [], _ => ⟨rfl, rfl, rfl⟩
  | (key, value) :: members, exact => by
    simp only [membersExact, Bool.and_eq_true] at exact
    have first := laws_of_exact exact.1.2
    have rest := members_laws_of_exact exact.2
    simp only [membersWhole, membersDenoting, membersReread, first, rest, exact.1.1,
      Bool.and_self, and_self]

end

/-- An exact document is what stands first in its text, and nothing is left behind it. -/
theorem read_first_compact {document : Json} (exact : document.isExact = true) :
    readFirst document.compact = (document, some []) := by
  obtain ⟨whole, -, same⟩ := laws_of_exact exact
  rw [read_first_whole whole, same]

/-- An exact document is read back from its text. -/
theorem read_compact {document : Json} (exact : document.isExact = true) :
    read? document.compact = some document := by
  obtain ⟨whole, -, same⟩ := laws_of_exact exact
  rw [read_whole whole, same]

end Bourse.Json
