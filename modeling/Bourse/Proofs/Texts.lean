import Bourse.Text.Blank
import Bourse.Text.Utf8
import Mathlib.Data.List.TakeWhile

/-!
# Texts between blanks and as bytes

What is trimmed off a text are blanks, and blanks that are put around a text are trimmed off again.
So a word without blanks is what is left of exactly those texts in which it stands between blanks:
`trimmed_eq_iff`. Letters and digits are no blanks.

Bytes are read as a text exactly if they are the bytes of that text, and no two texts have the
same bytes.
-/

namespace Bourse

/-! ## Letters and digits -/

/-- There are no letters and digits but those of ASCII. -/
theorem ascii_of_alphanum {c : Char} (letter : c.isAlphanum = true) : c.toNat < 128 := by
  have last : 'Z'.val.toNat = 90 ∧ 'z'.val.toNat = 122 ∧ '9'.val.toNat = 57 := by decide
  have bound : c.val ≤ 'Z'.val ∨ c.val ≤ 'z'.val ∨ c.val ≤ '9'.val := by
    rcases Bool.or_eq_true_iff.mp letter with alpha | digit
    · rcases Bool.or_eq_true_iff.mp alpha with upper | lower
      · exact .inl (of_decide_eq_true upper).2
      · exact .inr (.inl (of_decide_eq_true (Bool.and_eq_true_iff.mp lower).2))
    · exact .inr (.inr (of_decide_eq_true (Bool.and_eq_true_iff.mp digit).2))
  simp only [UInt32.le_iff_toNat_le] at bound
  show c.val.toNat < 128
  omega

/-- A digit is a letter or a digit. -/
theorem alphanum_of_digit {c : Char} (digit : c.isDigit = true) : c.isAlphanum = true :=
  Bool.or_eq_true_iff.mpr (.inr digit)

/-- What is so for each letter and digit below 128 is so for every one. -/
theorem of_alphanum (property : Char → Bool)
    (each : ∀ value < 128, (Char.ofNat value).isAlphanum = true →
      property (Char.ofNat value) = true)
    {c : Char} (letter : c.isAlphanum = true) : property c = true := by
  have own := each c.toNat (ascii_of_alphanum letter)
  rw [Char.ofNat_toNat] at own
  exact own letter

/-- Letters and digits are not blank. -/
theorem not_blank_of_alphanum {c : Char} (letter : c.isAlphanum = true) :
    Text.isBlank c = false := by
  have each := of_alphanum (fun c => !Text.isBlank c) (by decide) letter
  simpa using each

/-- A letter or digit in lower case is a letter or a digit. -/
theorem lower_alphanum {c : Char} (letter : c.isAlphanum = true) :
    c.toLower.isAlphanum = true :=
  of_alphanum (fun c => c.toLower.isAlphanum) (by decide) letter

/-- Nothing else has a letter or a digit for its lower case. -/
theorem alphanum_of_lower {c : Char} (letter : c.toLower.isAlphanum = true) :
    c.isAlphanum = true := by
  by_cases upper : c.isUpper = true
  · exact Bool.or_eq_true_iff.mpr (.inl (Bool.or_eq_true_iff.mpr (.inl upper)))
  · have small : c.toLower = c := dif_neg (of_decide_eq_false (Bool.eq_false_iff.mpr upper))
    rwa [small] at letter

namespace Text

/-! ## Blanks -/

/-- Where nothing is blank, nothing is trimmed. -/
theorem trimmed_of_unblank {cs : List Char} (unblank : ∀ c ∈ cs, isBlank c = false) :
    trimmed cs = cs := by
  have kept {part : List Char} (inside : part ⊆ cs) : dropBlanks part = part := by
    cases part with
    | nil => rfl
    | cons c rest =>
      have first := unblank c (inside List.mem_cons_self)
      rw [dropBlanks, List.dropWhile_cons_of_neg (by simp [first])]
  have backwards : cs.reverse ⊆ cs := fun c member => List.mem_reverse.mp member
  rw [trimmed, kept (List.Subset.refl cs), kept backwards, List.reverse_reverse]

/-- Whether a word is in a text with nothing but blanks in front of it and behind it. -/
def Surrounded (word text : List Char) : Prop :=
  ∃ front back, text = front ++ word ++ back ∧
    (∀ c ∈ front, isBlank c = true) ∧ ∀ c ∈ back, isBlank c = true

/-- A word is surrounded by no blanks. -/
theorem Surrounded.refl (word : List Char) : Surrounded word word :=
  ⟨[], [], (List.append_nil word).symm, nofun, nofun⟩

/-- What is trimmed off a text are blanks. -/
theorem surrounded_trimmed (text : List Char) : Surrounded (trimmed text) text := by
  let behind := dropBlanks text
  refine ⟨text.takeWhile isBlank, (behind.reverse.takeWhile isBlank).reverse, ?_, ?_, ?_⟩
  · have inner : behind = trimmed text ++ (behind.reverse.takeWhile isBlank).reverse := by
      have parts : behind.reverse =
          behind.reverse.takeWhile isBlank ++ dropBlanks behind.reverse :=
        List.takeWhile_append_dropWhile.symm
      calc behind = behind.reverse.reverse := behind.reverse_reverse.symm
        _ = (behind.reverse.takeWhile isBlank ++ dropBlanks behind.reverse).reverse := by
          rw [← parts]
        _ = trimmed text ++ (behind.reverse.takeWhile isBlank).reverse := List.reverse_append
    rw [List.append_assoc, ← inner]
    exact List.takeWhile_append_dropWhile.symm
  · exact fun c member => List.mem_takeWhile_imp member
  · exact fun c member => List.mem_takeWhile_imp (List.mem_reverse.mp member)

/-- Blanks that are put around a word are trimmed off with those that it has itself. -/
theorem Surrounded.trimmed_eq {word text : List Char} (surrounded : Surrounded word text) :
    trimmed text = trimmed word := by
  obtain ⟨front, back, rfl, before, behind⟩ := surrounded
  have begins : dropBlanks (front ++ word ++ back) = dropBlanks (word ++ back) := by
    rw [List.append_assoc]
    exact List.dropWhile_append_of_pos before
  by_cases nothing : dropBlanks word = []
  · -- the word itself is blank, so that nothing but blanks is left
    have blank : dropBlanks (word ++ back) = [] :=
      (List.dropWhile_append_of_pos (List.dropWhile_eq_nil_iff.mp nothing)).trans
        (List.dropWhile_eq_nil_iff.mpr behind)
    rw [trimmed, trimmed, begins, blank, nothing]
  · have ends : dropBlanks (word ++ back) = dropBlanks word ++ back :=
      List.dropWhile_append.trans (if_neg (mt List.isEmpty_iff.mp nothing))
    have backwards : ∀ c ∈ back.reverse, isBlank c = true :=
      fun c member => behind c (List.mem_reverse.mp member)
    have cut : dropBlanks (back.reverse ++ (dropBlanks word).reverse) =
        dropBlanks (dropBlanks word).reverse := List.dropWhile_append_of_pos backwards
    rw [trimmed, trimmed, begins, ends, List.reverse_append, cut]

/-- A word without blanks is what is left of the texts in which it stands between blanks. -/
theorem trimmed_eq_iff {word text : List Char} (unblank : ∀ c ∈ word, isBlank c = false) :
    trimmed text = word ↔ Surrounded word text := by
  constructor
  · rintro rfl
    exact surrounded_trimmed text
  · intro surrounded
    exact surrounded.trimmed_eq.trans (trimmed_of_unblank unblank)

/-! ## Bytes -/

/-- The bytes of a text are those that it is held in. -/
theorem bytes_of_utf8 (text : String) :
    (⟨(utf8 text).toArray⟩ : ByteArray) = text.toByteArray := by
  have encoded : text.toByteArray = (utf8 text).toByteArray := by
    rw [← String.ofList_toList (s := text), String.toByteArray_ofList, String.ofList_toList]
    rfl
  rw [encoded, ← List.data_toByteArray]

/-- The bytes of a text are read as that text. -/
theorem read_utf8 (text : String) : readUtf8? (utf8 text) = some text := by
  rw [readUtf8?, String.fromUTF8?, bytes_of_utf8, dif_pos text.isValidUTF8]
  rfl

/-- Bytes that are read as a text are those of the text. -/
theorem eq_of_read_utf8 {bytes : List UInt8} {text : String} (read : readUtf8? bytes = some text) :
    bytes = utf8 text := by
  unfold readUtf8? String.fromUTF8? at read
  split at read
  case isTrue valid =>
    obtain rfl := Option.some.inj read
    have held := congrArg ByteArray.data (bytes_of_utf8 (String.fromUTF8 ⟨bytes.toArray⟩ valid))
    exact (Array.mk.inj held).symm
  case isFalse => contradiction

/-- A text is known by its bytes. -/
theorem eq_of_utf8 {text other : String} (same : utf8 text = utf8 other) : text = other := by
  have read := read_utf8 other
  rw [← same, read_utf8] at read
  exact Option.some.inj read

end Text

end Bourse
