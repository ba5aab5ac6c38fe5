/-!
# Text as bytes

A text is written as the UTF-8 bytes of its characters, and reading accepts
exactly such bytes. The lenient reader puts one replacement character in the
place of each longest run of bytes that begins a character but does not finish
it, and of each byte that begins none.
-/

namespace Bourse.Text

/-- The bytes of a text. -/
def utf8 (text : String) : List UInt8 := text.toList.flatMap String.utf8EncodeChar

/-- The text that has these bytes, if one has. -/
def readUtf8? (bytes : List UInt8) : Option String := String.fromUTF8? ⟨bytes.toArray⟩

/-- What the first byte of a character fixes: how many bytes follow, the payload
of the first byte, and the least and greatest value of the second byte. The
bounds exclude overlong forms, surrogates and what lies above U+10FFFF. -/
def leadOf (b : Nat) : Option (Nat × Nat × Nat × Nat) :=
  if b < 0x80 then some (0, b, 0, 0)
  else if b < 0xC2 then none
  else if b < 0xE0 then some (1, b - 0xC0, 0x80, 0xBF)
  else if b < 0xF0 then
    some (2, b - 0xE0, if b = 0xE0 then 0xA0 else 0x80, if b = 0xED then 0x9F else 0xBF)
  else if b < 0xF5 then
    some (3, b - 0xF0, if b = 0xF0 then 0x90 else 0x80, if b = 0xF4 then 0x8F else 0xBF)
  else none

/-- The bytes that continue a character, up to `missing` of them: the payload
they add up to, how many are missing still, and the bytes behind them. -/
def continued (value low high : Nat) : Nat → List UInt8 → Nat × Nat × List UInt8
  | missing + 1, b :: rest =>
    if low ≤ b.toNat ∧ b.toNat ≤ high then
      continued (value * 64 + (b.toNat - 0x80)) 0x80 0xBF missing rest
    else (value, missing + 1, b :: rest)
  | missing, rest => (value, missing, rest)

/-- Continuing a character never lengthens the bytes behind it. -/
theorem continued_length (value low high missing : Nat) (bytes : List UInt8) :
    (continued value low high missing bytes).2.2.length ≤ bytes.length := by
  fun_induction continued value low high missing bytes with
  | case1 value low high missing b rest inside shorter =>
    exact Nat.le_succ_of_le shorter
  | case2 => exact Nat.le_refl _
  | case3 => exact Nat.le_refl _

/-- The characters of a byte sequence, with a replacement character for each run
of bytes that is no character. -/
def lossyUtf8 : List UInt8 → List Char
  | [] => []
  | b :: rest =>
    match leadOf b.toNat with
    | none => '\uFFFD' :: lossyUtf8 rest
    | some (count, value, low, high) =>
      let read := continued value low high count rest
      (if read.2.1 = 0 then Char.ofNat read.1 else '\uFFFD') :: lossyUtf8 read.2.2
termination_by bytes => bytes.length
decreasing_by
  all_goals simp only [List.length_cons]
  · exact Nat.lt_succ_self _
  · exact Nat.lt_succ_of_le (continued_length ..)

end Bourse.Text
