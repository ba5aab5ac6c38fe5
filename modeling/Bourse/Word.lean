/-!
# Words of 64 bits

The bounds of signed and unsigned words, and what becomes of a number beyond them.
-/

namespace Bourse.Word

/-- The least number that no unsigned word holds. -/
def limit : Nat := 18446744073709551616

/-- The least number that a signed word holds. -/
def least : Int := -9223372036854775808

/-- The greatest number that a signed word holds. -/
def greatest : Int := 9223372036854775807

/-- The nearest number that a signed word holds. -/
def saturated (value : Int) : Int := max least (min greatest value)

/-- What a signed word keeps of a number: the number itself if the word holds it, and else
what is left after whole turns around the word. -/
def wrapped (value : Int) : Int := value.bmod limit

end Bourse.Word
