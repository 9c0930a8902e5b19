/-!
# Numerals in directives and in generated text

A numeral in a directive is an optional sign and at least one ASCII digit. Leading zeros are
allowed, and a value outside the range of its word is refused and not wrapped. An unsigned
numeral may carry a plus sign but no minus sign.
-/

namespace Ubershader.Text

def natural? (cs : List Char) : Option Nat :=
  if cs ≠ [] ∧ cs.all Char.isDigit then some (Nat.ofDigitChars 10 cs 0) else none

def toInt32? (n : Int) : Option Int32 :=
  if -2147483648 ≤ n ∧ n ≤ 2147483647 then some (Int32.ofInt n) else none

def toUInt32? (n : Nat) : Option UInt32 :=
  if n < 4294967296 then some (UInt32.ofNat n) else none

def int32? (token : String) : Option Int32 :=
  match token.toList with
  | '-' :: digits => (natural? digits).bind fun n => toInt32? (-(n : Int))
  | '+' :: digits => (natural? digits).bind fun n => toInt32? n
  | digits => (natural? digits).bind fun n => toInt32? n

def uint32? (token : String) : Option UInt32 :=
  match token.toList with
  | '+' :: digits => (natural? digits).bind toUInt32?
  | digits => (natural? digits).bind toUInt32?

/-- Decimal text of a signed word: a minus sign for a negative value and no leading zeros. -/
def decimal (value : Int32) : String :=
  value.toInt.repr

/-- The sixteen hexadecimal digits of a word, in lower case. -/
def hex64 (value : UInt64) : String :=
  let digits := Nat.toDigits 16 value.toNat
  String.ofList (List.replicate (16 - digits.length) '0' ++ digits)

end Ubershader.Text
