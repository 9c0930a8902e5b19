import Ubershader.Text.Extender
import Ubershader.Text.Ignorable
import Ubershader.Text.Numeral
import Ubershader.Text.Unprintable

/-!
# Quoted text in messages

Messages quote names and paths so that every character can be seen. Quotes and backslashes are
escaped, tab, carriage return, line feed and NUL have a letter or digit of their own, and any
other character that is not visible by itself, because nothing is drawn for it or because it is
drawn onto the one before it, is written by its code point in hexadecimal.
-/

namespace Ubershader.Text

/-- Whether a character can be seen and told from its neighbours. -/
def isVisible (c : Char) : Bool :=
  !isExtender c && !isIgnorable c && !isUnprintable c

def escaped (c : Char) : List Char :=
  if c = '"' then ['\\', '"']
  else if c = '\\' then ['\\', '\\']
  else if c = '\t' then ['\\', 't']
  else if c = '\r' then ['\\', 'r']
  else if c = '\n' then ['\\', 'n']
  else if c.toNat = 0 then ['\\', '0']
  else if isVisible c then [c]
  else ['\\', 'u', '\x7b'] ++ Nat.toDigits 16 c.toNat ++ ['\x7d']

def quoted (text : String) : String :=
  String.ofList ('"' :: text.toList.flatMap escaped ++ ['"'])

def bracketed (values : List Int32) : String :=
  "[" ++ ", ".intercalate (values.map decimal) ++ "]"

end Ubershader.Text
