import Conform.Text.Printed

/-!
# Quoted text

Text between double quotes, as it appears in literals and in error messages.  A character stands
for itself if it is printed and neither a quote nor a backslash; five more have a short escape, and
every other one is written by its code point.  A single quote is an ordinary character.
-/

namespace Conform.Text

/-- The code point of a character in lowercase hexadecimal, without leading zeros. -/
def hexCode (c : Char) : List Char := Nat.toDigits 16 c.toNat

/-- One character of quoted text. -/
def escape (c : Char) : List Char :=
  if c = '\x00' then ['\\', '0']
  else if c = '\t' then ['\\', 't']
  else if c = '\r' then ['\\', 'r']
  else if c = '\n' then ['\\', 'n']
  else if c = '\"' then ['\\', '\"']
  else if c = '\\' then ['\\', '\\']
  else if isPrinted c then [c]
  else '\\' :: 'u' :: '\x7b' :: (hexCode c ++ ['\x7d'])

/-- Text between double quotes, each character escaped where it has to be. -/
def quote (text : List Char) : List Char := '\"' :: (text.flatMap escape ++ ['\"'])

/-- The quoted form of a string. -/
def quoted (text : String) : List Char := quote text.toList

example : quoted "it's \"a\"\t\u00a0" = "\"it's \\\"a\\\"\\t\\u\x7ba0\x7d\"".toList := by
  decide +kernel

end Conform.Text
