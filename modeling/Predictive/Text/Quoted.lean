import Predictive.Text.Extender
import Predictive.Text.Printable

/-!
# Quoted text

A text between double quotes in which nothing is invisible: quotes, backslashes and
the usual controls are escaped by a letter, every other character that would not be
shown as itself by its code point.

## Main definitions

* `quoteChar` — one character as it stands between the quotes
* `quote` — the quoted form of a text
-/

namespace Predictive.Text

/-- A number in lower-case hexadecimal digits. -/
def hex (n : Nat) : String := String.ofList (Nat.toDigits 16 n)

/-- One character as it stands between double quotes. -/
def quoteChar (c : Char) : String :=
  if c = '\x00' then "\\0"
  else if c = '\t' then "\\t"
  else if c = '\r' then "\\r"
  else if c = '\n' then "\\n"
  else if c = '"' then "\\\""
  else if c = '\\' then "\\\\"
  else if isExtender c || !isPrintable c then "\\u\x7b" ++ hex c.toNat ++ "\x7d"
  else String.singleton c

/-- The quoted form of a text. -/
def quote (text : String) : String :=
  "\"" ++ String.join (text.toList.map quoteChar) ++ "\""

end Predictive.Text
