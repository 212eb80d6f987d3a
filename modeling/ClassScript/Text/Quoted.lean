import ClassScript.Number.Digits
import ClassScript.Text.Printable

/-!
# Quoted Texts

The common control characters have escapes of their own; whatever would not be seen is written
by its number in hexadecimal digits.
-/

namespace ClassScript

namespace Text

def hexDigitsFrom : (n : Nat) → Nat → List Char → List Char
  | 0, _, ds => ds
  | n + 1, m, ds =>
    let ds := Nat.digitChar (m % 16) :: ds
    if m < 16 then ds else hexDigitsFrom n (m / 16) ds

def hexDigits (m : Nat) : List Char :=
  hexDigitsFrom (m + 1) m []

def escapeChar (c : Char) : List Char :=
  if c = '"' then ['\\', '"']
  else if c = '\\' then ['\\', '\\']
  else if c = '\n' then ['\\', 'n']
  else if c = '\r' then ['\\', 'r']
  else if c = '\t' then ['\\', 't']
  else if c.toNat = 0 then ['\\', '0']
  else if isShown c then [c]
  else ['\\', 'u', '\x7b'] ++ hexDigits c.toNat ++ ['\x7d']

def quote (s : String) : String :=
  String.ofList ('"' :: (s.toList.flatMap escapeChar ++ ['"']))

end Text

end ClassScript
