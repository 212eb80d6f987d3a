import ClassScript.Number.Binary64
import ClassScript.Number.Digits

/-!
# Reading a Float

Digits with an optional sign, point and exponent, or one of the words `inf`, `infinity` and `nan` in
any case. The result is the pattern nearest to the decimal.
-/

namespace ClassScript

namespace Binary64

def ofDecimal (negative : Bool) (digits : Nat) (exponent : Int) : Binary64 :=
  let first : Int := (Digits.ofNat digits).length + exponent
  if digits = 0 then zero negative
  else if 310 < first then infinity negative
  else if first < -330 then zero negative
  else if 0 ≤ exponent then ofRatio negative (digits * Nat.pow 10 exponent.toNat) 1
  else ofRatio negative digits (Nat.pow 10 (-exponent).toNat)

def exponent? : List Char → Option Int
  | [] => some 0
  | c :: cs => if c == 'e' || c == 'E' then Digits.int? cs else none

def decimal? (negative : Bool) (cs : List Char) : Option Binary64 :=
  let (whole, rest) := cs.span Char.isDigit
  let (places, rest) :=
    match rest with
    | '.' :: rest => rest.span Char.isDigit
    | rest => ([], rest)
  if whole.isEmpty && places.isEmpty then none
  else (exponent? rest).map fun e =>
    ofDecimal negative (Nat.ofDigitChars 10 (whole ++ places) 0) (e - places.length)

def special? (negative : Bool) (cs : List Char) : Option Binary64 :=
  let word := String.ofList (cs.map Char.toLower)
  if word == "inf" || word == "infinity" then some (infinity negative)
  else if word == "nan" then some (nan negative)
  else none

def unsigned? (negative : Bool) (cs : List Char) : Option Binary64 :=
  (decimal? negative cs).orElse fun _ => special? negative cs

def parse? : List Char → Option Binary64
  | '-' :: cs => unsigned? true cs
  | '+' :: cs => unsigned? false cs
  | cs => unsigned? false cs

end Binary64

end ClassScript
