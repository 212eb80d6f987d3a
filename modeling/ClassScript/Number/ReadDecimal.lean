import ClassScript.Number.Decimal

/-!
# Reading a Decimal

Digits with at most one point; underscores may stand after the first digit. Fractional digits
that the format has no room for are rounded away, half up on the first of them; a whole part
without room is refused.
-/

namespace ClassScript

namespace Decimal

structure Reading where
  mantissa : Nat
  scale : Nat
  point : Bool
  digit : Bool

def isTail (point : Bool) : List Char → Bool
  | [] => true
  | c :: cs =>
    if c.isDigit || c == '_' then isTail point cs
    else c == '.' && !point && isTail true cs

/-- Ends a numeral whose next digit has no room: that digit is rounded half up. -/
def Reading.roundUp (r : Reading) (digit : Nat) : Option (Nat × Nat) :=
  if digit < 5 then some (r.mantissa, r.scale)
  else if r.mantissa + 1 < limit then some (r.mantissa + 1, r.scale)
  else if r.scale = 0 then none
  else some ((r.mantissa + 1 + 4) / 10, r.scale - 1)

def readDigits (r : Reading) : List Char → Option (Nat × Nat)
  | [] => if r.digit then some (r.mantissa, r.scale) else none
  | c :: cs =>
    if c.isDigit then
      let d := c.toNat - '0'.toNat
      let m := 10 * r.mantissa + d
      if r.point && r.scale == maxScale then
        if isTail r.point cs then r.roundUp d else none
      else if m < limit then
        readDigits ⟨m, if r.point then r.scale + 1 else r.scale, r.point, true⟩ cs
      else if r.point then
        if isTail r.point cs then r.roundUp d else none
      else none
    else if c == '.' && !r.point then readDigits { r with point := true } cs
    else if c == '_' && r.digit then readDigits r cs
    else none

def unsigned? (negative : Bool) (cs : List Char) : Option Decimal :=
  (readDigits ⟨0, 0, false, false⟩ cs).map fun (m, s) => ⟨negative && m != 0, m, s⟩

def parse? : List Char → Option Decimal
  | '-' :: cs => unsigned? true cs
  | '+' :: cs => unsigned? false cs
  | cs => unsigned? false cs

def exponentSize? (cs : List Char) : Option Nat :=
  let digits := match cs with
    | '+' :: cs => cs
    | cs => cs
  (Digits.nat? digits).bind fun n => if n < Nat.pow 2 32 then some n else none

def shiftDown (d : Decimal) (n : Nat) : Decimal :=
  if d.scale + n ≤ maxScale then { d with scale := d.scale + n }
  else
    let dropped := d.scale + n - maxScale
    let up := if 5 ≤ d.mantissa / Nat.pow 10 (dropped - 1) % 10 then 1 else 0
    { d with mantissa := d.mantissa / Nat.pow 10 dropped + up, scale := maxScale }

def shiftUp? (d : Decimal) (n : Nat) : Option Decimal :=
  if n ≤ d.scale then some { d with scale := d.scale - n }
  else (d.mul? ⟨false, Nat.pow 10 n, 0⟩).map normalize

def scientific? (cs : List Char) : Option Decimal :=
  let isMark := fun c : Char => c == 'e' || c == 'E'
  match cs.span (!isMark ·) with
  | (_, []) => none
  | (base, _ :: e) =>
    (parse? base).bind fun d =>
      match e with
      | '-' :: e => (exponentSize? e).bind fun n =>
          if maxScale < n then none else some (d.shiftDown n)
      | e => (exponentSize? e).bind fun n => if maxScale < n then none else d.shiftUp? n

def read? (cs : List Char) : Option Decimal :=
  (parse? cs).orElse fun _ => scientific? cs

end Decimal

end ClassScript
