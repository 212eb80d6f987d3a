import ClassScript.Number.Binary64
import ClassScript.Number.Digits

/-!
# The Shortest Decimal of a Float

A float is written with the fewest digits from which it can be read back, and of the decimals with
that many digits with the nearest. At each length the value has two neighbours on the grid of
decimals of that length, and if any decimal of the length reads back then so does one of these two.

Written floats have no exponent, and an integral value below `10 ^ 16` keeps a point and a zero.
-/

namespace ClassScript

namespace Shortest

structure Decimal10 where
  digits : Nat
  exponent : Int
deriving DecidableEq, Repr

/-- The reals that round to a positive finite value, as numerators over one denominator. The ends
belong to it if the mantissa is even. -/
structure Interval where
  lower : Nat
  value : Nat
  upper : Nat
  den : Nat
  closed : Bool

/-- The rounding interval of a positive finite value. Below a power of two the
    neighbour is only half as far away. -/
def interval (x : Binary64) : Interval :=
  let m := x.mantissa
  let half := if m = Nat.pow 2 52 ∧ Nat.pow 2 53 ≤ x.magnitude then 1 else 2
  let (scale, den) := Binary64.fraction 1 (x.power - 2)
  ⟨(4 * m - half) * scale, 4 * m * scale, (4 * m + 2) * scale, den, m % 2 == 0⟩

def log10Ratio (num den : Nat) : Int :=
  if den ≤ num then ((Digits.ofNat (num / den)).length : Int) - 1
  else
    let d := (Digits.ofNat (den / num)).length
    if den ≤ num * Nat.pow 10 (d - 1) then -((d : Int) - 1) else -(d : Int)

def scaled (d : Nat) (k : Int) (den : Nat) : Nat × Nat :=
  if 0 ≤ k then (d * Nat.pow 10 k.toNat * den, 1) else (d * den, Nat.pow 10 (-k).toNat)

def Interval.contains (i : Interval) (d : Nat) (k : Int) : Bool :=
  let (n, unit) := scaled d k i.den
  if i.closed then i.lower * unit ≤ n && n ≤ i.upper * unit
  else i.lower * unit < n && n < i.upper * unit

def Interval.distance (i : Interval) (d : Nat) (k : Int) : Nat :=
  let (n, unit) := scaled d k i.den
  (n - i.value * unit) + (i.value * unit - n)

/-- The best decimal on the grid of multiples of `10 ^ k`, if one reads back. Of
    two that do, the nearer; of two equally near, the upper. -/
def Interval.onGrid (i : Interval) (k : Int) : Option Decimal10 :=
  let below :=
    if 0 ≤ k then i.value / (i.den * Nat.pow 10 k.toNat)
    else i.value * Nat.pow 10 (-k).toNat / i.den
  let above := below + 1
  match i.contains below k, i.contains above k with
  | true, true => some (if i.distance below k < i.distance above k then ⟨below, k⟩ else ⟨above, k⟩)
  | true, false => some ⟨below, k⟩
  | false, true => some ⟨above, k⟩
  | false, false => none

def Interval.search (i : Interval) : (left : Nat) → (k : Int) → Decimal10
  | 0, k => ⟨i.value * Nat.pow 10 (-k).toNat / (i.den * Nat.pow 10 k.toNat), k⟩
  | n + 1, k =>
    match i.onGrid k with
    | some d => d
    | none => i.search n (k - 1)

def Decimal10.trimmed : (steps : Nat) → Decimal10 → Decimal10
  | 0, d => d
  | n + 1, d =>
    if d.digits % 10 = 0 ∧ d.digits ≠ 0 then trimmed n ⟨d.digits / 10, d.exponent + 1⟩ else d

def decimal (x : Binary64) : Decimal10 :=
  let i := interval x
  ((i.search 17 (log10Ratio i.value i.den)).trimmed 20)

def Decimal10.text (d : Decimal10) : String :=
  let ds := Digits.ofNat d.digits
  if 0 ≤ d.exponent then String.ofList (ds ++ List.replicate d.exponent.toNat '0')
  else
    let places := (-d.exponent).toNat
    let padded := List.replicate (places + 1 - ds.length) '0' ++ ds
    let whole := padded.length - places
    String.ofList (padded.take whole ++ '.' :: padded.drop whole)

end Shortest

namespace Binary64

def text (x : Binary64) : String :=
  if x.isNaN then "NaN"
  else
    let sign := if x.isNegative then "-" else ""
    if x.isInfinite then sign ++ "inf"
    else if x.isZero then sign ++ "0.0"
    else if x.isIntegral && x.truncate.natAbs < Nat.pow 10 16 then
      sign ++ Digits.natText x.truncate.natAbs ++ ".0"
    else sign ++ (Shortest.decimal x).text

end Binary64

end ClassScript
