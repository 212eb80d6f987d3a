/-!
# Binary Floating Point

A float is its bit pattern, because scripts can tell patterns apart that arithmetic does not: the
sign of a zero is printed, and the sign of a NaN decides where it is sorted. A NaN operand is passed
on; a NaN that an operation makes itself has its sign bit set.
-/

namespace ClassScript

structure Binary64 where
  bits : UInt64
deriving DecidableEq, Inhabited, Repr

namespace Binary64

def magnitude (x : Binary64) : Nat :=
  x.bits.toNat % Nat.pow 2 63

def isNegative (x : Binary64) : Bool :=
  Nat.pow 2 63 ≤ x.bits.toNat

def infinityMagnitude : Nat :=
  0x7FF * Nat.pow 2 52

def ofMagnitude (negative : Bool) (magnitude : Nat) : Binary64 :=
  ⟨UInt64.ofNat (if negative then Nat.pow 2 63 + magnitude else magnitude)⟩

def zero (negative : Bool) : Binary64 :=
  ofMagnitude negative 0

def infinity (negative : Bool) : Binary64 :=
  ofMagnitude negative infinityMagnitude

def nan (negative : Bool) : Binary64 :=
  ofMagnitude negative (infinityMagnitude + Nat.pow 2 51)

def isNaN (x : Binary64) : Bool :=
  infinityMagnitude < x.magnitude

def isInfinite (x : Binary64) : Bool :=
  x.magnitude == infinityMagnitude

def isFinite (x : Binary64) : Bool :=
  x.magnitude < infinityMagnitude

def isZero (x : Binary64) : Bool :=
  x.magnitude == 0

def mantissa (x : Binary64) : Nat :=
  if x.magnitude < Nat.pow 2 52 then x.magnitude
  else x.magnitude % Nat.pow 2 52 + Nat.pow 2 52

def power (x : Binary64) : Int :=
  if x.magnitude < Nat.pow 2 52 then -1074 else (x.magnitude / Nat.pow 2 52 : Nat) - 1075

def fraction (m : Nat) (q : Int) : Nat × Nat :=
  if 0 ≤ q then (m * Nat.pow 2 q.toNat, 1) else (m, Nat.pow 2 (-q).toNat)

def roundDiv (num den : Nat) : Nat :=
  let q := num / den
  let twice := 2 * (num % den)
  if twice < den then q else if den < twice then q + 1 else q + q % 2

def log2Ratio (num den : Nat) : Int :=
  let e : Int := (num.log2 : Int) - (den.log2 : Int)
  let fits :=
    if 0 ≤ e then den * Nat.pow 2 e.toNat ≤ num else den ≤ num * Nat.pow 2 (-e).toNat
  if fits then e else e - 1

/-- The pattern nearest to a fraction, a tie going to the even pattern. Fractions
    too large for a finite pattern give infinity. -/
def ofRatio (negative : Bool) (num den : Nat) : Binary64 :=
  if num = 0 then zero negative
  else
    let q : Int := max (log2Ratio num den - 52) (-1074)
    let m :=
      if 0 ≤ q then roundDiv num (den * Nat.pow 2 q.toNat)
      else roundDiv (num * Nat.pow 2 (-q).toNat) den
    ofMagnitude negative (min ((q + 1074).toNat * Nat.pow 2 52 + m) infinityMagnitude)

def ofInt (n : Int) : Binary64 :=
  ofRatio (n < 0) n.natAbs 1

def toFloat (x : Binary64) : Float :=
  Float.ofBits x.bits

/-- What the hardware computed. A fresh NaN has its sign bit set. -/
def ofFloat (x : Float) : Binary64 :=
  if x.isNaN then nan true else ⟨x.toBits⟩

def lift₂ (f : Float → Float → Float) (a b : Binary64) : Binary64 :=
  if a.isNaN then a else if b.isNaN then b else ofFloat (f a.toFloat b.toFloat)

def lift₁ (f : Float → Float) (a : Binary64) : Binary64 :=
  if a.isNaN then a else ofFloat (f a.toFloat)

def add : Binary64 → Binary64 → Binary64 :=
  lift₂ (· + ·)

def sub : Binary64 → Binary64 → Binary64 :=
  lift₂ (· - ·)

def mul : Binary64 → Binary64 → Binary64 :=
  lift₂ (· * ·)

def div : Binary64 → Binary64 → Binary64 :=
  lift₂ (· / ·)

def rem (a b : Binary64) : Binary64 :=
  if a.isNaN then a
  else if b.isNaN then b
  else if a.isInfinite || b.isZero then nan true
  else if b.isInfinite then a
  else
    let q := min a.power b.power
    let r := (a.mantissa * Nat.pow 2 (a.power - q).toNat) %
      (b.mantissa * Nat.pow 2 (b.power - q).toNat)
    let (num, den) := fraction r q
    ofRatio a.isNegative num den

def neg (x : Binary64) : Binary64 :=
  ofMagnitude (!x.isNegative) x.magnitude

def abs (x : Binary64) : Binary64 :=
  ofMagnitude false x.magnitude

def floor : Binary64 → Binary64 :=
  lift₁ Float.floor

def ceil : Binary64 → Binary64 :=
  lift₁ Float.ceil

def round : Binary64 → Binary64 :=
  lift₁ Float.round

def sqrt : Binary64 → Binary64 :=
  lift₁ Float.sqrt

def truncate (x : Binary64) : Int :=
  let (num, den) := fraction x.mantissa x.power
  let n : Int := (num / den : Nat)
  if x.isNegative then -n else n

def isIntegral (x : Binary64) : Bool :=
  let (num, den) := fraction x.mantissa x.power
  num % den == 0

def orderKey (x : Binary64) : Int :=
  if x.isNegative then -(x.magnitude : Int) else x.magnitude

def compare? (a b : Binary64) : Option Ordering :=
  if a.isNaN || b.isNaN then none else some (compare a.orderKey b.orderKey)

/-- A key by which all patterns are ordered: negative ones below positive ones,
    NaN outermost. -/
def patternKey (x : Binary64) : Int :=
  if x.isNegative then -(x.magnitude : Int) - 1 else x.magnitude

def totalCompare (a b : Binary64) : Ordering :=
  compare a.patternKey b.patternKey

end Binary64

end ClassScript
