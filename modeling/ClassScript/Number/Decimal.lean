import ClassScript.Number.Digits

/-!
# Scaled Decimals

A sign, a mantissa below `2 ^ 96` and a scale of at most 28, standing for `mantissa / 10 ^
scale`. The scale is part of a value: `1.50` and `1.5` are equal and print differently. A zero
may carry a sign, which is printed.

An exact result that needs more room loses as few digits as possible, rounded half to even. One
that dropping fractional digits cannot fit is refused.
-/

namespace ClassScript

structure Decimal where
  negative : Bool
  mantissa : Nat
  scale : Nat
deriving DecidableEq, Inhabited, Repr

namespace Decimal

def limit : Nat :=
  Nat.pow 2 96

def maxScale : Nat :=
  28

def zero : Decimal :=
  ⟨false, 0, 0⟩

def ofInt (n : Int) : Decimal :=
  ⟨n < 0, n.natAbs, 0⟩

def isZero (d : Decimal) : Bool :=
  d.mantissa == 0

def neg (d : Decimal) : Decimal :=
  { d with negative := !d.negative }

def abs (d : Decimal) : Decimal :=
  { d with negative := false }

def signedAt (d : Decimal) (scale : Nat) : Int :=
  let m : Int := (d.mantissa * Nat.pow 10 (scale - d.scale) : Nat)
  if d.negative then -m else m

def compare (a b : Decimal) : Ordering :=
  let s := max a.scale b.scale
  Ord.compare (a.signedAt s) (b.signedAt s)

def roundHalfEven (m k : Nat) : Nat :=
  let unit := Nat.pow 10 k
  let q := m / unit
  let twice := 2 * (m % unit)
  if twice < unit then q else if unit < twice then q + 1 else q + q % 2

/-- The least number of digits to drop, from `k` on, that brings a mantissa below
    the bound; at most `steps` further ones are tried. -/
def excess (m : Nat) : (steps : Nat) → (k : Nat) → Nat
  | 0, k => k
  | n + 1, k => if m / Nat.pow 10 k < limit then k else excess m n (k + 1)

/-- An exact result of any size in the format, after dropping at least `least`
    fractional digits. -/
def fit (m scale least : Nat) : Option (Nat × Nat) :=
  let k := excess m (scale + 1) least
  let rounded := roundHalfEven m k
  let (k, rounded) := if rounded < limit then (k, rounded) else (k + 1, roundHalfEven m (k + 1))
  if scale < k then none else some (rounded, scale - k)

def ofExact (m : Int) (scale : Nat) : Option Decimal :=
  (fit m.natAbs scale 0).map fun (mantissa, scale) => ⟨m < 0, mantissa, scale⟩

def add? (a b : Decimal) : Option Decimal :=
  if a.isZero then some b
  else if b.isZero then some a
  else
    let s := max a.scale b.scale
    ofExact (a.signedAt s + b.signedAt s) s

def sub? (a b : Decimal) : Option Decimal :=
  if b.isZero then some (if a.isZero then b else a) else add? a b.neg

def isSmall (d : Decimal) : Bool :=
  d.mantissa < Nat.pow 2 32

/-- The product. A zero operand gives the plain zero; so do two small mantissas
    whose product lies beyond the last digit. -/
def mul? (a b : Decimal) : Option Decimal :=
  if a.isZero || b.isZero then some zero
  else
    let s := a.scale + b.scale
    let small := a.isSmall && b.isSmall
    if small && 47 < s then some zero
    else (fit (a.mantissa * b.mantissa) s (s - maxScale)).map fun (m, s) =>
      ⟨(a.negative != b.negative) && !(small && m == 0), m, s⟩

structure Division where
  quotient : Nat
  remainder : Nat
  scale : Int
  extended : Bool

def room (q : Nat) : (k : Nat) → Nat
  | 0 => 0
  | k + 1 => if q * Nat.pow 10 (k + 1) < limit then k + 1 else room q k

def divLoop (den : Nat) : (steps : Nat) → Division → Option Division
  | 0, _ => none
  | n + 1, d =>
    if d.remainder = 0 ∧ 0 ≤ d.scale then some d
    else
      let exact := d.remainder = 0
      let k : Nat :=
        if exact then min 9 (-d.scale).toNat
        else if d.scale = 28 then 0
        else room d.quotient (min 9 (28 - d.scale).toNat)
      let d : Division := { d with extended := d.extended || !exact }
      if k = 0 then
        if d.scale < 0 then none
        else
          let twice := 2 * d.remainder
          let up := if den < twice then 1 else if twice < den then 0 else d.quotient % 2
          let q := d.quotient + up
          if q < limit then some { d with quotient := q, remainder := 0 }
          else some ⟨roundHalfEven q 1, 0, d.scale - 1, d.extended⟩
      else
        let scaledQ := d.quotient * Nat.pow 10 k
        let scaledR := d.remainder * Nat.pow 10 k
        if limit ≤ scaledQ then none
        else
          let q := scaledQ + scaledR / den
          let r := scaledR % den
          if q < limit then divLoop den n ⟨q, r, d.scale + k, d.extended⟩
          else
            -- Only the last addition was too much: one digit goes, and the
            -- remainder decides a tie.
            let unit := q % 10
            let up := if 5 < unit ∨ (unit = 5 ∧ (0 < r ∨ (q / 10) % 2 = 1)) then 1 else 0
            some ⟨q / 10 + up, 0, d.scale + k - 1, d.extended⟩

/-- Drops groups of eight trailing zeros while the mantissa is a multiple of
    `2 ^ 32`. -/
def dropEights : (steps : Nat) → Nat × Int → Nat × Int
  | 0, d => d
  | n + 1, (q, s) =>
    if q % Nat.pow 2 32 = 0 ∧ 8 ≤ s ∧ q % Nat.pow 10 8 = 0 then
      dropEights n (q / Nat.pow 10 8, s - 8)
    else (q, s)

def dropOnce (twos zeros : Nat) : Nat × Int → Nat × Int
  | (q, s) =>
    if q % twos = 0 ∧ (zeros : Int) ≤ s ∧ q % Nat.pow 10 zeros = 0 then
      (q / Nat.pow 10 zeros, s - zeros)
    else (q, s)

/-- Drops zeros in groups of eight, four, two and one, a group only if the mantissa has as many
factors of two: some zeros stay. -/
def unscale (q : Nat) (s : Int) : Nat × Int :=
  dropOnce 2 1 (dropOnce 4 2 (dropOnce 16 4 (dropEights 4 (q, s))))

def div? (a b : Decimal) : Option Decimal :=
  if b.isZero then none
  else if a.isZero then some zero
  else
    let start : Division :=
      ⟨a.mantissa / b.mantissa, a.mantissa % b.mantissa, (a.scale : Int) - b.scale, false⟩
    (divLoop b.mantissa 64 start).map fun d =>
      let (q, s) := if d.extended then unscale d.quotient d.scale else (d.quotient, d.scale)
      ⟨a.negative != b.negative, q, s.toNat⟩

def rem? (a b : Decimal) : Option Decimal :=
  if b.isZero then none
  else if a.isZero then some zero
  else
    let s := max a.scale b.scale
    let x := (a.signedAt s).natAbs
    let y := (b.signedAt s).natAbs
    if x = y then some zero
    else if x < y then some a
    else
      let r := x % y
      some ⟨a.negative && r != 0, r, s⟩

/-- Rounds to a number of fractional digits, a half going away from zero. A zero
    keeps its sign, but what becomes zero has none. -/
def roundTo (d : Decimal) (places : Nat) : Decimal :=
  if d.scale ≤ places then d
  else if d.isZero then ⟨d.negative, 0, places⟩
  else
    let unit := Nat.pow 10 (d.scale - places)
    let rounded := (2 * d.mantissa + unit) / (2 * unit)
    ⟨d.negative && rounded != 0, rounded, places⟩

def strip : (steps : Nat) → Decimal → Decimal
  | 0, d => d
  | n + 1, d =>
    if 0 < d.scale ∧ d.mantissa % 10 = 0 then strip n ⟨d.negative, d.mantissa / 10, d.scale - 1⟩
    else d

/-- The value without trailing fractional zeros; every zero becomes the plain
    one. Equal values have the same normal form. -/
def normalize (d : Decimal) : Decimal :=
  if d.isZero then zero else strip d.scale d

def truncate (d : Decimal) : Int :=
  let n : Int := (d.mantissa / Nat.pow 10 d.scale : Nat)
  if d.negative then -n else n

def text (d : Decimal) : String :=
  let ds := Digits.ofNat d.mantissa
  let padded := List.replicate (d.scale + 1 - ds.length) '0' ++ ds
  let whole := padded.length - d.scale
  let body := if d.scale = 0 then padded else padded.take whole ++ '.' :: padded.drop whole
  String.ofList (if d.negative then '-' :: body else body)

end Decimal

end ClassScript
