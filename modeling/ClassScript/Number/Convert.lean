import ClassScript.Number.Binary64
import ClassScript.Number.Decimal

/-!
# Between Floats and Decimals

A float becomes a decimal of at most 52 significant bits: its value is carried over to powers of
ten step by step, and cut down to the digits a float can vouch for. A decimal becomes a float
with one rounding at its own scale.
-/

namespace ClassScript

namespace Decimal

structure Carry where
  mantissa : Nat
  e5 : Int
  e10 : Int

def Carry.raise : (steps : Nat) → Carry → Carry
  | 0, c => c
  | n + 1, c =>
    if 0 < c.e5 then
      if c.mantissa % 2 = 0 then raise n ⟨c.mantissa / 2, c.e5 - 1, c.e10 + 1⟩
      else if c.mantissa * 5 < limit then raise n ⟨c.mantissa * 5, c.e5 - 1, c.e10⟩
      else raise n ⟨c.mantissa / 2, c.e5 - 1, c.e10 + 1⟩
    else c

def Carry.lower : (steps : Nat) → Carry → Option Carry
  | 0, c => some c
  | n + 1, c =>
    if c.e5 < 0 then
      if c.mantissa < Nat.pow 2 95 then lower n ⟨c.mantissa * 2, c.e5 + 1, c.e10 - 1⟩
      else if -c.e5 < c.e10 * 2 then none
      else lower n ⟨c.mantissa / 5, c.e5 + 1, c.e10⟩
    else some c

def Carry.expand : (steps : Nat) → Carry → Option Carry
  | 0, c => some c
  | n + 1, c =>
    if 0 < c.e10 then
      if c.mantissa * 10 < limit then expand n ⟨c.mantissa * 10, c.e5, c.e10 - 1⟩ else none
    else some c

def tenthUp (m : Nat) : Nat :=
  m / 10 + if 5 ≤ m % 10 then 1 else 0

def Carry.shrink : (steps : Nat) → Carry → Carry
  | 0, c => c
  | n + 1, c =>
    if c.e10 < -28 then
      if c.mantissa / 10 = 0 then ⟨0, c.e5, 0⟩
      else shrink n ⟨tenthUp c.mantissa, c.e5, c.e10 + 1⟩
    else c

def Carry.cut : (steps : Nat) → Carry → Carry
  | 0, c => c
  | n + 1, c =>
    if c.e10 < 0 ∧ Nat.pow 2 52 ≤ c.mantissa then cut n ⟨tenthUp c.mantissa, c.e5, c.e10 + 1⟩ else c

def Carry.tidy : (steps : Nat) → Carry → Carry
  | 0, c => c
  | n + 1, c =>
    if c.e10 < 0 ∧ c.mantissa % 10 = 0 then tidy n ⟨c.mantissa / 10, c.e5, c.e10 + 1⟩ else c

/-- The decimal of a finite float; nothing if the format has no room. A zero
    keeps its sign. -/
def ofBinary64? (x : Binary64) : Option Decimal :=
  if !x.isFinite then none
  else if x.isZero then some ⟨x.isNegative, 0, 0⟩
  else do
    let start : Carry := ⟨x.mantissa, -x.power, x.power⟩
    let lowered ← (start.raise 2200).lower 2200
    let expanded ← lowered.expand 2200
    let c := ((expanded.shrink 2200).cut 64).tidy 64
    return ⟨x.isNegative, c.mantissa, (-c.e10).toNat⟩

def magnitudeFloat (d : Decimal) : Binary64 :=
  if d.scale = 0 then Binary64.ofInt d.mantissa
  else
    let p : Nat := Nat.pow 10 d.scale
    let unit := Binary64.ofInt p
    let whole := Binary64.ofInt (d.mantissa / p : Nat)
    let part := (Binary64.ofInt (d.mantissa % p : Nat)).div unit
    if part.isZero then whole
    else (((whole.add part).mul unit).round).div unit

def toBinary64 (d : Decimal) : Binary64 :=
  if d.negative && !(d.isZero && d.scale == 0) then d.magnitudeFloat.neg else d.magnitudeFloat

end Decimal

end ClassScript
