/-!
# Sets of Characters as Ranges

A `CharSet` is a table of code point ranges. A long table is given by lengths alone: so many
code points are out, so many are in, and so on. Its numbers are packed into rows of hexadecimal
digits: a number is spelled to base eight from its lowest digit on, from right to left, with
eight added to each digit but its last. The leading one of a row is not part of it.
-/

namespace ClassScript

namespace Text

def unpackRow : (digits : Nat) → (value unit row : Nat) → List Nat
  | 0, _, _, _ => []
  | n + 1, value, unit, row =>
    let d := row % 16
    if row = 1 then []
    else if d < 8 then (value + unit * d) :: unpackRow n 0 1 (row / 16)
    else unpackRow n (value + unit * (d - 8)) (unit * 8) (row / 16)

def unpack (table : List Nat) : List Nat :=
  table.flatMap (unpackRow 96 0 1)

structure CharSet where
  ranges : List (Nat × Nat)

namespace CharSet

def contains (s : CharSet) (c : Char) : Bool :=
  s.ranges.any fun r => r.1 ≤ c.toNat && c.toNat ≤ r.2

def rangesFrom (start : Nat) : List Nat → List (Nat × Nat)
  | gap :: length :: rest =>
    (start + gap, start + gap + length - 1) :: rangesFrom (start + gap + length) rest
  | _ => []

def ofLengths (table : List Nat) : CharSet :=
  ⟨rangesFrom 0 (unpack table)⟩

end CharSet

end Text

end ClassScript
