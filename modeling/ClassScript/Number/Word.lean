import ClassScript.Number.Digits

/-!
# 64-bit Integers

Arithmetic is exact or refused: each operation computes in the unbounded integers and answers
nothing if the result needs more than 64 bits.
-/

namespace ClassScript

namespace Word

def ofInt? (n : Int) : Option Int64 :=
  if -(Nat.pow 2 63 : Nat) ≤ n ∧ n < (Nat.pow 2 63 : Nat) then some (Int64.ofInt n) else none

def add? (a b : Int64) : Option Int64 :=
  ofInt? (a.toInt + b.toInt)

def sub? (a b : Int64) : Option Int64 :=
  ofInt? (a.toInt - b.toInt)

def mul? (a b : Int64) : Option Int64 :=
  ofInt? (a.toInt * b.toInt)

def div? (a b : Int64) : Option Int64 :=
  if b = 0 then none else ofInt? (a.toInt.tdiv b.toInt)

/-- The remainder that goes with the truncated quotient. It is refused together
    with the quotient. -/
def rem? (a b : Int64) : Option Int64 :=
  if b = 0 then none else (ofInt? (a.toInt.tdiv b.toInt)).bind fun _ =>
    ofInt? (a.toInt.tmod b.toInt)

def neg? (a : Int64) : Option Int64 :=
  ofInt? (-a.toInt)

def abs? (a : Int64) : Option Int64 :=
  ofInt? a.toInt.natAbs

def parse? (cs : List Char) : Option Int64 :=
  (Digits.int? cs).bind ofInt?

def text (a : Int64) : String :=
  Digits.intText a.toInt

end Word

end ClassScript
