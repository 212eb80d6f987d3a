import ClassScript.Library.Conversion
import ClassScript.Run.Operation

/-!
# Members of Objects, Numbers and Truth Values

The members that every value has, and those of numbers and truth values.
-/

namespace ClassScript

namespace Library

def object (L : Level) (f : ObjectNative) (c : Call) : Eval Value := do
  match f with
  | .toString => return .str (← Printing.plain L c.self)
  | .equals => return .bool (← Operation.equal L c.self (c.arg 0))
  | .getType => return .type (← Eval.typeOf c.self)

/-- The number of places that a decimal is rounded to. A number of places that
    makes no sense means none. -/
def places (n : Int64) : Nat :=
  if 0 ≤ n.toInt ∧ n.toInt < (Nat.pow 2 32 : Nat) then n.toInt.toNat else 0

def onFloat (f : Binary64 → Binary64) (c : Call) : Eval Value := do
  return .float (f (← Conversion.toFloat c.self))

def number (f : NumberNative) (c : Call) : Eval Value := do
  match f with
  | .int | .intParse => return .int (← Conversion.toInt (c.arg 0))
  | .intAbs =>
    let n ← Eval.expectInt c.self
    return .int (← Eval.orFail (Word.abs? n) .absOverflow)
  | .float | .floatParse => return .float (← Conversion.toFloat (c.arg 0))
  | .floor => onFloat Binary64.floor c
  | .ceiling => onFloat Binary64.ceil c
  | .round => onFloat Binary64.round c
  | .floatAbs => onFloat Binary64.abs c
  | .sqrt => onFloat Binary64.sqrt c
  | .isNaN => return .bool (← Conversion.toFloat c.self).isNaN
  | .decimal => return .decimal (← Conversion.toDecimal (c.arg 0))
  | .decimalRound =>
    let d ← Conversion.toDecimal c.self
    let digits ← Eval.expectInt (c.arg 0)
    return .decimal (d.roundTo (places digits))
  | .decimalAbs => return .decimal (← Conversion.toDecimal c.self).abs
  | .bool => return .bool (← Eval.truthy (c.arg 0))

def functionName (v : Value) : Eval String :=
  match v with
  | .function id => Eval.ask fun h => (h.callableAt id).name
  | v => Eval.mismatch "a function" v

def reflection (f : ReflectionNative) (c : Call) : Eval Value := do
  match f with
  | .typeName =>
    let id ← Eval.expectType c.self
    return .str (← Eval.ask (·.className id))
  | .functionName => return .str (← functionName c.self)
  | .isSubclassOf =>
    let id ← Eval.expectType c.self
    let other ← Eval.expectType (c.arg 0)
    return .bool (← Eval.ask (·.inherits id other))

end Library

end ClassScript
