import ClassScript.Run.Number
import ClassScript.Run.Printing

/-!
# Operators

An operator belongs to its first operand: to the functions that its class has under the symbol,
and after those to what is built in. Before both, equality with null is identity; between them,
a sum with a text joins texts. Inequality without a function of its own negates the function for
equality.
-/

namespace ClassScript

namespace Operation

def operand (rest : List Value) : Eval Value :=
  match rest with
  | v :: _ => return v
  | [] => Eval.fail .missingOperand

def operands (rest : List Value) : Eval (Value × Value) :=
  match rest with
  | v :: w :: _ => return (v, w)
  | _ => Eval.fail .missingOperands

def equal (L : Level) (a b : Value) : Eval Bool := do
  Eval.truthy (← L.operate .eq a [b] Span.nowhere)

/-- Order as programs see it, through the operators for less and greater. Two
    floats have an order in any case. -/
def compare (L : Level) (a b : Value) : Eval Ordering := do
  match a, b with
  | .float x, .float y => return x.totalCompare y
  | a, b =>
    if ← Eval.truthy (← L.operate .lt a [b] Span.nowhere) then return .lt
    else if ← Eval.truthy (← L.operate .gt a [b] Span.nowhere) then return .gt
    else return .eq

def numberOrder (a b : Value) : Eval (Option Ordering) :=
  match Numeral.of? a, Numeral.of? b with
  | some x, some y => Eval.ofExcept (x.order? y)
  | _, _ => do
    Eval.fail (.cannotCompare (← Eval.typeName a) (← Eval.typeName b))

def numberEqual (a b : Value) : Eval Bool := do
  if (Numeral.of? b).isNone then return false
  else return (← numberOrder a b) == some .eq

def arithmetic (op : Operator) (a b : Value) : Eval Value :=
  match Numeral.of? a, Numeral.of? b with
  | some x, some y => Eval.ofExcept (x.arithmetic op y)
  | _, _ => do
    Eval.fail (.cannotApply op.symbol (← Eval.typeName a) (← Eval.typeName b))

def number (op : Operator) (left : Value) (rest : List Value) : Eval Value := do
  match op with
  | .neg =>
    match Numeral.of? left with
    | some x => Eval.ofExcept x.negate
    | none => Eval.fail (.cannotNegate (← Eval.typeName left))
  | .pos => return left
  | .eq => return .bool (← numberEqual left (← operand rest))
  | .ne => return .bool !(← numberEqual left (← operand rest))
  | .lt | .le | .gt | .ge => return .bool (op.accepts (← numberOrder left (← operand rest)))
  | _ => arithmetic op left (← operand rest)

def expectBool (v : Value) : Eval Bool :=
  match v with
  | .bool b => return b
  | v => Eval.mismatch "bool" v

def bool (op : Operator) (left : Value) (rest : List Value) : Eval Value := do
  match op with
  | .not => return .bool !(← expectBool left)
  | .and =>
    if ← expectBool left then return .bool (← expectBool (← operand rest)) else return .bool false
  | .or =>
    if ← expectBool left then return .bool true else return .bool (← expectBool (← operand rest))
  | .ne => return .bool (left.bool? != (← operand rest).bool?)
  | _ => return .bool (left.bool? == (← operand rest).bool?)

def maxRepeat : Nat :=
  Nat.pow 2 24

def repeatCount (count : Value) (size : Nat) : Eval Nat := do
  let n ← Eval.expectInt count
  if n < 0 then Eval.fail (.negativeRepeat n)
  else if maxRepeat < size * n.toInt.toNat then Eval.fail .repeatTooLarge
  else return if size = 0 then 0 else n.toInt.toNat

def place (length : Nat) (index : Int64) : Except Fault Nat :=
  if index < 0 ∨ length ≤ index.toInt.toNat then .error (.indexOutOfRange index length)
  else .ok index.toInt.toNat

def textOrder (left right : Value) : Eval (Option Ordering) := do
  let a ← Eval.expectStr left
  match right with
  | .str b => return some (Ord.compare a b)
  | v => Eval.fail (.cannotCompare "str" (← Eval.typeName v))

def text (op : Operator) (left : Value) (rest : List Value) : Eval Value := do
  match op with
  | .eq => return .bool (left.str? == (← operand rest).str?)
  | .ne => return .bool (left.str? != (← operand rest).str?)
  | .mul =>
    let s ← Eval.expectStr left
    let n ← repeatCount (← operand rest) s.utf8ByteSize
    return .str (joinWith "" (List.replicate n s))
  | .index =>
    let s ← Eval.expectStr left
    let index ← Eval.expectInt (← operand rest)
    let cs := s.toList
    let i ← Eval.ofExcept (place cs.length index)
    return .str (String.ofList ((cs.drop i).take 1))
  | _ => return .bool (op.accepts (← textOrder left (← operand rest)))

def allEqual (L : Level) : List (Value × Value) → Eval Bool
  | [] => return true
  | (a, b) :: rest => do
    if ← equal L a b then allEqual L rest else return false

def comparing (left right : Value) (x : Eval Bool) : Eval Bool :=
  match left with
  | .object id => do
    return (← Printing.guarded id x).getD (left == right)
  | _ => return false

def listsEqual (L : Level) (left right : Value) : Eval Bool := do
  match ← Eval.ask (·.items? left), ← Eval.ask (·.items? right) with
  | some xs, some ys =>
    if xs.size = ys.size then comparing left right (allEqual L (xs.toList.zip ys.toList))
    else return false
  | _, _ => return false

def entriesEqual (L : Level) (others : Entries) : List (Value × Value) → Eval Bool
  | [] => return true
  | (k, v) :: rest =>
    match others.find? k with
    | none => return false
    | some w => do
      if ← equal L v w then entriesEqual L others rest else return false

def dictsEqual (L : Level) (left right : Value) : Eval Bool := do
  match ← Eval.ask (·.entries? left), ← Eval.ask (·.entries? right) with
  | some xs, some ys =>
    if xs.size = ys.size then comparing left right (entriesEqual L ys xs.entries)
    else return false
  | _, _ => return false

def list (L : Level) (op : Operator) (left : Value) (rest : List Value) : Eval Value := do
  match op with
  | .add =>
    let right ← operand rest
    match ← Eval.ask (·.items? left), ← Eval.ask (·.items? right) with
    | some xs, some ys => Eval.newList (xs ++ ys)
    | _, _ => Eval.fail (.cannotAddToList (← Eval.typeName right))
  | .mul =>
    let xs := (← Eval.ask (·.items? left)).getD #[]
    let n ← repeatCount (← operand rest) xs.size
    Eval.newList (List.replicate n xs.toList).flatten.toArray
  | .index =>
    let index ← Eval.expectInt (← operand rest)
    match ← Eval.ask (·.items? left) with
    | some xs =>
      let i ← Eval.ofExcept (place xs.size index)
      return xs.getD i .null
    | none => Eval.fail (.expectedContainer "list")
  | .indexSet =>
    let (index, value) ← operands rest
    let index ← Eval.expectInt index
    match left, ← Eval.ask fun h => (h.items? left).map (·.size) with
    | .object id, some size =>
      let i ← Eval.ofExcept (place size index)
      Eval.change (·.updatePayload id fun
        | .list xs => .list (xs.setIfInBounds i value)
        | p => p)
      return value
    | _, _ => Eval.fail (.expectedContainer "list")
  | .ne => return .bool !(← listsEqual L left (← operand rest))
  | _ => return .bool (← listsEqual L left (← operand rest))

def dict (L : Level) (op : Operator) (left : Value) (rest : List Value) : Eval Value := do
  match op with
  | .index =>
    let key ← operand rest
    match ← Eval.ask fun h => (h.entries? left).bind (·.find? key.key) with
    | some value => return value
    | none => Eval.fail (.keyNotFound (← L.stringify key))
  | .indexSet =>
    let (key, value) ← operands rest
    match left, ← Eval.ask fun h => (h.entries? left).isSome with
    | .object id, true =>
      Eval.change (·.updatePayload id fun
        | .dict entries => .dict (entries.insert key.key value)
        | p => p)
      return value
    | _, _ => Eval.fail (.expectedContainer "dict")
  | .ne => return .bool !(← dictsEqual L left (← operand rest))
  | _ => return .bool (← dictsEqual L left (← operand rest))

def sameFunction (h : Heap) : Value → Value → Bool
  | .function f, .function g =>
    let a := h.callableAt f
    let b := h.callableAt g
    f == g || (a.name == b.name && a.overloads == b.overloads)
  | _, _ => false

def native (L : Level) (family : OperatorFamily) (op : Operator) (left : Value)
    (rest : List Value) : Eval Value := do
  match family with
  | .object =>
    let same := left == (← operand rest)
    return .bool (if op = .eq then same else !same)
  | .number => number op left rest
  | .bool => bool op left rest
  | .null => return .bool true
  | .str => text op left rest
  | .list => list L op left rest
  | .dict => dict L op left rest
  | .range =>
    let right ← operand rest
    let same := (← Eval.ask (·.range? left)) == (← Eval.ask (·.range? right))
    return .bool (if op = .eq then same else !same)
  | .function =>
    let right ← operand rest
    let same ← Eval.ask (sameFunction · left right)
    return .bool (if op = .eq then same else !same)

def script (L : Level) (symbol : String) (left : Value) (rest : List Value) (span : Span) :
    Eval (Option Value) := do
  let c ← Eval.typeOf left
  match ← Eval.ask fun h => (h.family? c symbol).map (h.withOperands rest.length) with
  | none | some [] => return none
  | some overloads =>
    return some (← Calling.family L symbol overloads (some left) ⟨rest, []⟩ span)

def scriptUnequal (L : Level) (left : Value) (rest : List Value) (span : Span) :
    Eval (Option Value) := do
  match ← script L Operator.eq.symbol left rest span with
  | some result => return some (.bool !(← Eval.truthy result))
  | none => return none

def concatenation (L : Level) (left right : Value) : Eval (Option Value) := do
  if left.str?.isSome || right.str?.isSome then
    let a ← L.stringify left
    let b ← L.stringify right
    return some (.str (a ++ b))
  else return none

def builtin (L : Level) (op : Operator) (left : Value) (rest : List Value) : Eval Value := do
  let c ← Eval.typeOf left
  match ← Eval.ask fun h => (h.classAt c).operators.find? op with
  | some family => native L family op left rest
  | none => Eval.fail (.operatorNotImplemented op.symbol (← Eval.ask (·.className c)))

def nullEquality (op : Operator) (left : Value) (rest : List Value) : Option Value :=
  match op, rest with
  | .eq, right :: _ =>
    if left.isNull || right.isNull then some (.bool (left == right)) else none
  | .ne, right :: _ =>
    if left.isNull || right.isNull then some (.bool (left != right)) else none
  | _, _ => none

def dispatch (L : Level) (op : Operator) (left : Value) (rest : List Value) (span : Span) :
    Eval Value := do
  match ← script L op.symbol left rest span with
  | some result => return result
  | none =>
    match op, rest with
    | .ne, rest =>
      match ← scriptUnequal L left rest span with
      | some result => return result
      | none => builtin L op left rest
    | .add, right :: more =>
      match ← concatenation L left right with
      | some result => return result
      | none => builtin L op left (right :: more)
    | _, _ => builtin L op left rest

def apply (L : Level) (op : Operator) (left : Value) (rest : List Value) (span : Span) :
    Eval Value :=
  match nullEquality op left rest with
  | some result => return result
  | none => dispatch L op left rest span

end Operation

end ClassScript
