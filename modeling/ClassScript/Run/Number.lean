import ClassScript.Number.Convert
import ClassScript.Number.Shortest
import ClassScript.Fault
import ClassScript.Store.Value

/-!
# Arithmetic

Two numbers are brought to the wider of their kinds: integer, float, decimal. Integer and
decimal results that do not fit are refused; floats follow their standard.
-/

namespace ClassScript

inductive Numeral where
  | int (n : Int64)
  | float (x : Binary64)
  | decimal (d : Decimal)
deriving DecidableEq, Repr

namespace Numeral

def of? : Value → Option Numeral
  | .int n => some (.int n)
  | .float x => some (.float x)
  | .decimal d => some (.decimal d)
  | _ => none

def value : Numeral → Value
  | .int n => .int n
  | .float x => .float x
  | .decimal d => .decimal d

def rank : Numeral → Nat
  | .int _ => 0
  | .float _ => 1
  | .decimal _ => 2

def raise (rank : Nat) : Numeral → Except Fault Numeral
  | .int n =>
    .ok (if rank = 0 then .int n
      else if rank = 1 then .float (Binary64.ofInt n.toInt)
      else .decimal (Decimal.ofInt n.toInt))
  | .float x =>
    if rank ≤ 1 then .ok (.float x)
    else
      match Decimal.ofBinary64? x with
      | some d => .ok (.decimal d)
      | none => .error (.floatAsDecimal x.text)
  | .decimal d => .ok (.decimal d)

def promote (a b : Numeral) : Except Fault (Numeral × Numeral) := do
  let rank := max a.rank b.rank
  return (← a.raise rank, ← b.raise rank)

def isZero : Numeral → Bool
  | .int n => n == 0
  | .float x => x.isZero
  | .decimal d => d.isZero

def intResult (op : Operator) (a b : Int64) : Option Int64 :=
  match op with
  | .add => Word.add? a b
  | .sub => Word.sub? a b
  | .mul => Word.mul? a b
  | .div => Word.div? a b
  | .mod => Word.rem? a b
  | _ => none

def floatResult (op : Operator) (a b : Binary64) : Binary64 :=
  match op with
  | .add => a.add b
  | .sub => a.sub b
  | .mul => a.mul b
  | .div => a.div b
  | _ => a.rem b

def decimalResult (op : Operator) (a b : Decimal) : Option Decimal :=
  match op with
  | .add => a.add? b
  | .sub => a.sub? b
  | .mul => a.mul? b
  | .div => a.div? b
  | .mod => a.rem? b
  | _ => none

def fitting {α : Type} (op : Operator) (wrap : α → Value) : Option α → Except Fault Value
  | some a => .ok (wrap a)
  | none => .error (.overflow op.symbol)

def sameKind (op : Operator) : Numeral → Numeral → Except Fault Value
  | .int a, .int b => fitting op .int (intResult op a b)
  | .float a, .float b => .ok (.float (floatResult op a b))
  | .decimal a, .decimal b => fitting op .decimal (decimalResult op a b)
  | _, _ => .error (.overflow op.symbol)

def arithmetic (op : Operator) (a b : Numeral) : Except Fault Value := do
  let (a, b) ← promote a b
  if b.isZero && (op == .div || op == .mod) then .error (.byZero op.symbol)
  else sameKind op a b

def sameKindOrder : Numeral → Numeral → Option Ordering
  | .int a, .int b => some (compare a.toInt b.toInt)
  | .float a, .float b => a.compare? b
  | .decimal a, .decimal b => some (a.compare b)
  | _, _ => none

def order? (a b : Numeral) : Except Fault (Option Ordering) := do
  let (a, b) ← promote a b
  return sameKindOrder a b

def negate : Numeral → Except Fault Value
  | .int n => fitting .neg .int (Word.neg? n)
  | .float x => .ok (.float x.neg)
  | .decimal d => .ok (.decimal d.neg)

end Numeral

def Operator.accepts (op : Operator) : Option Ordering → Bool
  | none => false
  | some order =>
    match op with
    | .lt => order == .lt
    | .le => order != .gt
    | .gt => order == .gt
    | _ => order != .lt

end ClassScript
