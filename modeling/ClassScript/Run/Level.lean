import ClassScript.Json5.Tree
import ClassScript.Run.Eval

/-!
# The Recursive Entries of a Run

Running an expression may call a function, whose body runs statements; printing an instance
calls a method. All these circles pass through the entries of a `Level`, and are closed in one
place, by counting how deep the entries are nested.
-/

namespace ClassScript

inductive Flow where
  | next
  | value (v : Value)
  | «return» (v : Value)
  | «break»
  | «continue»
deriving DecidableEq, Repr

/-- What the interpreter calls recursively, down to some depth. -/
structure Level where
  rounds : Nat
  evaluate : Expr → Eval Value
  execute : Stmt → Eval Flow
  invoke : OverloadId → (receiver : Option Value) → List Value → Span → Eval Value
  body : Overload → (receiver : Option Value) → List Value → Eval Value
  stringify : Value → Eval String
  operate : Operator → Value → List Value → Span → Eval Value
  serialize : List ObjectId → Value → Eval String
  deserialize : Json → ClassId → Eval Value

def Level.none : Level :=
  ⟨0, fun _ => Eval.stop, fun _ => Eval.stop, fun _ _ _ _ => Eval.stop, fun _ _ _ => Eval.stop,
    fun _ => Eval.stop, fun _ _ _ _ => Eval.stop, fun _ _ => Eval.stop, fun _ _ => Eval.stop⟩

def Span.nowhere : Span :=
  ⟨0, 0, 0⟩

structure Call where
  receiver : Option Value
  arguments : List Value

namespace Call

def self (c : Call) : Value :=
  c.receiver.getD .null

def arg (c : Call) (i : Nat) : Value :=
  c.arguments.getD i .null

end Call

namespace Eval

def typeOf (v : Value) : Eval ClassId :=
  ask (·.typeOf v)

def typeName (v : Value) : Eval String :=
  ask (·.typeName v)

def truthy (v : Value) : Eval Bool :=
  ask (·.isTruthy v)

def mismatch {α : Type} (what : String) (v : Value) : Eval α := do
  fail (.expected what (← typeName v))

def expectInt (v : Value) : Eval Int64 :=
  match v with
  | .int n => Eval.pure n
  | v => mismatch "int" v

def expectStr (v : Value) : Eval String :=
  match v with
  | .str s => Eval.pure s
  | v => mismatch "str" v

def expectType (v : Value) : Eval ClassId :=
  match v with
  | .type c => Eval.pure c
  | v => mismatch "a class" v

def newList (items : Array Value) : Eval Value := do
  return .object (← create (·.newObject ClassId.list (.list items)))

def newDict (entries : Entries) : Eval Value := do
  return .object (← create (·.newObject ClassId.dict (.dict entries)))

def newRange (r : Range) : Eval Value := do
  return .object (← create (·.newObject ClassId.range (.range r)))

def newEnumerator (e : Enumerator) : Eval Value := do
  return .object (← create (·.newObject ClassId.enumerator (.enumerator e)))

def newFunction (name : String) (overloads : List OverloadId) (receiver : Option Value) :
    Eval Value := do
  return .function (← create (·.newCallable ⟨name, overloads, receiver⟩))

def ofExcept {α : Type} : Except Fault α → Eval α
  | .ok a => Eval.pure a
  | .error f => fail f

end Eval

end ClassScript
