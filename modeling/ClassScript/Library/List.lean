import ClassScript.Library.Sorting
import ClassScript.Run.Operation

/-!
# Members of Lists

Members that compare or print elements work on the list as it is when they begin, because
functions of a script may change it meanwhile.
-/

namespace ClassScript

namespace Library

def expectList (v : Value) : Eval ObjectId := do
  match v, ← Eval.ask fun h => (h.items? v).isSome with
  | .object id, true => return id
  | v, _ => Eval.mismatch "list" v

def expectItems (v : Value) : Eval (Array Value) := do
  match ← Eval.ask (·.items? v) with
  | some items => return items
  | none => Eval.mismatch "list" v

def expectSize (v : Value) : Eval Nat := do
  match ← Eval.ask fun h => (h.items? v).map (·.size) with
  | some size => return size
  | none => Eval.mismatch "list" v

def changeItems (id : ObjectId) (f : Array Value → Array Value) : Eval Unit :=
  Eval.change (·.updatePayload id fun
    | .list items => .list (f items)
    | p => p)

def positionFrom (L : Level) (v : Value) : (i : Nat) → List Value → Eval (Option Nat)
  | _, [] => return none
  | i, item :: rest => do
    if ← Operation.equal L item v then return some i else positionFrom L v (i + 1) rest

def position (L : Level) (c : Call) : Eval (Option Nat) := do
  positionFrom L (c.arg 0) 0 (← expectItems c.self).toList

def insertAt (i : Nat) (v : Value) (items : Array Value) : Array Value :=
  (items.toList.insertIdx i v).toArray

def removeAt (i : Nat) (items : Array Value) : Array Value :=
  (items.toList.eraseIdx i).toArray

def list (L : Level) (f : ListNative) (c : Call) : Eval Value := do
  match f with
  | .list => Eval.newList ((← Eval.ask (·.items? (c.arg 0))).getD #[])
  | .count => return .ofNat (← expectSize c.self)
  | .add =>
    changeItems (← expectList c.self) (·.push (c.arg 0))
    return .null
  | .insert =>
    let index ← Eval.expectInt (c.arg 0)
    let size ← expectSize c.self
    let i ← Eval.ofExcept (Operation.place (size + 1) index)
    changeItems (← expectList c.self) (insertAt i (c.arg 1))
    return .null
  | .removeAt =>
    let index ← Eval.expectInt (c.arg 0)
    let i ← Eval.ofExcept (Operation.place (← expectSize c.self) index)
    let removed ← Eval.ask fun h => ((h.items? c.self).getD #[]).getD i .null
    changeItems (← expectList c.self) (removeAt i)
    return removed
  | .remove =>
    match ← position L c with
    | some i =>
      changeItems (← expectList c.self) (removeAt i)
      return .bool true
    | none => return .bool false
  | .contains => return .bool (← position L c).isSome
  | .indexOf =>
    match ← position L c with
    | some i => return .ofNat i
    | none => return .int (-1)
  | .clear =>
    changeItems (← expectList c.self) fun _ => #[]
    return .null
  | .copy => Eval.newList (← expectItems c.self)
  | .reverse =>
    changeItems (← expectList c.self) Array.reverse
    return .null
  | .sort =>
    let items ← expectItems c.self
    let sorted ← Sorting.sort (Operation.compare L) items.toList
    changeItems (← expectList c.self) fun _ => sorted.toArray
    return .null
  | .join =>
    let separator ← Eval.expectStr (c.arg 0)
    let items ← expectItems c.self
    return .str (joinWith separator (← Eval.mapList L.stringify items.toList))
  | .getEnumerator =>
    match c.self with
    | .object id => Eval.newEnumerator (.list id none)
    | v => Eval.mismatch "an instance" v

end Library

end ClassScript
