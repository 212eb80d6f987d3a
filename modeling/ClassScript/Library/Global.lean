import ClassScript.Run.Calling

/-!
# Functions That Are Not Members, and Methods of Host Objects
-/

namespace ClassScript

namespace Library

def printValues (L : Level) (c : Call) (ending : String) : Eval Value := do
  let values := (← Eval.ask (·.items? (c.arg 0))).getD #[]
  let parts ← Eval.mapList L.stringify values.toList
  Eval.print (joinWith " " parts ++ ending)
  return .null

def length? (h : Heap) : Value → Option Nat
  | .str s => some s.length
  | .object id =>
    match h.payloadOf id with
    | .list items => some items.size
    | .dict entries => some entries.size
    | .range r => some r.length
    | _ => none
  | _ => none

def global (L : Level) (f : GlobalNative) (c : Call) : Eval Value := do
  match f with
  | .print => printValues L c ""
  | .println => printValues L c "\n"
  | .typeof => return .type (← Eval.typeOf (c.arg 0))
  | .len =>
    match ← Eval.ask (length? · (c.arg 0)) with
    | some n => return .ofNat n
    | none => Eval.fail (.noLength (← Eval.typeName (c.arg 0)))

def tally (L : Level) (id : ObjectId) (count : Int64) (method : String) (arguments : List Value) :
    Eval Value := do
  match method, arguments with
  | "Add", arguments =>
    let amount ← match arguments.head? with
      | some v => Eval.expectInt v
      | none => pure 1
    Eval.change (·.setPayload id (.host (.tally (count + amount))))
    return .int (count + amount)
  | "Args", arguments => Eval.newList arguments.toArray
  | "Apply", f :: _ => Calling.value L f ⟨[.int count], []⟩ Span.nowhere
  | "Apply", [] => return .int count
  | method, _ => Eval.fail (.hostRefusal method)

def host (L : Level) (id : ObjectId) (method : String) (c : Call) : Eval Value := do
  let arguments := ((← Eval.ask (·.items? (c.arg 0))).getD #[]).toList
  match ← Eval.ask (·.host? (.object id)) with
  | some (.tally count) => tally L id count method arguments
  | some .blank => Eval.fail (.noHostMethod HostObject.blank.typeName method)
  | none => return .null

end Library

end ClassScript
