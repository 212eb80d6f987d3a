import ClassScript.Run.Member

/-!
# The Text of a Value in a Run

Instances of script classes are asked for their text, through their member `ToString`. A
container that is already being walked further out is replaced by its placeholder. Printing and
comparing keep one record of the containers being walked.
-/

namespace ClassScript

namespace Printing

def guarded {α : Type} (id : ObjectId) (x : Eval α) : Eval (Option α) := do
  if (← Eval.read (·.registers.walking)).contains id then return none
  else return some (← Eval.bracket (·.enterWalk id) (·.leaveWalk) x)

def listBody (L : Level) (items : List Value) : Eval String := do
  return listText (← Eval.mapList L.stringify items)

def entryText (L : Level) (entry : Value × Value) : Eval String := do
  let k ← L.stringify entry.1
  let v ← L.stringify entry.2
  return k ++ ": " ++ v

def dictBody (L : Level) (entries : List (Value × Value)) : Eval String := do
  return dictText (← Eval.mapList (entryText L) entries)

def ownText (L : Level) (v : Value) : Eval String := do
  match ← Member.call L v "ToString" Span.nowhere with
  | .str s => return s
  | text => Eval.ask (·.display text)

def isBuiltin (h : Heap) (id : ObjectId) : Bool :=
  (h.classAt (h.objectAt id).type).builtin.isSome

def objectText (L : Level) (id : ObjectId) : Eval String := do
  match ← Eval.ask (·.payloadOf id) with
  | .list items => return (← guarded id (listBody L items.toList)).getD listPlaceholder
  | .dict entries => return (← guarded id (dictBody L entries.entries)).getD dictPlaceholder
  | .fields _ =>
    if ← Eval.ask (isBuiltin · id) then Eval.ask (·.display (.object id))
    else ownText L (.object id)
  | _ => Eval.ask (·.display (.object id))

def stringify (L : Level) (v : Value) : Eval String :=
  match v with
  | .object id => objectText L id
  | v => Eval.ask (·.display v)

def plain (L : Level) (v : Value) : Eval String :=
  match v with
  | .object id => do
    if ← Eval.ask (isBuiltin · id) then L.stringify v else Eval.ask (·.display v)
  | v => L.stringify v

end Printing

end ClassScript
