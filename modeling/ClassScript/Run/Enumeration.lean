import ClassScript.Run.Level

/-!
# Enumerators

An enumerator stands before the first element, at an element, or past the last one. A list is
seen as it is at each move; a dict and a text are seen as they were.
-/

namespace ClassScript

namespace Enumerator

def following (position : Option Nat) : Nat :=
  match position with
  | none => 0
  | some i => i + 1

def length (h : Heap) : Enumerator → Nat
  | .list source _ => ((h.items? (.object source)).getD #[]).size
  | .dict entries _ => entries.size
  | .text chars _ => chars.size
  | .range _ => 0

def move (h : Heap) (e : Enumerator) : Bool × Enumerator :=
  let size := e.length h
  match e with
  | .list source position =>
    let next := following position
    (next < size, .list source (some (min next size)))
  | .dict entries position =>
    let next := following position
    (next < size, .dict entries (some (min next size)))
  | .text chars position =>
    let next := following position
    (next < size, .text chars (some (min next size)))
  | .range walk =>
    let (found, walk) := walk.move
    (found, .range walk)

def start : Enumerator → Enumerator
  | .list source _ => .list source none
  | .dict entries _ => .dict entries none
  | .text chars _ => .text chars none
  | .range walk => .range walk.reset

end Enumerator

namespace Enumeration

/-- The element where an enumerator stands; null where there is none. An entry of
    a dict is a list of its key and its value. -/
def current (e : Enumerator) : Eval Value :=
  match e with
  | .list source (some i) => Eval.ask fun h => ((h.items? (.object source)).getD #[]).getD i .null
  | .dict entries (some i) =>
    match entries[i]? with
    | some (k, v) => Eval.newList #[k, v]
    | none => return .null
  | .text chars (some i) =>
    match chars[i]? with
    | some c => return .str (String.singleton c)
    | none => return .null
  | .range walk =>
    match walk.value? with
    | some n => return .int n
    | none => return .null
  | _ => return .null

def move (id : ObjectId) (e : Enumerator) : Eval Bool := do
  let (found, e) ← Eval.ask e.move
  Eval.change (·.setPayload id (.enumerator e))
  return found

def state? (h : Heap) : Value → Option (ObjectId × Enumerator)
  | .object id =>
    match h.payloadOf id with
    | .enumerator e => some (id, e)
    | _ => none
  | _ => none

end Enumeration

end ClassScript
