import ClassScript.Store.Display

/-!
# Snapshots of Values

What a value is made of at one moment. A container inside itself is only named, and so is one
below too many others.
-/

namespace ClassScript

inductive Snapshot where
  | plain (type text : String)
  | list (items : List Snapshot)
  | dict (entries : List (Snapshot × Snapshot))
  | fields (type : String) (entries : List (String × Snapshot))
  | type (name : String)
  | function (name : String) (signatures : List String) (isBound : Bool)
  | cycle (type : String)
  | deep (type : String)
deriving Inhabited

namespace Snapshot

def maxDepth : Nat :=
  8

def slots (h : Heap) (scope : ScopeId) : List (String × Value) :=
  (h.scopeAt scope).vars.entries.filterMap fun (name, v) =>
    v.value?.map fun value => (name, value)

def ofPlain (h : Heap) (v : Value) : Snapshot :=
  match v with
  | .type c => .type (h.className c)
  | .function f =>
    let callable := h.callableAt f
    .function callable.name (callable.overloads.map h.signature) callable.receiver.isSome
  | v => .plain (h.typeName v) (h.display v)

def container (h : Heap) (outer : List ObjectId) (id : ObjectId)
    (inner : Option (List ObjectId → Snapshot)) : Snapshot :=
  let type := h.typeName (.object id)
  if outer.contains id then .cycle type
  else
    match inner with
    | some inner => inner (id :: outer)
    | none => .deep type

def within (h : Heap) : (room : Nat) → (outer : List ObjectId) → Value → Snapshot
  | 0, outer, v =>
    match v with
    | .object id =>
      match h.payloadOf id with
      | .list _ | .dict _ | .fields _ => container h outer id none
      | _ => ofPlain h v
    | v => ofPlain h v
  | room + 1, outer, v =>
    match v with
    | .object id =>
      match h.payloadOf id with
      | .list items =>
        container h outer id (some fun outer => .list (items.toList.map (within h room outer)))
      | .dict entries =>
        container h outer id (some fun outer =>
          .dict (entries.entries.map fun (k, v) => (within h room outer k, within h room outer v)))
      | .fields scope =>
        container h outer id (some fun outer =>
          .fields (h.typeName v) ((slots h scope).map fun (name, v) =>
            (name, within h room outer v)))
      | _ => ofPlain h v
    | v => ofPlain h v

def of (h : Heap) (v : Value) : Snapshot :=
  within h maxDepth [] v

end Snapshot

end ClassScript
