import ClassScript.Fault
import ClassScript.Store.Heap

/-!
# The Classes of Values

The built-in classes are created first and in a fixed order, so their places are constants.
-/

namespace ClassScript

namespace ClassId

def object : ClassId := 0

def null : ClassId := 1

def int : ClassId := 2

def float : ClassId := 3

def decimal : ClassId := 4

def bool : ClassId := 5

def str : ClassId := 6

def list : ClassId := 7

def dict : ClassId := 8

def range : ClassId := 9

def enumerator : ClassId := 10

def function : ClassId := 11

def type : ClassId := 12

def exception : ClassId := 13

def ofFault (kind : FaultKind) : ClassId :=
  match FaultKind.catchable.idxOf? kind with
  | some i => exception + 1 + i
  | none => exception

def json5 : ClassId := exception + 1 + FaultKind.catchable.length

end ClassId

namespace Heap

def payloadOf (h : Heap) (id : ObjectId) : Payload :=
  (h.objectAt id).payload

def typeOf (h : Heap) : Value → ClassId
  | .null => ClassId.null
  | .bool _ => ClassId.bool
  | .int _ => ClassId.int
  | .float _ => ClassId.float
  | .decimal _ => ClassId.decimal
  | .str _ => ClassId.str
  | .object id => (h.objectAt id).type
  | .function _ => ClassId.function
  | .type _ => ClassId.type

def className (h : Heap) (id : ClassId) : String :=
  (h.classAt id).name

def typeName (h : Heap) (v : Value) : String :=
  h.className (h.typeOf v)

def items? (h : Heap) : Value → Option (Array Value)
  | .object id =>
    match h.payloadOf id with
    | .list items => some items
    | _ => none
  | _ => none

def entries? (h : Heap) : Value → Option Entries
  | .object id =>
    match h.payloadOf id with
    | .dict entries => some entries
    | _ => none
  | _ => none

def range? (h : Heap) : Value → Option Range
  | .object id =>
    match h.payloadOf id with
    | .range r => some r
    | _ => none
  | _ => none

def host? (h : Heap) : Value → Option HostObject
  | .object id =>
    match h.payloadOf id with
    | .host o => some o
    | _ => none
  | _ => none

def fieldScope? (h : Heap) : Value → Option ScopeId
  | .object id =>
    match h.payloadOf id with
    | .fields scope => some scope
    | _ => none
  | _ => none

def field? (h : Heap) (v : Value) (name : String) : Option Value :=
  (h.fieldScope? v).bind fun scope =>
    ((h.scopeAt scope).vars.find? name).bind Variable.value?

def isTruthy (h : Heap) : Value → Bool
  | .null => false
  | .bool b => b
  | .int n => n != 0
  | .float x => !x.isZero
  | .decimal d => !d.isZero
  | .str s => !s.isEmpty
  | .object id =>
    match h.payloadOf id with
    | .list items => !items.isEmpty
    | .dict entries => !entries.isEmpty
    | .range r => !r.isEmpty
    | .fields _ | .enumerator _ | .host _ => true
  | .function _ | .type _ => true

end Heap

end ClassScript
