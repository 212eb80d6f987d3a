import ClassScript.Number.Shortest
import ClassScript.Store.Lookup
import ClassScript.Text.Quoted

/-!
# The Text of a Value

The text that a value has without asking its class. A container that is already being shown further
out is replaced by a placeholder; the containers being shown are all different, which bounds the
depth.
-/

namespace ClassScript

def joinWith (separator : String) (parts : List String) : String :=
  separator.intercalate parts

def listText (items : List String) : String :=
  "[" ++ joinWith ", " items ++ "]"

def dictText (entries : List String) : String :=
  "\x7b" ++ joinWith ", " entries ++ "\x7d"

def listPlaceholder : String :=
  "[...]"

def dictPlaceholder : String :=
  "\x7b...\x7d"

def instanceText (typeName : String) : String :=
  "<" ++ typeName ++ " object>"

namespace Heap

def showValue (h : Heap) (quoted : Bool) : (n : Nat) → (outer : List ObjectId) → Value → String
  | 0, _, _ => ""
  | n + 1, outer, v =>
    match v with
    | .null => "null"
    | .bool b => if b then "true" else "false"
    | .int k => Word.text k
    | .float x => x.text
    | .decimal d => d.text
    | .str s => if quoted then Text.quote s else s
    | .function id => "<fn " ++ (h.callableAt id).name ++ ">"
    | .type id => "<class " ++ h.className id ++ ">"
    | .object id =>
      match h.payloadOf id with
      | .fields _ => instanceText (h.className (h.objectAt id).type)
      | .list items =>
        if outer.contains id then listPlaceholder
        else listText (items.toList.map fun item => showValue h quoted n (id :: outer) item)
      | .dict entries =>
        if outer.contains id then dictPlaceholder
        else dictText (entries.entries.map fun (k, item) =>
          showValue h quoted n (id :: outer) k ++ ": " ++ showValue h quoted n (id :: outer) item)
      | .range r => r.text
      | .enumerator _ => "<enumerator>"
      | .host o => instanceText o.typeName

def display (h : Heap) (v : Value) : String :=
  h.showValue false (h.objects.size + 2) [] v

def inspect (h : Heap) (v : Value) : String :=
  h.showValue true (h.objects.size + 2) [] v

def parameterText (h : Heap) (p : Parameter) : String :=
  let dots := if p.variadic then "..." else ""
  let types := match p.accepted with
    | some classes => ": " ++ joinWith "|" (classes.map h.className)
    | none => ""
  let default := match p.default with
    | some v => " = " ++ h.display v
    | none => ""
  dots ++ p.name ++ types ++ default

def signature (h : Heap) (id : OverloadId) : String :=
  let f := h.overloadAt id
  f.name ++ "(" ++ joinWith ", " (f.params.map h.parameterText) ++ ")"

end Heap

end ClassScript
