import ClassScript.Json5.Reader
import ClassScript.Json5.Writer

/-!
# From Documents to Values

A document becomes a value by itself, or it fills a new instance of a class: each entry gives a
value to the public field or property of its name. What a field holds already decides what a
number becomes, and whether an object fills another instance.
-/

namespace ClassScript

namespace Filling

mutual

def build : Json → Eval Value
  | .null => return .null
  | .bool b => return .bool b
  | .int n => return .int n
  | .float x _ => return .float x
  | .string s => return .str s
  | .array items => do
    Eval.newList (← buildItems items).toArray
  | .object entries => do
    Eval.newDict (.ofList (← buildEntries entries))

def buildItems : List Json → Eval (List Value)
  | [] => return []
  | j :: rest => do
    let v ← build j
    return v :: (← buildItems rest)

def buildEntries : List (String × Json) → Eval (List (Value × Value))
  | [] => return []
  | (key, j) :: rest => do
    let v ← build j
    return (.str key, v) :: (← buildEntries rest)

end

def scriptClass? (h : Heap) (v : Value) : Option ClassId :=
  let c := h.typeOf v
  if (h.fieldScope? v).isSome && (h.classAt c).builtin.isNone then some c else none

def convert (L : Level) (j : Json) (current : Value) : Eval Value := do
  match current, j, j.decimal? with
  | .decimal _, _, some d => return .decimal d
  | .float _, .int n, _ => return .float (Binary64.ofInt n.toInt)
  | current, j, _ =>
    match ← Eval.ask (scriptClass? · current), j.isObject with
    | some c, true => L.deserialize j c
    | _, _ => build j

def publicField? (h : Heap) (scope : ScopeId) (name : String) : Option Variable :=
  ((h.scopeAt scope).vars.find? name).filter (·.access == .public)

def fillMember (L : Level) (target : Value) (scope : ScopeId) (properties : List String)
    (entry : String × Json) : Eval Unit := do
  let (name, j) := entry
  match ← Eval.ask (publicField? · scope name) with
  | some v => Member.assignSlot scope name (← convert L j (v.value?.getD .null))
  | none =>
    if properties.contains name then
      let current ← Member.get L target name Span.nowhere
      Member.set L target name (← convert L j current) Span.nowhere
    else return ()

def fill (L : Level) (j : Json) (c : ClassId) : Eval Value := do
  match j with
  | .object entries =>
    let id ← Calling.instantiate L c
    let target := Value.object id
    let properties ← Eval.ask (Writing.openProperties · c)
    match ← Eval.ask (·.fieldScope? target) with
    | some scope => Eval.forList (fillMember L target scope properties) entries
    | none => pure ()
    return target
  | _ => Eval.fail (.notReadFromObject (← Eval.ask (·.className c)))

end Filling

end ClassScript
