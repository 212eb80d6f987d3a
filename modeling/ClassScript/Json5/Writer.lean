import ClassScript.Run.Member

/-!
# Writing JSON5

Lists and ranges become arrays; dicts whose keys are texts and instances of script classes
become objects, the latter with their public fields and then their public properties that can be
read and written. A container inside itself is refused.
-/

namespace ClassScript

namespace Json

def escapeChar (c : Char) : List Char :=
  if c = '"' then ['\\', '"']
  else if c = '\\' then ['\\', '\\']
  else if c = '\n' then ['\\', 'n']
  else if c = '\r' then ['\\', 'r']
  else if c = '\t' then ['\\', 't']
  else if c.toNat < 0x20 then
    ['\\', 'u', '0', '0', Nat.digitChar (c.toNat / 16), Nat.digitChar (c.toNat % 16)]
  else [c]

def quote (s : String) : String :=
  String.ofList ('"' :: (s.toList.flatMap escapeChar ++ ['"']))

def floatText (x : Binary64) : String :=
  if x.isNaN then "NaN"
  else if x.isInfinite then (if x.isNegative then "-Infinity" else "Infinity")
  else x.text

def arrayText (items : List String) : String :=
  "[" ++ joinWith "," items ++ "]"

def objectText (entries : List String) : String :=
  "\x7b" ++ joinWith "," entries ++ "\x7d"

end Json

namespace Writing

def isOpenProperty (v : Variable) : Bool :=
  match v.storage with
  | .accessor (some _) (some _) => !v.isStatic && v.access == .public
  | _ => false

def openProperties (h : Heap) (c : ClassId) : List String :=
  let vars := (h.scopeAt (h.classAt c).scope).vars.entries
  (vars.filter fun (_, v) => isOpenProperty v).map (·.1)

def publicFields (h : Heap) (scope : ScopeId) : List (String × Value) :=
  (h.scopeAt scope).vars.entries.filterMap fun (name, v) =>
    if v.access = .public then v.value?.map fun value => (name, value) else none

def members (L : Level) (id : ObjectId) (scope : ScopeId) : Eval (List (String × Value)) := do
  let fields ← Eval.ask (publicFields · scope)
  let names ← Eval.ask fun h => openProperties h (h.objectAt id).type
  let properties ← Eval.mapList
    (fun name => do return (name, ← Member.get L (.object id) name Span.nowhere)) names
  return fields ++ properties

def textEntries : List (Value × Value) → Eval (List (String × Value))
  | [] => return []
  | (.str key, v) :: rest => do
    return (key, v) :: (← textEntries rest)
  | (key, _) :: _ => do
    Eval.fail (.cannotSerializeKey (← Eval.ask (·.display key)))

def object (L : Level) (outer : List ObjectId) (entries : List (String × Value)) :
    Eval String := do
  return Json.objectText (← Eval.mapList
    (fun (key, v) => do return Json.quote key ++ ":" ++ (← L.serialize outer v)) entries)

def container (id : ObjectId) (outer : List ObjectId) (x : List ObjectId → Eval String) :
    Eval String := do
  if outer.contains id then
    Eval.fail (.circularReference (← Eval.ask fun h => h.className (h.objectAt id).type))
  else x (id :: outer)

def refuse (v : Value) : Eval String := do
  Eval.fail (.cannotSerialize (← Eval.typeName v))

def writeObject (L : Level) (outer : List ObjectId) (id : ObjectId) : Eval String := do
  match ← Eval.ask (·.payloadOf id) with
  | .range r => return Json.arrayText (r.elements.map Word.text)
  | .enumerator _ | .host _ => refuse (.object id)
  | .list items =>
    container id outer fun outer => do
      return Json.arrayText (← Eval.mapList (L.serialize outer) items.toList)
  | .dict entries =>
    container id outer fun outer => do
      object L outer (← textEntries entries.entries)
  | .fields scope =>
    container id outer fun outer => do
      object L outer (← members L id scope)

def write (L : Level) (outer : List ObjectId) (v : Value) : Eval String :=
  match v with
  | .null => return "null"
  | .bool b => return if b then "true" else "false"
  | .int n => return Word.text n
  | .float x => return Json.floatText x
  | .decimal d => return d.text
  | .str s => return Json.quote s
  | .object id => writeObject L outer id
  | .function _ | .type _ => refuse v

end Writing

end ClassScript
