import ClassScript.Run.Machine
import ClassScript.Store.Inherit

/-!
# The World Before a Program Runs

The built-in classes, and the scope of the names that every program sees. Classes come first, so
that parameters and constants can speak about them; then their members; and last every class
takes over what it inherits.
-/

namespace ClassScript

namespace World

inductive Entry where
  | method (type : ClassId) (name : String) (params : List Parameter) (f : Native)
  | static (type : ClassId) (name : String) (params : List Parameter) (f : Native)
  | construct (type : ClassId) (params : List Parameter) (f : Native)
  | property (type : ClassId) (name : String) (f : Native)
  | constant (type : ClassId) (name : String) (value : Value)
  | field (type : ClassId) (name : String) (value : Literal)

def any (name : String) : Parameter :=
  ⟨name, none, none, false⟩

def typed (name : String) (type : ClassId) : Parameter :=
  ⟨name, some [type], none, false⟩

def variadic (name : String) : Parameter :=
  ⟨name, none, none, true⟩

def withDefault (p : Parameter) (v : Value) : Parameter :=
  { p with default := some v }

def kindClass (name : String) (kind : BuiltinKind) (supers : List ClassId) (isStatic : Bool) :
    Class :=
  { Class.fresh name supers isStatic .public with builtin := some kind }

def classes : List Class :=
  let derived := fun name kind isStatic => kindClass name kind [ClassId.object] isStatic
  [kindClass "object" .object [] false,
   derived "null" .null true,
   derived "int" .int false,
   derived "float" .float false,
   derived "decimal" .decimal false,
   derived "bool" .bool false,
   derived "str" .str false,
   derived "list" .list false,
   derived "dict" .dict false,
   derived "range" .range false,
   derived "enumerator" .enumerator true,
   derived "function" .function true,
   derived "type" .type true,
   Class.fresh "Exception" [ClassId.object] false .public]
  ++ FaultKind.catchable.map (fun kind =>
    Class.fresh kind.exceptionName [ClassId.exception] false .public)
  ++ [Class.fresh "Json5" [] true .public]

def objectEntries : List Entry :=
  [.method ClassId.object "ToString" [] (.object .toString),
   .method ClassId.object "Equals" [any "other"] (.object .equals),
   .method ClassId.object "GetType" [] (.object .getType)]

def numberEntries : List Entry :=
  [.construct ClassId.int [withDefault (any "value") (.int 0)] (.number .int),
   .static ClassId.int "Parse" [typed "text" ClassId.str] (.number .intParse),
   .method ClassId.int "Abs" [] (.number .intAbs),
   .constant ClassId.int "MaxValue" (.int Int64.maxValue),
   .constant ClassId.int "MinValue" (.int Int64.minValue),
   .construct ClassId.float [withDefault (any "value") (.float (.zero false))] (.number .float),
   .static ClassId.float "Parse" [typed "text" ClassId.str] (.number .floatParse),
   .method ClassId.float "Floor" [] (.number .floor),
   .method ClassId.float "Ceiling" [] (.number .ceiling),
   .method ClassId.float "Round" [] (.number .round),
   .method ClassId.float "Abs" [] (.number .floatAbs),
   .method ClassId.float "Sqrt" [] (.number .sqrt),
   .method ClassId.float "IsNaN" [] (.number .isNaN),
   .construct ClassId.decimal [withDefault (any "value") (.int 0)] (.number .decimal),
   .method ClassId.decimal "Round" [withDefault (typed "digits" ClassId.int) (.int 0)]
     (.number .decimalRound),
   .method ClassId.decimal "Abs" [] (.number .decimalAbs),
   .construct ClassId.bool [withDefault (any "value") (.bool false)] (.number .bool)]

def textEntries : List Entry :=
  [.construct ClassId.str [withDefault (any "value") (.str "")] (.text .str),
   .property ClassId.str "Length" (.text .length),
   .method ClassId.str "ToUpper" [] (.text .toUpper),
   .method ClassId.str "ToLower" [] (.text .toLower),
   .method ClassId.str "Trim" [] (.text .trim),
   .method ClassId.str "Split" [typed "separator" ClassId.str] (.text .split),
   .method ClassId.str "Contains" [typed "needle" ClassId.str] (.text .contains),
   .method ClassId.str "StartsWith" [typed "prefix" ClassId.str] (.text .startsWith),
   .method ClassId.str "EndsWith" [typed "suffix" ClassId.str] (.text .endsWith),
   .method ClassId.str "Replace" [typed "from" ClassId.str, typed "to" ClassId.str]
     (.text .replace),
   .method ClassId.str "Substring"
     [typed "start" ClassId.int, withDefault (typed "length" ClassId.int) (.int (-1))]
     (.text .substring),
   .method ClassId.str "IndexOf" [typed "needle" ClassId.str] (.text .indexOf),
   .method ClassId.str "GetEnumerator" [] (.text .getEnumerator)]

def reflectionEntries : List Entry :=
  [.property ClassId.type "Name" (.reflection .typeName),
   .property ClassId.function "Name" (.reflection .functionName),
   .method ClassId.type "IsSubclassOf" [any "other"] (.reflection .isSubclassOf)]

def listEntries : List Entry :=
  [.construct ClassId.list [variadic "items"] (.list .list),
   .property ClassId.list "Count" (.list .count),
   .method ClassId.list "Add" [any "item"] (.list .add),
   .method ClassId.list "Insert" [typed "index" ClassId.int, any "item"] (.list .insert),
   .method ClassId.list "RemoveAt" [typed "index" ClassId.int] (.list .removeAt),
   .method ClassId.list "Remove" [any "item"] (.list .remove),
   .method ClassId.list "Contains" [any "item"] (.list .contains),
   .method ClassId.list "IndexOf" [any "item"] (.list .indexOf),
   .method ClassId.list "Clear" [] (.list .clear),
   .method ClassId.list "Copy" [] (.list .copy),
   .method ClassId.list "Reverse" [] (.list .reverse),
   .method ClassId.list "Sort" [] (.list .sort),
   .method ClassId.list "Join" [withDefault (typed "separator" ClassId.str) (.str "")]
     (.list .join),
   .method ClassId.list "GetEnumerator" [] (.list .getEnumerator)]

def dictEntries : List Entry :=
  [.construct ClassId.dict [] (.dict .dict),
   .property ClassId.dict "Count" (.dict .count),
   .property ClassId.dict "Keys" (.dict .keys),
   .property ClassId.dict "Values" (.dict .values),
   .method ClassId.dict "ContainsKey" [any "key"] (.dict .containsKey),
   .method ClassId.dict "Remove" [any "key"] (.dict .remove),
   .method ClassId.dict "Get" [any "key", withDefault (any "default") .null] (.dict .get),
   .method ClassId.dict "Clear" [] (.dict .clear),
   .method ClassId.dict "Copy" [] (.dict .copy),
   .method ClassId.dict "GetEnumerator" [] (.dict .getEnumerator)]

def sequenceEntries : List Entry :=
  [.construct ClassId.range
     [typed "start" ClassId.int, typed "end" ClassId.int,
      withDefault (typed "step" ClassId.int) (.int 1)]
     (.sequence .range),
   .property ClassId.range "Start" (.sequence .start),
   .property ClassId.range "End" (.sequence .stop),
   .property ClassId.range "Step" (.sequence .step),
   .property ClassId.range "Count" (.sequence .count),
   .method ClassId.range "Contains" [any "value"] (.sequence .contains),
   .method ClassId.range "GetEnumerator" [] (.sequence .getEnumerator),
   .property ClassId.enumerator "Current" (.sequence .current),
   .method ClassId.enumerator "MoveNext" [] (.sequence .moveNext),
   .method ClassId.enumerator "Reset" [] (.sequence .reset),
   .method ClassId.enumerator "GetEnumerator" [] (.sequence .itself)]

def exceptionConstructor (type : ClassId) (name : String) : Entry :=
  .method type name [withDefault (typed "message" ClassId.str) (.str "")] (.exception .construct)

def exceptionEntries : List Entry :=
  [.field ClassId.exception "Message" (.str ""),
   .field ClassId.exception "Line" (.int 0),
   exceptionConstructor ClassId.exception "Exception"]
  ++ FaultKind.catchable.map (fun kind =>
    exceptionConstructor (ClassId.ofFault kind) kind.exceptionName)
  ++ [.method ClassId.exception "ToString" [] (.exception .toString)]

def jsonEntries : List Entry :=
  [.static ClassId.json5 "Serialize" [any "value"] (.json .serialize),
   .static ClassId.json5 "Parse" [typed "text" ClassId.str] (.json .parse),
   .static ClassId.json5 "Deserialize" [typed "text" ClassId.str, typed "type" ClassId.type]
     (.json .deserialize)]

def entries : List Entry :=
  objectEntries ++ numberEntries ++ textEntries ++ reflectionEntries ++ listEntries ++ dictEntries
    ++ sequenceEntries ++ exceptionEntries ++ jsonEntries

def numberOperators : List Operator :=
  [.add, .sub, .mul, .div, .mod, .lt, .le, .gt, .ge, .eq, .ne, .neg, .pos]

def operators : List (ClassId × OperatorFamily × List Operator) :=
  [(ClassId.object, .object, [.eq, .ne]),
   (ClassId.int, .number, numberOperators),
   (ClassId.float, .number, numberOperators),
   (ClassId.decimal, .number, numberOperators),
   (ClassId.bool, .bool, [.not, .and, .or, .eq, .ne]),
   (ClassId.null, .null, [.not]),
   (ClassId.str, .str, [.eq, .ne, .lt, .le, .gt, .ge, .mul, .index]),
   (ClassId.list, .list, [.add, .mul, .eq, .ne, .index, .indexSet]),
   (ClassId.dict, .dict, [.eq, .ne, .index, .indexSet]),
   (ClassId.range, .range, [.eq, .ne]),
   (ClassId.function, .function, [.eq, .ne])]

def addFunction (h : Heap) (scope : ScopeId) (f : Overload) : Heap :=
  let (id, h) := h.newOverload f
  h.updateScope scope (Scope.addOverload h id)

def addVariable (h : Heap) (scope : ScopeId) (name : String) (v : Variable) : Heap :=
  h.updateScope scope fun s => { s with vars := s.vars.insert name v }

def member (type : ClassId) (name : String) (params : List Parameter) (isStatic : Bool)
    (f : Native) : Overload :=
  ⟨name, params, isStatic, .public, some type, .native f, ⟨0, 0, 0⟩⟩

def install (h : Heap) (e : Entry) : Heap :=
  match e with
  | .method type name params f =>
    addFunction h (h.classAt type).scope (member type name params false f)
  | .static type name params f =>
    addFunction h (h.classAt type).scope (member type name params true f)
  | .construct type params f =>
    let c := h.classAt type
    let h := addFunction h c.scope (member type c.name params true f)
    h.updateClass type fun c => { c with nativeConstruct := true }
  | .property type name f =>
    let (getter, h) := h.newOverload (member type name [] false f)
    addVariable h (h.classAt type).scope name
      ⟨.accessor (some getter) none, false, false, .public, some type⟩
  | .constant type name value =>
    addVariable h (h.classAt type).scope name ⟨.slot value, true, true, .public, some type⟩
  | .field type name value =>
    let initializer := Expr.literal ⟨0, 0, 0⟩ value
    h.updateClass type fun c =>
      { c with fields := c.fields ++ [⟨name, some initializer, .public, type⟩] }

def installOperators (h : Heap) (row : ClassId × OperatorFamily × List Operator) : Heap :=
  let (type, family, ops) := row
  h.updateClass type fun c =>
    { c with operators := ops.foldl (fun table op => table.insert op family) c.operators }

def classHeap : Heap :=
  let bare := classes.foldl (fun h c => (h.newClass c none).2) Heap.empty
  let full := operators.foldl installOperators (entries.foldl install bare)
  ((List.range classes.length).drop 1).foldl Heap.flatten full

def functions : List Overload :=
  let make := fun name params f =>
    Overload.mk name params false .public none (.native (.global f)) ⟨0, 0, 0⟩
  [make "print" [variadic "values"] .print,
   make "println" [variadic "values"] .println,
   make "typeof" [any "value"] .typeof,
   make "len" [any "value"] .len]

def bindClass (h : Heap) (scope : ScopeId) (type : ClassId) : Heap :=
  let name := h.className type
  h.updateScope scope fun s => { s with classes := s.classes.insert name type }

def heap : ScopeId × Heap :=
  let (globals, h) := classHeap.newScope .module none
  let h := (List.range classes.length).foldl (fun h c => bindClass h globals c) h
  (globals, functions.foldl (fun h f => addFunction h globals f) h)

def hostName : HostClass → String
  | .tally => "Tally"
  | .blank => "Blank"

def registerHost (globals : ScopeId) (h : Heap) (kind : HostClass) : Heap :=
  let c := { Class.fresh (hostName kind) [ClassId.object] false .public with host := some kind }
  let (id, h) := h.newClass c (some globals)
  bindClass (h.flatten id) globals id

end World

def Machine.initial (config : Config) (disk : Disk) (hosts : List HostClass) : Machine :=
  let (globals, h) := World.heap
  let h := hosts.foldl (World.registerHost globals) h
  let (scope, h) := h.newScope .module (some globals)
  ⟨h, ⟨scope, 0, [], [], []⟩, [], "", config, disk, globals⟩

end ClassScript
