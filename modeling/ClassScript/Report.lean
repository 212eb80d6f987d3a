import ClassScript.Store.Display

/-!
# Reports on Classes, Functions and Scopes

What tools that look into a program see, in the order in which it was added.
-/

namespace ClassScript

structure FunctionReport where
  description : String
  owner : Option String
  access : String
  isStatic : Bool
  isConstructor : Bool
  isVariadic : Bool
  span : Span

structure VariableReport where
  name : String
  storage : String
  isConst : Bool
  isStatic : Bool
  access : String
  owner : Option String

structure ScopeReport where
  description : String
  functions : List (String × List FunctionReport)
  vars : List VariableReport

structure FieldReport where
  name : String
  access : String
  owner : String
  hasInitializer : Bool

structure ClassReport where
  description : String
  access : String
  builtin : Option BuiltinKind
  nativeConstruct : Bool
  constructors : Option Nat
  fields : List FieldReport
  scope : ScopeReport
  ancestors : Option (String × ScopeReport)

def recordText (name : String) (parts : List (String × String)) : String :=
  name ++ " \x7b " ++ joinWith ", " (parts.map fun (key, text) => key ++ ": " ++ text) ++ " \x7d"

def quotedList (names : List String) : String :=
  listText (names.map Text.quote)

def boolText (b : Bool) : String :=
  if b then "true" else "false"

namespace Heap

def functionText (h : Heap) (id : OverloadId) : String :=
  "<fn " ++ h.signature id ++ ">"

def reportFunction (h : Heap) (id : OverloadId) : FunctionReport :=
  let f := h.overloadAt id
  { description := h.functionText id
    owner := f.owner.map h.className
    access := f.access.name
    isStatic := f.isStatic
    isConstructor := h.isConstructor f
    isVariadic := f.params.getLast?.any (·.variadic)
    span := f.span }

def storageText (h : Heap) : Storage → String
  | .slot value => "slot " ++ h.inspect value
  | .accessor getter setter =>
    "accessor" ++ (if getter.isSome then " get" else "") ++ (if setter.isSome then " set" else "")

def reportVariable (h : Heap) (name : String) (v : Variable) : VariableReport :=
  ⟨name, h.storageText v.storage, v.isConst, v.isStatic, v.access.name, v.owner.map h.className⟩

def kindText : ScopeKind → String
  | .module => "module"
  | .block => "block"
  | .frame _ _ => "function"
  | .classBody _ => "class"
  | .fields _ => "object"

def reportScope (h : Heap) (id : ScopeId) : ScopeReport :=
  let s := h.scopeAt id
  { description := recordText "Scope"
      [("kind", Text.quote (kindText s.kind)),
       ("variables", quotedList s.vars.keys),
       ("functions", quotedList s.functions.keys),
       ("classes", quotedList s.classes.keys)]
    functions := s.functions.entries.map fun (name, family) => (name, family.map h.reportFunction)
    vars := s.vars.entries.map fun (name, v) => h.reportVariable name v }

def reportField (h : Heap) (f : FieldInit) : FieldReport :=
  ⟨f.name, f.access.name, h.className f.owner, f.initializer.isSome⟩

def reportClass (h : Heap) (id : ClassId) : ClassReport :=
  let c := h.classAt id
  let constructors := h.constructors id
  { description := recordText "Class"
      [("name", Text.quote c.name),
       ("supers", quotedList (c.supers.map h.className)),
       ("is_static", boolText c.isStatic)]
    access := c.access.name
    builtin := c.builtin
    nativeConstruct := c.nativeConstruct
    constructors := if constructors.isEmpty then none else some constructors.length
    fields := c.fields.map h.reportField
    scope := h.reportScope c.scope
    ancestors := c.ancestors.map fun a => (h.className a, h.reportScope (h.classAt a).scope) }

def callableText (h : Heap) (c : Callable) : String :=
  recordText "FunctionSet"
    [("name", Text.quote c.name), ("overloads", listText (c.overloads.map h.functionText))]

end Heap

end ClassScript
