import ClassScript.Store.Value

/-!
# The Heap

Everything with an identity is named by its place in the order of creation, and nothing is ever
removed, so a link to something older is a link to a smaller number. A class and the scope of
its members are created together, and so are an instance and the scope of its fields.
-/

namespace ClassScript

inductive Storage where
  | slot (value : Value)
  | accessor (getter setter : Option OverloadId)
deriving DecidableEq, Repr

structure Variable where
  storage : Storage
  isConst : Bool
  isStatic : Bool
  access : Access
  owner : Option ClassId
deriving DecidableEq, Repr

namespace Variable

def plain (value : Value) : Variable :=
  ⟨.slot value, false, false, .public, none⟩

instance : Inhabited Variable := ⟨plain .null⟩

def value? (v : Variable) : Option Value :=
  match v.storage with
  | .slot value => some value
  | .accessor _ _ => none

def withValue (v : Variable) (value : Value) : Variable :=
  match v.storage with
  | .slot _ => { v with storage := .slot value }
  | .accessor _ _ => v

end Variable

/-- What a scope belongs to. A call frame knows the scope in which its function
    was defined, and the instance it was called on. -/
inductive ScopeKind where
  | module
  | block
  | frame (closure : ScopeId) (receiver : Option ObjectId)
  | classBody (type : ClassId)
  | fields (object : ObjectId)
deriving DecidableEq, Repr

structure Scope where
  parent : Option ScopeId
  kind : ScopeKind
  vars : OrderedMap String Variable
  functions : OrderedMap String (List OverloadId)
  classes : OrderedMap String ClassId
deriving Repr

def Scope.fresh (kind : ScopeKind) (parent : Option ScopeId) : Scope :=
  ⟨parent, kind, .empty, .empty, .empty⟩

instance : Inhabited Scope := ⟨Scope.fresh .module none⟩

structure Parameter where
  name : String
  accepted : Option (List ClassId)
  default : Option Value
  variadic : Bool
deriving DecidableEq, Repr

inductive Body where
  | script (body : List Stmt) (closure : ScopeId)
  | native (f : Native)

structure Overload where
  name : String
  params : List Parameter
  isStatic : Bool
  access : Access
  owner : Option ClassId
  body : Body
  span : Span

instance : Inhabited Overload :=
  ⟨⟨"", [], false, .public, none, .native (.global .len), default⟩⟩

structure Callable where
  name : String
  overloads : List OverloadId
  receiver : Option Value
deriving Inhabited, Repr

structure FieldInit where
  name : String
  initializer : Option Expr
  access : Access
  owner : ClassId

/-- A class. Members of its ancestors are merged into its scope, and into a second class that only
they are in, when the class body has been run. -/
structure Class where
  name : String
  id : ClassId
  scope : ScopeId
  supers : List ClassId
  isStatic : Bool
  access : Access
  builtin : Option BuiltinKind
  host : Option HostClass
  ancestors : Option ClassId
  fields : List FieldInit
  operators : OrderedMap Operator OperatorFamily
  nativeConstruct : Bool

def Class.fresh (name : String) (supers : List ClassId) (isStatic : Bool) (access : Access) :
    Class :=
  ⟨name, 0, 0, supers, isStatic, access, none, none, none, [], .empty, false⟩

instance : Inhabited Class := ⟨Class.fresh "" [] false .public⟩

structure Heap where
  scopes : Array Scope
  classes : Array Class
  objects : Array Object
  overloads : Array Overload
  callables : Array Callable

namespace Heap

def empty : Heap :=
  ⟨#[], #[], #[], #[], #[]⟩

instance : Inhabited Heap := ⟨empty⟩

def scopeAt (h : Heap) (id : ScopeId) : Scope :=
  h.scopes.getD id default

def classAt (h : Heap) (id : ClassId) : Class :=
  h.classes.getD id default

def objectAt (h : Heap) (id : ObjectId) : Object :=
  h.objects.getD id default

def overloadAt (h : Heap) (id : OverloadId) : Overload :=
  h.overloads.getD id default

def callableAt (h : Heap) (id : CallableId) : Callable :=
  h.callables.getD id default

def newScope (h : Heap) (kind : ScopeKind) (parent : Option ScopeId) : ScopeId × Heap :=
  (h.scopes.size, { h with scopes := h.scopes.push (.fresh kind parent) })

def newClass (h : Heap) (c : Class) (parent : Option ScopeId) : ClassId × Heap :=
  let id := h.classes.size
  let (scope, h) := h.newScope (.classBody id) parent
  (id, { h with classes := h.classes.push { c with id := id, scope := scope } })

def newObject (h : Heap) (type : ClassId) (payload : Payload) : ObjectId × Heap :=
  (h.objects.size, { h with objects := h.objects.push ⟨type, payload⟩ })

def newInstance (h : Heap) (type : ClassId) : ObjectId × Heap :=
  let id := h.objects.size
  let c := h.classAt type
  let (scope, h) := h.newScope (.fields id) (some c.scope)
  h.newObject c.id (.fields scope)

def newOverload (h : Heap) (f : Overload) : OverloadId × Heap :=
  (h.overloads.size, { h with overloads := h.overloads.push f })

def newCallable (h : Heap) (c : Callable) : CallableId × Heap :=
  (h.callables.size, { h with callables := h.callables.push c })

def updateScope (h : Heap) (id : ScopeId) (f : Scope → Scope) : Heap :=
  { h with scopes := h.scopes.modify id f }

def updateClass (h : Heap) (id : ClassId) (f : Class → Class) : Heap :=
  { h with classes := h.classes.modify id f }

def updatePayload (h : Heap) (id : ObjectId) (f : Payload → Payload) : Heap :=
  { h with objects := h.objects.modify id fun o => { o with payload := o.payload.change f } }

def setPayload (h : Heap) (id : ObjectId) (payload : Payload) : Heap :=
  h.updatePayload id fun _ => payload

end Heap

end ClassScript
