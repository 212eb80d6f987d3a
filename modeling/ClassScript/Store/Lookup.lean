import ClassScript.Store.Builtin

/-!
# Finding Names

A name is looked up along the parents of a scope, the innermost first. The parent of a method's
frame is the scope of the receiver's fields; the defining scopes of the frames on the way are
searched after all parents. Access is decided along the lexical chain, on which a frame is followed
by its defining scope.
-/

namespace ClassScript

inductive Binding where
  | type (id : ClassId)
  | family (overloads : List OverloadId)
  | variable (v : Variable)
deriving Repr

/-- What a name stands for in a scope itself. Classes come before functions, and
    those before variables. -/
def Scope.local? (s : Scope) (name : String) : Option Binding :=
  match s.classes.find? name with
  | some id => some (.type id)
  | none =>
    match s.functions.find? name with
    | some overloads => some (.family overloads)
    | none => (s.vars.find? name).map .variable

def Scope.lexicalParent (s : Scope) : Option ScopeId :=
  match s.kind with
  | .frame closure _ => some closure
  | _ => s.parent

def Scope.detachedClosure? (s : Scope) : Option ScopeId :=
  match s.kind with
  | .frame closure _ => if s.parent = some closure then none else some closure
  | _ => none

namespace Heap

def follow (h : Heap) (link : Scope → Option ScopeId) : (n : Nat) → Option ScopeId → List ScopeId
  | 0, _ => []
  | _ + 1, none => []
  | n + 1, some id => id :: follow h link n (link (h.scopeAt id))

def chain (h : Heap) (id : ScopeId) : List ScopeId :=
  h.follow Scope.parent (id + 1) (some id)

def lexicalChain (h : Heap) (id : ScopeId) : List ScopeId :=
  h.follow Scope.lexicalParent (id + 1) (some id)

def findAlong (h : Heap) (name : String) : List ScopeId → Option (Binding × ScopeId)
  | [] => none
  | id :: rest =>
    match (h.scopeAt id).local? name with
    | some binding => some (binding, id)
    | none => findAlong h name rest

def lookupWithin (h : Heap) (name : String) : (n : Nat) → ScopeId → Option (Binding × ScopeId)
  | 0, _ => none
  | n + 1, id =>
    let scopes := h.chain id
    match h.findAlong name scopes with
    | some found => some found
    | none =>
      let closures := scopes.filterMap fun s => (h.scopeAt s).detachedClosure?
      closures.findSome? fun closure => lookupWithin h name n closure

def lookup (h : Heap) (id : ScopeId) (name : String) : Option (Binding × ScopeId) :=
  h.lookupWithin name (id + 1) id

/-- Whether anything refers to a class. Its own members do not keep it: when its name has been
    given to another class and nothing else knows it, it is gone. -/
def held (h : Heap) (c : ClassId) : Bool :=
  h.scopes.any (fun s => s.classes.values.contains c ||
    s.vars.values.any (·.value? == some (.type c))) ||
  h.objects.any (fun o => o.type == c || o.payload.values.contains (.type c)) ||
  h.classes.any (fun k => k.supers.contains c || k.ancestors == some c) ||
  h.callables.any (·.receiver == some (.type c)) ||
  h.overloads.any (·.params.any fun p =>
    p.accepted.any (·.contains c) || p.default == some (.type c))

def lexicalClasses (h : Heap) (id : ScopeId) : List ClassId :=
  (h.lexicalChain id).filterMap fun s => Option.filter h.held <|
    match (h.scopeAt s).kind with
    | .classBody c => some c
    | _ => none

def instanceOf? (s : Scope) : Option ObjectId :=
  match s.kind with
  | .frame _ receiver => receiver
  | .fields object => some object
  | _ => none

def currentObject (h : Heap) (id : ScopeId) : Option ObjectId :=
  (h.chain id).findSome? fun s => instanceOf? (h.scopeAt s)

def inheritsWithin (h : Heap) (ancestor : ClassId) : (n : Nat) → ClassId → Bool
  | 0, _ => false
  | n + 1, c => c == ancestor || (h.classAt c).supers.any fun p => inheritsWithin h ancestor n p

def inherits (h : Heap) (c ancestor : ClassId) : Bool :=
  h.inheritsWithin ancestor (c + 1) c

/-- Whether code in a scope may use a member: a private one inside the owner's body, a protected
one also inside subclasses. -/
def canAccess (h : Heap) (site : ScopeId) (access : Access) (owner : Option ClassId) : Bool :=
  match owner with
  | none => true
  | some c =>
    match access with
    | .public | .internal => true
    | .private => (h.lexicalChain site).contains (h.classAt c).scope
    | .protected => (h.lexicalClasses site).any fun d => h.inherits d c

/-- Whether code may use a member that only knows the number of its owner. What belonged to a class
that is gone is open to all. -/
def mayUse (h : Heap) (site : ScopeId) (access : Access) (owner : Option ClassId) : Bool :=
  h.canAccess site access owner || !owner.all h.held

def family? (h : Heap) (c : ClassId) (name : String) : Option (List OverloadId) :=
  (h.scopeAt (h.classAt c).scope).functions.find? name

def classVariable? (h : Heap) (c : ClassId) (name : String) : Option Variable :=
  (h.scopeAt (h.classAt c).scope).vars.find? name

def isConstructor (h : Heap) (f : Overload) : Bool :=
  f.owner.any fun c => h.className c == f.name

def constructors (h : Heap) (c : ClassId) : List OverloadId :=
  ((h.family? c (h.className c)).getD []).filter fun id => h.isConstructor (h.overloadAt id)

end Heap

end ClassScript
