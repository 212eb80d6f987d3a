import ClassScript.Store.Lookup

/-!
# Inheritance

When its body has been run, a class takes over the members of its super classes. They are merged
into a class of their own first: a later member displaces an earlier one of the same shape,
unless the earlier one's declaring class inherits from the later one's. Then the class takes
what it does not have yet, except constructors.
-/

namespace ClassScript

def sameClasses (a b : List ClassId) : Bool :=
  a.length == b.length && a.all b.contains

def Parameter.sameShape (a b : Parameter) : Bool :=
  a.variadic == b.variadic &&
    match a.accepted, b.accepted with
    | none, none => true
    | some left, some right => sameClasses left right
    | _, _ => false

def Overload.sameShape (a b : Overload) : Bool :=
  a.params.length == b.params.length &&
    (a.params.zip b.params).all fun (p, q) => p.sameShape q

namespace Heap

def sameShape (h : Heap) (f g : OverloadId) : Bool :=
  (h.overloadAt f).sameShape (h.overloadAt g)

def insertOverload (h : Heap) (f : OverloadId) : List OverloadId → List OverloadId
  | [] => [f]
  | g :: rest => if h.sameShape g f then f :: rest else g :: insertOverload h f rest

/-- Whether an incoming member displaces one that is there: not if the declaring
    class of that one inherits from the incoming member's. -/
def displaces (h : Heap) (existing incoming : Option ClassId) : Bool :=
  match existing, incoming with
  | some old, some new => !h.inherits old new
  | _, _ => true

end Heap

def Scope.addOverload (h : Heap) (f : OverloadId) (s : Scope) : Scope :=
  let name := (h.overloadAt f).name
  let family := (s.functions.find? name).getD []
  { s with functions := s.functions.insert name (h.insertOverload f family) }

inductive MergeMode where
  | replace
  | keep
deriving DecidableEq, Repr

namespace Scope

def mergeOverload (h : Heap) (mode : MergeMode) (f : OverloadId) :
    List OverloadId → List OverloadId
  | [] => [f]
  | g :: rest =>
    if h.sameShape g f then
      if mode = .replace ∧ h.displaces (h.overloadAt g).owner (h.overloadAt f).owner then f :: rest
      else g :: rest
    else g :: mergeOverload h mode f rest

def mergeFamily (h : Heap) (mode : MergeMode) (target : Scope) (name : String)
    (family : List OverloadId) : Scope :=
  family.foldl (fun s f =>
    if mode = .keep ∧ h.isConstructor (h.overloadAt f) then s
    else
      let there := (s.functions.find? name).getD []
      { s with functions := s.functions.insert name (mergeOverload h mode f there) }) target

def mergeClass (mode : MergeMode) (target : Scope) (name : String) (c : ClassId) : Scope :=
  if mode = .replace ∨ !target.classes.contains name then
    { target with classes := target.classes.insert name c }
  else target

def mergeVariable (h : Heap) (mode : MergeMode) (target : Scope) (name : String)
    (v : Variable) : Scope :=
  let wins : Bool := match target.vars.find? name with
    | none => true
    | some existing => mode == .replace && h.displaces existing.owner v.owner
  if wins then { target with vars := target.vars.insert name v } else target

def merge (h : Heap) (mode : MergeMode) (source target : Scope) : Scope :=
  let withClasses :=
    source.classes.entries.foldl (fun s (name, c) => mergeClass mode s name c) target
  let withFunctions :=
    source.functions.entries.foldl (fun s (name, fs) => mergeFamily h mode s name fs) withClasses
  source.vars.entries.foldl (fun s (name, v) => mergeVariable h mode s name v) withFunctions

end Scope

namespace Heap

def mergeScopes (h : Heap) (mode : MergeMode) (source target : ScopeId) : Heap :=
  let members := h.scopeAt source
  h.updateScope target fun s => Scope.merge h mode members s

/-- Takes over what a super class has into the class of the ancestors' members:
    what that class has for its own ancestors first. -/
def mergeSuper (h : Heap) (target : ScopeId) (super : ClassId) : Heap :=
  let p := h.classAt super
  let h := match p.ancestors with
    | some grand => h.mergeScopes .replace (h.classAt grand).scope target
    | none => h
  h.mergeScopes .replace p.scope target

def inheritedFields (h : Heap) (supers : List ClassId) : List FieldInit :=
  (supers.flatMap fun p => (h.classAt p).fields).foldl (fun seen f =>
    if seen.any fun g => g.name == f.name && g.owner == f.owner then seen else seen ++ [f]) []

def inheritedOperators (h : Heap) (c : Class) : OrderedMap Operator OperatorFamily :=
  let all := (c.supers.flatMap fun p => (h.classAt p).operators.entries) ++ c.operators.entries
  OrderedMap.ofList all

def flatten (h : Heap) (id : ClassId) : Heap :=
  let c := h.classAt id
  if c.supers.isEmpty then h
  else
    let shadow := Class.fresh (c.name ++ ".super") [] true .private
    let (ancestors, h) := h.newClass shadow (h.scopeAt c.scope).parent
    let target := (h.classAt ancestors).scope
    let h := c.supers.foldl (fun h p => h.mergeSuper target p) h
    let h := h.mergeScopes .keep target c.scope
    let fields := h.inheritedFields c.supers ++ c.fields
    let operators := h.inheritedOperators c
    h.updateClass id fun c =>
      { c with ancestors := some ancestors, fields := fields, operators := operators }

def exportedScope (h : Heap) (source target : Scope) : Scope :=
  let visible (family : List OverloadId) :=
    family.filter fun f => (h.overloadAt f).access != .private
  { target with
    classes := source.classes.filterMap fun _ c =>
      if (h.classAt c).access = .private then none else some c
    functions := source.functions.filterMap fun _ family =>
      if (visible family).isEmpty then none else some (visible family)
    vars := source.vars.filterMap fun _ v =>
      if v.access = .private then none else some { v with isStatic := true } }

def exportClass (h : Heap) (name : String) (source : ScopeId) (parent : Option ScopeId) :
    ClassId × Heap :=
  let (id, h) := h.newClass (Class.fresh name [] true .public) parent
  let members := h.scopeAt source
  (id, h.updateScope (h.classAt id).scope (h.exportedScope members))

end Heap

end ClassScript
