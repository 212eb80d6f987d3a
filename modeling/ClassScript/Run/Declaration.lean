import ClassScript.Run.Member
import ClassScript.Store.Inherit

/-!
# Declarations

The classes that parameters name and the values of their defaults are found when the function is
declared. A class is known by its name while its body is run, and takes over the members of its
super classes afterwards.
-/

namespace ClassScript

namespace Declaration

def resolveType (name : String) : Eval ClassId := do
  if name = "null" then return ClassId.null
  else
    let site ← Eval.scope
    match ← Eval.ask (·.lookup site name) with
    | some (.type c, _) => return c
    | some _ => Eval.fail (.notAClass name)
    | none => Eval.fail (.unknownType name)

def resolveTypes (names : TypeNames) : Eval (List ClassId) :=
  Eval.mapList resolveType names

def defineVariable (scope : ScopeId) (name : String) (v : Variable) : Eval Unit := do
  if ← Eval.ask fun h => (h.scopeAt scope).vars.contains name then
    Eval.fail (.alreadyDefined name)
  else Calling.setVariable scope name v

def addOverload (scope : ScopeId) (f : OverloadId) : Eval Unit :=
  Eval.change fun h => h.updateScope scope (Scope.addOverload h f)

def bindClass (scope : ScopeId) (name : String) (c : ClassId) : Eval Unit :=
  Eval.change (·.updateScope scope fun s => { s with classes := s.classes.insert name c })

def defaultValue (L : Level) : Option Expr → Eval (Option Value)
  | some e => do return some (← L.evaluate e)
  | none => return none

def parameter (L : Level) (p : Param) : Eval Parameter := do
  let accepted ← match p.types with
    | some names => pure (some (← Eval.locate p.span (resolveTypes names)))
    | none => pure none
  return ⟨p.name, accepted, ← defaultValue L p.default, p.variadic⟩

def access (m : Modifiers) : Access :=
  m.access.getD .public

def build (L : Level) (decl : FunctionDecl) (owner : Option ClassId) (closure : ScopeId) :
    Eval Overload := do
  let params ← Eval.mapList (parameter L) decl.params
  return ⟨decl.name, params, decl.modifiers.isStatic, access decl.modifiers, owner,
    .script decl.body closure, decl.span⟩

def function (L : Level) (decl : FunctionDecl) : Eval Unit := do
  let scope ← Eval.scope
  let f ← build L decl none scope
  addOverload scope (← Eval.create (·.newOverload f))

def lambda (L : Level) (decl : FunctionDecl) : Eval Value := do
  let f ← build L decl none (← Eval.scope)
  Eval.newFunction f.name [← Eval.create (·.newOverload f)] none

def initial (L : Level) : Option Expr → Eval Value
  | some e => L.evaluate e
  | none => return .null

def memberVariable (L : Level) (c : ClassId) (decl : VarDecl) : Eval Unit := do
  let info ← Eval.ask (·.classAt c)
  let level := access decl.modifiers
  if decl.modifiers.isStatic || decl.isConst || info.isStatic then
    let value ← initial L decl.initializer
    defineVariable info.scope decl.name ⟨.slot value, decl.isConst, true, level, some c⟩
  else if info.fields.any (·.name == decl.name) then
    Eval.fail (.alreadyDeclaresField info.name decl.name)
  else
    Eval.change (·.updateClass c fun k =>
      { k with fields := k.fields ++ [⟨decl.name, decl.initializer, level, c⟩] })

def accessor (c : ClassId) (info : Class) (decl : PropertyDecl) (span : Span)
    (params : List Parameter) (body : Option (List Stmt)) : Eval (Option OverloadId) :=
  match body with
  | none => return none
  | some body => do
    let isStatic := decl.modifiers.isStatic || info.isStatic
    return some (← Eval.create (·.newOverload
      ⟨decl.name, params, isStatic, access decl.modifiers, some c, .script body info.scope, span⟩))

def memberProperty (c : ClassId) (decl : PropertyDecl) (span : Span) : Eval Unit := do
  let info ← Eval.ask (·.classAt c)
  let getter ← accessor c info decl span [] decl.getter
  let setter ← accessor c info decl span [⟨"value", none, none, false⟩] decl.setter
  let isStatic := decl.modifiers.isStatic || info.isStatic
  defineVariable info.scope decl.name
    ⟨.accessor getter setter, false, isStatic, access decl.modifiers, some c⟩

def memberFunction (L : Level) (c : ClassId) (decl : FunctionDecl) : Eval Unit := do
  let info ← Eval.ask (·.classAt c)
  let f ← build L decl (some c) info.scope
  let f := if info.isStatic then { f with isStatic := true } else f
  addOverload info.scope (← Eval.create (·.newOverload f))

def member (L : Level) (c : ClassId) (stmt : Stmt) : Eval Unit :=
  Eval.locate stmt.span do
    match stmt with
    | .variable _ decl => memberVariable L c decl
    | .property span decl => memberProperty c decl span
    | .function decl => memberFunction L c decl
    | .class _ | .enum _ =>
      let _ ← L.execute stmt
    | _ => Eval.fail (.unexpectedMember (← Eval.ask (·.className c)))

def superClass (decl : ClassDecl) (name : String) : Eval ClassId := do
  let p ← resolveType name
  if (← Eval.ask fun h => (h.classAt p).isStatic) && !decl.modifiers.isStatic then
    Eval.fail (.staticSuper decl.name name)
  else return p

def classMembers (L : Level) (scope : ScopeId) (decl : ClassDecl) (c : ClassId) : Eval Unit := do
  bindClass scope decl.name c
  let body ← Eval.ask fun h => (h.classAt c).scope
  Eval.inScope body (Eval.forList (member L c) decl.body)

def classBody (L : Level) (decl : ClassDecl) : Eval ClassId := do
  let scope ← Eval.scope
  let isStatic := decl.modifiers.isStatic
  let named ← Eval.mapList (superClass decl) decl.supers
  let supers := if named.isEmpty && !isStatic then [ClassId.object] else named
  let c ← Eval.create
    (·.newClass (Class.fresh decl.name supers isStatic (access decl.modifiers)) (some scope))
  classMembers L scope decl c
  return c

/-- Declares a class in the current scope. It takes over the members of its super
    classes when its body has been run. -/
def classDecl (L : Level) (decl : ClassDecl) : Eval Unit := do
  let c ← classBody L decl
  Eval.change (·.flatten c)

def variantValue (L : Level) (next : Int64) : Option Expr → Eval Int64
  | some e => do
    let v ← L.evaluate e
    Eval.locate e.span (Eval.expectInt v)
  | none => return next

def variants (L : Level) (c : ClassId) (scope : ScopeId) :
    (next : Int64) → List (String × Option Expr) → Eval Unit
  | _, [] => return ()
  | next, (name, value) :: rest => do
    let n ← variantValue L next value
    defineVariable scope name ⟨.slot (.int n), true, true, .public, some c⟩
    variants L c scope (n + 1) rest

/-- Declares an enum in the current scope: a static class of constants, known by
    its name once all of them are. -/
def enumDecl (L : Level) (decl : EnumDecl) : Eval Unit := do
  let scope ← Eval.scope
  let c ← Eval.create
    (·.newClass (Class.fresh decl.name [] true (access decl.modifiers)) (some scope))
  let body ← Eval.ask fun h => (h.classAt c).scope
  variants L c body 0 decl.variants
  bindClass scope decl.name c

end Declaration

end ClassScript
