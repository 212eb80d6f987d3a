import ClassScript.Run.Level

/-!
# Calling

Functions choose among their overloads, and classes make an instance. A new instance first gets
its fields, those of ancestors first; each initializer runs in a frame inside the instance,
defined in the class that declared the field.
-/

namespace ClassScript

namespace Calling

def parameterValues (b : Bound) : Eval (List Value) :=
  match b.rest with
  | none => return b.fixed
  | some items => do
    return b.fixed ++ [← Eval.newList items.toArray]

def family (L : Level) (name : String) (overloads : List OverloadId) (receiver : Option Value)
    (a : Arguments) (span : Span) : Eval Value := do
  match ← Eval.ask (·.resolve overloads a) with
  | some (f, bound) => L.invoke f receiver (← parameterValues bound) span
  | none =>
    let offered ← Eval.ask (·.argumentsText a)
    Eval.fail (.noOverload name offered (← Eval.ask (·.signatures overloads)))

def setVariable (scope : ScopeId) (name : String) (v : Variable) : Eval Unit :=
  Eval.change (·.updateScope scope fun s => { s with vars := s.vars.insert name v })

def fieldValue (L : Level) (object : ObjectId) (scope : ScopeId) (f : FieldInit) : Eval Value := do
  match f.initializer with
  | none => return .null
  | some e =>
    let closure ← Eval.ask fun h => (h.classAt f.owner).scope
    let frame ← Eval.create (·.newScope (.frame closure (some object)) (some scope))
    Eval.inScope frame (L.evaluate e)

def initializeField (L : Level) (object : ObjectId) (scope : ScopeId) (f : FieldInit) :
    Eval Unit := do
  let v ← fieldValue L object scope f
  setVariable scope f.name ⟨.slot v, false, false, f.access, some f.owner⟩

def instantiate (L : Level) (c : ClassId) : Eval ObjectId := do
  let object ← Eval.create (·.newInstance c)
  match ← Eval.ask (·.fieldScope? (.object object)) with
  | none => return object
  | some scope =>
    let fields ← Eval.ask fun h => (h.classAt c).fields
    Eval.forList (initializeField L object scope) fields
    return object

def hostObject (kind : HostClass) (arguments : List Value) : Eval HostObject :=
  match kind with
  | .tally =>
    match arguments with
    | [] => return .tally 0
    | first :: _ => return .tally (← Eval.expectInt first)
  | .blank => return .blank

/-- Calls a class. A static class cannot be called; host and built-in classes make their own
instances. -/
def construct (L : Level) (c : ClassId) (a : Arguments) (span : Span) : Eval Value := do
  let info ← Eval.ask (·.classAt c)
  if info.isStatic then Eval.fail (.staticInstance info.name)
  else
    match info.host with
    | some kind =>
      let state ← hostObject kind (a.positional ++ a.named.map (·.2))
      return .object (← Eval.create (·.newObject c (.host state)))
    | none =>
      if info.nativeConstruct then
        match ← Eval.ask (·.family? c info.name) with
        | some overloads => family L info.name overloads none a span
        | none => Eval.fail (.noConstructor info.name)
      else
        let object := Value.object (← instantiate L c)
        match ← Eval.ask (·.constructors c) with
        | [] =>
          if a.isEmpty then return object else Eval.fail (.noConstructorArguments info.name)
        | overloads =>
          let _ ← family L info.name overloads (some object) a span
          return object

def value (L : Level) (callee : Value) (a : Arguments) (span : Span) : Eval Value :=
  match callee with
  | .function id => do
    let c ← Eval.ask (·.callableAt id)
    family L c.name c.overloads c.receiver a span
  | .type c => construct L c a span
  | v => do
    Eval.fail (.notCallable (← Eval.typeName v))

end Calling

end ClassScript
