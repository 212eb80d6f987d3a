import ClassScript.Run.Calling

/-!
# Names and Members

Every way to a variable checks whether the code that asks may use it; functions are checked when
they are called.
-/

namespace ClassScript

namespace Member

def checkAccess (name : String) (v : Variable) : Eval Unit := do
  let site ← Eval.scope
  if ← Eval.ask (·.mayUse site v.access v.owner) then return ()
  else
    let owner ← Eval.ask fun h => (v.owner.map h.className).getD ""
    Eval.fail (.memberAccess name v.access.name owner)

def currentReceiver : Eval (Option Value) := do
  let site ← Eval.scope
  return (← Eval.ask (·.currentObject site)).map .object

def readVariable (L : Level) (name : String) (v : Variable) (receiver : Option Value) :
    Eval Value :=
  match v.storage with
  | .slot value => return value
  | .accessor (some getter) _ => Calling.family L name [getter] receiver .none Span.nowhere
  | .accessor none _ => Eval.fail (.writeOnly name)

def assignSlot (scope : ScopeId) (name : String) (value : Value) : Eval Unit :=
  Eval.change (·.updateScope scope fun s =>
    match s.vars.find? name with
    | some v => { s with vars := s.vars.insert name (v.withValue value) }
    | none => s)

def writeVariable (L : Level) (scope : ScopeId) (name : String) (v : Variable) (value : Value)
    (receiver : Option Value) : Eval Unit :=
  if v.isConst then Eval.fail (.assignConstant name)
  else
    match v.storage with
    | .slot _ => assignSlot scope name value
    | .accessor _ (some setter) => do
      let _ ← Calling.family L name [setter] receiver ⟨[value], []⟩ Span.nowhere
    | .accessor _ none => Eval.fail (.readOnly name)

/-- The value of a name that stands for functions. Inside a class its name means the class and not
its constructors. -/
def familyValue (scope : ScopeId) (name : String) (overloads : List OverloadId) : Eval Value := do
  match ← Eval.ask fun h => (h.scopeAt scope).kind with
  | .classBody c =>
    if !(← Eval.ask (·.held c)) then Eval.newFunction name overloads none
    else if (← Eval.ask (·.className c)) = name then return .type c
    else Eval.newFunction name overloads (← currentReceiver)
  | _ => Eval.newFunction name overloads none

def getName (L : Level) (name : String) : Eval Value := do
  let site ← Eval.scope
  match ← Eval.ask (·.lookup site name) with
  | none => Eval.fail (.undefined name)
  | some (.type c, _) => return .type c
  | some (.family overloads, scope) => familyValue scope name overloads
  | some (.variable v, _) =>
    checkAccess name v
    readVariable L name v (← currentReceiver)

def setName (L : Level) (name : String) (value : Value) : Eval Unit := do
  let site ← Eval.scope
  match ← Eval.ask (·.lookup site name) with
  | none => Eval.fail (.undefined name)
  | some (.type _, _) => Eval.fail (.assignClass name)
  | some (.family _, _) => Eval.fail (.assignFunction name)
  | some (.variable v, scope) =>
    checkAccess name v
    writeVariable L scope name v value (← currentReceiver)

def ofClass (L : Level) (c : ClassId) (name : String) (receiver : Option Value) :
    Eval (Option Value) := do
  match ← Eval.ask fun h => (h.scopeAt (h.classAt c).scope).local? name with
  | none => return none
  | some (.type nested) =>
    let site ← Eval.scope
    let access ← Eval.ask fun h => (h.classAt nested).access
    if ← Eval.ask (·.canAccess site access (some c)) then return some (.type nested)
    else Eval.fail (.nestedClassAccess name access.name (← Eval.ask (·.className c)))
  | some (.family overloads) => return some (← Eval.newFunction name overloads receiver)
  | some (.variable v) =>
    checkAccess name v
    return some (← readVariable L name v receiver)

def hostHasMethod (o : HostObject) (name : String) : Bool :=
  match o with
  | .tally _ => ["Add", "Args", "Apply", "Broken"].contains name
  | .blank => name == "Ghost"

def hostParams : List Parameter :=
  [⟨"args", none, none, true⟩]

def ofHost (id : ObjectId) (o : HostObject) (name : String) : Eval (Option Value) :=
  match o, name with
  | .tally count, "Count" => return some (.int count)
  | o, name =>
    if hostHasMethod o name then do
      let f ← Eval.create (·.newOverload
        ⟨name, hostParams, false, .public, none, .native (.host id name), Span.nowhere⟩)
      return some (← Eval.newFunction name [f] none)
    else return none

def setHost (id : ObjectId) (o : HostObject) (name : String) (value : Value) : Eval Bool :=
  match o, name with
  | .tally _, "Count" => do
    let count ← Eval.expectInt value
    Eval.change (·.setPayload id (.host (.tally count)))
    return true
  | _, _ => return false

def describe (h : Heap) : Value → String
  | .type c => h.className c
  | .function f => "fn " ++ (h.callableAt f).name
  | v => h.typeName v

def missing {α : Type} (target : Value) (name : String) (span : Span) : Eval α :=
  Eval.locate span do
    Eval.fail (.noMember (← Eval.ask (describe · target)) name)

def fieldVariable? (h : Heap) (target : Value) (name : String) : Option (ScopeId × Variable) :=
  (h.fieldScope? target).bind fun scope =>
    ((h.scopeAt scope).vars.find? name).map fun v => (scope, v)

def ofInstance (L : Level) (target : Value) (name : String) : Eval (Option Value) := do
  match ← ofClass L (← Eval.typeOf target) name (some target) with
  | some value => return some value
  | none =>
    match target, ← Eval.ask (·.host? target) with
    | .object id, some o => ofHost id o name
    | _, _ => return none

/-- The value of a member, if there is one of the name. Classes have their own
    members first and those of every class after them. -/
def find (L : Level) (target : Value) (name : String) : Eval (Option Value) :=
  match target with
  | .type c => do
    match ← ofClass L c name none with
    | some value => return some value
    | none => ofClass L ClassId.type name (some target)
  | .function _ => ofClass L ClassId.function name (some target)
  | target => do
    match ← Eval.ask (fieldVariable? · target name) with
    | some (_, v) =>
      checkAccess name v
      return some (← readVariable L name v (some target))
    | none => ofInstance L target name

def get (L : Level) (target : Value) (name : String) (span : Span) : Eval Value := do
  match ← find L target name with
  | some value => return value
  | none => missing target name span

def setInstance (L : Level) (target : Value) (name : String) (value : Value) : Eval Bool := do
  match ← Eval.ask (fieldVariable? · target name) with
  | some (scope, v) =>
    checkAccess name v
    writeVariable L scope name v value (some target)
    return true
  | none =>
    let c ← Eval.typeOf target
    match ← Eval.ask (·.classVariable? c name) with
    | some v =>
      checkAccess name v
      writeVariable L (← Eval.ask fun h => (h.classAt c).scope) name v value (some target)
      return true
    | none =>
      match target, ← Eval.ask (·.host? target) with
      | .object id, some o => setHost id o name value
      | _, _ => return false

def set (L : Level) (target : Value) (name : String) (value : Value) (span : Span) :
    Eval Unit := do
  let found ← match target with
    | .function _ => pure false
    | .type c => do
      match ← Eval.ask (·.classVariable? c name) with
      | some v =>
        checkAccess name v
        writeVariable L (← Eval.ask fun h => (h.classAt c).scope) name v value none
        pure true
      | none => pure false
    | target => setInstance L target name value
  if found then return () else missing target name span

def getSuper (L : Level) (name : String) : Eval Value := do
  let site ← Eval.scope
  match (← Eval.ask (·.lexicalClasses site)).head? with
  | none => Eval.fail .superOutsideClass
  | some c =>
    let info ← Eval.ask (·.classAt c)
    match info.ancestors with
    | none => Eval.fail (.noSuper info.name)
    | some ancestors =>
      match ← ofClass L ancestors name (← currentReceiver) with
      | some value => return value
      | none => Eval.fail (.noSuperMember info.name name)

def call (L : Level) (target : Value) (name : String) (span : Span) : Eval Value := do
  Calling.value L (← get L target name span) .none span

end Member

end ClassScript
