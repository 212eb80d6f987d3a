import ClassScript.Library.Native

/-!
# Invoking a Function

A chosen function is run if the code that calls it may use it, if a method has its instance, and
if calls are not nested too deep. The body of a method runs in a frame inside the fields of its
instance, any other inside the scope that it was defined in.
-/

namespace ClassScript

namespace Invocation

def checkAccess (f : Overload) : Eval Unit := do
  let site ← Eval.scope
  if ← Eval.ask (·.mayUse site f.access f.owner) then return ()
  else
    let owner ← Eval.ask fun h => (f.owner.map h.className).getD ""
    Eval.fail (.memberAccess f.name f.access.name owner)

def checkReceiver (f : Overload) (receiver : Option Value) : Eval Unit := do
  match f.owner, receiver with
  | some owner, none =>
    if f.isStatic || !(← Eval.ask (·.held owner)) then return ()
    else Eval.fail (.needsInstance (← Eval.ask (·.className owner)) f.name)
  | _, _ => return ()

def checkDepth (f : Overload) (span : Span) : Eval Unit := do
  let limit ← Eval.read (·.config.maxDepth)
  if (← Eval.read (·.registers.depth)) < limit then return ()
  else Eval.raise (.fault (.depthExceeded limit f.name) (some span) [])

def boundInstance? (h : Heap) (f : Overload) (receiver : Option Value) :
    Option (ObjectId × ScopeId) :=
  match f.owner, receiver with
  | some _, some (.object id) =>
    if f.isStatic then none else (h.fieldScope? (.object id)).map fun scope => (id, scope)
  | _, _ => none

def frame (f : Overload) (closure : ScopeId) (receiver : Option Value) : Eval ScopeId := do
  match ← Eval.ask (boundInstance? · f receiver) with
  | some (object, fields) => Eval.create (·.newScope (.frame closure (some object)) (some fields))
  | none => Eval.create (·.newScope (.frame closure none) (some closure))

def runBody (L : Level) : List Stmt → Machine → Outcome Value
  | [], m => .done .null m
  | stmt :: rest, m =>
    match L.execute stmt m with
    | .done .next m | .done (.value _) m => runBody L rest m
    | .done (.return v) m => .done v m
    | .done .break m | .done .continue m =>
      .failed (.fault .loopControlInFunction (some stmt.span) []) m
    | .failed e m => .failed e m
    | .stopped m => .stopped m

def setParameters (frame : ScopeId) (params : List Parameter) (arguments : List Value) :
    Eval Unit :=
  Eval.forList (fun (p, v) => Calling.setVariable frame p.name (.plain v)) (params.zip arguments)

def script (L : Level) (f : Overload) (body : List Stmt) (closure : ScopeId)
    (receiver : Option Value) (arguments : List Value) : Eval Value := do
  let scope ← frame f closure receiver
  setParameters scope f.params arguments
  Eval.inScope scope (runBody L body)

def body (L : Level) (f : Overload) (receiver : Option Value) (arguments : List Value) :
    Eval Value :=
  match f.body with
  | .native native => Library.run L native ⟨receiver, arguments⟩
  | .script body closure => script L f body closure receiver arguments

def invoke (L : Level) (id : OverloadId) (receiver : Option Value) (arguments : List Value)
    (span : Span) : Eval Value := do
  let f ← Eval.ask (·.overloadAt id)
  checkAccess f
  checkReceiver f receiver
  checkDepth f span
  Eval.bracket (·.enterCall) (·.leaveCall) (L.body f receiver arguments)

end Invocation

end ClassScript
