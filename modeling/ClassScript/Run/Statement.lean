import ClassScript.Run.Enumeration
import ClassScript.Run.Expression
import ClassScript.Run.Import

/-!
# Running Statements

Every body in braces runs in a scope of its own, and so does every round of a loop over
elements.

A failure inside a guarded body becomes a value, which the first handler that names its class
takes over. The overflow of the call depth and unreadable programs and files pass all handlers,
and the final body with them.
-/

namespace ClassScript

namespace Statement

def sequenceFrom (L : Level) : (last : Flow) → List Stmt → Machine → Outcome Flow
  | last, [], m => .done last m
  | last, stmt :: rest, m =>
    match L.execute stmt m with
    | .done .next m => sequenceFrom L last rest m
    | .done (.value v) m => sequenceFrom L (.value v) rest m
    | .done flow m => .done flow m
    | .failed e m => .failed e m
    | .stopped m => .stopped m

def sequence (L : Level) (body : List Stmt) : Eval Flow :=
  sequenceFrom L .next body

def innerScope : Eval ScopeId := do
  let outer ← Eval.scope
  Eval.create (·.newScope .block (some outer))

def block (L : Level) (body : List Stmt) : Eval Flow := do
  Eval.inScope (← innerScope) (sequence L body)

def blockWith (L : Level) (name : Option String) (v : Value) (body : List Stmt) : Eval Flow := do
  let inner ← innerScope
  match name with
  | some name => Calling.setVariable inner name (.plain v)
  | none => pure ()
  Eval.inScope inner (sequence L body)

def condition (L : Level) (e : Expr) : Eval Bool := do
  Eval.truthy (← L.evaluate e)

def afterRound : Flow → Option Flow
  | .next | .value _ | .continue => none
  | .break => some .next
  | .return v => some (.return v)

def whileRound (L : Level) (test : Expr) (body : List Stmt) : Eval (Option Flow) := do
  if ← condition L test then return afterRound (← block L body) else return some .next

def whileLoop (L : Level) (test : Expr) (body : List Stmt) : Eval Flow :=
  Eval.loop (whileRound L test body) L.rounds

def isMissing (e : Failure) : Bool :=
  e.faultKind? == some .undefinedName

def enumeratorOf (L : Level) (v : Value) (span : Span) : Eval Value := do
  match ← Eval.attempt (Member.get L v "GetEnumerator" span) with
  | .ok method => Calling.value L method .none span
  | .error e =>
    if isMissing e then Eval.fail (.notEnumerable (← Eval.typeName v)) else Eval.raise e

def moveNext (L : Level) (enumerator : Value) (span : Span) : Eval Bool := do
  match ← Eval.ask (Enumeration.state? · enumerator) with
  | some (id, e) => Enumeration.move id e
  | none => Eval.truthy (← Member.call L enumerator "MoveNext" span)

def currentElement (L : Level) (enumerator : Value) (span : Span) : Eval Value := do
  match ← Eval.ask (Enumeration.state? · enumerator) with
  | some (_, e) => Enumeration.current e
  | none => Member.get L enumerator "Current" span

def forRound (L : Level) (binding : String) (enumerator : Value) (span : Span)
    (body : List Stmt) : Eval (Option Flow) := do
  if ← moveNext L enumerator span then
    let item ← currentElement L enumerator span
    return afterRound (← blockWith L (some binding) item body)
  else return some .next

def forLoop (L : Level) (binding : String) (iterable : Expr) (body : List Stmt) : Eval Flow := do
  let v ← L.evaluate iterable
  let enumerator ← enumeratorOf L v iterable.span
  Eval.loop (forRound L binding enumerator iterable.span body) L.rounds

def caseMatches (L : Level) (subject : Value) : List Expr → Eval Bool
  | [] => return false
  | e :: rest => do
    let candidate ← L.evaluate e
    if ← Operation.equal L subject candidate then return true else caseMatches L subject rest

def matchingCase (L : Level) (subject : Value) (cases : List SwitchCase) :
    Eval (Option (List Stmt)) :=
  Eval.firstSome (fun c => do
    if ← caseMatches L subject c.values then return some c.body else return none) cases

def switch (L : Level) (subject : Expr) (cases : List SwitchCase)
    (defaultBody : Option (List Stmt)) : Eval Flow := do
  let v ← L.evaluate subject
  match (← matchingCase L v cases).orElse fun _ => defaultBody with
  | none => return .next
  | some body =>
    match ← block L body with
    | .break => return .next
    | flow => return flow

def setField (v : Value) (name : String) (value : Value) : Eval Unit := do
  match ← Eval.ask (·.fieldScope? v) with
  | some scope => Member.assignSlot scope name value
  | none => return ()

def faultObject (L : Level) (f : Fault) (span : Option Span) : Eval Value := do
  let object := Value.object (← Calling.instantiate L (ClassId.ofFault f.kind))
  setField object "Message" (.str f.message)
  setField object "Line" (.ofNat ((span.map (·.line)).getD 0))
  return object

def caughtValue (L : Level) (e : Failure) : Eval (Option Value) :=
  match e with
  | .thrown v _ _ _ => return some v
  | .fault f span _ => do
    if f.kind.isFatal then return none else return some (← faultObject L f span)
  | .syntactic _ _ | .file _ => return none

def catches (v : Value) (clause : CatchClause) : Eval Bool := do
  match clause.classes with
  | none => return true
  | some names =>
    let accepted ← Eval.locate clause.span (Declaration.resolveTypes names)
    let c ← Eval.typeOf v
    Eval.ask fun h => accepted.any (h.inherits c)

def handlerFor (v : Value) (handlers : List CatchClause) : Eval (Option CatchClause) :=
  Eval.firstSome (fun clause => do
    if ← catches v clause then return some clause else return none) handlers

inductive Guarded where
  | pending (outcome : Except Failure Flow)
  | escaped (why : Failure)

def handle (L : Level) (e : Failure) (handlers : List CatchClause) : Eval Guarded := do
  match ← caughtValue L e with
  | none => return .escaped e
  | some v =>
    match ← handlerFor v handlers with
    | none => return .pending (.error e)
    | some clause =>
      return .pending (← Eval.attempt (blockWith L clause.binding v clause.body))

def guarded (L : Level) (body : List Stmt) (handlers : List CatchClause) : Eval Guarded := do
  match ← Eval.attempt (block L body) with
  | .ok flow => return .pending (.ok flow)
  | .error e => handle L e handlers

def isFatalOutcome : Except Failure Flow → Bool
  | .error e => e.isFatal
  | .ok _ => false

def settle (L : Level) (finallyBody : Option (List Stmt)) : Guarded → Eval Flow
  | .escaped e => Eval.raise e
  | .pending outcome =>
    match finallyBody with
    | none => Eval.resume outcome
    | some final =>
      if isFatalOutcome outcome then Eval.resume outcome
      else do
        match ← block L final with
        | .next | .value _ => Eval.resume outcome
        | flow => return flow

def tryStatement (L : Level) (body : List Stmt) (handlers : List CatchClause)
    (finallyBody : Option (List Stmt)) : Eval Flow := do
  settle L finallyBody (← guarded L body handlers)

def thrownMessage (h : Heap) (v : Value) : String :=
  if v.isFirstClass then h.display v
  else
    match h.field? v "Message" with
    | some text => h.display text
    | none => ""

def throwValue {α : Type} (v : Value) (span : Span) : Eval α := do
  if (← Eval.ask (·.field? v "Line")) = some (.int 0) then
    setField v "Line" (.ofNat span.line)
  let message ← Eval.ask (thrownMessage · v)
  Eval.raise (.thrown v (← Eval.typeName v) message span)

def checkTypes (name : String) (names : TypeNames) (v : Value) : Eval Unit := do
  let accepted ← Declaration.resolveTypes names
  if accepted.contains (← Eval.typeOf v) then return ()
  else Eval.fail (.cannotInitialize name (joinWith "|" names) (← Eval.typeName v))

def initialValue (L : Level) (decl : VarDecl) : Eval Value := do
  match decl.initializer with
  | none => return .null
  | some e =>
    let v ← L.evaluate e
    match decl.types with
    | some names => checkTypes decl.name names v
    | none => pure ()
    return v

def variableDecl (L : Level) (decl : VarDecl) : Eval Unit := do
  let v ← initialValue L decl
  Declaration.defineVariable (← Eval.scope) decl.name
    ⟨.slot v, decl.isConst, false, Declaration.access decl.modifiers, none⟩

def ifStatement (L : Level) (test : Expr) (thenBody : List Stmt)
    (elseBody : Option (List Stmt)) : Eval Flow := do
  if ← condition L test then block L thenBody
  else
    match elseBody with
    | some body => block L body
    | none => return .next

def declaring (x : Eval Unit) : Eval Flow := do
  x
  return .next

def body (L : Level) (stmt : Stmt) : Eval Flow :=
  match stmt with
  | .variable _ decl => declaring (variableDecl L decl)
  | .function decl => declaring (Declaration.function L decl)
  | .class decl => declaring (Declaration.classDecl L decl)
  | .enum decl => declaring (Declaration.enumDecl L decl)
  | .property _ decl => Eval.fail (.propertyOutsideClass decl.name)
  | .importModule _ path form => declaring (Import.run L path form)
  | .expr e => do
    return .value (← L.evaluate e)
  | .block _ body => block L body
  | .if _ test thenBody elseBody => ifStatement L test thenBody elseBody
  | .while _ test body => whileLoop L test body
  | .for _ binding iterable body => forLoop L binding iterable body
  | .switch _ subject cases defaultBody => switch L subject cases defaultBody
  | .try _ body handlers finallyBody => tryStatement L body handlers finallyBody
  | .throw span e => do
    throwValue (← L.evaluate e) span
  | .return _ e => do
    return .return (← Declaration.initial L e)
  | .break _ => return .break
  | .continue _ => return .continue

def run (L : Level) (stmt : Stmt) : Eval Flow :=
  Eval.locate stmt.span (body L stmt)

end Statement

end ClassScript
