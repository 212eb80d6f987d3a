import ClassScript.Run.Declaration
import ClassScript.Run.Operation

/-!
# Running Expressions

The operators `&&` and `||` leave their second operand alone only if the first is a truth value that
decides. The target of an assignment is found once, before the value.
-/

namespace ClassScript

namespace Expression

inductive Place where
  | name (name : String)
  | member (target : Value) (name : String)
  | index (target index : Value)

def place (L : Level) : Expr → Eval Place
  | .name _ name => return .name name
  | .member _ target name => do
    return .member (← L.evaluate target) name
  | .index _ target index => do
    let target ← L.evaluate target
    let index ← L.evaluate index
    return .index target index
  | .group _ inner => place L inner
  | .super _ _ => Eval.fail .assignThroughSuper
  | _ => Eval.fail .invalidTarget

def readPlace (L : Level) (span : Span) : Place → Eval Value
  | .name name => Member.getName L name
  | .member target name => Member.get L target name span
  | .index target index => L.operate .index target [index] span

def writePlace (L : Level) (span : Span) (value : Value) : Place → Eval Unit
  | .name name => Member.setName L name value
  | .member target name => Member.set L target name value span
  | .index target index => do
    let _ ← L.operate .indexSet target [index, value] span

def assigned (L : Level) (span : Span) (target : Expr) (p : Place) (op : Option BinaryOp)
    (value : Expr) : Eval Value :=
  match op with
  | none => L.evaluate value
  | some op => do
    let current ← readPlace L target.span p
    let operand ← L.evaluate value
    L.operate (.ofBinary op) current [operand] span

def assign (L : Level) (span : Span) (target : Expr) (op : Option BinaryOp) (value : Expr) :
    Eval Value := do
  let p ← place L target
  let v ← assigned L span target p op value
  writePlace L target.span v p
  return v

def decided (op : BinaryOp) (left : Value) : Option Bool :=
  match op, left with
  | .and, .bool false => some false
  | .or, .bool true => some true
  | _, _ => none

def binary (L : Level) (span : Span) (op : BinaryOp) (left right : Expr) : Eval Value := do
  let a ← L.evaluate left
  match decided op a with
  | some b => return .bool b
  | none =>
    let b ← L.evaluate right
    L.operate (.ofBinary op) a [b] span

def pieceText (L : Level) : Piece → Eval String
  | .text s => return s
  | .hole e => do
    L.stringify (← L.evaluate e)

def arguments (L : Level) (args : List Argument) : Eval Arguments := do
  let values ← Eval.mapList (fun a => do return (a.name, ← L.evaluate a.value)) args
  let positional := values.filterMap fun
    | (none, v) => some v
    | _ => none
  let named := values.filterMap fun
    | (some name, v) => some (name, v)
    | _ => none
  return ⟨positional, named⟩

def entry (L : Level) (e : Expr × Expr) : Eval (Value × Value) := do
  let k ← L.evaluate e.1
  let v ← L.evaluate e.2
  return (k.key, v)

def range (L : Level) (first last : Expr) : Eval Value := do
  let a ← L.evaluate first
  let b ← L.evaluate last
  match a, b with
  | .int a, .int b => Eval.newRange ⟨a, b, 1⟩
  | a, b => Eval.fail (.rangeBounds (← Eval.typeName a) (← Eval.typeName b))

def this : Eval Value := do
  let site ← Eval.scope
  match ← Eval.ask (·.currentObject site) with
  | some id => return .object id
  | none => Eval.fail .thisOutsideInstance

def body (L : Level) (e : Expr) : Eval Value :=
  match e with
  | .literal _ value => return .ofLiteral value
  | .interpolated _ parts => do
    return .str (joinWith "" (← Eval.mapList (pieceText L) parts))
  | .name _ name => Member.getName L name
  | .this _ => this
  | .super _ name => Member.getSuper L name
  | .binary span op left right => binary L span op left right
  | .unary span op operand => do
    L.operate (.ofUnary op) (← L.evaluate operand) [] span
  | .assign span target op value => assign L span target op value
  | .call span callee args => do
    let f ← L.evaluate callee
    Calling.value L f (← arguments L args) span
  | .list _ items => do
    Eval.newList (← Eval.mapList L.evaluate items).toArray
  | .dict _ entries => do
    Eval.newDict (.ofList (← Eval.mapList (entry L) entries))
  | .range _ first last => range L first last
  | .group _ inner => L.evaluate inner
  | .index span target index => do
    let t ← L.evaluate target
    let i ← L.evaluate index
    L.operate .index t [i] span
  | .member span target name => do
    Member.get L (← L.evaluate target) name span
  | .lambda decl => Declaration.lambda L decl

def run (L : Level) (e : Expr) : Eval Value :=
  Eval.locate e.span (body L e)

end Expression

end ClassScript
