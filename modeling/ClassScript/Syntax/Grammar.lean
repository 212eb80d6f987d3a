import ClassScript.Syntax.Cursor
import ClassScript.Syntax.Tree

/-!
# The Recursive Entries of the Grammar

Every circle among the productions passes through one of the three entries below. The
productions are plain functions of a `Grammar`, and the circle is closed once, in
`ClassScript.Syntax.Parser`, by counting how deep the entries are nested.
-/

namespace ClassScript

/-- Where a statement stands. Class bodies hold declarations only, and only they
    hold properties. -/
inductive Place where
  | block | classBody
deriving DecidableEq, Repr

structure Grammar where
  expression : Parse Expr
  statement : Place → Parse Stmt
  hole : List Char → (line : Nat) → Except SyntaxError Expr

namespace Grammar

def block (g : Grammar) : Parse (List Stmt × Span) := do
  let opening ← Parse.expect .lBrace "`\x7b` to start block"
  let body ← Parse.itemsUntil .rBrace (g.statement .block)
  let closing ← Parse.expect .rBrace "block terminator"
  return (body, opening.span.to closing.span)

def typeName : Parse String := do
  if ← Parse.accept (.keyword .null) then return "null"
  return (← Parse.expectName "type name").text

def typeNames : Parse TypeNames := do
  let first ← typeName
  let names ← Parse.extending [first] fun names => do
    if ← Parse.accept .pipe then return some ((← typeName) :: names) else return none
  return names.reverse

def types? : Parse (Option TypeNames) := do
  if ← Parse.accept .colon then return some (← typeNames) else return none

def initializer? (g : Grammar) : Parse (Option Expr) := do
  if ← Parse.accept .assign then return some (← g.expression) else return none

def param (g : Grammar) (before : List Param) : Parse Param := do
  let variadic ← Parse.accept .ellipsis
  let name ← Parse.expectName "parameter name"
  if before.head?.any (·.variadic) then Parse.fail .variadicNotLast name.span
  let types ← types?
  let default ← g.initializer?
  return ⟨name.text, types, default, variadic, name.span⟩

def function (g : Grammar) (start : Span) (name : String) (modifiers : Modifiers) :
    Parse FunctionDecl := do
  let _ ← Parse.expect .lParen "`(` after function name"
  let params ← if ← Parse.check .rParen then pure [] else Parse.separated g.param
  let _ ← Parse.expect .rParen "`)` after parameters"
  let (body, span) ← g.block
  return ⟨name, params, body, modifiers, start.to span⟩

end Grammar

end ClassScript
