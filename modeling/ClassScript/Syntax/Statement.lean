import ClassScript.Syntax.Grammar

/-!
# Reading Statements

Modifiers belong to declarations only, and a class body holds nothing but declarations. A
statement may end with a semicolon and need not.
-/

namespace ClassScript

namespace Grammar

def access? : TokenKind → Option Access
  | .keyword .public => some .public
  | .keyword .internal => some .internal
  | .keyword .protected => some .protected
  | .keyword .private => some .private
  | _ => none

def modifiers : Parse Modifiers :=
  Parse.extending Modifiers.none fun modifiers => do
    let token ← Parse.peek
    if token.kind = .keyword .static then
      let _ ← Parse.advance
      return some { modifiers with isStatic := true }
    else
      match access? token.kind with
      | none => return none
      | some access =>
        if modifiers.access.isSome then Parse.fail .duplicateAccessibility token.span
        let _ ← Parse.advance
        return some { modifiers with access := some access }

structure Accessors where
  getter : Option (List Stmt)
  setter : Option (List Stmt)

def accessor (g : Grammar) (found : Accessors) : Parse Accessors := do
  let name ← Parse.expectName "`get` or `set`"
  let (body, _) ← g.block
  if name.text = "get" then
    if found.getter.isSome then Parse.fail .duplicateAccessor name.span
    return { found with getter := some body }
  else if name.text = "set" then
    if found.setter.isSome then Parse.fail .duplicateAccessor name.span
    return { found with setter := some body }
  else Parse.fail (.expected "`get` or `set`") name.span

def propertyStatement (g : Grammar) (start : Span) (name : String) (modifiers : Modifiers) :
    Parse Stmt := do
  let _ ← Parse.expect .lBrace "`\x7b` to start property"
  let found ← Parse.extending ⟨none, none⟩ fun found => do
    if (← Parse.check .rBrace) || (← Parse.check .eof) then return none
    else return some (← g.accessor found)
  let closing ← Parse.expect .rBrace "`\x7d` after property"
  return .property (start.to closing.span) ⟨name, found.getter, found.setter, modifiers⟩

def variableStatement (g : Grammar) (start : Span) (modifiers : Modifiers) (place : Place) :
    Parse Stmt := do
  let _ ← Parse.expectKeyword .var
  let name ← Parse.expectName "variable name"
  let types ← types?
  if place == .classBody && (← Parse.check .lBrace) then
    g.propertyStatement start name.text modifiers
  else
    let initializer ← g.initializer?
    Parse.endStatement
    return .variable (start.to (← Parse.last).span)
      ⟨name.text, false, types, initializer, modifiers⟩

def constantStatement (g : Grammar) (start : Span) (modifiers : Modifiers) : Parse Stmt := do
  let _ ← Parse.expectKeyword .const
  let name ← Parse.expectName "constant name"
  let types ← types?
  let _ ← Parse.expect .assign "`=` in constant declaration"
  let value ← g.expression
  Parse.endStatement
  return .variable (start.to value.span) ⟨name.text, true, types, some value, modifiers⟩

def isOperatorName : TokenKind → Bool
  | .plus | .minus | .star | .slash | .percent | .equalEqual | .bangEqual | .less | .lessEqual
  | .greater | .greaterEqual | .doubleAmpersand | .doublePipe | .bang => true
  | _ => false

def functionName : Parse String := do
  let token ← Parse.advance
  if token.kind = .identifier || isOperatorName token.kind then return token.text
  else if token.kind = .lBracket then
    let _ ← Parse.expect .rBracket "`]` in indexer name"
    if ← Parse.accept .assign then return "[]=" else return "[]"
  else Parse.fail (.expected "function name") token.span

def functionStatement (g : Grammar) (start : Span) (modifiers : Modifiers) : Parse Stmt := do
  let _ ← Parse.expectKeyword .fn
  let name ← functionName
  return .function (← g.function start name modifiers)

def classStatement (g : Grammar) (start : Span) (modifiers : Modifiers) : Parse Stmt := do
  let _ ← Parse.expectKeyword .class
  let name ← Parse.expectName "class name"
  let supers ← if ← Parse.accept .colon then
      Parse.separated fun _ => return (← Parse.expectName "super class name").text
    else pure []
  let _ ← Parse.expect .lBrace "`\x7b` to start class body"
  let body ← Parse.itemsUntil .rBrace (g.statement .classBody)
  let closing ← Parse.expect .rBrace "`\x7d` after class body"
  return .class ⟨name.text, supers, body, modifiers, start.to closing.span⟩

def variant (g : Grammar) : Parse (String × Option Expr) := do
  let name ← Parse.expectName "enum variant"
  return (name.text, ← g.initializer?)

def enumStatement (g : Grammar) (start : Span) (modifiers : Modifiers) : Parse Stmt := do
  let _ ← Parse.expectKeyword .enum
  let name ← Parse.expectName "enum name"
  let _ ← Parse.expect .lBrace "`\x7b` to start enum body"
  let variants ← Parse.trailing .rBrace g.variant
  let closing ← Parse.expect .rBrace "`\x7d` after enum body"
  return .enum ⟨name.text, variants, modifiers, start.to closing.span⟩

def importWhole : Parse (String × ImportForm) := do
  let path ← Parse.expect .string "module path"
  if ← Parse.accept (.keyword .as) then
    return (path.text, .whole (some (← Parse.expectName "alias after `as`").text))
  else return (path.text, .whole none)

def importNames : Parse (String × ImportForm) := do
  let names ← Parse.separated fun _ => return (← Parse.expectName "imported name").text
  let _ ← Parse.expect .rBrace "`\x7d` after imported names"
  let _ ← Parse.expectKeyword .from
  let path ← Parse.expect .string "module path"
  return (path.text, .names names)

def importStatement : Parse Stmt := do
  let start ← Parse.expectKeyword .import
  let (path, form) ← if ← Parse.accept .lBrace then importNames else importWhole
  Parse.endStatement
  return .importModule (start.span.to (← Parse.last).span) path form

def ifStatement (g : Grammar) : Parse Stmt := do
  let start ← Parse.expectKeyword .if
  let condition ← g.expression
  let (thenBody, thenSpan) ← g.block
  if ← Parse.accept (.keyword .else) then
    if ← Parse.check (.keyword .if) then
      let next ← g.statement .block
      return .if (start.span.to next.span) condition thenBody (some [next])
    else
      let (elseBody, elseSpan) ← g.block
      return .if (start.span.to elseSpan) condition thenBody (some elseBody)
  else return .if (start.span.to thenSpan) condition thenBody none

def whileStatement (g : Grammar) : Parse Stmt := do
  let start ← Parse.expectKeyword .while
  let condition ← g.expression
  let (body, span) ← g.block
  return .while (start.span.to span) condition body

def forStatement (g : Grammar) : Parse Stmt := do
  let start ← Parse.expectKeyword .for
  let parenthesized ← Parse.accept .lParen
  let _ ← Parse.accept (.keyword .var)
  let binding ← Parse.expectName "loop binding"
  let _ ← Parse.expectKeyword .in
  let iterable ← g.expression
  if parenthesized then
    let _ ← Parse.expect .rParen "`)` after for header"
  let (body, span) ← g.block
  return .for (start.span.to span) binding.text iterable body

structure Branches where
  cases : List SwitchCase
  defaultBody : Option (List Stmt)

def branch (g : Grammar) (found : Branches) : Parse Branches := do
  let token ← Parse.peek
  match token.kind with
  | .keyword .case =>
    let _ ← Parse.advance
    let values ← Parse.separated fun _ => g.expression
    let _ ← Parse.accept .colon
    let (body, span) ← g.block
    return { found with cases := ⟨values, body, token.span.to span⟩ :: found.cases }
  | .keyword .default =>
    let _ ← Parse.advance
    if found.defaultBody.isSome then Parse.fail .duplicateDefault token.span
    let _ ← Parse.accept .colon
    let (body, _) ← g.block
    return { found with defaultBody := some body }
  | _ => Parse.fail (.expected "`case` or `default`") token.span

def switchStatement (g : Grammar) : Parse Stmt := do
  let start ← Parse.expectKeyword .switch
  let subject ← g.expression
  let _ ← Parse.expect .lBrace "`\x7b` after switch subject"
  let found ← Parse.extending ⟨[], none⟩ fun found => do
    if (← Parse.check .rBrace) || (← Parse.check .eof) then return none
    else return some (← g.branch found)
  let closing ← Parse.expect .rBrace "`\x7d` after switch"
  return .switch (start.span.to closing.span) subject found.cases.reverse found.defaultBody

def caught : Parse (Option String × Option TypeNames) := do
  if ← Parse.accept .lParen then
    let binding ← Parse.expectName "catch binding"
    let classes ← types?
    let _ ← Parse.expect .rParen "`)` after catch clause"
    return (some binding.text, classes)
  else return (none, none)

def handler? (g : Grammar) (found : List CatchClause × Span) :
    Parse (Option (List CatchClause × Span)) := do
  if ← Parse.check (.keyword .catch) then
    let start ← Parse.advance
    let (binding, classes) ← caught
    let (body, span) ← g.block
    return some (⟨binding, classes, body, start.span.to span⟩ :: found.1, span)
  else return none

def tryStatement (g : Grammar) : Parse Stmt := do
  let start ← Parse.expectKeyword .try
  let (body, span) ← g.block
  let (handlers, span) ← Parse.extending ([], span) g.handler?
  if ← Parse.accept (.keyword .finally) then
    let (finallyBody, span) ← g.block
    return .try (start.span.to span) body handlers.reverse (some finallyBody)
  else if handlers.isEmpty then
    Parse.fail (.expected "`catch` or `finally` after `try` block") (← Parse.peek).span
  else return .try (start.span.to span) body handlers.reverse none

def throwStatement (g : Grammar) : Parse Stmt := do
  let start ← Parse.expectKeyword .throw
  let value ← g.expression
  Parse.endStatement
  return .throw (start.span.to value.span) value

def returnStatement (g : Grammar) : Parse Stmt := do
  let start ← Parse.expectKeyword .return
  if (← Parse.check .semicolon) || (← Parse.check .rBrace) || (← Parse.check .eof) then
    Parse.endStatement
    return .return start.span none
  else
    let value ← g.expression
    Parse.endStatement
    return .return (start.span.to value.span) (some value)

def expressionStatement (g : Grammar) : Parse Stmt := do
  let value ← g.expression
  Parse.endStatement
  return .expr value

def control (g : Grammar) : Parse Stmt := do
  match (← Parse.peek).kind with
  | .keyword .import => importStatement
  | .keyword .if => g.ifStatement
  | .keyword .while => g.whileStatement
  | .keyword .for => g.forStatement
  | .keyword .switch => g.switchStatement
  | .keyword .try => g.tryStatement
  | .keyword .throw => g.throwStatement
  | .keyword .return => g.returnStatement
  | .keyword .break =>
    let token ← Parse.advance
    Parse.endStatement
    return .break token.span
  | .keyword .continue =>
    let token ← Parse.advance
    Parse.endStatement
    return .continue token.span
  | .lBrace =>
    let (body, span) ← g.block
    return .block span body
  | _ => g.expressionStatement

def declaration? (g : Grammar) (start : Span) (modifiers : Modifiers) (place : Place) :
    Parse (Option Stmt) := do
  match (← Parse.peek).kind with
  | .keyword .var => return some (← g.variableStatement start modifiers place)
  | .keyword .const => return some (← g.constantStatement start modifiers)
  | .keyword .fn =>
    if ← Parse.checkSecond .lParen then return none
    else return some (← g.functionStatement start modifiers)
  | .keyword .class => return some (← g.classStatement start modifiers)
  | .keyword .enum => return some (← g.enumStatement start modifiers)
  | _ => return none

def anyStatement (g : Grammar) (place : Place) : Parse Stmt := do
  let start := (← Parse.peek).span
  let modifiers ← modifiers
  match ← g.declaration? start modifiers place with
  | some declaration => return declaration
  | none =>
    let here := (← Parse.peek).span
    if modifiers ≠ Modifiers.none then
      Parse.fail (.expected "a declaration after modifiers") here
    else if place = .classBody then
      Parse.fail (.expected "a member declaration in class body") here
    else g.control

end Grammar

end ClassScript
