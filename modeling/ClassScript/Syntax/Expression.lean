import ClassScript.Number.ReadDecimal
import ClassScript.Number.ReadFloat
import ClassScript.Number.Word
import ClassScript.Syntax.Grammar
import ClassScript.Syntax.Interpolation

/-!
# Reading Expressions

One production for each level of binding strength, from assignment, which groups to the right,
down to the primary expressions. A call or an index continues the expression in front of it only
on the same line, since statements need no separator.
-/

namespace ClassScript

/-- The constant that a number token spells. A `d` at the end makes a decimal, an
    `f` a float; otherwise a point or an exponent makes a float. -/
def numeral? (text : String) : Option Literal :=
  let cs := text.toList.filter (· != '_')
  match cs.getLast? with
  | some 'd' | some 'D' => (Decimal.read? cs.dropLast).map .decimal
  | some 'f' | some 'F' => (Binary64.parse? cs.dropLast).map .float
  | _ =>
    if cs.any fun c => c == '.' || c == 'e' || c == 'E' then (Binary64.parse? cs).map .float
    else (Word.parse? cs).map .int

namespace Grammar

def entry (g : Grammar) : Parse (Expr × Expr) := do
  let key ← g.expression
  let _ ← Parse.expect .colon "`:` in dict literal"
  return (key, ← g.expression)

def primary (g : Grammar) : Parse Expr := do
  let token ← Parse.peek
  match token.kind with
  | .keyword .true => let _ ← Parse.advance; return .literal token.span (.bool true)
  | .keyword .false => let _ ← Parse.advance; return .literal token.span (.bool false)
  | .keyword .null => let _ ← Parse.advance; return .literal token.span .null
  | .keyword .this => let _ ← Parse.advance; return .this token.span
  | .keyword .super =>
    let _ ← Parse.advance
    let _ ← Parse.expect .dot "`.` after `super`"
    let name ← Parse.expectName "member name after `super.`"
    return .super (token.span.to name.span) name.text
  | .keyword .fn =>
    let _ ← Parse.advance
    return .lambda (← g.function token.span "<lambda>" Modifiers.none)
  | .number =>
    let _ ← Parse.advance
    match numeral? token.text with
    | some value => return .literal token.span value
    | none => Parse.fail (.invalidNumber token.text) token.span
  | .string => let _ ← Parse.advance; return .literal token.span (.str token.text)
  | .interpolatedString =>
    let _ ← Parse.advance
    match Interpolation.parts (g.hole · token.span.line) token.text token.span with
    | .ok parts => return .interpolated token.span parts
    | .error e => throw e
  | .identifier => let _ ← Parse.advance; return .name token.span token.text
  | .lParen =>
    let _ ← Parse.advance
    let inner ← g.expression
    let closing ← Parse.expect .rParen "`)` after expression"
    return .group (token.span.to closing.span) inner
  | .lBracket =>
    let _ ← Parse.advance
    let items ← Parse.trailing .rBracket g.expression
    let closing ← Parse.expect .rBracket "`]` after list literal"
    return .list (token.span.to closing.span) items
  | .lBrace =>
    let _ ← Parse.advance
    let entries ← Parse.trailing .rBrace g.entry
    let closing ← Parse.expect .rBrace "`\x7d` after dict literal"
    return .dict (token.span.to closing.span) entries
  | .eof => Parse.fail .unexpectedEnd token.span
  | _ => Parse.fail .unexpectedToken token.span

def argument (g : Grammar) (before : List Argument) : Parse Argument := do
  if (← Parse.check .identifier) && (← Parse.checkSecond .colon) then
    let name ← Parse.advance
    let _ ← Parse.advance
    if before.any (·.name == some name.text) then Parse.fail .duplicateArgument name.span
    return ⟨some name.text, ← g.expression⟩
  else
    if before.any (·.name.isSome) then Parse.fail .positionalAfterNamed (← Parse.peek).span
    return ⟨none, ← g.expression⟩

def arguments (g : Grammar) : Parse (List Argument) := do
  if ← Parse.check .rParen then return [] else Parse.separated g.argument

def suffix? (g : Grammar) (target : Expr) : Parse (Option Expr) := do
  let continues := (← Parse.peek).span.line == (← Parse.last).span.line
  if continues && (← Parse.check .lParen) then
    let _ ← Parse.advance
    let arguments ← g.arguments
    let closing ← Parse.expect .rParen "`)` after arguments"
    return some (.call (target.span.to closing.span) target arguments)
  else if continues && (← Parse.check .lBracket) then
    let _ ← Parse.advance
    let index ← g.expression
    let closing ← Parse.expect .rBracket "`]` after index"
    return some (.index (target.span.to closing.span) target index)
  else if ← Parse.accept .dot then
    let name ← Parse.expectName "member name after `.`"
    return some (.member (target.span.to name.span) target name.text)
  else return none

def postfixed (g : Grammar) : Parse Expr := do
  Parse.extending (← g.primary) g.suffix?

def unaryOp? : TokenKind → Option UnaryOp
  | .minus => some .negate
  | .plus => some .plus
  | .bang => some .not
  | _ => none

def signs : Parse (List (UnaryOp × Span)) :=
  Parse.extending [] fun signs => do
    let token ← Parse.peek
    match unaryOp? token.kind with
    | some op =>
      let _ ← Parse.advance
      return some ((op, token.span) :: signs)
    | none => return none

def unary (g : Grammar) : Parse Expr := do
  let signs ← signs
  let operand ← g.postfixed
  return signs.foldl (fun e (op, span) => .unary (span.to e.span) op e) operand

def leftLevel (op? : TokenKind → Option BinaryOp) (operand : Parse Expr) : Parse Expr := do
  Parse.extending (← operand) fun left => do
    match op? (← Parse.peek).kind with
    | some op =>
      let _ ← Parse.advance
      let right ← operand
      return some (.binary (left.span.to right.span) op left right)
    | none => return none

def factorOp? : TokenKind → Option BinaryOp
  | .star => some .mul
  | .slash => some .div
  | .percent => some .mod
  | _ => none

def termOp? : TokenKind → Option BinaryOp
  | .plus => some .add
  | .minus => some .sub
  | _ => none

def comparisonOp? : TokenKind → Option BinaryOp
  | .lessEqual => some .lessEqual
  | .greaterEqual => some .greaterEqual
  | .less => some .less
  | .greater => some .greater
  | _ => none

def equalityOp? : TokenKind → Option BinaryOp
  | .equalEqual => some .equal
  | .bangEqual => some .notEqual
  | _ => none

def conjunctionOp? : TokenKind → Option BinaryOp
  | .doubleAmpersand => some .and
  | _ => none

def disjunctionOp? : TokenKind → Option BinaryOp
  | .doublePipe => some .or
  | _ => none

def factor (g : Grammar) : Parse Expr :=
  leftLevel factorOp? g.unary

def term (g : Grammar) : Parse Expr :=
  leftLevel termOp? g.factor

def range (g : Grammar) : Parse Expr := do
  let first ← g.term
  if ← Parse.accept .dotDot then
    let last ← g.term
    return .range (first.span.to last.span) first last
  else return first

def comparison (g : Grammar) : Parse Expr :=
  leftLevel comparisonOp? g.range

def equality (g : Grammar) : Parse Expr :=
  leftLevel equalityOp? g.comparison

def conjunction (g : Grammar) : Parse Expr :=
  leftLevel conjunctionOp? g.equality

def disjunction (g : Grammar) : Parse Expr :=
  leftLevel disjunctionOp? g.conjunction

def assignOp? : TokenKind → Option (Option BinaryOp)
  | .assign => some none
  | .plusAssign => some (some .add)
  | .minusAssign => some (some .sub)
  | .starAssign => some (some .mul)
  | .slashAssign => some (some .div)
  | .percentAssign => some (some .mod)
  | _ => none

def assignment (g : Grammar) : Parse Expr := do
  let target ← g.disjunction
  match assignOp? (← Parse.peek).kind with
  | none => return target
  | some op =>
    let sign ← Parse.advance
    let value ← g.expression
    if target.isTarget then return .assign (target.span.to value.span) target op value
    else Parse.fail .invalidTarget sign.span

def wholeExpression (g : Grammar) : Parse Expr := do
  let value ← g.expression
  if ← Parse.check .eof then return value
  else Parse.fail .trailingToken (← Parse.peek).span

def expressionText (g : Grammar) (source : List Char) (line : Nat) : Except SyntaxError Expr :=
  match tokenizeChars source line with
  | .error e => .error e
  | .ok tokens => (g.wholeExpression (Cursor.start tokens)).map (·.1)

end Grammar

end ClassScript
