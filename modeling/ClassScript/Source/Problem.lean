import ClassScript.Source.Span

/-!
# What Can Be Wrong with a Source Text

The reasons for which reading a text fails, each with its wording and the stage that finds it.
-/

namespace ClassScript

inductive SyntaxProblem where
  | unterminatedString
  | unterminatedInterpolation
  | expected (what : String)
  | duplicateAccessibility
  | duplicateAccessor
  | variadicNotLast
  | duplicateDefault
  | duplicateArgument
  | positionalAfterNamed
  | invalidTarget
  | invalidNumber (text : String)
  | unexpectedEnd
  | unexpectedToken
  | trailingToken
  | unterminatedHole
  /-- The reader ran out of the steps it was given. Readers are given as many as
      the text has characters, which is enough. -/
  | exhausted
deriving DecidableEq, Repr

namespace SyntaxProblem

def message : SyntaxProblem → String
  | .unterminatedString => "unterminated string literal"
  | .unterminatedInterpolation => "unterminated interpolated string"
  | .expected what => "expected " ++ what
  | .duplicateAccessibility => "duplicate accessibility modifier"
  | .duplicateAccessor => "duplicate property accessor"
  | .variadicNotLast => "variadic parameter must be last"
  | .duplicateDefault => "duplicate `default` in switch"
  | .duplicateArgument => "duplicate named argument"
  | .positionalAfterNamed => "positional argument cannot follow a named argument"
  | .invalidTarget => "invalid assignment target"
  | .invalidNumber text => "invalid number literal `" ++ text ++ "`"
  | .unexpectedEnd => "unexpected end of expression"
  | .unexpectedToken => "unexpected token in expression"
  | .trailingToken => "unexpected token after interpolated expression"
  | .unterminatedHole => "unterminated `\x7b` in interpolated string"
  | .exhausted => "nesting is too deep"

def isLexical : SyntaxProblem → Bool
  | .unterminatedString | .unterminatedInterpolation => true
  | _ => false

end SyntaxProblem

structure SyntaxError where
  problem : SyntaxProblem
  span : Span
deriving DecidableEq, Repr

end ClassScript
