import ClassScript.Syntax.Expression
import ClassScript.Syntax.Statement

/-!
# From Text to Trees

Every nested entry has read a token before it, and the text of a hole is shorter than the
literal it stands in, so a bound that exceeds the length of the text is never reached.
-/

namespace ClassScript

namespace Grammar

def nested : (depth : Nat) → Grammar
  | 0 => ⟨Parse.exhausted, fun _ => Parse.exhausted,
      fun _ line => .error ⟨.exhausted, ⟨0, 0, line⟩⟩⟩
  | n + 1 =>
    { expression := fun c => (nested n).assignment c
      statement := fun place c => (nested n).anyStatement place c
      hole := fun source line => (nested n).expressionText source line }

def depthFor (source : List Char) : Nat :=
  2 * source.length + 4

def program (g : Grammar) : Parse (List Stmt) :=
  Parse.itemsUntil .eof (g.statement .block)

end Grammar

def parseProgram (source : String) : Except SyntaxError (List Stmt) :=
  let cs := source.toList
  match tokenizeChars cs 1 with
  | .error e => .error e
  | .ok tokens =>
    ((Grammar.nested (Grammar.depthFor cs)).program (Cursor.start tokens)).map (·.1)

def parseExpression (source : String) (line : Nat) : Except SyntaxError Expr :=
  let cs := source.toList
  (Grammar.nested (Grammar.depthFor cs)).expressionText cs line

end ClassScript
