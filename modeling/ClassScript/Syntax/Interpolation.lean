import ClassScript.Source.Lexer
import ClassScript.Syntax.Tree

/-!
# Interpolated Texts

`{` opens a hole, `{{` and `}}` are braces of the text, and a backslash escapes the next
character. A hole ends at the brace that closes it; braces inside quotes do not count.
-/

namespace ClassScript

namespace Interpolation

def holeSource : (depth : Nat) → (quoted : Bool) → List Char → Option (List Char × List Char)
  | _, _, [] => none
  | d, q, c :: cs =>
    if c = '\x7d' ∧ !q ∧ d = 0 then some ([], cs)
    else
      let depth :=
        if q then d else if c = '\x7b' then d + 1 else if c = '\x7d' then d - 1 else d
      (holeSource depth (if c = '"' then !q else q) cs).map (Lexer.taking [c])

inductive Cut where
  | char (c : Char)
  | hole (source : List Char)
  | unterminated

def split : (steps : Nat) → List Char → List Cut
  | 0, _ => []
  | _ + 1, [] => []
  | n + 1, '\\' :: e :: cs => .char (Lexer.unescape e) :: split n cs
  | _ + 1, ['\\'] => []
  | n + 1, '\x7b' :: '\x7b' :: cs => .char '\x7b' :: split n cs
  | n + 1, '\x7d' :: '\x7d' :: cs => .char '\x7d' :: split n cs
  | n + 1, '\x7b' :: cs =>
    match holeSource 0 false cs with
    | some (source, rest) => .hole source :: split n rest
    | none => [.unterminated]
  | n + 1, c :: cs => .char c :: split n cs

def textPart (run : List Char) : List Piece :=
  if run.isEmpty then [] else [.text (String.ofList run.reverse)]

/-- Joins the cuts to parts, reading the holes from left to right. The text
    before the next hole is given backwards. -/
def join (readHole : List Char → Except SyntaxError Expr) (span : Span) :
    (run : List Char) → List Cut → Except SyntaxError (List Piece)
  | run, [] => .ok (textPart run)
  | run, .char c :: cuts => join readHole span (c :: run) cuts
  | _, .unterminated :: _ => .error ⟨.unterminatedHole, span⟩
  | run, .hole source :: cuts =>
    match readHole source with
    | .error e => .error { e with span := span }
    | .ok value =>
      match join readHole span [] cuts with
      | .error e => .error e
      | .ok parts => .ok (textPart run ++ .hole value :: parts)

def parts (readHole : List Char → Except SyntaxError Expr) (body : String) (span : Span) :
    Except SyntaxError (List Piece) :=
  let cs := body.toList
  join readHole span [] (split (cs.length + 1) cs)

end Interpolation

end ClassScript
