import ClassScript.Source.Problem
import ClassScript.Source.Token
import ClassScript.Text.Blank
import ClassScript.Text.Letter

/-!
# From Text to Tokens

Each scanner returns what it took of the characters in front of it and what is left, so nothing can
be lost or read twice; positions are computed from what was taken.

A character that begins no token becomes a token of kind `unknown`: refusing it is left to the
grammar.
-/

namespace ClassScript

namespace Lexer

open Text

def isNamePart (c : Char) : Bool :=
  isLetterOrNumeral c || c == '_'

def isNameStart (c : Char) : Bool :=
  c.isAlpha || c == '_'

def starts (p : Char → Bool) : List Char → Bool
  | c :: _ => p c
  | [] => false

def taking (cs : List Char) (r : List Char × List Char) : List Char × List Char :=
  (cs ++ r.1, r.2)

inductive Gap where
  | blank
  | line
  | block (around : Nat)

/-- The blanks and comments in front of the next token, from inside a gap on. Block
    comments are nested, and an unclosed one takes everything. -/
def trivia : Gap → List Char → List Char × List Char
  | .blank, '/' :: '/' :: cs => taking ['/', '/'] (trivia .line cs)
  | .blank, '/' :: '*' :: cs => taking ['/', '*'] (trivia (.block 0) cs)
  | .blank, c :: cs => if isBlank c then taking [c] (trivia .blank cs) else ([], c :: cs)
  | .line, c :: cs => taking [c] (trivia (if c = '\n' then .blank else .line) cs)
  | .block d, '/' :: '*' :: cs => taking ['/', '*'] (trivia (.block (d + 1)) cs)
  | .block 0, '*' :: '/' :: cs => taking ['*', '/'] (trivia .blank cs)
  | .block (d + 1), '*' :: '/' :: cs => taking ['*', '/'] (trivia (.block d) cs)
  | .block d, c :: cs => taking [c] (trivia (.block d) cs)
  | _, [] => ([], [])

/-- The digits, point and exponents of a number after its first digit. A point
    belongs to the number only if a digit follows it, so that `1..5` holds two
    numbers. -/
def numberTail (dotted : Bool) : List Char → List Char × List Char
  | [] => ([], [])
  | c :: cs =>
    if c.isDigit || c == '_' then taking [c] (numberTail dotted cs)
    else if c == '.' && !dotted && starts Char.isDigit cs then taking [c] (numberTail true cs)
    else if c == 'e' || c == 'E' then
      match cs with
      | s :: rest =>
        if s == '+' || s == '-' then taking [c, s] (numberTail dotted rest)
        else taking [c] (numberTail dotted (s :: rest))
      | [] => ([c], [])
    else ([], c :: cs)

/-- A kind suffix, which ends the number: `2d` is a decimal, `2f` a float, and
    `2days` is a number and a name. -/
def numberSuffix : List Char → List Char × List Char
  | c :: cs =>
    if (c == 'd' || c == 'D' || c == 'f' || c == 'F') && !starts isNamePart cs then ([c], cs)
    else ([], c :: cs)
  | [] => ([], [])

def unescape : Char → Char
  | 'n' => '\n'
  | 'r' => '\r'
  | 't' => '\t'
  | '0' => Char.ofNat 0
  | c => c

def stringBody : List Char → Option (List Char × List Char × List Char)
  | [] => none
  | '"' :: cs => some ([], ['"'], cs)
  | '\\' :: e :: cs =>
    (stringBody cs).map fun (value, taken, rest) => (unescape e :: value, '\\' :: e :: taken, rest)
  | c :: cs => (stringBody cs).map fun (value, taken, rest) => (c :: value, c :: taken, rest)

/-- The raw body of an interpolated literal after its opening quote. Quotes inside a hole open and
close nested texts, in which braces do not count. -/
def interpolatedBody : (depth : Nat) → (nested : Bool) → List Char →
    Option (List Char × List Char)
  | _, _, [] => none
  | d, q, '\\' :: e :: cs => (interpolatedBody d q cs).map (taking ['\\', e])
  | d, q, '"' :: cs =>
    if q then (interpolatedBody d false cs).map (taking ['"'])
    else if d = 0 then some ([], cs)
    else (interpolatedBody d true cs).map (taking ['"'])
  | d, q, c :: cs =>
    let depth := if q then d else if c = '\x7b' then d + 1 else if c = '\x7d' then d - 1 else d
    (interpolatedBody depth q cs).map (taking [c])

structure Scanned where
  kind : TokenKind
  text : List Char
  taken : List Char
  rest : List Char

def plain (kind : TokenKind) (taken rest : List Char) : Scanned :=
  ⟨kind, taken, taken, rest⟩

def word (c : Char) (cs : List Char) : Scanned :=
  let (tail, rest) := cs.span isNamePart
  let taken := c :: tail
  match Keyword.ofWord? (String.ofList taken) with
  | some k => plain (.keyword k) taken rest
  | none => plain .identifier taken rest

def number (c : Char) (cs : List Char) : Scanned :=
  let (tail, afterTail) := numberTail false cs
  let (suffix, rest) := numberSuffix afterTail
  plain .number (c :: (tail ++ suffix)) rest

def symbol (c : Char) (cs : List Char) : Scanned :=
  match symbols.find? fun s => s.1.isPrefixOf (c :: cs) with
  | some (spelling, kind) => plain kind spelling ((c :: cs).drop spelling.length)
  | none => plain .unknown [c] cs

def scan (c : Char) (cs : List Char) : Except SyntaxProblem Scanned :=
  if isNameStart c then .ok (word c cs)
  else if c.isDigit then .ok (number c cs)
  else
    match c, cs with
    | '"', cs =>
      match stringBody cs with
      | some (value, taken, rest) => .ok ⟨.string, value, '"' :: taken, rest⟩
      | none => .error .unterminatedString
    | '$', '"' :: cs =>
      match interpolatedBody 0 false cs with
      | some (body, rest) =>
        .ok ⟨.interpolatedString, body, '$' :: '"' :: (body ++ ['"']), rest⟩
      | none => .error .unterminatedInterpolation
    | c, cs => .ok (symbol c cs)

/-- The tokens of the text from a position on, in at most `steps` tokens. The
    last token is the end of the text. -/
def tokensFrom : (steps : Nat) → Mark → List Char → Except SyntaxError (List Token)
  | 0, m, _ => .error ⟨.exhausted, m.upTo m⟩
  | n + 1, m, cs =>
    let (gap, rest) := trivia .blank cs
    let here := m.past gap
    match rest with
    | [] => .ok [⟨.eof, "", here.upTo here⟩]
    | c :: cs =>
      match scan c cs with
      | .error problem => .error ⟨problem, here.upTo (here.past (c :: cs))⟩
      | .ok s =>
        let after := here.past s.taken
        match tokensFrom n after s.rest with
        | .error e => .error e
        | .ok ts => .ok (⟨s.kind, String.ofList s.text, here.upTo after⟩ :: ts)

end Lexer

def tokenizeChars (source : List Char) (line : Nat) : Except SyntaxError (List Token) :=
  Lexer.tokensFrom (source.length + 1) ⟨0, line⟩ source

def tokenize (source : String) (line : Nat) : Except SyntaxError (List Token) :=
  tokenizeChars source.toList line

end ClassScript
