import ClassScript.Source.Lexer

/-!
# Reading Tokens

A cursor holds the token that was read last and the tokens still to be read, which end with the
token for the end of the text. Loops carry a bound on their rounds, the number of tokens left.
-/

namespace ClassScript

/-- The token read last and the tokens to come. Before the first token has been
    read it stands in for the last one. -/
structure Cursor where
  last : Token
  rest : List Token

abbrev Parse (α : Type) := StateT Cursor (Except SyntaxError) α

namespace Cursor

def start (tokens : List Token) : Cursor :=
  ⟨tokens.headD default, tokens⟩

def next (c : Cursor) : Token :=
  c.rest.headD c.last

def at? (c : Cursor) (kind : TokenKind) : Bool :=
  c.next.kind == kind

def step (c : Cursor) : Cursor :=
  match c.rest with
  | t :: more => if t.kind = .eof then c else ⟨t, more⟩
  | [] => c

end Cursor

namespace Parse

variable {α : Type}

def fail (problem : SyntaxProblem) (span : Span) : Parse α :=
  fun _ => .error ⟨problem, span⟩

def peek : Parse Token :=
  fun c => .ok (c.next, c)

def last : Parse Token :=
  fun c => .ok (c.last, c)

def check (kind : TokenKind) : Parse Bool :=
  fun c => .ok (c.at? kind, c)

def checkSecond (kind : TokenKind) : Parse Bool :=
  fun c => .ok ((c.rest.drop 1).head?.any (·.kind == kind), c)

def advance : Parse Token :=
  fun c => .ok (c.step.last, c.step)

def accept (kind : TokenKind) : Parse Bool :=
  fun c => if c.at? kind then .ok (true, c.step) else .ok (false, c)

def expect (kind : TokenKind) (what : String) : Parse Token := do
  if ← check kind then advance else fail (.expected what) (← peek).span

def expectKeyword (k : Keyword) : Parse Token :=
  expect (.keyword k) ("keyword `" ++ k.spelling ++ "`")

def expectName (what : String) : Parse Token :=
  expect .identifier what

def endStatement : Parse Unit := do
  let _ ← accept .semicolon

def rounds : Parse Nat :=
  fun c => .ok (c.rest.length + 1, c)

def exhausted : Parse α := do
  fail .exhausted (← peek).span

def itemsLoop (close : TokenKind) (item : Parse α) : Nat → List α → Parse (List α)
  | 0, _ => exhausted
  | n + 1, done => do
    if (← check close) || (← check .eof) then return done.reverse
    itemsLoop close item n ((← item) :: done)

def itemsUntil (close : TokenKind) (item : Parse α) : Parse (List α) := do
  itemsLoop close item (← rounds) []

def separatedLoop (item : List α → Parse α) : Nat → List α → Parse (List α)
  | 0, _ => exhausted
  | n + 1, done => do
    let done := (← item done) :: done
    if ← accept .comma then separatedLoop item n done else return done.reverse

def separated (item : List α → Parse α) : Parse (List α) := do
  separatedLoop item (← rounds) []

def trailingLoop (close : TokenKind) (item : Parse α) : Nat → List α → Parse (List α)
  | 0, _ => exhausted
  | n + 1, done => do
    if (← check close) || (← check .eof) then return done.reverse
    let done := (← item) :: done
    if ← accept .comma then trailingLoop close item n done else return done.reverse

def trailing (close : TokenKind) (item : Parse α) : Parse (List α) := do
  trailingLoop close item (← rounds) []

def extendLoop (extend : α → Parse (Option α)) : Nat → α → Parse α
  | 0, _ => exhausted
  | n + 1, value => do
    match ← extend value with
    | some longer => extendLoop extend n longer
    | none => return value

def extending (value : α) (extend : α → Parse (Option α)) : Parse α := do
  match ← extend value with
  | some longer => extendLoop extend (← rounds) longer
  | none => return value

end Parse

end ClassScript
