import ClassScript.Fault
import ClassScript.Json5.Tree
import ClassScript.Number.ReadFloat
import ClassScript.Text.Blank
import ClassScript.Text.Letter

/-!
# Reading JSON5

Readers take what is left of a text and return something with what is left then.

Arrays and objects are nested as deep as `JsonProblem.maxNesting`, and no deeper; the recursion of
`Json.Reader.value` is on the depth left.
-/

namespace ClassScript

namespace Json

structure Place where
  line : Nat
  column : Nat
deriving DecidableEq, Inhabited, Repr

def Place.after (p : Place) (c : Char) : Place :=
  if c = '\n' then ⟨p.line + 1, 1⟩ else ⟨p.line, p.column + c.utf8Size⟩

structure Reader where
  rest : List Char
  place : Place
deriving Inhabited, Repr

namespace Reader

abbrev Result (α : Type) := Except Fault α

def start (cs : List Char) : Reader :=
  ⟨cs, ⟨1, 1⟩⟩

def refusal (p : Place) (problem : JsonProblem) : Fault :=
  .json p.line p.column problem

def refuse {α : Type} (r : Reader) (problem : JsonProblem) : Result α :=
  .error (refusal r.place problem)

def advance : (n : Nat) → Reader → Reader
  | n + 1, ⟨c :: cs, place⟩ => advance n ⟨cs, place.after c⟩
  | _, r => r

def span (p : Char → Bool) (r : Reader) : List Char × Reader :=
  let taken := r.rest.takeWhile p
  (taken, r.advance taken.length)

def startsWith (r : Reader) (s : String) : Bool :=
  s.toList.isPrefixOf r.rest

def at? (r : Reader) (c : Char) : Bool :=
  r.rest.head? == some c

def expect (c : Char) (r : Reader) : Result Reader :=
  if r.at? c then .ok (r.advance 1) else r.refuse (.expectedCharacter c)

inductive Gap where
  | blank
  | line
  | block (opened : Place)

def skip : Gap → Place → List Char → Result Reader
  | .blank, p, '/' :: '/' :: cs => skip .line ((p.after '/').after '/') cs
  | .blank, p, '/' :: '*' :: cs => skip (.block p) ((p.after '/').after '*') cs
  | .blank, p, c :: cs =>
    if Text.isBlank c then skip .blank (p.after c) cs else .ok ⟨c :: cs, p⟩
  | .line, p, c :: cs => skip (if c = '\n' then .blank else .line) (p.after c) cs
  | .block _, p, '*' :: '/' :: cs => skip .blank ((p.after '*').after '/') cs
  | .block opened, p, c :: cs => skip (.block opened) (p.after c) cs
  | .block opened, _, [] => .error (refusal opened .unterminatedComment)
  | _, p, [] => .ok ⟨[], p⟩

def trivia (r : Reader) : Result Reader :=
  skip .blank r.place r.rest

def startsWord (c : Char) : Bool :=
  Text.isLetter c || c == '_' || c == '$'

def inWord (c : Char) : Bool :=
  Text.isLetterOrNumeral c || c == '_' || c == '$'

def bytes : (size : Nat) → List Char → Option (List Char)
  | 0, _ => some []
  | _ + 1, [] => none
  | size + 1, c :: cs =>
    if c.utf8Size ≤ size + 1 then (bytes (size + 1 - c.utf8Size) cs).map (c :: ·) else none

def code (r : Reader) : Result (Nat × Reader) :=
  match bytes 4 r.rest with
  | none => r.refuse .truncatedCode
  | some digits =>
    match Digits.signedHex? digits with
    | some n => .ok (n, r.advance digits.length)
    | none => r.refuse (.invalidCode (String.ofList digits))

def character? (n : Nat) : Option Char :=
  if n.isValidChar then some (Char.ofNat n) else none

/-- The code point of a pair of codes of which the first is a high surrogate. Of
    the second, only the low bits count. -/
def pairPoint (high low : Nat) : Nat :=
  0x10000 + (high - 0xD800) * 0x400 + low % 0x400

def pointed (n : Nat) (problem : JsonProblem) (r : Reader) : Result (Char × Reader) :=
  match character? n with
  | some c => .ok (c, r)
  | none => r.refuse problem

def codeEscape (r : Reader) : Result (Char × Reader) := do
  let (high, r) ← r.code
  if 0xD800 ≤ high && high < 0xDC00 && r.startsWith "\\u" then
    let (low, r) ← (r.advance 2).code
    pointed (pairPoint high low) .invalidPair r
  else pointed high .invalidCodePoint r

def escaped (c : Char) : Char :=
  match c with
  | 'n' => '\n'
  | 't' => '\t'
  | 'r' => '\r'
  | 'b' => '\x08'
  | 'f' => '\x0c'
  | 'v' => '\x0b'
  | '0' => '\x00'
  | c => c

/-- Reads what follows a backslash. A line break there stands for nothing. -/
def escape (r : Reader) : Result (List Char × Reader) :=
  match r.rest with
  | [] => r.refuse .unterminatedEscape
  | 'u' :: _ => do
    let (c, r) ← (r.advance 1).codeEscape
    return ([c], r)
  | '\n' :: _ => .ok ([], r.advance 1)
  | '\r' :: '\n' :: _ => .ok ([], r.advance 2)
  | '\r' :: _ => .ok ([], r.advance 1)
  | c :: _ => .ok ([escaped c], r.advance 1)

def stringBody (quote : Char) : (n : Nat) → (read : List Char) → Reader → Result (String × Reader)
  | 0, _, r => r.refuse .unterminatedString
  | n + 1, read, r =>
    match r.rest with
    | [] => r.refuse .unterminatedString
    | c :: _ =>
      let next := r.advance 1
      if c = quote then .ok (String.ofList read.reverse, next)
      else if c = '\\' then
        match next.escape with
        | .ok (cs, r) => stringBody quote n (cs.reverse ++ read) r
        | .error e => .error e
      else if c = '\n' ∨ c = '\r' then next.refuse .lineBreakInString
      else stringBody quote n (c :: read) next

def string (quote : Char) (r : Reader) : Result (String × Reader) := do
  let r ← r.expect quote
  stringBody quote (r.rest.length + 1) [] r

def sign (r : Reader) : List Char × Reader :=
  match r.rest with
  | '-' :: _ => (['-'], r.advance 1)
  | '+' :: _ => (['+'], r.advance 1)
  | _ => ([], r)

def hexadecimal (negative : Bool) (r : Reader) : Result (Json × Reader) :=
  let (digits, r) := r.span fun c => (Digits.hexDigit? c).isSome
  match (Digits.hex? digits).bind fun n => Word.ofInt? n with
  | some n => .ok (.int (if negative then -n else n), r)
  | none => r.refuse (.hexLiteral (String.ofList digits))

def fraction (r : Reader) : List Char × Reader :=
  if r.at? '.' then
    let (digits, r) := (r.advance 1).span Char.isDigit
    ('.' :: digits, r)
  else ([], r)

def exponent (r : Reader) : Result (List Char × Reader) :=
  match r.rest with
  | c :: _ =>
    if c = 'e' ∨ c = 'E' then
      let (sign, r) := (r.advance 1).sign
      let (digits, r) := r.span Char.isDigit
      if digits.isEmpty then r.refuse .missingExponent else .ok (c :: sign ++ digits, r)
    else .ok ([], r)
  | [] => .ok ([], r)

/-- The number that a spelling without a plus sign stands for: an integer if it can be one. -/
def numeral (spelling : List Char) (isFloat : Bool) (r : Reader) : Result (Json × Reader) :=
  match if isFloat then none else Word.parse? spelling with
  | some n => .ok (.int n, r)
  | none =>
    match Binary64.parse? spelling with
    | some x => .ok (.float x (String.ofList spelling), r)
    | none => r.refuse (.unreadableNumber (String.ofList spelling))

def decimal (negative : Bool) (r : Reader) : Result (Json × Reader) := do
  let (whole, r) := r.span Char.isDigit
  let (fraction, r) := r.fraction
  let (exponent, r) ← r.exponent
  let spelling := whole ++ fraction ++ exponent
  if spelling = [] ∨ spelling = ['.'] then r.refuse .invalidNumber
  else
    numeral (if negative then '-' :: spelling else spelling)
      (!fraction.isEmpty || !exponent.isEmpty) r

def infinityName : String :=
  "Infinity"

def nanName : String :=
  "NaN"

def number (r : Reader) : Result (Json × Reader) :=
  let (sign, r) := r.sign
  let negative := sign == ['-']
  if r.startsWith infinityName then
    .ok (.float (.infinity negative) (String.ofList sign ++ infinityName),
      r.advance infinityName.length)
  else if r.startsWith nanName then
    .ok (.float (.nan false) (String.ofList sign ++ nanName), r.advance nanName.length)
  else if r.startsWith "0x" || r.startsWith "0X" then hexadecimal negative (r.advance 2)
  else decimal negative r

def startsNumber (c : Char) : Bool :=
  c.isDigit || "-+.IN".toList.contains c

def word (r : Reader) : Result (Json × Reader) :=
  let (name, r) := r.span inWord
  match String.ofList name with
  | "null" => .ok (.null, r)
  | "true" => .ok (.bool true, r)
  | "false" => .ok (.bool false, r)
  | name => r.refuse (.unexpectedWord name)

def items (item : Reader → Result (Json × Reader)) :
    (n : Nat) → (read : List Json) → Reader → Result (Json × Reader)
  | 0, _, r => r.refuse .unexpectedEnd
  | n + 1, read, r => do
    let r ← r.trivia
    if r.at? ']' then return (.array read.reverse, r.advance 1)
    let (j, r) ← item r
    let r ← r.trivia
    if r.at? ',' then items item n (j :: read) (r.advance 1)
    else
      let r ← r.expect ']'
      return (.array (j :: read).reverse, r)

def key (r : Reader) : Result (String × Reader) :=
  match r.rest with
  | '"' :: _ => r.string '"'
  | '\'' :: _ => r.string '\''
  | c :: _ =>
    if startsWord c then
      let (name, r) := r.span inWord
      .ok (String.ofList name, r)
    else r.refuse .expectedKey
  | [] => r.refuse .expectedKey

def entries (item : Reader → Result (Json × Reader)) :
    (n : Nat) → (read : List (String × Json)) → Reader → Result (Json × Reader)
  | 0, _, r => r.refuse .unexpectedEnd
  | n + 1, read, r => do
    let r ← r.trivia
    if r.at? '\x7d' then return (.object read.reverse, r.advance 1)
    let (k, r) ← r.key
    let r ← r.trivia
    let r ← r.expect ':'
    let r ← r.trivia
    let (j, r) ← item r
    let r ← r.trivia
    if r.at? ',' then entries item n ((k, j) :: read) (r.advance 1)
    else
      let r ← r.expect '\x7d'
      return (.object ((k, j) :: read).reverse, r)

def value : (room : Nat) → Reader → Result (Json × Reader)
  | room, r =>
    match r.rest with
    | '[' :: _ =>
      match room with
      | 0 => r.refuse .tooDeep
      | room + 1 => items (value room) r.rest.length [] (r.advance 1)
    | '\x7b' :: _ =>
      match room with
      | 0 => r.refuse .tooDeep
      | room + 1 => entries (value room) r.rest.length [] (r.advance 1)
    | '"' :: _ => do
      let (s, r) ← r.string '"'
      return (.string s, r)
    | '\'' :: _ => do
      let (s, r) ← r.string '\''
      return (.string s, r)
    | c :: _ =>
      if startsNumber c then r.number
      else if startsWord c then r.word
      else r.refuse (.unexpectedCharacter c)
    | [] => r.refuse .unexpectedEnd

end Reader

def parse (text : String) : Except Fault Json := do
  let r ← (Reader.start text.toList).trivia
  let (j, r) ← r.value JsonProblem.maxNesting
  let r ← r.trivia
  if r.rest.isEmpty then return j else r.refuse .trailingCharacters

end Json

end ClassScript
