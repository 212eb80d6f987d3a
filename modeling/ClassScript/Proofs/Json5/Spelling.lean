import ClassScript.Json5.Reader

/-!
# The Spellings of a Document

What texts a JSON5 document may be written as, by relations that do not mention a reader. The text
of an array is cut behind each comma, so that the part behind the opening bracket has the same form
as the part behind a comma, and a comma may follow the last item. Documents with floats are left
out.
-/

namespace ClassScript

namespace Json

/-- Blanks and comments. A comment up to the end of the line ends with the line
    break. -/
inductive Trivia : List Char → Prop
  | none : Trivia []
  | blank {c : Char} {rest : List Char} (hc : Text.isBlank c = true) (hrest : Trivia rest) :
      Trivia (c :: rest)
  | line {comment rest : List Char} (hc : '\n' ∉ comment) (hrest : Trivia rest) :
      Trivia ('/' :: '/' :: (comment ++ '\n' :: rest))
  | block {comment rest : List Char} (hc : ¬ ['*', '/'] <:+: comment) (hrest : Trivia rest) :
      Trivia ('/' :: '*' :: (comment ++ '*' :: '/' :: rest))

/-- Blanks and comments at the end of a text, which may be inside a comment up to
    the end of the line. -/
inductive Ending : List Char → Prop
  | trivia {rest : List Char} (h : Trivia rest) : Ending rest
  | line {rest comment : List Char} (h : Trivia rest) (hc : '\n' ∉ comment) :
      Ending (rest ++ '/' :: '/' :: comment)

def escapes : List (Char × Char) :=
  [('n', '\n'), ('t', '\t'), ('r', '\r'), ('b', '\x08'), ('f', '\x0c'), ('v', '\x0b'),
   ('0', '\x00')]

def lineBreaks : List (List Char) :=
  [['\n'], ['\r'], ['\r', '\n']]

/-- How some characters can be written between quotes of one kind. -/
inductive Written (quote : Char) : (text meaning : List Char) → Prop
  | nil : Written quote [] []
  | raw {c : Char} {text meaning : List Char} (hquote : c ≠ quote) (hescape : c ≠ '\\')
      (hline : c ≠ '\n') (hreturn : c ≠ '\r') (hrest : Written quote text meaning) :
      Written quote (c :: text) (c :: meaning)
  | mark {c : Char} {text meaning : List Char} (hc : c ∈ ['"', '\'', '\\'])
      (hrest : Written quote text meaning) : Written quote ('\\' :: c :: text) (c :: meaning)
  | letter {l c : Char} {text meaning : List Char} (hc : (l, c) ∈ escapes)
      (hrest : Written quote text meaning) : Written quote ('\\' :: l :: text) (c :: meaning)
  | code {digits : List Char} {c : Char} {text meaning : List Char} (hlength : digits.length = 4)
      (hc : Digits.hex? digits = some c.toNat) (hrest : Written quote text meaning) :
      Written quote ('\\' :: 'u' :: (digits ++ text)) (c :: meaning)
  | lineBreak {mark text meaning : List Char} (hm : mark ∈ lineBreaks)
      (hrest : Written quote text meaning) : Written quote ('\\' :: (mark ++ text)) meaning

inductive Quoted (s : String) : List Char → Prop
  | mk {quote : Char} {text : List Char} (hq : quote = '"' ∨ quote = '\'')
      (hw : Written quote text s.toList) : Quoted s (quote :: (text ++ [quote]))

def digitsValue (digits : List Char) : Nat :=
  Nat.ofDigitChars 10 digits 0

/-- Integers in decimal digits, behind a sign if there is one. -/
inductive Numeral : Int → List Char → Prop
  | plain {digits : List Char} (hne : digits ≠ []) (hd : ∀ c ∈ digits, c.isDigit = true) :
      Numeral (digitsValue digits) digits
  | plus {digits : List Char} (hne : digits ≠ []) (hd : ∀ c ∈ digits, c.isDigit = true) :
      Numeral (digitsValue digits) ('+' :: digits)
  | minus {digits : List Char} (hne : digits ≠ []) (hd : ∀ c ∈ digits, c.isDigit = true) :
      Numeral (-(digitsValue digits : Int)) ('-' :: digits)

inductive KeyText (key : String) : List Char → Prop
  | quoted {text : List Char} (h : Quoted key text) : KeyText key text
  | bare {c : Char} {text : List Char} (hkey : key.toList = c :: text)
      (hfirst : Reader.startsWord c = true) (hrest : ∀ d ∈ text, Reader.inWord d = true) :
      KeyText key (c :: text)

/-- What can be spelled: a document, or what is left of an array or an object behind
    its opening bracket or a comma. -/
inductive Form where
  | value (j : Json)
  | items (js : List Json)
  | entries (es : List (String × Json))

/-- The spellings of documents, and of the rests of arrays and objects up to the
    closing bracket. -/
inductive Spells : Form → List Char → Prop
  | null : Spells (.value .null) ['n', 'u', 'l', 'l']
  | yes : Spells (.value (.bool true)) ['t', 'r', 'u', 'e']
  | no : Spells (.value (.bool false)) ['f', 'a', 'l', 's', 'e']
  | int {n : Int64} {text : List Char} (h : Numeral n.toInt text) : Spells (.value (.int n)) text
  | string {s : String} {text : List Char} (h : Quoted s text) : Spells (.value (.string s)) text
  | array {js : List Json} {text : List Char} (h : Spells (.items js) text) :
      Spells (.value (.array js)) ('[' :: text)
  | object {es : List (String × Json)} {text : List Char} (h : Spells (.entries es) text) :
      Spells (.value (.object es)) ('\x7b' :: text)
  | noItems {before : List Char} (hb : Trivia before) : Spells (.items []) (before ++ [']'])
  | lastItem {j : Json} {before text after : List Char} (hb : Trivia before)
      (hj : Spells (.value j) text) (ha : Trivia after) :
      Spells (.items [j]) (before ++ (text ++ (after ++ [']'])))
  | item {j : Json} {js : List Json} {before text after rest : List Char} (hb : Trivia before)
      (hj : Spells (.value j) text) (ha : Trivia after) (hrest : Spells (.items js) rest) :
      Spells (.items (j :: js)) (before ++ (text ++ (after ++ ',' :: rest)))
  | noEntries {before : List Char} (hb : Trivia before) :
      Spells (.entries []) (before ++ ['\x7d'])
  | lastEntry {k : String} {j : Json} {before key colon between text after : List Char}
      (hb : Trivia before) (hk : KeyText k key) (hc : Trivia colon) (hm : Trivia between)
      (hj : Spells (.value j) text) (ha : Trivia after) :
      Spells (.entries [(k, j)])
        (before ++ (key ++ (colon ++ ':' :: (between ++ (text ++ (after ++ ['\x7d']))))))
  | entry {k : String} {j : Json} {es : List (String × Json)}
      {before key colon between text after rest : List Char} (hb : Trivia before)
      (hk : KeyText k key) (hc : Trivia colon) (hm : Trivia between)
      (hj : Spells (.value j) text) (ha : Trivia after) (hrest : Spells (.entries es) rest) :
      Spells (.entries ((k, j) :: es))
        (before ++ (key ++ (colon ++ ':' :: (between ++ (text ++ (after ++ ',' :: rest))))))

/-- A whole text that spells a document, with blanks and comments at both ends. -/
inductive Spelling (j : Json) : String → Prop
  | mk {s : String} {before text after : List Char} (hb : Trivia before)
      (hj : Spells (.value j) text) (ha : Ending after)
      (hs : s.toList = before ++ (text ++ after)) : Spelling j s

end Json

end ClassScript
