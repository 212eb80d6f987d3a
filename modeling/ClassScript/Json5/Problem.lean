import ClassScript.Number.Digits

/-!
# What Can Be Wrong with a JSON5 Text

The problems that reading a JSON5 text can find, with their wording.
-/

namespace ClassScript

inductive JsonProblem where
  | trailingCharacters
  | tooDeep
  | unexpectedWord (word : String)
  | unexpectedCharacter (c : Char)
  | unexpectedEnd
  | expectedKey
  | expectedCharacter (c : Char)
  | hexLiteral (digits : String)
  | missingExponent
  | invalidNumber
  | unreadableNumber (spelling : String)
  | unterminatedString
  | unterminatedEscape
  | lineBreakInString
  | invalidPair
  | invalidCodePoint
  | truncatedCode
  | invalidCode (digits : String)
  | unterminatedComment
deriving DecidableEq, Repr

namespace JsonProblem

def maxNesting : Nat :=
  512

def message : JsonProblem → String
  | .trailingCharacters => "unexpected trailing characters"
  | .tooDeep => "nesting deeper than " ++ Digits.natText maxNesting ++ " levels"
  | .unexpectedWord word => "unexpected identifier `" ++ word ++ "`"
  | .unexpectedCharacter c => "unexpected character `" ++ String.singleton c ++ "`"
  | .unexpectedEnd => "unexpected end of input"
  | .expectedKey => "expected an object key"
  | .expectedCharacter c => "expected `" ++ String.singleton c ++ "`"
  | .hexLiteral digits => "invalid hex literal `0x" ++ digits ++ "`"
  | .missingExponent => "missing exponent digits"
  | .invalidNumber => "invalid number"
  | .unreadableNumber spelling => "invalid number `" ++ spelling ++ "`"
  | .unterminatedString => "unterminated string"
  | .unterminatedEscape => "unterminated escape"
  | .lineBreakInString => "newline in string"
  | .invalidPair => "invalid surrogate pair"
  | .invalidCodePoint => "invalid unicode escape"
  | .truncatedCode => "truncated unicode escape"
  | .invalidCode digits => "invalid unicode escape `" ++ digits ++ "`"
  | .unterminatedComment => "unterminated block comment"

end JsonProblem

end ClassScript
