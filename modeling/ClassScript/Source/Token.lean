import ClassScript.Source.Span

/-!
# Tokens

`symbols` lists longer spellings before their beginnings, so that the first spelling that fits
is the longest.
-/

namespace ClassScript

inductive Keyword where
  | var | const | fn | «class» | enum
  | static | «public» | «private» | «protected» | internal
  | «if» | «else» | «while» | «for» | «in» | switch | case | default
  | «try» | «catch» | «finally» | «throw» | «break» | «continue» | «return»
  | true | false | null | «this» | super
  | «import» | «from» | «as»
deriving DecidableEq, Repr

namespace Keyword

def spelling : Keyword → String
  | .var => "var" | .const => "const" | .fn => "fn" | .class => "class" | .enum => "enum"
  | .static => "static" | .public => "public" | .private => "private"
  | .protected => "protected" | .internal => "internal"
  | .if => "if" | .else => "else" | .while => "while" | .for => "for" | .in => "in"
  | .switch => "switch" | .case => "case" | .default => "default"
  | .try => "try" | .catch => "catch" | .finally => "finally" | .throw => "throw"
  | .break => "break" | .continue => "continue" | .return => "return"
  | .true => "true" | .false => "false" | .null => "null"
  | .this => "this" | .super => "super"
  | .import => "import" | .from => "from" | .as => "as"

def all : List Keyword :=
  [.var, .const, .fn, .class, .enum, .static, .public, .private, .protected, .internal,
   .if, .else, .while, .for, .in, .switch, .case, .default, .try, .catch, .finally, .throw,
   .break, .continue, .return, .true, .false, .null, .this, .super, .import, .from, .as]

def ofWord? (word : String) : Option Keyword :=
  all.find? (·.spelling == word)

end Keyword

inductive TokenKind where
  | identifier | number | string | interpolatedString
  | keyword (k : Keyword)
  | lParen | rParen | lBrace | rBrace | lBracket | rBracket
  | comma | dot | dotDot | ellipsis | colon | semicolon
  | assign | plusAssign | minusAssign | starAssign | slashAssign | percentAssign
  | plus | minus | star | slash | percent
  | pipe | doubleAmpersand | doublePipe
  | bang | bangEqual | equalEqual | less | lessEqual | greater | greaterEqual
  | unknown | eof
deriving DecidableEq, Repr

def symbols : List (List Char × TokenKind) :=
  [(['.', '.', '.'], .ellipsis), (['.', '.'], .dotDot), (['.'], .dot),
   (['+', '='], .plusAssign), (['+'], .plus), (['-', '='], .minusAssign), (['-'], .minus),
   (['*', '='], .starAssign), (['*'], .star), (['/', '='], .slashAssign), (['/'], .slash),
   (['%', '='], .percentAssign), (['%'], .percent),
   (['=', '='], .equalEqual), (['='], .assign), (['!', '='], .bangEqual), (['!'], .bang),
   (['<', '='], .lessEqual), (['<'], .less), (['>', '='], .greaterEqual), (['>'], .greater),
   (['&', '&'], .doubleAmpersand), (['|', '|'], .doublePipe), (['|'], .pipe),
   (['('], .lParen), ([')'], .rParen), (['\x7b'], .lBrace), (['\x7d'], .rBrace),
   (['['], .lBracket), ([']'], .rBracket), ([','], .comma), ([';'], .semicolon),
   ([':'], .colon)]

structure Token where
  kind : TokenKind
  text : String
  span : Span
deriving DecidableEq, Repr

instance : Inhabited Token := ⟨⟨.eof, "", default⟩⟩

end ClassScript
