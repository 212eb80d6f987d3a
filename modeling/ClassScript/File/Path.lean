/-!
# File Paths

Slashes divide names; repeated slashes and single dots do not count. A name's extension starts
at its last dot, unless the name starts there.
-/

namespace ClassScript

namespace Path

def pieces (p : String) : List String :=
  (p.toList.splitOn '/').map String.ofList

def isStep (piece : String) : Bool :=
  piece != "" && piece != "."

def isAbsolute (p : String) : Bool :=
  p.startsWith "/"

def fileName? (p : String) : Option String :=
  ((pieces p).filter isStep).getLast?.filter (· != "..")

/-- A name cut at its last dot: what is before it, and what is behind it if
    something is before it. -/
def splitName (name : String) : String × Option String :=
  match name.toList.reverse.span (· != '.') with
  | (_, []) => (name, none)
  | (_, [_]) => (name, none)
  | (back, _ :: front) => (String.ofList front.reverse, some (String.ofList back.reverse))

def extension? (p : String) : Option String :=
  (fileName? p).bind fun name => (splitName name).2

def stem (p : String) : String :=
  match fileName? p with
  | some name => (splitName name).1
  | none => ""

def trimEnd (p : String) : String :=
  let rec go : List Char → List Char
    | '/' :: cs => go cs
    | '.' :: '/' :: cs => go cs
    | cs => cs
  String.ofList (go p.toList.reverse).reverse

/-- Puts an extension behind the last name of a path that has none. A path that
    ends in no name stays as it is. -/
def withExtension (p extension : String) : String :=
  match fileName? p with
  | some _ => if (extension? p).isSome then p else trimEnd p ++ "." ++ extension
  | none => p

def join (directory p : String) : String :=
  if isAbsolute p then p
  else if directory.isEmpty || directory.endsWith "/" then directory ++ p
  else directory ++ "/" ++ p

def ofNames (names : List String) : String :=
  "/" ++ "/".intercalate names

def names (p : String) : List String :=
  (pieces p).filter isStep

def parent (p : String) : String :=
  ofNames (names p).dropLast

end Path

end ClassScript
