import ClassScript.Command

/-!
# The Files of a Program

Which files a program can ask for stands in its tokens: a path is the text behind `import` or
`from`, and it is looked for beside the importing file and in the configured directories.
-/

namespace ClassScript

namespace Gathering

def pathsIn : List Token → List String
  | first :: second :: rest =>
    let others := pathsIn (second :: rest)
    if (first.kind = .keyword .import || first.kind = .keyword .from) && second.kind = .string then
      second.text :: others
    else others
  | _ => []

def mentioned (source : String) : List String :=
  match tokenize source 1 with
  | .ok tokens => pathsIn tokens
  | .error _ => []

def resolve : (here : List String) → List String → List String
  | here, [] => here
  | here, piece :: rest =>
    if piece = ".." then resolve here.dropLast rest
    else if Path.isStep piece then resolve (here ++ [piece]) rest
    else resolve here rest

def namesFrom (directory : List String) (path : String) : List String :=
  resolve (if Path.isAbsolute path then [] else directory) (Path.pieces path)

def candidates (s : Command.Settings) (working here : List String) (source : String) :
    List (List String) :=
  let directories := here :: s.modulePaths.map (namesFrom working)
  (mentioned source).flatMap fun path =>
    directories.map fun directory =>
      namesFrom directory (Path.withExtension path Import.sourceExtension)

def start (o : Command.Options) (working : List String) : List (List String) :=
  match o.action with
  | .run script => [namesFrom working script]
  | .eval source => candidates o.settings working working source
  | .repl => []

def follow (s : Command.Settings) (working file : List String) (contents : ByteArray) :
    List (List String) :=
  match String.fromUTF8? contents with
  | some source => candidates s working file.dropLast source
  | none => []

end Gathering

end ClassScript
