import ClassScript.File.Path

/-!
# Files

A table from canonical paths to contents, with a working directory. A path is followed name by
name, so every name but the last has to be a directory, also one that a double dot leaves again.
-/

namespace ClassScript

inductive FileProblem where
  | notFound | notDirectory | isDirectory | notText
deriving DecidableEq, Repr

def FileProblem.message : FileProblem → String
  | .notFound => "No such file or directory (os error 2)"
  | .notDirectory => "Not a directory (os error 20)"
  | .isDirectory => "Is a directory (os error 21)"
  | .notText => "stream did not contain valid UTF-8"

structure Disk where
  directory : List String
  files : List (List String × ByteArray)

namespace Disk

def empty : Disk :=
  ⟨[], []⟩

instance : Inhabited Disk := ⟨empty⟩

def contents? (d : Disk) (names : List String) : Option ByteArray :=
  (d.files.find? (·.1 == names)).map (·.2)

def isDirectory (d : Disk) (names : List String) : Bool :=
  names.isPrefixOf d.directory ||
    d.files.any fun (file, _) => names.isPrefixOf file && names != file

def step (d : Disk) (here : List String) (piece : String) : Except FileProblem (List String) :=
  if !d.isDirectory here then .error .notDirectory
  else if !Path.isStep piece then .ok here
  else if piece = ".." then .ok here.dropLast
  else
    let next := here ++ [piece]
    if d.isDirectory next || (d.contents? next).isSome then .ok next else .error .notFound

def walk (d : Disk) : List String → List String → Except FileProblem (List String)
  | here, [] => .ok here
  | here, piece :: rest =>
    match d.step here piece with
    | .ok next => walk d next rest
    | .error e => .error e

def namesOf (d : Disk) (path : String) : Except FileProblem (List String) :=
  if path.isEmpty then .error .notFound
  else d.walk [] (Path.pieces (Path.join (Path.ofNames d.directory) path))

def canonical (d : Disk) (path : String) : Except FileProblem String :=
  (d.namesOf path).map Path.ofNames

def isFile (d : Disk) (path : String) : Bool :=
  match d.namesOf path with
  | .ok names => (d.contents? names).isSome
  | .error _ => false

def readText (d : Disk) (path : String) : Except FileProblem String :=
  match d.namesOf path with
  | .error e => .error e
  | .ok names =>
    match d.contents? names with
    | none => .error .isDirectory
    | some bytes =>
      match String.fromUTF8? bytes with
      | some text => .ok text
      | none => .error .notText

end Disk

end ClassScript
