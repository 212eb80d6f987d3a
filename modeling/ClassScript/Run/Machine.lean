import ClassScript.File.Disk
import ClassScript.Source.Problem
import ClassScript.Store.Overloading

/-!
# The State of a Run

A run changes the heap, the modules that have been loaded, and what has been printed. Registers say
where the run currently is.
-/

namespace ClassScript

structure Config where
  modulePaths : List String
  baseDir : Option String
  maxDepth : Nat
  moduleName : Option String
deriving Inhabited, Repr

namespace Config

def defaultDepth : Nat :=
  100000

def standard : Config :=
  ⟨[], none, defaultDepth, none⟩

end Config

/-- Where a run is: the scope, the number of calls under way, the containers being walked, the
modules being loaded, and the directories of the files being run. -/
structure Registers where
  scope : ScopeId
  depth : Nat
  walking : List ObjectId
  loading : List String
  dirs : List String
deriving DecidableEq, Inhabited, Repr

namespace Registers

def goTo (r : Registers) (scope : ScopeId) : Registers :=
  { r with scope := scope }

def enterCall (r : Registers) : Registers :=
  { r with depth := r.depth + 1 }

def leaveCall (r : Registers) : Registers :=
  { r with depth := r.depth - 1 }

def enterWalk (id : ObjectId) (r : Registers) : Registers :=
  { r with walking := id :: r.walking }

def leaveWalk (r : Registers) : Registers :=
  { r with walking := r.walking.tail }

def enterModule (path : String) (r : Registers) : Registers :=
  { r with loading := path :: r.loading }

def leaveModule (path : String) (r : Registers) : Registers :=
  { r with loading := r.loading.erase path }

def enterFile (dir : String) (r : Registers) : Registers :=
  { r with dirs := dir :: r.dirs }

def leaveFile (r : Registers) : Registers :=
  { r with dirs := r.dirs.tail }

end Registers

structure Machine where
  heap : Heap
  registers : Registers
  modules : List (String × ClassId)
  output : String
  config : Config
  disk : Disk
  globals : ScopeId
deriving Inhabited

inductive Failure where
  | syntactic (error : SyntaxError) (notes : List String)
  | fault (fault : Fault) (span : Option Span) (notes : List String)
  | thrown (value : Value) (typeName message : String) (span : Span)
  | file (problem : FileProblem)
deriving DecidableEq, Repr

namespace Failure

def locate (span : Span) : Failure → Failure
  | .fault f none notes => .fault f (some span) notes
  | e => e

def withNote (note : String) : Failure → Failure
  | .syntactic e notes => .syntactic e (notes ++ [note])
  | .fault f span notes => .fault f span (notes ++ [note])
  | e => e

def faultKind? : Failure → Option FaultKind
  | .fault f _ _ => some f.kind
  | _ => none

def isFatal (e : Failure) : Bool :=
  e.faultKind?.any (·.isFatal)

def lineText (before after : String) : Option Span → String
  | some span => before ++ Digits.natText span.line ++ after
  | none => ""

def label : Failure → String
  | .syntactic e _ => if e.problem.isLexical then "Lexer" else "Parser"
  | .fault f _ _ => f.kind.name
  | .thrown _ _ _ _ => "UserThrown"
  | .file _ => "Io"

def message : Failure → String
  | .syntactic e _ => e.problem.message
  | .fault f _ _ => f.message
  | .thrown _ _ message _ => message
  | .file problem => problem.message

def span? : Failure → Option Span
  | .syntactic e _ => some e.span
  | .fault _ span _ => span
  | .thrown _ _ _ span => some span
  | .file _ => none

def notes : Failure → List String
  | .syntactic _ notes => notes
  | .fault _ _ notes => notes
  | _ => []

def text (e : Failure) : String :=
  match e with
  | .syntactic _ _ | .fault _ _ _ =>
    let noteLines := e.notes.map fun note => "  note: " ++ note ++ "\n"
    let tail := if noteLines.isEmpty then "" else "\n" ++ joinWith "" noteLines
    e.label ++ ": " ++ e.message ++ lineText " (line " ")" e.span? ++ tail
  | .thrown _ typeName message span =>
    "uncaught " ++ typeName ++ ": " ++ message ++ lineText " (line " ")" (some span)
  | .file problem => "I/O error: " ++ problem.message

end Failure

end ClassScript
