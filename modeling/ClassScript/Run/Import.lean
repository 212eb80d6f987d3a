import ClassScript.Run.Declaration
import ClassScript.Syntax.Parser

/-!
# Modules

A module is a file that is run once, in a scope of its own, and becomes a static class. A path
is looked for beside the importing file and then in the configured directories. Importing a file
that is being run as a module is refused.
-/

namespace ClassScript

namespace Import

def sourceExtension : String :=
  "cv"

def programFrom (L : Level) : (last : Value) → List Stmt → Machine → Outcome Value
  | last, [], m => .done last m
  | last, stmt :: rest, m =>
    match L.execute stmt m with
    | .done .next m => programFrom L last rest m
    | .done (.value v) m => programFrom L v rest m
    | .done (.return v) m => .done v m
    | .done .break m | .done .continue m => .failed (.fault .loopControlAtTop (some stmt.span) []) m
    | .failed e m => .failed e m
    | .stopped m => .stopped m

def program (L : Level) (items : List Stmt) : Eval Value :=
  programFrom L .null items

def fromFile {α : Type} : Except FileProblem α → Eval α
  | .ok a => return a
  | .error e => Eval.raise (.file e)

def fromSource {α : Type} : Except SyntaxError α → Eval α
  | .ok a => return a
  | .error e => Eval.raise (.syntactic e [])

def searchPath (m : Machine) : List String :=
  let here := (m.registers.dirs.head?.orElse fun _ => m.config.baseDir).getD "."
  here :: m.config.modulePaths

def find (path : String) : Eval String := do
  let relative := Path.withExtension path sourceExtension
  let disk ← Eval.read (·.disk)
  if Path.isAbsolute relative then fromFile (disk.canonical relative)
  else
    let candidates := (← Eval.read searchPath).map fun dir => Path.join dir relative
    match candidates.find? disk.isFile with
    | some file => fromFile (disk.canonical file)
    | none => Eval.fail (.moduleNotFound path)

def remember (path : String) (c : ClassId) : Eval Unit :=
  fun m => .done () { m with modules := (path, c) :: m.modules }

def runModule (L : Level) (path : String) (scope : ScopeId) (items : List Stmt) : Eval Value :=
  Eval.bracket (·.enterModule path) (·.leaveModule path)
    (Eval.bracket (·.enterFile (Path.parent path)) (·.leaveFile)
      (Eval.inScope scope (program L items)))

def runFile (L : Level) (path : String) : Eval ClassId := do
  let disk ← Eval.read (·.disk)
  let source ← fromFile (disk.readText path)
  let items ← fromSource (parseProgram source)
  let globals ← Eval.read (·.globals)
  let scope ← Eval.create (·.newScope .module (some globals))
  let _ ← runModule L path scope items
  let c ← Eval.create (·.exportClass (Path.stem path) scope (some globals))
  remember path c
  return c

def load (L : Level) (path : String) : Eval ClassId := do
  match ← Eval.read (·.modules.lookup path) with
  | some c => return c
  | none =>
    if (← Eval.read (·.registers.loading)).contains path then Eval.fail (.circularImport path)
    else runFile L path

def importName (c : ClassId) (name : String) : Eval Unit := do
  let scope ← Eval.scope
  match ← Eval.ask fun h => (h.scopeAt (h.classAt c).scope).local? name with
  | none => Eval.fail (.notExported (← Eval.ask (·.className c)) name)
  | some (.type d) => Declaration.bindClass scope name d
  | some (.family overloads) =>
    Eval.change (·.updateScope scope fun s =>
      { s with functions := s.functions.insert name overloads })
  | some (.variable v) => Calling.setVariable scope name v

def run (L : Level) (path : String) (form : ImportForm) : Eval Unit := do
  let c ← load L (← find path)
  match form with
  | .whole given =>
    let name ← match given with
      | some name => pure name
      | none => Eval.ask (·.className c)
    Declaration.bindClass (← Eval.scope) name c
  | .names names => Eval.forList (importName c) names

end Import

end ClassScript
