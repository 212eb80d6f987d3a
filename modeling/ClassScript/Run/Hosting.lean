import ClassScript.Run.Import

/-!
# What a Host Asks

Running sources and files in the module of a machine. A failure of a program names the module it
happened in.
-/

namespace ClassScript

namespace Hosting

def moduleNote (m : Machine) : Option String :=
  if m.registers.dirs.length ≤ 1 then
    m.config.moduleName.map fun name => "in module `" ++ name ++ "`"
  else none

def annotate (note : Option String) (e : Failure) : Failure :=
  match note with
  | some note => e.withNote note
  | none => e

def evalSource (L : Level) (source : String) : Eval Value := do
  let note ← Eval.read moduleNote
  Eval.mapFailure (annotate note) do
    Import.program L (← Import.fromSource (parseProgram source))

def evalFile (L : Level) (path : String) : Eval Value := do
  let disk ← Eval.read (·.disk)
  let source ← Import.fromFile (disk.readText path)
  let file ← Import.fromFile (disk.canonical path)
  Eval.bracket (·.enterFile (Path.parent file)) (·.leaveFile) (evalSource L source)

def call (L : Level) (name : String) (arguments : List Value) : Eval Value := do
  let callee ← Member.getName L name
  Calling.value L callee ⟨arguments, []⟩ Span.nowhere

end Hosting

end ClassScript
