import ClassScript.Gathering

/-!
# The Program

The command line on real files and streams.
-/

namespace ClassScript

namespace Terminal

def contents? (names : List String) : IO (Option ByteArray) := do
  try return some (← IO.FS.readBinFile (Path.ofNames names))
  catch _ => return none

partial def gather (s : Command.Settings) (disk : Disk) : List (List String) → IO Disk
  | [] => return disk
  | file :: rest => do
    if (disk.contents? file).isSome then gather s disk rest
    else
      match ← contents? file with
      | none => gather s disk rest
      | some bytes =>
        let more := Gathering.follow s disk.directory file bytes
        gather s { disk with files := (file, bytes) :: disk.files } (more ++ rest)

def write (output errors : String) : IO Unit := do
  (← IO.getStdout).putStr output
  (← IO.getStdout).flush
  (← IO.getStderr).putStr errors

partial def dialogue (s : Command.Settings) (m : Machine) : IO Unit := do
  let read ← (← IO.getStdin).getLine
  let line := Text.trim read
  if read.isEmpty || Command.isFarewell line then return ()
  else if line.isEmpty then dialogue s m
  else
    let working := m.disk.directory
    let disk ← gather s m.disk (Gathering.candidates s working working line)
    let (m, report) := Command.replLine line { m with disk := disk, output := "" }
    write m.output report
    dialogue s m

def run (arguments : List String) : IO UInt32 := do
  let working := Path.names (← IO.currentDir).toString
  match Command.parse arguments with
  | some ⟨s, .repl⟩ =>
    dialogue s (Command.machine ⟨s, .repl⟩ ⟨working, []⟩)
    return 0
  | some o =>
    let disk ← gather o.settings ⟨working, []⟩ (Gathering.start o working)
    let result := Command.perform o "" disk
    write result.output result.errors
    return result.status.toUInt32
  | none =>
    let result := Command.run arguments "" ⟨working, []⟩
    write result.output result.errors
    return result.status.toUInt32

end Terminal

end ClassScript

def main (arguments : List String) : IO UInt32 :=
  ClassScript.Terminal.run arguments
