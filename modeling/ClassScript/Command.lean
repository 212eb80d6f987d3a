import ClassScript.Session

/-!
# The Command Line

From arguments, files and input the command computes what is written and how it ends. Options
may stand before or after the word for what to do; those after it win.
-/

namespace ClassScript

namespace Command

inductive Action where
  | run (script : String)
  | repl
  | eval (source : String)
deriving DecidableEq, Repr

structure Settings where
  modulePaths : List String
  maxDepth : Option Nat
deriving Inhabited, Repr

structure Options where
  settings : Settings
  action : Action
deriving Repr

inductive Flag where
  | modulePath | maxDepth | logLevel
deriving DecidableEq, Repr

def longFlags : List (String × Flag) :=
  [("--module-path", .modulePath), ("--max-depth", .maxDepth), ("--log-level", .logLevel)]

def shortFlag : String :=
  "-I"

def flag? (argument : String) : Option (Flag × Option String) :=
  match longFlags.lookup argument with
  | some flag => some (flag, none)
  | none =>
    if argument = shortFlag then some (.modulePath, none)
    else if shortFlag.isPrefixOf argument then
      let value := (argument.drop 2).toString
      some (.modulePath, some (if "=".isPrefixOf value then (value.drop 1).toString else value))
    else
      longFlags.findSome? fun (name, flag) =>
        if (name ++ "=").isPrefixOf argument then
          some (flag, some (argument.drop (name.length + 1)).toString)
        else none

def Settings.add (s : Settings) (flag : Flag) (value : String) : Option Settings :=
  match flag with
  | .modulePath => some { s with modulePaths := s.modulePaths ++ [value] }
  | .maxDepth =>
    match Digits.int? value.toList with
    | some (.ofNat n) => some { s with maxDepth := some n }
    | _ => none
  | .logLevel => some s

/-- Separates options from the other arguments; behind two dashes there are no
    options. -/
def separate : (s : Settings) → List String → Option (Settings × List String)
  | s, [] => some (s, [])
  | s, "--" :: rest => some (s, rest)
  | s, argument :: rest =>
    match flag? argument with
    | none =>
      if "-".isPrefixOf argument && argument.length > 1 then none
      else (separate s rest).map fun (s, words) => (s, argument :: words)
    | some (flag, some value) => (s.add flag value).bind fun s => separate s rest
    | some (flag, none) =>
      match rest with
      | [] => none
      | value :: rest => (s.add flag value).bind fun s => separate s rest

def leading : (s : Settings) → List String → Option (Settings × List String)
  | s, [] => some (s, [])
  | s, argument :: rest =>
    match flag? argument with
    | none => some (s, argument :: rest)
    | some (flag, some value) => (s.add flag value).bind fun s => leading s rest
    | some (flag, none) =>
      match rest with
      | [] => none
      | value :: rest => (s.add flag value).bind fun s => leading s rest

def Settings.merge (before after : Settings) : Settings :=
  ⟨if after.modulePaths.isEmpty then before.modulePaths else after.modulePaths,
   after.maxDepth.orElse fun _ => before.maxDepth⟩

def action? : (verb : String) → List String → Option Action
  | "run", [script] => some (.run script)
  | "repl", [] => some .repl
  | "eval", [source] => some (.eval source)
  | _, _ => none

def parse (arguments : List String) : Option Options := do
  let (before, rest) ← leading default arguments
  match rest with
  | [] => return ⟨before, .repl⟩
  | verb :: rest =>
    let (after, words) ← separate default rest
    return ⟨before.merge after, ← action? verb words⟩

structure Result where
  status : Nat
  output : String
  errors : String
deriving DecidableEq, Repr

def report (e : Failure) : String :=
  let line := Failure.lineText " at line " "" e.span?
  match e with
  | .syntactic _ notes | .fault _ _ notes =>
    "error[" ++ e.label ++ "]" ++ line ++ ": " ++ e.message ++ "\n"
      ++ joinWith "" (notes.map fun note => "  note: " ++ note ++ "\n")
  | .thrown _ typeName message _ =>
    "error[" ++ e.label ++ "]" ++ line ++ ": uncaught " ++ typeName ++ ": " ++ message ++ "\n"
  | .file problem => "error: " ++ problem.message ++ "\n"

def briefReport (e : Failure) : String :=
  match e with
  | .syntactic _ _ | .fault _ _ _ => e.label ++ ": " ++ e.message ++ "\n"
  | e => "error: " ++ e.text ++ "\n"

def printValue (v : Value) : Eval Unit := do
  if v.isNull then return ()
  else Eval.print ((← Session.stringify v) ++ "\n")

def finish (outcome : Outcome Unit) : Result :=
  match outcome with
  | .done _ m => ⟨0, m.output, ""⟩
  | .failed e m => ⟨1, m.output, report e⟩
  | .stopped _ => ⟨1, "", ""⟩

def isFarewell (line : String) : Bool :=
  line == ":quit" || line == ":exit"

def replLine (line : String) (m : Machine) : Machine × String :=
  match Session.evalSource line m with
  | .failed e m => (m, briefReport e)
  | .stopped _ => (m, "")
  | .done v m =>
    match printValue v m with
    | .done _ m => (m, "")
    | .failed e m => (m, "error: " ++ e.text ++ "\n")
    | .stopped _ => (m, "")

def replLines : List String → Machine → (errors : String) → Result
  | [], m, errors => ⟨0, m.output, errors⟩
  | line :: rest, m, errors =>
    let line := Text.trim line
    if isFarewell line then ⟨0, m.output, errors⟩
    else if line.isEmpty then replLines rest m errors
    else
      let (m, report) := replLine line m
      replLines rest m (errors ++ report)

def config (s : Settings) : Config :=
  ⟨s.modulePaths, none, s.maxDepth.getD Config.defaultDepth, none⟩

def machine (o : Options) (disk : Disk) : Machine :=
  let base := config o.settings
  let config := match o.action with
    | .run script => { base with moduleName := some (Path.stem script) }
    | .repl => base
    | .eval _ => { base with baseDir := some (Path.ofNames disk.directory) }
  .initial config disk []

def perform (o : Options) (input : String) (disk : Disk) : Result :=
  let m := machine o disk
  match o.action with
  | .run script => finish ((do let _ ← Session.evalFile script) m)
  | .repl => replLines (input.splitOn "\n") m ""
  | .eval source => finish ((do printValue (← Session.evalSource source)) m)

def run (arguments : List String) (input : String) (disk : Disk) : Result :=
  match parse arguments with
  | some o => perform o input disk
  | none => ⟨2, "", "error: invalid arguments\n"⟩

end Command

end ClassScript
