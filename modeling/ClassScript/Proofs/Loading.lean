import ClassScript.Proofs.Computation
import ClassScript.Run.Import

/-!
# What an Import Does

A module that is remembered is given, and a file that is on record is refused. Only then is the file
run, in a new scope, and a class is made of the scope.
-/

namespace ClassScript

open Eval hiding pure

namespace Machine

def enterModule (m : Machine) (path : String) : Machine :=
  let new := m.heap.newScope .module (some m.globals)
  { m with
    heap := new.2
    registers := ((m.registers.enterModule path).enterFile (Path.parent path)).goTo new.1 }

def leaveModule (m began : Machine) (path : String) : Machine :=
  { m with
    registers := ((m.registers.goTo began.registers.scope).leaveFile).leaveModule path }

def moduleClass (m began : Machine) (path : String) : ClassId × Heap :=
  m.heap.exportClass (Path.stem path) began.heap.scopes.size (some began.globals)

def rememberModule (m began : Machine) (path : String) : Machine :=
  { m with
    heap := (m.moduleClass began path).2
    modules := (path, (m.moduleClass began path).1) :: m.modules }

theorem loading_enterModule (m : Machine) (path : String) :
    (m.enterModule path).registers.loading = path :: m.registers.loading := rfl

theorem registers_leaveModule {m began : Machine} {path : String}
    (hregisters : m.registers = (began.enterModule path).registers) :
    (m.leaveModule began path).registers = began.registers := by
  unfold leaveModule
  rw [hregisters]
  simp [enterModule, Registers.goTo, Registers.enterFile, Registers.leaveFile,
    Registers.enterModule, Registers.leaveModule]

end Machine

namespace Import

variable {c : ClassId} {items : List Stmt}

structure Opens (m : Machine) (path : String) (items : List Stmt) : Prop where
  fresh : m.modules.lookup path = none
  out : path ∉ m.registers.loading
  text : ∃ text, m.disk.readText path = .ok text ∧ parseProgram text = .ok items

inductive Ends (L : Level) (path : String) (m : Machine) : Outcome ClassId → Prop
  | cached {c : ClassId} (hfound : m.modules.lookup path = some c) : Ends L path m (.done c m)
  | refused (hnone : m.modules.lookup path = none) (hloading : path ∈ m.registers.loading) :
      Ends L path m (.failed (.fault (.circularImport path) none []) m)
  | unread {e : Failure} (hnone : m.modules.lookup path = none) : Ends L path m (.failed e m)
  | done {items : List Stmt} {v : Value} {m' : Machine} (hopen : Opens m path items)
      (hend : program L items (m.enterModule path) = .done v m') :
      Ends L path m (.done ((m'.leaveModule m path).moduleClass m path).1
        ((m'.leaveModule m path).rememberModule m path))
  | failed {items : List Stmt} {e : Failure} {m' : Machine} (hopen : Opens m path items)
      (hend : program L items (m.enterModule path) = .failed e m') :
      Ends L path m (.failed e (m'.leaveModule m path))
  | stopped {items : List Stmt} {m' : Machine} (hopen : Opens m path items)
      (hend : program L items (m.enterModule path) = .stopped m') : Ends L path m (.stopped m')

variable {L : Level} {m m' : Machine} {path : String}

theorem load_of_cached (hfound : m.modules.lookup path = some c) : load L path m = .done c m := by
  unfold load
  rw [read_bind, hfound]
  rfl

theorem load_of_loading (hnone : m.modules.lookup path = none)
    (hloading : path ∈ m.registers.loading) :
    load L path m = .failed (.fault (.circularImport path) none []) m := by
  unfold load
  rw [read_bind, hnone]
  dsimp only
  rw [read_bind, if_pos (List.contains_iff_mem.mpr hloading)]
  rfl

theorem load_of_new (hnone : m.modules.lookup path = none) (hout : path ∉ m.registers.loading) :
    load L path m = runFile L path m := by
  unfold load
  rw [read_bind, hnone]
  dsimp only
  rw [read_bind, if_neg fun hc => hout (List.contains_iff_mem.mp hc)]

theorem runFile_of_text {text : String}
    (hread : m.disk.readText path = .ok text) (hparse : parseProgram text = .ok items) :
    runFile L path m =
      (runModule L path m.heap.scopes.size items >>= fun _ =>
        Eval.create (·.exportClass (Path.stem path) m.heap.scopes.size (some m.globals)) >>=
          fun c => remember path c >>= fun _ => pure c)
        { m with heap := (m.heap.newScope .module (some m.globals)).2 } := by
  unfold runFile
  rw [read_bind, hread]
  change (fromSource (parseProgram text) >>= _) m = _
  rw [hparse]
  rfl

theorem load_ends_of_opens (hopen : Opens m path items) : Ends L path m (load L path m) := by
  obtain ⟨text, hread, hparse⟩ := hopen.text
  rw [load_of_new hopen.fresh hopen.out, runFile_of_text hread hparse]
  cases hend : program L items (m.enterModule path) with
  | done v m' =>
    have hrun : runModule L path m.heap.scopes.size items
        { m with heap := (m.heap.newScope .module (some m.globals)).2 } =
          .done v (m'.leaveModule m path) :=
      bracket_of_done (bracket_of_done (bracket_of_done hend))
    rw [bind_of_done hrun]
    exact .done hopen hend
  | failed e m' =>
    have hrun : runModule L path m.heap.scopes.size items
        { m with heap := (m.heap.newScope .module (some m.globals)).2 } =
          .failed e (m'.leaveModule m path) :=
      bracket_of_failed (bracket_of_failed (bracket_of_failed hend))
    rw [Eval.bind_apply, hrun]
    exact .failed hopen hend
  | stopped m' =>
    have hrun : runModule L path m.heap.scopes.size items
        { m with heap := (m.heap.newScope .module (some m.globals)).2 } = .stopped m' :=
      bracket_of_stopped (bracket_of_stopped (bracket_of_stopped hend))
    rw [Eval.bind_apply, hrun]
    exact .stopped hopen hend

theorem load_ends (L : Level) (path : String) (m : Machine) : Ends L path m (load L path m) := by
  cases hfound : m.modules.lookup path with
  | some c =>
    rw [load_of_cached hfound]
    exact .cached hfound
  | none =>
    by_cases hloading : path ∈ m.registers.loading
    · rw [load_of_loading hfound hloading]
      exact .refused hfound hloading
    · cases hread : m.disk.readText path with
      | error e =>
        rw [load_of_new hfound hloading]
        unfold runFile
        rw [read_bind, hread]
        exact .unread hfound
      | ok text =>
        cases hparse : parseProgram text with
        | error e =>
          rw [load_of_new hfound hloading]
          unfold runFile
          rw [read_bind, hread]
          change Ends L path m ((fromSource (parseProgram text) >>= _) m)
          rw [hparse]
          exact .unread hfound
        | ok items => exact load_ends_of_opens ⟨hfound, hloading, text, hread, hparse⟩

theorem lookup_of_load (hload : load L path m = .done c m') : m'.modules.lookup path = some c := by
  have hends := load_ends L path m
  rw [hload] at hends
  cases hends with
  | cached hfound => exact hfound
  | done _ _ => exact List.lookup_cons_self

end Import

end ClassScript
