import ClassScript.Proofs.Runs

/-!
# Modules Are Run Once

A file is run as a module when it is imported for the first time, and while it is being run it is
on record, so that what comes back to it is refused. The files on record are those that are being
run as modules, each once, so imports nest no deeper than there are files.
-/

namespace ClassScript

open Eval Outcome

namespace Machine

variable {m m' : Machine} {path : String} {c : ClassId}

theorem Moves.disk (hmove : m.Moves m') : m'.disk = m.disk := by
  cases hmove.step with
  | still _ _ hdisk => exact hdisk
  | _ => rfl

theorem Runs.disk (hrun : m.Runs m') : m'.disk = m.disk :=
  hrun.keeps (I := fun m₁ => m₁.disk = m.disk) (fun _ _ hmove hm => hmove.disk.trans hm) rfl

theorem Moves.lookup (hmove : m.Moves m')
    (hfound : m.modules.lookup path = some c) : m'.modules.lookup path = some c := by
  cases hmove.step with
  | still _ hmodules _ =>
    rw [hmodules]
    exact hfound
  | «export» =>
    -- What is remembered now was not remembered before.
    grind
  | _ => exact hfound

theorem Runs.lookup (hrun : m.Runs m')
    (hfound : m.modules.lookup path = some c) : m'.modules.lookup path = some c :=
  hrun.keeps (I := fun m => m.modules.lookup path = some c) (fun _ _ hmove => hmove.lookup) hfound

theorem Recorded.length_le_files (hm : m.Recorded) :
    m.registers.loading.length ≤ m.disk.files.length :=
  Disk.length_le_files hm.once hm.files

end Machine

namespace Import

variable {watch : Machine → Bool} {n : Nat} {m m' : Machine} {path source : String}

theorem find_done (hfind : find source m = .done path m') : m' = m ∧ Path.IsCanonical path := by
  have hfile (place : String) (h : fromFile (m.disk.canonical place) m = .done path m') :
      m' = m ∧ Path.IsCanonical path := by
    cases hplace : m.disk.canonical place with
    | error e =>
      rw [hplace] at h
      cases h
    | ok file =>
      rw [hplace] at h
      cases h
      exact ⟨rfl, Disk.isCanonical_of_canonical hplace⟩
  unfold find at hfind
  rw [read_bind] at hfind
  split at hfind
  · exact hfile _ hfind
  · rw [read_bind] at hfind
    generalize List.find? _ _ = found at hfind
    cases found with
    | some place => exact hfile place hfind
    | none => cases hfind

theorem program_steps (watch : Machine → Bool) (n : Nat) (hm : m.Steady)
    (hpath : Path.IsCanonical path) {items : List Stmt} (hopen : Opens m path items) :
    (program (watchedLevel watch n) items (m.enterModule path)).Steps watch
      (m.enterModule path) fun _ => False := by
  have hbuilt : Built False [.here, .inside] fun L => program L items :=
    program_built items False.elim (List.Subset.refl _)
  exact hbuilt.steps watch n (hm.begins.enterModule hpath hopen).2.2

theorem lookup_of_failed (hm : m.Steady) (hpath : Path.IsCanonical path) {e : Failure}
    (hload : load (watchedLevel watch n) path m = .failed e m') :
    m'.modules.lookup path = none := by
  have hends := load_ends (watchedLevel watch n) path m
  rw [hload] at hends
  cases hends with
  | refused hnone _ | unread hnone => exact hnone
  | @failed items _ m₁ hopen hend =>
    have hsteps := program_steps watch n hm hpath hopen
    have hbuilt : Built False [.here, .inside] fun L => program L items :=
      program_built items False.elim (List.Subset.refl _)
    have hrestores := hbuilt.restores (watchedLevel_restoring watch n) (m.enterModule path)
    rw [hend] at hsteps hrestores
    have hrun : (m.enterModule path).Runs m₁ := hsteps.runs
    cases hrestores with
    | failed hregisters _ =>
      -- When it failed it was on record.
      exact (hrun.steady (hm.begins.enterModule hpath hopen).2.2.steady).not_remembered hregisters

theorem mem_loading_of_stopped (hm : m.Steady) (hpath : Path.IsCanonical path)
    (hload : load (watchedLevel watch n) path m = .stopped m') :
    path ∈ m'.registers.loading := by
  have hends := load_ends (watchedLevel watch n) path m
  rw [hload] at hends
  cases hends with
  | stopped hopen hend =>
    have hsteps := program_steps watch n hm hpath hopen
    rw [hend] at hsteps
    cases hsteps with
    | stopped _ hunder =>
      rw [hunder.loading, Machine.loading_enterModule]
      simp

theorem run_of_loading (hm : m.Recorded) (hfind : find source m = .done path m)
    (hloading : path ∈ m.registers.loading) (L : Level) (form : ImportForm) :
    run L source form m = .failed (.fault (.circularImport path) none []) m := by
  unfold run
  rw [bind_of_done hfind, Eval.bind_apply, load_of_loading (hm.apart path hloading) hloading]

end Import

/-- Modules are run once, and one that is being loaded is not loaded again. -/
structure Machine.LoadsOnce (m : Machine) : Prop where
  cached : ∀ L path c, m.modules.lookup path = some c → Import.load L path m = .done c m
  apart : ∀ path ∈ m.registers.loading, m.modules.lookup path = none
  once : m.registers.loading.Nodup
  bounded : m.registers.loading.length ≤ m.disk.files.length
  refused : ∀ path ∈ m.registers.loading, ∀ L source form, Import.find source m = .done path m →
    Import.run L source form m = .failed (.fault (.circularImport path) none []) m ∧
      (Fault.circularImport path).kind = .invalidOperation
  recorded : ∀ watch n source path m', Import.find source m = .done path m →
    Import.load (watchedLevel watch n) path m = .stopped m' → path ∈ m'.registers.loading
  forgotten : ∀ watch n source path e m', Import.find source m = .done path m →
    Import.load (watchedLevel watch n) path m = .failed e m' → m'.modules.lookup path = none
  shared : ∀ L path c m', Import.load L path m = .done c m' →
    ∀ m₁, m'.Runs m₁ → ∀ L₁ source, Import.find source m₁ = .done path m₁ →
      (Import.find source >>= Import.load L₁) m₁ = .done c m₁

theorem Machine.Steady.loadsOnce {m : Machine} (hm : m.Steady) : m.LoadsOnce where
  cached _ _ _ hfound := Import.load_of_cached hfound
  apart := hm.recorded.apart
  once := hm.recorded.once
  bounded := hm.recorded.length_le_files
  refused _ hloading L _ form hfind :=
    ⟨Import.run_of_loading hm.recorded hfind hloading L form, rfl⟩
  recorded _ _ _ _ _ hfind := Import.mem_loading_of_stopped hm (Import.find_done hfind).2
  forgotten _ _ _ _ _ _ hfind := Import.lookup_of_failed hm (Import.find_done hfind).2
  shared _ _ _ _ hload _ hrun _ _ hfind := by
    rw [bind_of_done hfind]
    exact Import.load_of_cached (hrun.lookup (Import.lookup_of_load hload))

/-- Files are run as modules once: at each machine of a run, imports do what they should, and where
    a request is stopped, the files on record are those that are being run. -/
theorem Idle.loads_once {m₀ : Machine} (hm₀ : Idle m₀) :
    m₀.registers.loading = [] ∧
      (∀ m, m₀.Runs m → m.disk = m₀.disk ∧ m.LoadsOnce) ∧
      ∀ watch n (r : Request),
        m₀.Runs (r.perform (watchedLevel watch n) m₀).machine ∧
          ∀ m, r.perform (watchedLevel watch n) m₀ = .stopped m →
            Machine.Underway watch m m₀ m.registers.loading := by
  refine ⟨hm₀.loading, fun m hrun => ⟨hrun.disk, (hrun.steady hm₀.steady).loadsOnce⟩,
    fun watch n r => ⟨hm₀.runs watch n r, fun m hstop => ?_⟩⟩
  have hsteps := hm₀.steps watch n r
  rw [hstop] at hsteps
  cases hsteps with
  | stopped _ hunder =>
    -- Nothing was on record when the request was made.
    rw [hunder.loading, hm₀.loading, List.append_nil]
    exact hunder

def Machine.withCycle : Machine :=
  Machine.initial Config.standard
    ⟨[], [(["a.cv"], "import \"b\"".toUTF8),
      (["b.cv"], "fn f() \x7b import \"a\" \x7d try \x7b f() \x7d catch \x7b \x7d".toUTF8)]⟩ []

def Request.cycle : Request :=
  .source "import \"a\""

def Machine.inCycle (m : Machine) : Bool :=
  m.registers.loading.length == 2 && m.registers.depth == 1

def Outcome.stopsIn {α : Type} (test : Machine → Bool) : Outcome α → Bool
  | .stopped m => test m
  | _ => false

theorem Outcome.stopped_of_stopsIn {α : Type} {test : Machine → Bool} {o : Outcome α}
    (h : o.stopsIn test = true) : ∃ m, o = .stopped m ∧ test m = true := by
  cases o with
  | stopped m => exact ⟨m, rfl, h⟩
  | _ => cases h

theorem Machine.withCycle_loads_once :
    ∃ m, Request.cycle.perform (watchedLevel Machine.inCycle 40) Machine.withCycle = .stopped m ∧
      Machine.Underway Machine.inCycle m Machine.withCycle ["/b.cv", "/a.cv"] ∧
      m.registers.loading.Nodup ∧ m.registers.loading.length ≤ m.disk.files.length ∧
      Import.find "a" m = .done "/a.cv" m ∧
      ∀ L form, Import.run L "a" form m =
        .failed (.fault (.circularImport "/a.cv") none []) m := by
  have hcheck : (Request.cycle.perform (watchedLevel Machine.inCycle 40)
      Machine.withCycle).stopsIn (fun m => decide (m.registers.loading = ["/b.cv", "/a.cv"]) &&
        (Import.find "a" m).endsIn fun file _ => file == "/a.cv") = true := by
    decide +kernel
  obtain ⟨m, hstop, htest⟩ := stopped_of_stopsIn hcheck
  obtain ⟨hloading, hfind⟩ := Bool.and_eq_true_iff.mp htest
  have hloading := of_decide_eq_true hloading
  obtain ⟨file, m', hfind, hfile⟩ := done_of_endsIn hfind
  obtain ⟨rfl, _⟩ := Import.find_done hfind
  rw [beq_iff_eq.mp hfile] at hfind
  have hidle : Idle Machine.withCycle := .initial Config.standard _ []
  obtain ⟨_, hall, hperform⟩ := Idle.loads_once hidle
  obtain ⟨hrun, hunder⟩ := hperform Machine.inCycle 40 Request.cycle
  rw [hstop] at hrun
  have honce := (hall _ hrun).2
  refine ⟨_, hstop, hloading ▸ hunder _ hstop, honce.once, honce.bounded, hfind, fun L form => ?_⟩
  exact (honce.refused "/a.cv" (by rw [Outcome.machine, hloading]; decide) L "a" form hfind).1

end ClassScript
