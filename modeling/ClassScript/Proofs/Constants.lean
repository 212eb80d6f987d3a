import ClassScript.Proofs.Variables

/-!
# Constants

A constant keeps its value as long as no import brings a variable of its name into its scope. What
is imported comes in the place of a constant too.
-/

namespace ClassScript

namespace Machine

variable {m m' : Machine} {s : ScopeId} {name : String} {v : Variable}

theorem Runs.plainFields (hrun : m.Runs m') (hplain : m.heap.PlainFields) : m'.heap.PlainFields :=
  hrun.keeps (I := fun m => m.heap.PlainFields) (fun _ _ hmove => hmove.plainFields) hplain

theorem Runs.kind (hrun : m.Runs m') (hs : s < m.heap.scopes.size) :
    (m'.heap.scopeAt s).kind = (m.heap.scopeAt s).kind := by
  refine (hrun.keeps (I := fun m' => s < m'.heap.scopes.size ∧
    (m'.heap.scopeAt s).kind = (m.heap.scopeAt s).kind) (fun a b hmove hk => ?_) ⟨hs, rfl⟩).2
  have hgrows := hmove.extend.grows
  exact ⟨Nat.lt_of_lt_of_le hk.1 hgrows.scopes, (hgrows.kind s hk.1).trans hk.2⟩

theorem Moves.constant (hmove : m.Moves m') (hplain : m.heap.PlainFields)
    (hv : m.heap.varAt? s name = some v) (hconst : v.isConst = true) :
    m'.heap.varAt? s name = some v ∨ m.Imports m' s name := by
  have hnot {P : Prop} (hplain : v.isConst = false) : P := by
    rw [hconst] at hplain
    cases hplain
  cases hmove.alters hplain (Heap.lt_of_varAt? hv) name with
  | kept hsame => exact .inl (hsame.trans hv)
  | assigned => simp_all
  | declared hnone _ =>
    rw [hnone] at hv
    cases hv
  | bound _ hplain => exact hnot (hplain v hv)
  | field hfields _ _ => exact hnot (hplain _ s name v hfields hv)
  | imported himports => exact .inr himports

end Machine

/-- Constants keep their values unless a variable of the same name is imported into the scope. What
    is no scope in which code runs, such as that of a class or an enumeration, keeps its constants
    in any case. -/
theorem InSession.constant_kept {m₀ m m' : Machine} (hm : InSession m₀) (hbegin : m₀.Runs m)
    (hrun : m.Runs m') {s : ScopeId} {name : String} {v : Variable}
    (hv : m.heap.varAt? s name = some v) (hconst : v.isConst = true) :
    (m'.heap.varAt? s name = some v ∨ ∃ m₁ m₂, m.Runs m₁ ∧ m₁.Moves m₂ ∧ m₂.Runs m' ∧
        m₁.heap.varAt? s name = some v ∧ m₁.Imports m₂ s name) ∧
      (¬ (m.heap.scopeAt s).kind.IsOpened → m'.heap.varAt? s name = some v) := by
  have hkept : m'.heap.varAt? s name = some v ∨ ∃ m₁ m₂, m.Runs m₁ ∧ m₁.Moves m₂ ∧
      m₂.Runs m' ∧ m₁.heap.varAt? s name = some v ∧ m₁.Imports m₂ s name := by
    by_cases hend : m'.heap.varAt? s name = some v
    · exact .inl hend
    · -- Some step is the one by which it is replaced.
      obtain ⟨m₁, m₂, hbefore, hmove, hafter, hthen, hnot⟩ :=
        hrun.exists_move (P := fun m => m.heap.varAt? s name ≠ some v) (fun h => h hv) hend
      have hv₁ : m₁.heap.varAt? s name = some v := Decidable.not_not.mp hthen
      have hplain := (hbegin.trans hbefore).plainFields hm.plainFields
      rcases hmove.constant hplain hv₁ hconst with hsame | himports
      · exact absurd hsame hnot
      · exact .inr ⟨m₁, m₂, hbefore, hmove, hafter, hv₁, himports⟩
  refine ⟨hkept, fun hclosed => ?_⟩
  rcases hkept with hend | ⟨m₁, m₂, hbefore, _, _, _, himports⟩
  · exact hend
  · obtain ⟨_, _, _, hopened, _⟩ := himports
    rw [hbefore.kind (Heap.lt_of_varAt? hv)] at hopened
    exact absurd hopened hclosed

def Variable.numbered (n : Int64) (isConst isStatic : Bool) (owner : Option ClassId) : Variable :=
  ⟨.slot (.int n), isConst, isStatic, .public, owner⟩

def Machine.withModule : Machine :=
  Machine.initial Config.standard ⟨[], [(["m.cv"], "var x = 2;".toUTF8)]⟩ []

def Request.constants : Request :=
  .source "const x = 1; enum Color \x7b Red \x7d"

def Request.replacing : Request :=
  .source "import \x7b x \x7d from \"m\"; Color.Red = 5;"

def Request.unwatched (r : Request) (m : Machine) : Outcome Reply :=
  r.perform (watchedLevel (fun _ => false) 40) m

theorem Request.replacing_replaces :
    ∃ reply m, Request.constants.unwatched Machine.withModule = .done reply m ∧
      m.heap.varAt? 51 "x" = some (.numbered 1 true false none) ∧
      (Request.replacing.unwatched m).machine.heap.varAt? 51 "x" =
        some (.numbered 2 false true none) ∧
      m.heap.varAt? 52 "Red" = some (.numbered 0 true true (some 50)) ∧
      (m.heap.scopeAt 52).kind = .classBody 50 := by
  have hcheck : (Request.constants.unwatched Machine.withModule).endsIn (fun _ m => decide (
      m.heap.varAt? 51 "x" = some (.numbered 1 true false none) ∧
      (Request.replacing.unwatched m).machine.heap.varAt? 51 "x" =
        some (.numbered 2 false true none) ∧
      m.heap.varAt? 52 "Red" = some (.numbered 0 true true (some 50)) ∧
      (m.heap.scopeAt 52).kind = .classBody 50)) = true := by
    decide +kernel
  obtain ⟨reply, m, hdone, htest⟩ := Outcome.done_of_endsIn hcheck
  simp_all

theorem constant_not_always_kept :
    ¬ ∀ m m' : Machine, InSession m → m.Runs m' → ∀ s name v, m.heap.varAt? s name = some v →
      v.isConst = true → m'.heap.varAt? s name = some v := by
  intro hkept
  obtain ⟨reply, m, hdone, hbefore, hafter, _⟩ := Request.replacing_replaces
  have hidle : Idle m :=
    .done (.initial _ _ _) (fun _ => false) 40 Request.constants reply hdone
  have hsame := hkept m _ (.idle hidle) (hidle.runs (fun _ => false) 40 Request.replacing)
    51 "x" _ hbefore rfl
  exact absurd (hafter.symm.trans hsame) (by decide)

theorem InSession.constant_kept_enum :
    ∃ m, InSession m ∧ m.Runs (Request.replacing.unwatched m).machine ∧
      m.heap.varAt? 52 "Red" = some (.numbered 0 true true (some 50)) ∧
      (Request.replacing.unwatched m).machine.heap.varAt? 52 "Red" =
        some (.numbered 0 true true (some 50)) ∧
      m.heap.varAt? 51 "x" = some (.numbered 1 true false none) ∧
      ∃ m₁ m₂, m.Runs m₁ ∧ m₁.Moves m₂ ∧ m₁.Imports m₂ 51 "x" := by
  obtain ⟨reply, m, hdone, hbefore, hafter, hred, hkind⟩ := Request.replacing_replaces
  have hidle : Idle m :=
    .done (.initial _ _ _) (fun _ => false) 40 Request.constants reply hdone
  have hrun : m.Runs (Request.replacing.unwatched m).machine :=
    hidle.runs (fun _ => false) 40 Request.replacing
  have hclosed : ¬ (m.heap.scopeAt 52).kind.IsOpened := by
    rw [hkind]
    exact id
  refine ⟨m, .idle hidle, hrun, hred,
    (InSession.constant_kept (.idle hidle) .refl hrun hred rfl).2 hclosed, hbefore, ?_⟩
  rcases (InSession.constant_kept (.idle hidle) .refl hrun hbefore rfl).1 with
    hsame | ⟨m₁, m₂, hfirst, hmove, _, _, himports⟩
  · exact absurd (hafter.symm.trans hsame) (by decide)
  · exact ⟨m₁, m₂, hfirst, hmove, himports⟩

end ClassScript
