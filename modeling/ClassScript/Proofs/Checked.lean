import ClassScript.Proofs.Lawful

/-!
# Programs That Were Read From Texts

Four faults of the evaluator are about the shape of a tree. A program that was read from a text
does not reach them, not even where a handler might catch them: if all levels are changed to
stop where an entry ends in one of the four, its run stays the same.
-/

namespace ClassScript

variable {α : Type} {o : Outcome α}

def Outcome.IsMalformed {α : Type} : Outcome α → Prop
  | .failed e _ => e.isMalformed = true
  | _ => False

instance Outcome.decidableIsMalformed {α : Type} : (o : Outcome α) → Decidable o.IsMalformed
  | .done _ _ => inferInstanceAs (Decidable False)
  | .failed e _ => inferInstanceAs (Decidable (e.isMalformed = true))
  | .stopped _ => inferInstanceAs (Decidable False)

/-- The outcome, with a stop at some other machine in the place of the faults of a
    malformed tree. -/
def Outcome.divert {α : Type} (elsewhere : Machine → Machine) : Outcome α → Outcome α
  | .failed e m => if e.isMalformed then .stopped (elsewhere m) else .failed e m
  | o => o

def Level.divert (elsewhere : Machine → Machine) (L : Level) : Level where
  rounds := L.rounds
  evaluate e m := (L.evaluate e m).divert elsewhere
  execute stmt m := (L.execute stmt m).divert elsewhere
  invoke f receiver arguments span m :=
    (L.invoke f receiver arguments span m).divert elsewhere
  body f receiver arguments m := (L.body f receiver arguments m).divert elsewhere
  stringify v m := (L.stringify v m).divert elsewhere
  operate op left rest span m := (L.operate op left rest span m).divert elsewhere
  serialize outer v m := (L.serialize outer v m).divert elsewhere
  deserialize j c m := (L.deserialize j c m).divert elsewhere

def divertedLevel (elsewhere : Machine → Machine) : Nat → Level
  | 0 => Level.none
  | n + 1 => Level.divert elsewhere { (divertedLevel elsewhere n).above with rounds := n }

theorem Outcome.Clean.lawful (ho : o.Clean True) : ¬ o.IsMalformed := by
  intro h
  cases o with
  | failed e m =>
    have hfailure := ho.failure e m rfl
    cases e with
    | fault f span notes => exact absurd h (Bool.eq_false_iff.mp (hfailure f rfl trivial))
    | syntactic | thrown | file => cases h
  | done | stopped => exact h

theorem Outcome.Clean.divert (ho : o.Clean True)
    (elsewhere : Machine → Machine) : o.divert elsewhere = o := by
  cases o with
  | done | stopped => rfl
  | failed => exact if_neg ho.lawful

theorem divertedLevel_eq (elsewhere : Machine → Machine) (n : Nat) :
    divertedLevel elsewhere n = changedLevel (fun _ => Outcome.divert elsewhere) n := by
  induction n with
  | zero => rfl
  | succ n ih =>
    rw [divertedLevel, ih]
    rfl

theorem level_agrees_diverted (elsewhere : Machine → Machine) (n : Nat) :
    (level n).Agrees True (divertedLevel elsewhere n) := by
  rw [divertedLevel_eq]
  exact level_agrees_changed (fun _ _ ho => ho.divert elsewhere) n

/-- A machine that occurs if all programs are read from texts: a new one, or where a
    request to one that occurs ends or is stopped. -/
inductive ReachableByText : Machine → Prop
  | initial (config : Config) (disk : Disk) (hosts : List HostClass) :
      ReachableByText (Machine.initial config disk hosts)
  | request {m : Machine} (hm : ReachableByText m) (watch : Machine → Bool) (n : Nat)
      (r : Request) (hr : r.IsParsed) :
      ReachableByText (r.perform (watchedLevel watch n) m).machine

theorem ReachableByText.checked {m : Machine} (hm : ReachableByText m) : m.Obeys True := by
  induction hm with
  | initial config disk hosts => exact Machine.initial_obeys config trivial hosts
  | @request m _ watch n r hr ih =>
    have hrun := (r.perform_checked [] fun _ => hr).agrees (watchedLevel_agrees watch n) m ih
    exact hrun.2.machine

/-- What is read from a text is well formed. If all programs are, a request does the same with a
    stop anywhere else in the place of the faults of a malformed tree, and it does not end in one.
    -/
theorem Request.perform_parsed :
    (∀ source program, parseProgram source = .ok program → ∀ s ∈ program, s.WellFormed .block) ∧
      ∀ m, ReachableByText m → ∀ r : Request, r.IsParsed → ∀ n elsewhere,
        r.perform (divertedLevel elsewhere n) m = r.perform (level n) m ∧
          ¬ (r.perform (level n) m).IsMalformed := by
  refine ⟨fun source program h => parseProgram_wellFormed h, fun m hm r hr n elsewhere => ?_⟩
  have hbuilt := r.perform_checked [] fun _ : True => hr
  obtain ⟨hsame, hclean⟩ := hbuilt.agrees (level_agrees_diverted elsewhere n) m hm.checked
  exact ⟨hsame, hclean.lawful⟩

example :
    let null := Expr.literal default .null
    let guarded := Request.module
      [.try default [.expr (.assign default null none null)] [⟨none, none, [], default⟩] none]
    (guarded.perform (divertedLevel id 20)
      (Machine.initial Config.standard default [])).stopsAtDepth 0 = true := by
  decide +kernel

def Request.accounts : String :=
  "class A \x7b var total = 0;\n" ++
  "var Total \x7b get \x7b return total; \x7d set \x7b total = value; \x7d \x7d\n" ++
  "fn Add(x, ...rest) \x7b this.total += x;\n" ++
  "for (y in rest) \x7b Total = Total + y; \x7d return this; \x7d \x7d\n" ++
  "try \x7b print($\"\x7bA().Add(1, 2).Add(x: 3).Total\x7d\"); \x7d\n" ++
  "finally \x7b print(-(1 + 2) * 3); \x7d"

theorem Request.accounts_parsed :
    ∃ program, parseProgram accounts = .ok program ∧ (∀ s ∈ program, s.WellFormed .block) ∧
      (∀ elsewhere, (Request.module program).perform (divertedLevel elsewhere 60)
          (Machine.initial Config.standard default []) =
        (Request.module program).perform (level 60) (Machine.initial Config.standard default [])) ∧
      ((Request.module program).perform (level 60)
        (Machine.initial Config.standard default [])).machine.output = "6-9" := by
  have hprints : (parseProgram accounts).toOption.map (fun program =>
      ((Request.module program).perform (level 60)
        (Machine.initial Config.standard default [])).machine.output) = some "6-9" := by
    decide +kernel
  cases hprogram : parseProgram accounts with
  | ok program =>
    rw [hprogram] at hprints
    refine ⟨program, rfl, Request.perform_parsed.1 accounts program hprogram, fun elsewhere => ?_,
      Option.some.inj hprints⟩
    exact (Request.perform_parsed.2 _ (.initial Config.standard default []) (.module program)
      ⟨accounts, hprogram⟩ 60 elsewhere).1
  | error e =>
    rw [hprogram] at hprints
    cases hprints

end ClassScript
