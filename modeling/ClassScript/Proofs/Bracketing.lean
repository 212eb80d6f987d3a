import ClassScript.Library.World
import ClassScript.Proofs.Request

/-!
# Evaluation Is Bracketed

The registers are changed on the way in and changed back on the way out, in different places and by
different means. That this restores them, however a computation ends, needs the same of everything
inside.
-/

namespace ClassScript

variable {α : Type}

/-- How a computation that starts at a machine may leave the registers: as they
    were if it ends, and within the bound on nested calls if it is stopped. The
    configuration is never touched. -/
inductive Outcome.Restores {α : Type} (m : Machine) : Outcome α → Prop
  | done {a : α} {m' : Machine} (hr : m'.registers = m.registers) (hc : m'.config = m.config) :
      Restores m (.done a m')
  | failed {e : Failure} {m' : Machine} (hr : m'.registers = m.registers)
      (hc : m'.config = m.config) : Restores m (.failed e m')
  | stopped {m' : Machine} (hc : m'.config = m.config)
      (hd : m.registers.depth ≤ m.config.maxDepth →
        m'.registers.depth ≤ m'.config.maxDepth) : Restores m (.stopped m')

def Eval.Restoring {α : Type} (x : Eval α) : Prop :=
  ∀ m, (x m).Restores m

structure Level.Entries (P : (α : Type) → List Fact → Eval α → Prop) (L : Level) : Prop where
  evaluate : ∀ e, P _ [] (L.evaluate e)
  execute : ∀ stmt : Stmt, P _ stmt.needs (L.execute stmt)
  invoke : ∀ f receiver arguments span, P _ [] (L.invoke f receiver arguments span)
  body : ∀ (f : Overload) receiver arguments, P _ f.facts (L.body f receiver arguments)
  stringify : ∀ v, P _ [] (L.stringify v)
  operate : ∀ op left rest span, P _ [] (L.operate op left rest span)
  serialize : ∀ outer v, P _ [] (L.serialize outer v)
  deserialize : ∀ j c, P _ [] (L.deserialize j c)

theorem watchedLevel_entries {P : (α : Type) → List Fact → Eval α → Prop} {watch : Machine → Bool}
    (hstopped : ∀ (α : Type) (Γ : List Fact), P α Γ fun m => .stopped m)
    (hstops : ∀ {α : Type} {Γ : List Fact} {x y : Eval α},
      (∀ m, y m = .stopped m ∨ y m = x m) → P α Γ x → P α Γ y)
    (hpiece : ∀ n, (watchedLevel watch n).Entries P → ∀ {α : Type} {Γ : List Fact}
      {x : Level → Eval α}, Built False Γ x → P α Γ (x (watchedLevel watch n))) (n : Nat) :
    (watchedLevel watch n).Entries P := by
  induction n with
  | zero => constructor <;> intros <;> exact hstopped _ _
  | succ n ih =>
    have hentry {α : Type} (Γ : List Fact) {x : Level → Eval α} (hx : Built False Γ x) :
        P α Γ fun m => enter watch n (x (watchedLevel watch n)) m := by
      refine hstops (fun m => ?_) (hpiece n ih hx)
      rw [enter_apply]
      exact ite_eq_or_eq ..
    constructor
    · intro e; exact (hentry [] (Expression.run_built e False.elim) :)
    · intro stmt
      exact (hentry stmt.needs (Statement.run_built stmt False.elim fun _ hk => hk) :)
    · intro f receiver arguments span
      exact (hentry [] (Invocation.invoke_built f receiver arguments span) :)
    · intro f receiver arguments
      exact (hentry f.facts (Invocation.body_built f receiver arguments (fun k hk => hk)
        fun _ _ _ => False.elim) :)
    · intro v; exact (hentry [] (Printing.stringify_built v) :)
    · intro op left rest span; exact (hentry [] (Operation.apply_built op left rest span) :)
    · intro outer v; exact (hentry [] (Writing.write_built outer v) :)
    · intro j c; exact (hentry [] (Filling.fill_built j c) :)

def Level.Restoring (L : Level) : Prop :=
  L.Entries fun _ _ x => x.Restoring

namespace Registers

theorem leaveCall_enterCall (r : Registers) : r.enterCall.leaveCall = r := rfl

theorem goTo_goTo (r : Registers) (s : ScopeId) : (r.goTo s).goTo r.scope = r := rfl

end Registers

namespace Outcome

variable {α : Type}

theorem Restores.after {m m' : Machine} {o : Outcome α} (ho : o.Restores m')
    (hr : m'.registers = m.registers) (hc : m'.config = m.config) : o.Restores m := by
  cases ho with
  | done hr' hc' => exact .done (hr'.trans hr) (hc'.trans hc)
  | failed hr' hc' => exact .failed (hr'.trans hr) (hc'.trans hc)
  | stopped hc' hd' =>
    refine .stopped (hc'.trans hc) fun hd => hd' ?_
    rw [hr, hc]
    exact hd

end Outcome

namespace Eval.Restoring

variable {α β : Type}

theorem bind {x : Eval α} {k : α → Eval β} (hx : x.Restoring) (hk : ∀ a, (k a).Restoring) :
    (x >>= k).Restoring := by
  intro m
  rw [Eval.bind_apply]
  have hm := hx m
  generalize x m = o at hm ⊢
  cases hm with
  | done hr hc => exact (hk _ _).after hr hc
  | failed hr hc => exact .failed hr hc
  | stopped hc hd => exact .stopped hc hd

theorem mapFailure {x : Eval α} (f : Failure → Failure) (hx : x.Restoring) :
    (Eval.mapFailure f x).Restoring := by
  intro m
  have hm := hx m
  unfold Eval.mapFailure
  generalize x m = o at hm ⊢
  cases hm with
  | done hr hc => exact .done hr hc
  | failed hr hc => exact .failed hr hc
  | stopped hc hd => exact .stopped hc hd

theorem attempt {x : Eval α} (hx : x.Restoring) : (Eval.attempt x).Restoring := by
  intro m
  have hm := hx m
  unfold Eval.attempt
  generalize x m = o at hm ⊢
  cases hm with
  | done hr hc | failed hr hc => exact .done hr hc
  | stopped hc hd => exact .stopped hc hd

theorem bracket {x : Eval α} {enter leave : Registers → Registers} {m : Machine}
    (hx : x.Restoring) (hback : leave (enter m.registers) = m.registers)
    (hdepth : m.registers.depth ≤ m.config.maxDepth →
      (enter m.registers).depth ≤ m.config.maxDepth) :
    (Eval.bracket enter leave x m).Restores m := by
  have hleave (r : Registers) (hr : r = enter m.registers) : leave r = m.registers := by
    rw [hr]
    exact hback
  have hm := hx { m with registers := enter m.registers }
  unfold Eval.bracket
  generalize x { m with registers := enter m.registers } = o at hm ⊢
  cases hm with
  | done hr hc => exact .done (hleave _ hr) hc
  | failed hr hc => exact .failed (hleave _ hr) hc
  | stopped hc hd => exact .stopped hc fun h => hd (hdepth h)

theorem loop {step : Eval (Option α)} (hstep : step.Restoring) (n : Nat) :
    Eval.Restoring (Eval.loop step n) := by
  induction n with
  | zero => intro m; exact .stopped rfl id
  | succ n ih =>
    rw [Eval.loop_succ]
    refine bind hstep fun answer => ?_
    cases answer with
    | some a => intro m; exact .done rfl rfl
    | none => exact ih

end Eval.Restoring

theorem Invocation.nested_restores {x : Eval α} (f : Overload) (span : Span)
    (hx : x.Restoring) (m : Machine) :
    ((do
      Invocation.checkDepth f span
      Eval.bracket (·.enterCall) (·.leaveCall) x : Eval α) m).Restores m := by
  rw [Eval.bind_apply, Invocation.checkDepth_apply]
  by_cases hd : m.registers.depth < m.config.maxDepth
  · rw [if_pos hd]
    exact hx.bracket (Registers.leaveCall_enterCall m.registers) fun _ => hd
  · rw [if_neg hd]
    exact .failed rfl rfl

theorem Built.restores {Γ : List Fact} {x : Level → Eval α} (hx : Built False Γ x)
    {L : Level} (hL : L.Restoring) : (x L).Restoring := by
  induction hx with
  | pure | ask | read | change | create | print => intro m; exact .done rfl rfl
  | bind _ _ ihx ihk => exact ihx.bind ihk
  | raise => intro m; exact .failed rfl rfl
  | find hf _ ihk =>
    exact Eval.Restoring.bind (fun m => .done rfl rfl) fun a => ihk a (hf.learned_of_false a)
  | scope _ ihk | site _ _ ihk | siteInside _ _ ihk | globals _ ihk | modules _ _ ihk
  | newScope _ _ _ _ ihk | newInstance _ _ ihk | newOverload _ _ _ _ ihk
  | newClass _ _ _ _ _ _ _ _ _ ihk => exact Eval.Restoring.bind (fun m => .done rfl rfl) ihk
  | disk _ ihk => exact Eval.Restoring.bind (fun m => .done rfl rfl) fun d => ihk d trivial
  | declare _ _ _ _ _ _ _ _ _ ihk =>
    exact Eval.Restoring.bind (fun m => .done rfl rfl) fun c =>
      (ihk c).bind fun _ m => .done rfl rfl
  | «export» _ _ _ _ _ _ _ _ ihk =>
    exact Eval.Restoring.bind (fun m => .done rfl rfl) fun c =>
      Eval.Restoring.bind (fun m => .done rfl rfl) fun _ => ihk c
  | mapFailure f _ _ _ ihx => exact ihx.mapFailure f
  | attempt _ _ _ ihx ihk => exact ihx.attempt.bind fun r => ihk r fun _ _ _ _ => False.elim
  | inScope s _ _ _ ihx | inBody s _ _ _ _ _ _ ihx =>
    intro m
    exact ihx.bracket (Registers.goTo_goTo m.registers s) fun hd => hd
  | bracket enter leave hback _ hdepth _ _ ihx =>
    intro m
    refine ihx.bracket (hback m.registers) fun hd => ?_
    rw [hdepth]
    exact hd
  | load _ _ _ _ _ ihx _ _ => exact ihx
  | pointwise y _ hxy ihy =>
    intro m
    have hsame := hxy m L m.config.maxDepth
    exact hsame ▸ ihy m m
  | nested f span _ ihx => exact Invocation.nested_restores f span ihx
  | loop _ ihstep => exact ihstep.loop L.rounds
  | evaluate e _ => exact hL.evaluate e
  | execute stmt _ _ _ ihk => exact (hL.execute stmt).bind fun flow => ihk flow trivial
  | invoke f receiver arguments span => exact hL.invoke f receiver arguments span
  | body f receiver arguments _ _ => exact hL.body f receiver arguments
  | stringify v => exact hL.stringify v
  | operate op left rest span => exact hL.operate op left rest span
  | serialize outer v => exact hL.serialize outer v
  | deserialize j c => exact hL.deserialize j c

theorem watchedLevel_restoring (watch : Machine → Bool) (n : Nat) :
    (watchedLevel watch n).Restoring := by
  refine watchedLevel_entries (fun _ _ m => .stopped rfl id) (fun hy hx m => ?_)
    (fun _ hL _ _ _ hbuilt => hbuilt.restores hL) n
  rcases hy m with hstop | hsame
  · rw [hstop]
    exact .stopped rfl id
  · rw [hsame]
    exact hx m

/-- Whatever a host asks and however it ends, the registers are afterwards what they were before;
    and where it is stopped, no more calls are under way than the configuration allows. -/
theorem Request.perform_bracketed (watch : Machine → Bool) (n : Nat) (r : Request)
    (m : Machine) : (r.perform (watchedLevel watch n) m).Restores m :=
  (r.perform_built []).restores (watchedLevel_restoring watch n) m

def Outcome.stopsAtDepth {α : Type} (depth : Nat) : Outcome α → Bool
  | .stopped m => m.registers.depth == depth
  | _ => false

theorem Request.countdown_bracketed :
    (Request.countdown.perform (watchedLevel (fun m => m.registers.depth == 3) 40)
        ((Machine.initial Config.standard default []).withLimit 3)).stopsAtDepth 3 = true ∧
      (Request.countdown.perform (watchedLevel (fun m => m.registers.depth == 3) 40)
        ((Machine.initial Config.standard default []).withLimit 3)).Restores
          ((Machine.initial Config.standard default []).withLimit 3) :=
  ⟨by decide +kernel, Request.perform_bracketed (fun m => m.registers.depth == 3) 40
    Request.countdown ((Machine.initial Config.standard default []).withLimit 3)⟩

end ClassScript
