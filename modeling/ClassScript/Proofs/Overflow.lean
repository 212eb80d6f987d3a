import ClassScript.Proofs.Bracketing

/-!
# The Bound on Nested Calls

An overflow cannot be caught. Two runs are compared, the second with a higher bound: either the
first overflows, or the second does the same. This disjunction, `Below`, passes from the entries
of a level to everything built over it.
-/

namespace ClassScript

variable {L M : Level}

def Outcome.Overflows {α : Type} : Outcome α → Prop
  | .failed e _ => e.isFatal = true
  | _ => False

instance Outcome.decidableOverflows {α : Type} : (o : Outcome α) → Decidable o.Overflows
  | .done _ _ => inferInstanceAs (Decidable False)
  | .failed e _ => inferInstanceAs (Decidable (e.isFatal = true))
  | .stopped _ => inferInstanceAs (Decidable False)

theorem Outcome.Overflows.failed {α : Type} {o : Outcome α} (ho : o.Overflows) :
    ∃ e m, o = .failed e m ∧ e.isFatal = true := by
  cases o with
  | failed e m => exact ⟨e, m, rfl, ho⟩
  | done | stopped => exact ho.elim

def Outcome.mapMachine {α : Type} (f : Machine → Machine) : Outcome α → Outcome α
  | .done a m => .done a (f m)
  | .failed e m => .failed e (f m)
  | .stopped m => .stopped (f m)

def Machine.allowing (limit : Nat) (m : Machine) : Machine :=
  m.withLimit (max m.config.maxDepth limit)

/-- Wherever the one computation does not overflow, the other does the same with
    the raised bound. -/
def Eval.Below {α : Type} (limit : Nat) (x y : Eval α) : Prop :=
  ∀ m, (x m).Overflows ∨ y (m.allowing limit) = (x m).mapMachine (·.allowing limit)

/-- Down to a depth of calls the two levels do the same. -/
structure Level.Below (limit : Nat) (L M : Level) : Prop where
  rounds : L.rounds = M.rounds
  evaluate : ∀ e, (L.evaluate e).Below limit (M.evaluate e)
  execute : ∀ stmt, (L.execute stmt).Below limit (M.execute stmt)
  invoke : ∀ f receiver arguments span,
    (L.invoke f receiver arguments span).Below limit (M.invoke f receiver arguments span)
  body : ∀ f receiver arguments,
    (L.body f receiver arguments).Below limit (M.body f receiver arguments)
  stringify : ∀ v, (L.stringify v).Below limit (M.stringify v)
  operate : ∀ op left rest span,
    (L.operate op left rest span).Below limit (M.operate op left rest span)
  serialize : ∀ outer v, (L.serialize outer v).Below limit (M.serialize outer v)
  deserialize : ∀ j c, (L.deserialize j c).Below limit (M.deserialize j c)

def Level.above (L : Level) : Level where
  rounds := L.rounds
  evaluate := Expression.run L
  execute := Statement.run L
  invoke := Invocation.invoke L
  body := Invocation.body L
  stringify := Printing.stringify L
  operate := Operation.apply L
  serialize := Writing.write L
  deserialize := Filling.fill L

namespace Eval.Below

variable {α β : Type} {limit : Nat}

theorem of_eq {x : Eval α}
    (hx : ∀ m, x (m.allowing limit) = (x m).mapMachine (·.allowing limit)) : x.Below limit x :=
  fun m => .inr (hx m)

theorem bind {x y : Eval α} {k l : α → Eval β} (hx : x.Below limit y)
    (hk : ∀ a, (k a).Below limit (l a)) : (x >>= k).Below limit (y >>= l) := by
  intro m
  rw [Eval.bind_apply, Eval.bind_apply]
  rcases hx m with ho | hy
  · obtain ⟨e, m', hxm, he⟩ := ho.failed
    rw [hxm]
    exact .inl he
  · rw [hy]
    cases x m with
    | done a m' => exact hk a m'
    | failed | stopped => exact .inr rfl

theorem mapFailure {x y : Eval α} {f : Failure → Failure}
    (hf : ∀ e, (f e).isFatal = e.isFatal) (hx : x.Below limit y) :
    (Eval.mapFailure f x).Below limit (Eval.mapFailure f y) := by
  intro m
  unfold Eval.mapFailure
  rcases hx m with ho | hy
  · obtain ⟨e, m', hxm, he⟩ := ho.failed
    rw [hxm]
    exact .inl ((hf e).trans he)
  · rw [hy]
    cases x m <;> exact .inr rfl

theorem attempt {x y : Eval α} {k l : Except Failure α → Eval β} (hx : x.Below limit y)
    (hk : ∀ r, (k r).Below limit (l r))
    (hfatal : ∀ e, e.isFatal = true → k (.error e) = Eval.raise e) :
    (Eval.attempt x >>= k).Below limit (Eval.attempt y >>= l) := by
  intro m
  rw [Eval.bind_apply, Eval.bind_apply]
  unfold Eval.attempt
  rcases hx m with ho | hy
  · obtain ⟨e, m', hxm, he⟩ := ho.failed
    -- The attempt itself ends well, so it is what follows that has to overflow.
    rw [hxm]
    left
    change (k (.error e) m').Overflows
    rw [hfatal e he]
    exact he
  · rw [hy]
    cases x m with
    | done a m' => exact hk (.ok a) m'
    | failed e m' => exact hk (.error e) m'
    | stopped m' => exact .inr rfl

theorem bracket {x y : Eval α} (enter leave : Registers → Registers) (hx : x.Below limit y)
    (m : Machine) :
    (Eval.bracket enter leave x m).Overflows ∨
      Eval.bracket enter leave y (m.allowing limit) =
        (Eval.bracket enter leave x m).mapMachine (·.allowing limit) := by
  have hsame : ({ m.allowing limit with registers := enter m.registers } : Machine) =
      Machine.allowing limit { m with registers := enter m.registers } := rfl
  unfold Eval.bracket
  rcases hx { m with registers := enter m.registers } with ho | hy
  · obtain ⟨e, m', hxm, he⟩ := ho.failed
    rw [hxm]
    exact .inl he
  · change _ ∨ (match y { m.allowing limit with registers := enter m.registers } with
      | .done a m => _ | .failed e m => _ | .stopped m => _) = _
    rw [hsame, hy]
    cases x { m with registers := enter m.registers } <;> exact .inr rfl

theorem loop {step next : Eval (Option α)} (hstep : step.Below limit next) (n : Nat) :
    Eval.Below limit (Eval.loop step n) (Eval.loop next n) := by
  induction n with
  | zero => intro m; exact .inr rfl
  | succ n ih =>
    rw [Eval.loop_succ, Eval.loop_succ]
    refine bind hstep fun answer => ?_
    cases answer with
    | some a => intro m; exact .inr rfl
    | none => exact ih

end Eval.Below

variable {α : Type} {limit : Nat}

theorem Invocation.nested_below {x y : Eval α} (f : Overload) (span : Span) (hx : x.Below limit y) :
    Eval.Below limit
      (do Invocation.checkDepth f span; Eval.bracket (·.enterCall) (·.leaveCall) x)
      (do Invocation.checkDepth f span; Eval.bracket (·.enterCall) (·.leaveCall) y) := by
  intro m
  rw [Eval.bind_apply, Eval.bind_apply, Invocation.checkDepth_apply,
    Invocation.checkDepth_apply]
  by_cases hd : m.registers.depth < m.config.maxDepth
  · have hd' : (m.allowing limit).registers.depth < (m.allowing limit).config.maxDepth :=
      Nat.lt_of_lt_of_le hd (Nat.le_max_left _ _)
    rw [if_pos hd, if_pos hd']
    exact hx.bracket (·.enterCall) (·.leaveCall) m
  · rw [if_neg hd]
    exact .inl rfl

theorem Built.isBelow {Γ : List Fact} {x : Level → Eval α} (hx : Built False Γ x)
    (h : L.Below limit M) : (x L).Below limit (x M) := by
  induction hx with
  | pure | raise | ask | change | create | print => exact .of_eq fun _ => rfl
  | bind _ _ ihx ihk => exact ihx.bind ihk
  | find hf _ ihk =>
    exact Eval.Below.bind (.of_eq fun _ => rfl) fun a => ihk a (hf.learned_of_false a)
  | read f hf =>
    refine .of_eq fun m => ?_
    change Outcome.done (f (m.allowing limit)) (m.allowing limit) = _
    unfold Machine.allowing
    rw [hf]
    rfl
  | scope _ ihk | site _ _ ihk | siteInside _ _ ihk | globals _ ihk | modules _ _ ihk
  | newScope _ _ _ _ ihk | newInstance _ _ ihk | newOverload _ _ _ _ ihk
  | newClass _ _ _ _ _ _ _ _ _ ihk => exact Eval.Below.bind (.of_eq fun _ => rfl) ihk
  | disk _ ihk => exact Eval.Below.bind (.of_eq fun _ => rfl) fun d => ihk d trivial
  | declare _ _ _ _ _ _ _ _ _ ihk =>
    exact Eval.Below.bind (.of_eq fun _ => rfl) fun c =>
      (ihk c).bind fun _ => .of_eq fun _ => rfl
  | «export» _ _ _ _ _ _ _ _ ihk =>
    exact Eval.Below.bind (.of_eq fun _ => rfl) fun c =>
      Eval.Below.bind (.of_eq fun _ => rfl) fun _ => ihk c
  | mapFailure f hf _ _ ihx => exact ihx.mapFailure hf
  | attempt _ _ hfatal ihx ihk =>
    exact ihx.attempt (fun r => ihk r fun _ _ _ _ => False.elim) (hfatal L)
  | inScope s _ _ _ ihx | inBody s _ _ _ _ _ _ ihx =>
    intro m
    exact ihx.bracket (·.goTo s) (·.goTo m.registers.scope) m
  | bracket enter leave _ _ _ _ _ ihx => exact ihx.bracket enter leave
  | load _ _ _ _ _ ihx _ _ => exact ihx
  | pointwise y _ hxy ihy =>
    intro m
    have hlow := hxy m L m.config.maxDepth
    have hhigh := hxy m M (max m.config.maxDepth limit)
    exact hlow ▸ hhigh ▸ ihy m m
  | nested f span _ ihx => exact Invocation.nested_below f span ihx
  | loop _ ihstep =>
    dsimp only
    rw [← h.rounds]
    exact ihstep.loop L.rounds
  | evaluate e _ => exact h.evaluate e
  | execute stmt _ _ _ ihk => exact (h.execute stmt).bind fun flow => ihk flow trivial
  | invoke f receiver arguments span => exact h.invoke f receiver arguments span
  | body f receiver arguments _ _ => exact h.body f receiver arguments
  | stringify v => exact h.stringify v
  | operate op left rest span => exact h.operate op left rest span
  | serialize outer v => exact h.serialize outer v
  | deserialize j c => exact h.deserialize j c

theorem Level.Below.above (h : L.Below limit M) : L.above.Below limit M.above := by
  have hpiece {α : Type} {Γ : List Fact} {x : Level → Eval α} (hx : Built False Γ x) :
      (x L).Below limit (x M) :=
    hx.isBelow h
  constructor
  · exact h.rounds
  · intro e; exact hpiece (Expression.run_built (Γ := []) e False.elim)
  · intro stmt
    exact hpiece (Statement.run_built (Γ := stmt.needs) stmt False.elim fun _ hk => hk)
  · intro f receiver arguments span
    exact hpiece (Invocation.invoke_built (Γ := []) f receiver arguments span)
  · intro f receiver arguments
    exact hpiece (Invocation.body_built f receiver arguments (fun s hs => hs)
      fun _ _ _ => False.elim)
  · intro v; exact hpiece (Printing.stringify_built (Γ := []) v)
  · intro op left rest span; exact hpiece (Operation.apply_built (Γ := []) op left rest span)
  · intro outer v; exact hpiece (Writing.write_built (Γ := []) outer v)
  · intro j c; exact hpiece (Filling.fill_built (Γ := []) j c)

theorem level_succ (n : Nat) : level (n + 1) = { (level n).above with rounds := n } := by
  have hentry {α : Type} (x : Eval α) : (fun m => enter (fun _ => false) n x m) = x := by
    funext m
    rw [enter_apply, if_neg Bool.false_ne_true]
  unfold level
  rw [watchedLevel]
  simp only [hentry]
  rfl

theorem level_below (limit n : Nat) : (level n).Below limit (level n) := by
  induction n with
  | zero => refine ⟨rfl, ?_, ?_, ?_, ?_, ?_, ?_, ?_, ?_⟩ <;> intros <;> exact .of_eq fun _ => rfl
  | succ n ih =>
    rw [level_succ]
    exact { ih.above with rounds := rfl }

theorem Outcome.Restores.mapMachine_allowing {m : Machine} {o : Outcome α}
    (ho : o.Restores m) (limit : Nat) :
    o.mapMachine (·.allowing limit) =
      o.mapMachine (·.withLimit (max m.config.maxDepth limit)) := by
  cases ho with
  | done _ hc | failed _ hc | stopped hc _ => simp only [Outcome.mapMachine, Machine.allowing, hc]

theorem Machine.withLimit_allowing (m : Machine) {d d' : Nat} (hd : d ≤ d') :
    (m.withLimit d).allowing d' = m.withLimit d' := by
  change m.withLimit (max d d') = m.withLimit d'
  rw [Nat.max_eq_right hd]

/-- A request that does not overflow ends in the same way if more nested calls are allowed, and no
    construct of the language catches an overflow. -/
theorem Request.perform_withLimit :
    (∀ (n : Nat) (r : Request) (m : Machine) (d d' : Nat), d ≤ d' →
      ¬ (r.perform (level n) (m.withLimit d)).Overflows →
      r.perform (level n) (m.withLimit d') =
        (r.perform (level n) (m.withLimit d)).mapMachine (·.withLimit d')) ∧
    (∀ (limit : Nat) (L M : Level), L.Below limit M →
      L.above.Below limit M.above ∧
        ∀ r : Request, (r.perform L).Below limit (r.perform M)) := by
  constructor
  · intro n r m d d' hd hr
    have hbelow := (r.perform_built []).isBelow (level_below d' n) (m.withLimit d)
    have hrestores : Outcome.Restores (m.withLimit d) (r.perform (level n) (m.withLimit d)) :=
      (r.perform_built []).restores (watchedLevel_restoring (fun _ => false) n) (m.withLimit d)
    have hmax : max (m.withLimit d).config.maxDepth d' = d' := Nat.max_eq_right hd
    rw [← m.withLimit_allowing hd, hbelow.resolve_left hr, hrestores.mapMachine_allowing, hmax]
  · intro limit L M h
    exact ⟨h.above, fun r => (r.perform_built []).isBelow h⟩

theorem Request.countdown_withLimit :
    ((Request.countdown.perform (level 40)
        ((Machine.initial Config.standard default []).withLimit 2)).Overflows ∧
      Request.countdown.perform (level 40)
          ((Machine.initial Config.standard default []).withLimit 100) =
        (Request.countdown.perform (level 40)
          ((Machine.initial Config.standard default []).withLimit 3)).mapMachine
            (·.withLimit 100)) ∧
      (level 40).above.Below 100 (level 40).above :=
  ⟨⟨by decide +kernel, Request.perform_withLimit.1 40 Request.countdown
    (Machine.initial Config.standard default []) 3 100 (by decide) (by decide +kernel)⟩,
    (Request.perform_withLimit.2 100 (level 40) (level 40) (level_below 100 40)).1⟩

end ClassScript
