import ClassScript.Proofs.Overflow
import ClassScript.Proofs.Preparation

/-!
# Runs of Code That Keeps to a Rule

If all code in the heap and on the disk keeps to a rule, and so does what a request brings, then so
does all code that a run puts into the heap, and the run ends in no fault that the rule excludes.
Such a fault is not even reached on the way: `Built.agrees` says that a run stays the same over
entries that are changed where they end in one.
-/

namespace ClassScript

open Heap

variable {C : Law} {α : Type} {x : Eval α} {L M : Level}

structure Heap.Obeys (C : Law) (h : Heap) : Prop where
  overloads : ∀ f, C.overload (h.overloadAt f)
  fields : ∀ c, ∀ f ∈ (h.classAt c).fields, C.field f

structure Machine.Obeys (C : Law) (m : Machine) : Prop where
  heap : m.heap.Obeys C
  disk : C.disk m.disk

namespace Heap

variable {h : Heap}

theorem newOverload_obeys (hh : h.Obeys C) {f : Overload} (hf : C.overload f) :
    (h.newOverload f).2.Obeys C := by
  refine ⟨fun id => ?_, hh.fields⟩
  change C.overload ((h.overloads.push f).getD id default)
  rw [getD_push]
  split
  · exact hf
  · exact hh.overloads id

theorem newClass_obeys (hh : h.Obeys C) {c : Class} (hc : c.fields = [])
    (parent : Option ScopeId) : (h.newClass c parent).2.Obeys C := by
  refine ⟨hh.overloads, fun id => ?_⟩
  change ∀ f ∈ ((h.classes.push { c with id := _, scope := _ }).getD id default).fields, _
  rw [getD_push]
  split
  · intro f hf
    rw [hc] at hf
    cases hf
  · exact hh.fields id

theorem updateClass_obeys (hh : h.Obeys C) (c : ClassId) (g : Class → Class)
    (hg : ∀ k, (∀ f ∈ k.fields, C.field f) → ∀ f ∈ (g k).fields, C.field f) :
    (h.updateClass c g).Obeys C := by
  refine ⟨hh.overloads, fun id => ?_⟩
  change ∀ f ∈ ((h.classes.modify c g).getD id default).fields, _
  have hid := hh.fields id
  rw [classAt, Array.getD_eq_getD_getElem?] at hid
  rw [Array.getD_eq_getD_getElem?, Array.getElem?_modify]
  split
  · generalize h.classes[id]? = o at hid ⊢
    cases o with
    | none => exact hid
    | some k => exact hg k hid
  · exact hid

theorem inheritedFields_obeys (hh : h.Obeys C) (supers : List ClassId) :
    ∀ f ∈ h.inheritedFields supers, C.field f := by
  have hall : ∀ f ∈ supers.flatMap fun p => (h.classAt p).fields, C.field f := by
    intro f hf
    obtain ⟨p, _, hf⟩ := List.mem_flatMap.mp hf
    exact hh.fields p f hf
  unfold inheritedFields
  generalize supers.flatMap (fun p => (h.classAt p).fields) = fields at hall ⊢
  have hfold (seen : List FieldInit) (hseen : ∀ f ∈ seen, C.field f) :
      ∀ f ∈ fields.foldl (fun seen f =>
        if seen.any fun g => g.name == f.name && g.owner == f.owner then seen
        else seen ++ [f]) seen, C.field f := by
    induction fields generalizing seen with
    | nil => exact hseen
    | cons => grind
  exact hfold [] fun _ hf => nomatch hf

theorem mergeSuper_obeys (hh : h.Obeys C) (target : ScopeId) (super : ClassId) :
    (h.mergeSuper target super).Obeys C := by
  unfold mergeSuper
  dsimp only
  cases (h.classAt super).ancestors <;> exact ⟨hh.overloads, hh.fields⟩

theorem foldl_obeys {ε : Type} (step : Heap → ε → Heap)
    (hstep : ∀ (h : Heap) (e : ε), h.Obeys C → (step h e).Obeys C) (es : List ε) :
    ∀ h : Heap, h.Obeys C → (es.foldl step h).Obeys C := by
  induction es with
  | nil => intro h hh; exact hh
  | cons e es ih => simp_all

theorem flatten_obeys (hh : h.Obeys C) (id : ClassId) : (h.flatten id).Obeys C := by
  have hown := hh.fields id
  unfold flatten
  dsimp only
  split
  · exact hh
  · have hnew := newClass_obeys hh (c := Class.fresh ((h.classAt id).name ++ ".super") [] true
      .private) rfl (h.scopeAt (h.classAt id).scope).parent
    generalize h.newClass _ _ = shadow at hnew ⊢
    have hsupers := foldl_obeys (fun h p => h.mergeSuper (shadow.2.classAt shadow.1).scope p)
      (fun h p hh => mergeSuper_obeys hh _ p) (h.classAt id).supers shadow.2 hnew
    generalize (h.classAt id).supers.foldl _ shadow.2 = merged at hsupers ⊢
    have hmerged : (merged.mergeScopes .keep (shadow.2.classAt shadow.1).scope
        (h.classAt id).scope).Obeys C := ⟨hsupers.overloads, hsupers.fields⟩
    refine updateClass_obeys hmerged id _ fun k _ f hf => ?_
    rcases List.mem_append.mp hf with hf | hf
    · exact inheritedFields_obeys hmerged _ f hf
    · exact hown f hf

end Heap

variable {Γ : List Fact} {h : Heap}

theorem Write.obeys {f : Heap → Heap} (hf : Write C Γ f) (hh : h.Obeys C) : (f h).Obeys C := by
  cases hf with
  | field f _ hf =>
    refine updateClass_obeys hh _ _ fun k hk g hg => ?_
    unfold Class.addField at hg
    grind
  -- All other changes are not of code.
  | _ => exact ⟨hh.overloads, hh.fields⟩

theorem Creation.obeys {f : Heap → Nat × Heap} (hf : Creation Γ f)
    (hh : h.Obeys C) : (f h).2.Obeys C := by
  cases hf <;> exact ⟨hh.overloads, hh.fields⟩

theorem Finding.learns {f : Heap → α} {known : α → List Fact}
    {learned : α → Prop} (hf : Finding C Γ f known learned) (hh : h.Obeys C) :
    learned (f h) := by
  cases hf with
  | fields c => exact hh.fields c
  | overload id => exact hh.overloads id
  | _ => trivial

structure Outcome.Clean {α : Type} (C : Law) (o : Outcome α) : Prop where
  machine : o.machine.Obeys C
  failure : ∀ e m, o = .failed e m → C.failure e

def Eval.Agrees {α : Type} (C : Law) (x y : Eval α) : Prop :=
  ∀ m : Machine, m.Obeys C → y m = x m ∧ (x m).Clean C

structure Level.Agrees (C : Law) (L M : Level) : Prop where
  rounds : M.rounds = L.rounds
  evaluate : ∀ e, C.code (.expr e) → (L.evaluate e).Agrees C (M.evaluate e)
  execute : ∀ stmt, C.code (.stmt stmt) → (L.execute stmt).Agrees C (M.execute stmt)
  flow : ∀ stmt m flow m', L.execute stmt m = .done flow m' → C.flow stmt flow
  invoke : ∀ f receiver arguments span,
    (L.invoke f receiver arguments span).Agrees C (M.invoke f receiver arguments span)
  body : ∀ f receiver arguments, C.overload f →
    (L.body f receiver arguments).Agrees C (M.body f receiver arguments)
  stringify : ∀ v, (L.stringify v).Agrees C (M.stringify v)
  operate : ∀ op left rest span,
    (L.operate op left rest span).Agrees C (M.operate op left rest span)
  serialize : ∀ outer v, (L.serialize outer v).Agrees C (M.serialize outer v)
  deserialize : ∀ j c, (L.deserialize j c).Agrees C (M.deserialize j c)

namespace Outcome.Clean

variable {α : Type}
variable {m : Machine}

theorem done {a : α} (hm : m.Obeys C) : (Outcome.done a m).Clean C := ⟨hm, fun _ _ h => nomatch h⟩

theorem failed {e : Failure} (hm : m.Obeys C) (he : C.failure e) :
    (Outcome.failed e m : Outcome α).Clean C := by
  refine ⟨hm, fun e' m' h => ?_⟩
  cases h
  exact he

theorem stopped (hm : m.Obeys C) : (Outcome.stopped m : Outcome α).Clean C :=
  ⟨hm, fun _ _ h => nomatch h⟩

end Outcome.Clean

namespace Eval.Agrees

variable {α β : Type} {k l : α → Eval β}

theorem of_clean {x : Eval α} (hx : ∀ m : Machine, m.Obeys C → (x m).Clean C) : x.Agrees C x :=
  fun m hm => ⟨rfl, hx m hm⟩

theorem of_done {x : Eval α} {value : Machine → α} {next : Machine → Machine}
    (hx : ∀ m, x m = .done (value m) (next m))
    (hnext : ∀ m : Machine, m.Obeys C → (next m).Obeys C) : x.Agrees C x := by
  refine of_clean fun m hm => ?_
  rw [hx m]
  exact .done (hnext m hm)

theorem bindWith {P : α → Prop} {x y : Eval α} (hx : x.Agrees C y)
    (hP : ∀ m a m', x m = .done a m' → P a) (hk : ∀ a, P a → (k a).Agrees C (l a)) :
    (x >>= k).Agrees C (y >>= l) := by
  intro m hm
  obtain ⟨hy, hclean⟩ := hx m hm
  rw [Eval.bind_apply, Eval.bind_apply, hy]
  cases hxm : x m with
  | done a m' =>
    rw [hxm] at hclean
    exact hk a (hP m a m' hxm) m' hclean.machine
  | failed e m' =>
    rw [hxm] at hclean
    exact ⟨rfl, .failed hclean.machine (hclean.failure e m' rfl)⟩
  | stopped m' =>
    rw [hxm] at hclean
    exact ⟨rfl, .stopped hclean.machine⟩

theorem bind {x y : Eval α} (hx : x.Agrees C y)
    (hk : ∀ a, (k a).Agrees C (l a)) : (x >>= k).Agrees C (y >>= l) :=
  bindWith (P := fun _ => True) hx (fun _ _ _ _ => trivial) fun a _ => hk a

theorem mapFailure {x y : Eval α} {f : Failure → Failure}
    (hf : ∀ e, (f e).fault? = e.fault?) (hx : x.Agrees C y) :
    (Eval.mapFailure f x).Agrees C (Eval.mapFailure f y) := by
  intro m hm
  obtain ⟨hy, hclean⟩ := hx m hm
  unfold Eval.mapFailure
  rw [hy]
  generalize x m = o at hclean ⊢
  cases o with
  | done a m' => exact ⟨rfl, .done hclean.machine⟩
  | failed e m' =>
    exact ⟨rfl, .failed hclean.machine (Law.failure_congr (hf e) (hclean.failure e m' rfl))⟩
  | stopped m' => exact ⟨rfl, .stopped hclean.machine⟩

theorem attempt {x y : Eval α} {k l : Except Failure α → Eval β} (hx : x.Agrees C y)
    (hk : ∀ r, (∀ e, r = .error e → C.failure e) → (k r).Agrees C (l r)) :
    (Eval.attempt x >>= k).Agrees C (Eval.attempt y >>= l) := by
  intro m hm
  obtain ⟨hy, hclean⟩ := hx m hm
  rw [Eval.bind_apply, Eval.bind_apply]
  unfold Eval.attempt
  rw [hy]
  generalize x m = o at hclean ⊢
  cases o with
  | done a m' => exact hk (.ok a) (fun e he => nomatch he) m' hclean.machine
  | failed e m' =>
    refine hk (.error e) (fun e' he => ?_) m' hclean.machine
    cases he
    exact hclean.failure e m' rfl
  | stopped m' => exact ⟨rfl, .stopped hclean.machine⟩

theorem bracket {x y : Eval α} (enter leave : Registers → Registers) (hx : x.Agrees C y) :
    (Eval.bracket enter leave x).Agrees C (Eval.bracket enter leave y) := by
  intro m hm
  obtain ⟨hy, hclean⟩ := hx { m with registers := enter m.registers } ⟨hm.heap, hm.disk⟩
  unfold Eval.bracket
  rw [hy]
  generalize x { m with registers := enter m.registers } = o at hclean ⊢
  cases o with
  | done a m' => exact ⟨rfl, .done ⟨hclean.machine.heap, hclean.machine.disk⟩⟩
  | failed e m' =>
    exact ⟨rfl, .failed ⟨hclean.machine.heap, hclean.machine.disk⟩ (hclean.failure e m' rfl)⟩
  | stopped m' => exact ⟨rfl, .stopped hclean.machine⟩

theorem loop {x y : Eval (Option α)} (hx : x.Agrees C y) (n : Nat) :
    Eval.Agrees C (Eval.loop x n) (Eval.loop y n) := by
  induction n with
  | zero => exact of_clean fun m hm => .stopped hm
  | succ n ih =>
    rw [Eval.loop_succ, Eval.loop_succ]
    refine bind hx fun answer => ?_
    cases answer with
    | some a => exact of_done (fun _ => rfl) fun _ hm => hm
    | none => exact ih

end Eval.Agrees

theorem Invocation.checkDepth_agrees (f : Overload) (span : Span) :
    (Invocation.checkDepth f span).Agrees C (Invocation.checkDepth f span) := by
  refine .of_clean fun m hm => ?_
  rw [Invocation.checkDepth_apply]
  split
  · exact .done hm
  · exact .failed hm (Law.failure_fault (C.ordinary _ rfl) _ _)

/-- By induction on the steps. The code that a step finds in the heap keeps to the rule,
    and so does the code that it puts there. -/
theorem Built.agrees {x : Level → Eval α} (hx : Built C Γ x)
    (hL : L.Agrees C M) : (x L).Agrees C (x M) := by
  induction hx with
  | pure | ask | read => exact .of_done (fun _ => rfl) fun _ hm => hm
  | bind _ _ ihx ihk => exact ihx.bind ihk
  | raise e he => exact .of_clean fun m hm => .failed hm he
  | find hf _ ihk => exact fun m hm => ihk _ (hf.learns hm.heap) m hm
  | scope _ ihk | site _ _ ihk | siteInside _ _ ihk | globals _ ihk | modules path _ ihk =>
    exact fun m hm => ihk _ m hm
  | disk _ ihk => exact fun m hm => ihk _ hm.disk m hm
  | change hf | create hf => exact .of_done (fun _ => rfl) fun _ hm => ⟨hf.obeys hm.heap, hm.disk⟩
  | newScope kind parent _ _ ihk | newInstance type _ ihk =>
    exact fun m hm => ihk _ _ ⟨⟨hm.heap.overloads, hm.heap.fields⟩, hm.disk⟩
  | newOverload f _ hc _ ihk =>
    exact fun m hm => ihk _ _ ⟨newOverload_obeys hm.heap hc, hm.disk⟩
  | newClass name supers isStatic access parent _ _ _ _ ihk =>
    exact fun m hm => ihk _ _ ⟨newClass_obeys hm.heap rfl _, hm.disk⟩
  | declare name supers isStatic access parent _ _ _ _ ihk =>
    intro m hm
    refine Eval.Agrees.bind (ihk _) (fun _ => ?_) _ ⟨newClass_obeys hm.heap rfl _, hm.disk⟩
    exact .of_done (fun _ => rfl) fun _ hm => ⟨flatten_obeys hm.heap _, hm.disk⟩
  | «export» path name source parent _ _ _ _ ihk =>
    intro m hm
    have hnew := newClass_obeys hm.heap (c := Class.fresh name [] true .public) rfl
      (some parent)
    exact ihk _ _ ⟨⟨hnew.overloads, hnew.fields⟩, hm.disk⟩
  | print => exact .of_done (fun _ => rfl) fun _ hm => ⟨hm.heap, hm.disk⟩
  | mapFailure f _ hm _ ihx => exact ihx.mapFailure hm
  | attempt _ _ _ ihx ihk => exact ihx.attempt ihk
  | inScope s _ _ _ ihx | inBody s _ _ _ _ _ _ ihx => exact fun m hm => ihx.bracket _ _ m hm
  | bracket enter leave _ _ _ _ _ ihx => exact ihx.bracket enter leave
  | load _ _ _ _ _ ihx _ _ => exact ihx
  | pointwise y _ hxy ihy =>
    intro m hm
    have hfirst := hxy m L m.config.maxDepth
    have hsecond := hxy m M m.config.maxDepth
    exact hfirst ▸ hsecond ▸ ihy m m hm
  | nested f span _ ihx => exact (Invocation.checkDepth_agrees f span).bind fun _ => ihx.bracket _ _
  | loop _ ihstep =>
    dsimp only
    rw [hL.rounds]
    exact ihstep.loop L.rounds
  | evaluate e he => exact hL.evaluate e he
  | execute stmt hs _ _ ihk => exact (hL.execute stmt hs).bindWith (hL.flow stmt) ihk
  | invoke f receiver arguments span => exact hL.invoke f receiver arguments span
  | body f receiver arguments _ hc => exact hL.body f receiver arguments hc
  | stringify v => exact hL.stringify v
  | operate op left rest span => exact hL.operate op left rest span
  | serialize outer v => exact hL.serialize outer v
  | deserialize j c => exact hL.deserialize j c

theorem Level.Agrees.above (h : L.Agrees C M) : L.above.Agrees C M.above where
  rounds := h.rounds
  evaluate e he := (Expression.run_built (Γ := []) e he).agrees h
  execute stmt hs := (Statement.run_built (Γ := stmt.needs) stmt hs fun _ hk => hk).agrees h
  flow := C.flows L h.flow
  invoke f receiver arguments span :=
    (Invocation.invoke_built (Γ := []) f receiver arguments span).agrees h
  body f receiver arguments hf :=
    (Invocation.body_built f receiver arguments (fun _ hk => hk) hf).agrees h
  stringify v := (Printing.stringify_built (Γ := []) v).agrees h
  operate op left rest span := (Operation.apply_built (Γ := []) op left rest span).agrees h
  serialize outer v := (Writing.write_built (Γ := []) outer v).agrees h
  deserialize j c := (Filling.fill_built (Γ := []) j c).agrees h

theorem Level.none_agrees : Level.none.Agrees C Level.none := by
  constructor
  · rfl
  case flow => exact fun _ _ _ _ => nofun
  all_goals intros; exact .of_clean fun m hm => .stopped hm

def Level.mapOutcome (f : (α : Type) → Outcome α → Outcome α) (L : Level) : Level where
  rounds := L.rounds
  evaluate e m := f _ (L.evaluate e m)
  execute stmt m := f _ (L.execute stmt m)
  invoke id receiver arguments span m := f _ (L.invoke id receiver arguments span m)
  body g receiver arguments m := f _ (L.body g receiver arguments m)
  stringify v m := f _ (L.stringify v m)
  operate op left rest span m := f _ (L.operate op left rest span m)
  serialize outer v m := f _ (L.serialize outer v m)
  deserialize j c m := f _ (L.deserialize j c m)

def changedLevel (f : (α : Type) → Outcome α → Outcome α) : Nat → Level
  | 0 => Level.none
  | n + 1 => Level.mapOutcome f { (changedLevel f n).above with rounds := n }

theorem Eval.Agrees.mapOutcome {f : Outcome α → Outcome α}
    (hf : ∀ o, o.Clean C → f o = o) {y : Eval α} (h : x.Agrees C y) :
    x.Agrees C fun m => f (y m) := by
  intro m hm
  obtain ⟨hy, hclean⟩ := h m hm
  simp_all

section Changed

variable {f : (α : Type) → Outcome α → Outcome α}

theorem Level.Agrees.mapOutcome (hf : ∀ α o, o.Clean C → f α o = o)
    (h : L.Agrees C M) : L.Agrees C (M.mapOutcome f) where
  rounds := h.rounds
  evaluate e he := (h.evaluate e he).mapOutcome (hf _)
  execute stmt hs := (h.execute stmt hs).mapOutcome (hf _)
  flow := h.flow
  invoke id receiver arguments span := (h.invoke id receiver arguments span).mapOutcome (hf _)
  body g receiver arguments hg := (h.body g receiver arguments hg).mapOutcome (hf _)
  stringify v := (h.stringify v).mapOutcome (hf _)
  operate op left rest span := (h.operate op left rest span).mapOutcome (hf _)
  serialize outer v := (h.serialize outer v).mapOutcome (hf _)
  deserialize j c := (h.deserialize j c).mapOutcome (hf _)

theorem level_agrees_changed (hf : ∀ α o, o.Clean C → f α o = o) (n : Nat) :
    (level n).Agrees C (changedLevel f n) := by
  induction n with
  | zero => exact Level.none_agrees
  | succ n ih =>
    have hpieces : Level.Agrees C { (level n).above with rounds := n }
        { (changedLevel f n).above with rounds := n } := { ih.above with rounds := rfl }
    rw [level_succ]
    exact hpieces.mapOutcome hf

end Changed

theorem enter_agrees (watch : Machine → Bool) (n : Nat)
    (hx : x.Agrees C x) :
    Eval.Agrees C (fun m => enter watch n x m) fun m => enter watch n x m := by
  refine .of_clean fun m hm => ?_
  rw [enter_apply]
  split
  · exact .stopped hm
  · exact (hx m hm).2

theorem watchedLevel_agrees (watch : Machine → Bool) (n : Nat) :
    (watchedLevel watch n).Agrees C (watchedLevel watch n) := by
  induction n with
  | zero => exact Level.none_agrees
  | succ n ih =>
    have hpieces := ih.above
    exact
      { rounds := rfl
        evaluate := fun e he => enter_agrees watch n (hpieces.evaluate e he)
        execute := fun stmt hs => enter_agrees watch n (hpieces.execute stmt hs)
        flow := fun stmt m flow m' hrun => hpieces.flow stmt m flow m' (enter_done hrun)
        invoke := fun f receiver arguments span =>
          enter_agrees watch n (hpieces.invoke f receiver arguments span)
        body := fun f receiver arguments hf =>
          enter_agrees watch n (hpieces.body f receiver arguments hf)
        stringify := fun v => enter_agrees watch n (hpieces.stringify v)
        operate := fun op left rest span =>
          enter_agrees watch n (hpieces.operate op left rest span)
        serialize := fun outer v => enter_agrees watch n (hpieces.serialize outer v)
        deserialize := fun j c => enter_agrees watch n (hpieces.deserialize j c) }

theorem Heap.Prepared.obeys (hp : h.Prepared) : h.Obeys C := by
  induction hp with
  | empty => exact ⟨fun _ => Law.overload_native rfl, fun _ _ hf => nomatch hf⟩
  | step _ _ _ hstep ih =>
    cases hstep with
    | newClass c parent _ hfresh _ => exact newClass_obeys ih hfresh.2 parent
    | newOverload f hf => exact newOverload_obeys ih (Law.overload_native hf)
    | native | operators => exact updateClass_obeys ih _ _ fun _ hk => hk
    | field c name value =>
      refine updateClass_obeys ih c _ fun k hk f hf => ?_
      rcases List.mem_append.mp hf with hf | hf
      · exact hk f hf
      · rw [List.mem_singleton.mp hf]
        intro e he
        cases he
        exact C.literal _ _
    | newScope | «variable» | method | function | name => exact ⟨ih.overloads, ih.fields⟩
  | flatten _ _ _ _ _ ih => exact flatten_obeys ih _

theorem Machine.initial_obeys (config : Config) {disk : Disk} (hdisk : C.disk disk)
    (hosts : List HostClass) : (Machine.initial config disk hosts).Obeys C :=
  ⟨(initial_prepared config disk hosts).obeys, hdisk⟩

end ClassScript
