import ClassScript.Proofs.StaticFields

/-!
# Modules and Their Classes

A module is there twice: as the scope in which its statements were run, and as the class that
stands for it where it is imported. The class gets a copy of each variable that is not private.
From there on the two are independent, and neither gets or loses a name.
-/

namespace ClassScript

open List Heap Machine OrderedMap Scope

variable {w v : Variable} {value : Value} {h : Heap} {s : ScopeId} {source : Scope} {name : String}

/-! ## Copies -/

namespace Scope

variable {sc sc' : Scope} {name : String} {v : Variable}

theorem local?_eq_variable_iff : sc.local? name = some (.variable v) ↔
    sc.classes.find? name = none ∧ sc.functions.find? name = none ∧
      sc.vars.find? name = some v := by
  refine ⟨fun hlocal => ?_, fun ⟨hclass, hfunction, hv⟩ => local?_of_find? hclass hfunction hv⟩
  rcases local?_cases hlocal with ⟨c, ⟨⟩, _⟩ | ⟨family, ⟨⟩, _⟩ | ⟨v, ⟨⟩, hfound⟩
  exact hfound

theorem local?_of_bindings (hsame : sc'.bindings = sc.bindings)
    (hlocal : sc.local? name = some (.variable v)) (hw : sc'.vars.find? name = some w) :
    sc'.local? name = some (.variable w) := by
  obtain ⟨hclass, hfunction, -⟩ := local?_eq_variable_iff.mp hlocal
  have hclasses : sc'.classes = sc.classes := (congrArg Scope.classes hsame :)
  have hfunctions : sc'.functions = sc.functions := (congrArg Scope.functions hsame :)
  exact local?_eq_variable_iff.mpr ⟨hclasses ▸ hclass, hfunctions ▸ hfunction, hw⟩

end Scope

theorem Variable.eq_withValue_of_declaration
    (hw : w.storage = .slot value) (hsame : v.declaration = w.declaration) :
    ∃ start, v = w.withValue start := by
  obtain ⟨storage, isConst, isStatic, access, owner⟩ := v
  obtain ⟨_, _, _, _, _⟩ := w
  cases hw
  cases storage with
  | slot start =>
    cases hsame
    exact ⟨start, rfl⟩
  | accessor => cases hsame

theorem Heap.SameNames.varAt? {h' : Heap} (hsame : h.SameNames h' s) (name : String) :
    (h'.varAt? s name).map Variable.declaration = (h.varAt? s name).map Variable.declaration := by
  have hfind := congrArg (·.find? name) hsame.members.vars
  simp only [Scope.find?_declarations] at hfind
  exact hfind

def Variable.exported (v : Variable) : Variable :=
  { v with isStatic := true }

theorem Heap.exportedScope_local? (h : Heap) (target : Scope)
    (hlocal : source.local? name = some (.variable v)) (hv : v.access ≠ .private) :
    (h.exportedScope source target).local? name = some (.variable v.exported) := by
  obtain ⟨hclass, hfunction, hvariable⟩ := Scope.local?_eq_variable_iff.mp hlocal
  refine Scope.local?_eq_variable_iff.mpr ⟨?_, ?_, ?_⟩ <;> unfold Heap.exportedScope <;>
    rw [OrderedMap.find?_filterMap]
  · rw [hclass]
    rfl
  · rw [hfunction]
    rfl
  · rw [hvariable]
    exact if_neg hv

theorem Heap.exportedScope_find?_eq_none (h : Heap) (target : Scope)
    (hnone : source.vars.find? name = none) :
    (h.exportedScope source target).vars.find? name = none := by
  unfold Heap.exportedScope
  rw [OrderedMap.find?_filterMap, hnone]
  rfl

namespace Import.Makes

variable {path : String} {s : ScopeId} {c : ClassId} {m m' : Machine} {name : String}

section

variable (hmade : Makes path s c m m') (hs : s < m.heap.scopes.size)
include hmade hs

theorem kept : m'.heap.scopeAt s = m.heap.scopeAt s := by
  cases hmade with
  | intro _ _ => exact exportClass_scopeAt _ _ _ hs

theorem filled :
    ∃ (h : Heap) (target : Scope), m'.heap.scopeAt (m'.heap.classAt c).scope =
      h.exportedScope (m.heap.scopeAt s) target := by
  have hscope := hmade.classScope
  rw [hscope]
  cases hmade with
  | @intro watch n began ended items result hopen hend =>
    -- The class is made with a scope without names, and this gets the members then.
    let h := ended.heap
    let h₁ := (h.newClass (Class.fresh (Path.stem path) [] true .public) (some began.globals)).2
    have hkept : h₁.scopeAt began.heap.scopes.size = h.scopeAt began.heap.scopes.size :=
      (scopeAt_newScope ..).trans (if_neg (Nat.ne_of_lt hs))
    have hclass : (h₁.classAt h.classes.size).scope = h.scopes.size :=
      congrArg Class.scope ((classAt_newClass _ _ _ _).trans (if_pos rfl))
    have hlt : h.scopes.size < h₁.scopes.size :=
      Nat.lt_of_lt_of_eq (Nat.lt_succ_self _) (Array.size_push _).symm
    refine ⟨h₁, h₁.scopeAt h.scopes.size, ?_⟩
    change (h₁.updateScope (h₁.classAt h.classes.size).scope
      (h₁.exportedScope (h₁.scopeAt began.heap.scopes.size))).scopeAt h.scopes.size = _
    rw [hclass, scopeAt_updateScope, if_pos ⟨rfl, hlt⟩, hkept]
    rfl

theorem copies (hlocal : (m.heap.scopeAt s).local? name = some (.variable v))
    (hv : v.access ≠ .private) :
    (m'.heap.scopeAt (m'.heap.classAt c).scope).local? name = some (.variable v.exported) := by
  obtain ⟨h, target, hfilled⟩ := hmade.filled hs
  rw [hfilled]
  exact h.exportedScope_local? target hlocal hv

theorem varAt?_eq_none (hnone : m.heap.varAt? s name = none) :
    m'.heap.varAt? (m'.heap.classAt c).scope name = none := by
  obtain ⟨h, target, hfilled⟩ := hmade.filled hs
  unfold Heap.varAt?
  rw [hfilled]
  exact h.exportedScope_find?_eq_none target hnone

end

end Import.Makes

/-! ## Since the class was made -/

namespace Machine

variable {m : Machine} {c : ClassId}

structure Reassigns (m m' : Machine) (s : ScopeId) : Prop where
  names : m.heap.SameNames m'.heap s
  values : ∀ name, m'.heap.varAt? s name = m.heap.varAt? s name ∨
    ∃ v value, m.heap.varAt? s name = some v ∧ v.isConst = false ∧ m.Assigns m' s name value

theorem Leaves.reassigns {m' : Machine} (hleaves : m.Leaves s m')
    (hplain : m.heap.PlainFields) (hs : s < m.heap.scopes.size) : m.Reassigns m' s := by
  cases hleaves with
  | same hsame => exact ⟨.of_eq hsame, fun _ => .inl (varAt?_congr hsame)⟩
  | @slot Γ name kept hΓ hp value =>
    refine ⟨assign_sameNames s name value kept, fun name' => ?_⟩
    by_cases hname : name = name'
    · subst hname
      exact (hp.kept_or_assigned hplain hΓ hs value).imp_right fun ⟨v, hv⟩ => ⟨v, value, hv⟩
    · refine .inl ((varAt?_updateScope _ hs).trans ?_)
      split
      · rfl
      · exact (find?_assign _ _ _ _).trans (if_neg hname)

def RunsPast (s t : ScopeId) : Machine → Machine → Prop :=
  Relation.ReflTransGen fun m m' => m.Moves m' ∧ m.Reassigns m' s ∧ m.Reassigns m' t

section Past

variable {m m' : Machine} {s t : ScopeId}

theorem RunsPast.runs (hrun : RunsPast s t m m') : m.Runs m' := by
  induction hrun with
  | refl => exact .refl
  | tail _ hstep ih => exact ih.tail hstep.1

theorem RunsPast.names (hrun : RunsPast s t m m') :
    m.heap.SameNames m'.heap s ∧ m.heap.SameNames m'.heap t := by
  induction hrun with
  | refl => exact ⟨.refl _ _, .refl _ _⟩
  | tail _ hstep ih => exact ⟨ih.1.trans hstep.2.1.names, ih.2.trans hstep.2.2.names⟩

theorem Seals.made_of_mem {S T : ScopeId → Prop} (hrun : m.Seals S m' T)
    (hplain : m.heap.PlainFields) (hS : ∀ s, S s → s < m.heap.scopes.size) {path : String}
    (hc : (path, c) ∈ m'.modules) :
    (path, c) ∈ m.modules ∨ ∃ s made made', Import.Makes path s c made made' ∧ made.Moves made' ∧
      s < made.heap.scopes.size ∧ (made.heap.scopeAt s).kind.IsOpened ∧
      RunsPast s (made'.heap.classAt c).scope made' m' ∧ T s ∧ T (made'.heap.classAt c).scope := by
  have hleft {m₁ m₂ : Machine} {T : ScopeId → Prop} (hbefore : m.Seals S m₁ T)
      (hkept : ∀ s, T s → m₁.Leaves s m₂) {s : ScopeId} (hs : T s) : m₁.Reassigns m₂ s :=
    (hkept s hs).reassigns (hbefore.runs.plainFields hplain) (hbefore.old hS s hs)
  induction hrun with
  | start => exact .inl hc
  | step hbefore hmove hkept hmodules ih =>
    rcases ih (hmodules ▸ hc) with hold | ⟨s, made, made', hmade, hfirst, hlt, hkind, hrun, hs, ht⟩
    · exact .inl hold
    · exact .inr ⟨s, made, made', hmade, hfirst, hlt, hkind,
        hrun.tail ⟨hmove, hleft hbefore hkept hs, hleft hbefore hkept ht⟩, hs, ht⟩
  | @made m₁ m₂ T path' s' c' hbefore hmove hkept hmade' _ hlt' hkind' ih =>
    rw [hmade'.modules] at hc
    rcases mem_cons.mp hc with hnew | hc
    · cases hnew
      exact .inr ⟨s', m₁, m₂, hmade', hmove, hlt', hkind', .refl, .inr (.inl rfl), .inr (.inr rfl)⟩
    · rcases ih hc with hold | ⟨s, made, made', hmade, hfirst, hlt, hkind, hrun, hs, ht⟩
      · exact .inl hold
      · exact .inr ⟨s, made, made', hmade, hfirst, hlt, hkind,
          hrun.tail ⟨hmove, hleft hbefore hkept hs, hleft hbefore hkept ht⟩, .inl hs, .inl ht⟩

end Past

/-- A run, with the values that it wrote to a variable and to its copy. -/
inductive Drifts (s t : ScopeId) (name : String) (m : Machine) :
    List Value → List Value → Machine → Prop
  | start : Drifts s t name m [] [] m
  | other {ins outs : List Value} {m₁ m₂ : Machine} (hrun : Drifts s t name m ins outs m₁)
      (hmove : m₁.Moves m₂) (hinner : m₂.heap.varAt? s name = m₁.heap.varAt? s name)
      (houter : m₂.heap.varAt? t name = m₁.heap.varAt? t name) : Drifts s t name m ins outs m₂
  | inside {ins outs : List Value} {m₁ m₂ : Machine} {value : Value}
      (hrun : Drifts s t name m ins outs m₁) (hmove : m₁.Moves m₂)
      (hassigns : m₁.Assigns m₂ s name value) : Drifts s t name m (ins ++ [value]) outs m₂
  | outside {ins outs : List Value} {m₁ m₂ : Machine} {value : Value}
      (hrun : Drifts s t name m ins outs m₁) (hmove : m₁.Moves m₂)
      (hassigns : m₁.Assigns m₂ t name value) : Drifts s t name m ins (outs ++ [value]) m₂

section Drifting

variable {m m' : Machine} {s t : ScopeId} {name : String} {v w : Variable} {start : Value}

theorem Assigns.varAt?_of_ne (hassigns : m.Assigns m' t name value) (hts : t ≠ s) :
    m'.heap.varAt? s name = m.heap.varAt? s name := by
  subst hassigns
  exact varAt?_updateScope_of_ne _ hts

theorem Drifts.holds {ins outs : List Value} (hd : Drifts s t name m ins outs m') (hst : s ≠ t)
    (hv : m.heap.varAt? s name = some v) (hvs : v.storage = .slot start)
    (hw : m.heap.varAt? t name = some w) (hws : w.storage = .slot start) :
    m'.heap.varAt? s name = some (v.withValue (ins.getLast?.getD start)) ∧
      m'.heap.varAt? t name = some (w.withValue (outs.getLast?.getD start)) := by
  induction hd with
  | start =>
    rw [hv, hw]
    exact ⟨congrArg some (Variable.withValue_self hvs).symm,
      congrArg some (Variable.withValue_self hws).symm⟩
  | other => simp_all
  | inside _ _ hassigns ih =>
    refine ⟨?_, (hassigns.varAt?_of_ne hst).trans ih.2⟩
    rw [hassigns.varAt? ih.1, Variable.withValue_withValue, getLast?_append]
    rfl
  | outside _ _ hassigns ih =>
    refine ⟨(hassigns.varAt?_of_ne hst.symm).trans ih.1, ?_⟩
    rw [hassigns.varAt? ih.2, Variable.withValue_withValue, getLast?_append]
    rfl

theorem RunsPast.drifts (hrun : RunsPast s t m m') (hst : s ≠ t)
    (hv : m.heap.varAt? s name = some v) (hvs : v.storage = .slot start)
    (hw : m.heap.varAt? t name = some w) (hws : w.storage = .slot start)
    (hconst : w.isConst = v.isConst) :
    ∃ ins outs, Drifts s t name m ins outs m' ∧ (v.isConst = true → ins = [] ∧ outs = []) := by
  induction hrun with
  | refl => exact ⟨[], [], .start, fun _ => ⟨rfl, rfl⟩⟩
  | @tail m₁ m₂ _ hstep ih =>
    obtain ⟨ins, outs, hd, hnone⟩ := ih
    obtain ⟨hmove, hinner, houter⟩ := hstep
    obtain ⟨hv₁, hw₁⟩ := hd.holds hst hv hvs hw hws
    -- A step that assigns changes one scope, so at most one of the two values.
    rcases hinner.values name with hinner | ⟨u, value, hu, hfree, hassigns⟩
    · rcases houter.values name with houter | ⟨u, value, hu, hfree, hassigns⟩
      · exact ⟨ins, outs, .other hd hmove hinner houter, hnone⟩
      · cases hw₁.symm.trans hu
        rw [Variable.isConst_withValue, hconst] at hfree
        exact ⟨ins, outs ++ [value], .outside hd hmove hassigns, fun h => by simp [h] at hfree⟩
    · cases hv₁.symm.trans hu
      rw [Variable.isConst_withValue] at hfree
      exact ⟨ins ++ [value], outs, .inside hd hmove hassigns, fun h => by simp [h] at hfree⟩

end Drifting

/-! ## Reading and writing both sides -/

/-- A copy is read as a member of the class, and the variable by its name, where the scope of the
    module is the first that has it. -/
structure ReadsTwice (m : Machine) (s : ScopeId) (c : ClassId) (name : String)
    (inner outer : Value) : Prop where
  outside : ∀ (L : Level) (span : Span) (r : Registers),
    Member.get L (.type c) name span { m with registers := r } =
      .done outer { m with registers := r }
  inside : ∀ (L : Level) (r : Registers) (before after : List ScopeId),
    m.heap.chain r.scope = before ++ s :: after → (∀ t ∈ before, m.heap.Lacks name t) →
      Member.getName L name { m with registers := r } = .done inner { m with registers := r }
  called : ∀ (L : Level) (f : Overload) (receiver : Option Value) (r : Registers), f.owner = none →
    ∃ frame m₁, Invocation.frame f s receiver { m with registers := r } = .done frame m₁ ∧
      Member.getName L name { m₁ with registers := r.goTo frame } =
        .done inner { m₁ with registers := r.goTo frame }

theorem ReadsTwice.withRegisters
    {inner outer : Value} (hreads : m.ReadsTwice s c name inner outer) (r : Registers) :
    Machine.ReadsTwice { m with registers := r } s c name inner outer :=
  ⟨hreads.outside, hreads.inside, hreads.called⟩

/-- A variable of a module and its copy: a write to one leaves the other as it is. -/
structure KeepsTwice (m : Machine) (s : ScopeId) (c : ClassId) (name : String) (isConst : Bool)
    (inner outer : Value) : Prop where
  reads : m.ReadsTwice s c name inner outer
  outside : isConst = false → ∀ (L : Level) (span : Span) (r : Registers) (value : Value),
    ∃ m₂, Member.set L (.type c) name value span { m with registers := r } = .done () m₂ ∧
      m₂.ReadsTwice s c name inner value
  inside : isConst = false → ∀ (L : Level) (r : Registers) (value : Value)
    (before after : List ScopeId), m.heap.chain r.scope = before ++ s :: after →
      (∀ t ∈ before, m.heap.Lacks name t) →
        ∃ m₂, Member.setName L name value { m with registers := r } = .done () m₂ ∧
          m₂.ReadsTwice s c name value outer

end Machine

theorem Variable.owner_withValue (v : Variable) (value : Value) :
    (v.withValue value).owner = v.owner := by
  obtain ⟨storage, isConst, isStatic, access, owner⟩ := v
  cases storage <;> rfl

theorem Heap.mayUse_unowned (h : Heap) (site : ScopeId) (hv : v.owner = none) :
    h.mayUse site v.access v.owner = true := by
  rw [hv]
  rfl

theorem Scope.local?_assign {sc : Scope}
    (hlocal : sc.local? name = some (.variable v)) (value : Value) :
    (sc.assign name value).local? name = some (.variable (v.withValue value)) := by
  refine local?_of_bindings (bindings_assign sc name value) hlocal ?_
  rw [find?_assign, if_pos rfl, find?_of_local? hlocal]
  rfl

theorem Heap.local?_assigned {t : ScopeId}
    (hst : s ≠ t) (hv : (h.scopeAt s).local? name = some (.variable v))
    (hw : (h.scopeAt t).local? name = some (.variable w)) (value : Value) :
    ((h.updateScope s (·.assign name value)).scopeAt s).local? name =
        some (.variable (v.withValue value)) ∧
      ((h.updateScope s (·.assign name value)).scopeAt t).local? name = some (.variable w) := by
  have hs : s < h.scopes.size := lt_of_varAt? (find?_of_local? hv)
  rw [scopeAt_updateScope, if_pos ⟨rfl, hs⟩, scopeAt_updateScope, if_neg fun h => hst h.1]
  exact ⟨local?_assign hv value, hw⟩

section Sides

variable {m : Machine} {s : ScopeId} {c : ClassId} {name : String} {v w : Variable}
  {inner outer : Value}

theorem Heap.Linked.readsTwice (hl : m.heap.Linked) (hs : s < m.heap.scopes.size)
    (hv : (m.heap.scopeAt s).local? name = some (.variable v)) (hvs : v.storage = .slot inner)
    (hvo : v.owner = none)
    (hw : (m.heap.scopeAt (m.heap.classAt c).scope).local? name = some (.variable w))
    (hws : w.storage = .slot outer) (hwo : w.owner = none) :
    m.ReadsTwice s c name inner outer where
  outside L span r := (Member.get_static (m := { m with registers := r }) L span hw).trans
    (Member.checkedRead_slot L _ (m.heap.mayUse_unowned r.scope hwo) hws)
  inside L r before after hchain hbefore :=
    (Member.getName_variable (m := { m with registers := r }) L
      (hl.lookup_along hchain hbefore hv)).trans
      (Member.checkedRead_slot L _ (m.heap.mayUse_unowned r.scope hvo) hvs)
  called L f receiver r hf := by
    let h₁ := (m.heap.newScope (.frame s none) (some s)).2
    have hframe : Invocation.frame f s receiver { m with registers := r } =
        .done m.heap.scopes.size { m with heap := h₁, registers := r } := by
      have hbound : Invocation.boundInstance? m.heap f receiver = none := by
        unfold Invocation.boundInstance?
        rw [hf]
      unfold Invocation.frame
      rw [Eval.ask_bind]
      rw [hbound]
      rfl
    -- The frame is new, and the scope of the module is around it.
    have hl₁ : h₁.Linked := by
      refine (newScope_leads hl _ _ ⟨fun p hp => ?_, fun _ _ hk => ?_, fun _ _ hk => ?_⟩).linked
      · cases hp
        exact hs
      · cases hk
        exact hs
      · cases hk
    have hnew : h₁.scopeAt m.heap.scopes.size = .fresh (.frame s none) (some s) :=
      (scopeAt_newScope ..).trans (if_pos rfl)
    have hold : h₁.scopeAt s = m.heap.scopeAt s :=
      (scopeAt_newScope ..).trans (if_neg (Nat.ne_of_lt hs))
    have hchain : h₁.chain m.heap.scopes.size =
        [m.heap.scopes.size] ++ s :: h₁.around (h₁.scopeAt s).parent := by
      rw [hl₁.chain_eq, hnew, ← hl₁.chain_eq s]
      rfl
    have hlacks : ∀ t ∈ [m.heap.scopes.size], h₁.Lacks name t := by
      intro t ht
      rw [mem_singleton.mp ht, Heap.Lacks, hnew]
      rfl
    have hfound := hl₁.lookup_along hchain hlacks (hold ▸ hv)
    exact ⟨_, _, hframe, (Member.getName_variable L hfound).trans
      (Member.checkedRead_slot L _ (h₁.mayUse_unowned _ hvo) hvs)⟩

theorem Machine.Steady.keepsTwice (hm : m.Steady) (hs : s < m.heap.scopes.size)
    (hne : s ≠ (m.heap.classAt c).scope)
    (hv : (m.heap.scopeAt s).local? name = some (.variable v)) (hvs : v.storage = .slot inner)
    (hvo : v.owner = none)
    (hw : (m.heap.scopeAt (m.heap.classAt c).scope).local? name = some (.variable w))
    (hws : w.storage = .slot outer) (hwo : w.owner = none) (hconst : w.isConst = v.isConst) :
    m.KeepsTwice s c name v.isConst inner outer := by
  have hl := hm.linked.heap
  refine ⟨hl.readsTwice hs hv hvs hvo hw hws hwo, fun hfree L span r value => ?_,
    fun hfree L r value before after hchain hbefore => ?_⟩
  · have hvar : m.heap.varAt? (m.heap.classAt c).scope name = some w := find?_of_local? hw
    have hmove := Machine.Moves.assign hm hvar (hconst.trans hfree) value
    obtain ⟨hwritten, hkept⟩ := local?_assigned hne.symm hw hv value
    refine ⟨_, (Member.set_static (m := { m with registers := r }) L hvar).trans
      (Member.checkedWrite_slot L _ _ (m.heap.mayUse_unowned r.scope hwo) (hconst.trans hfree)
        hws), ?_⟩
    have hreads := hmove.after.linked.heap.readsTwice
      (Nat.lt_of_lt_of_le hs hmove.extend.grows.scopes) hkept hvs hvo hwritten
      (Variable.storage_withValue hws value) ((w.owner_withValue value).trans hwo)
    exact hreads.withRegisters r
  · have hvar : m.heap.varAt? s name = some v := find?_of_local? hv
    have hmove := Machine.Moves.assign hm hvar hfree value
    obtain ⟨hwritten, hkept⟩ := local?_assigned hne hv hw value
    refine ⟨_, (Member.setName_variable (m := { m with registers := r }) L
        (hl.lookup_along hchain hbefore hv)).trans
      (Member.checkedWrite_slot L _ _ (m.heap.mayUse_unowned r.scope hvo) hfree hvs), ?_⟩
    have hreads := hmove.after.linked.heap.readsTwice
      (Nat.lt_of_lt_of_le hs hmove.extend.grows.scopes) hwritten
      (Variable.storage_withValue hvs value) ((v.owner_withValue value).trans hvo) hkept hws hwo
    exact hreads.withRegisters r

end Sides

/-- The class of a module got a copy of each variable that is not private. Neither has got or lost a
    name since, and each of the two is read as what was written to it last, or as what the variable
    held then. So constants always agree. -/
theorem InSession.module_copied {m : Machine} (hm : InSession m) {path : String} {c : ClassId}
    (hc : (path, c) ∈ m.modules) :
    ∃ s made made', Import.Makes path s c made made' ∧ made'.Runs m ∧
      s ≠ (m.heap.classAt c).scope ∧ made.heap.SameNames m.heap s ∧
      made'.heap.SameNames m.heap (m.heap.classAt c).scope ∧
      (∀ name, m.heap.varAt? s name = none → m.heap.classVariable? c name = none) ∧
      ∀ name v start, (made.heap.scopeAt s).local? name = some (.variable v) →
        v.access ≠ .private → v.storage = .slot start →
          ∃ ins outs, Machine.Drifts s (m.heap.classAt c).scope name made' ins outs m ∧
            (v.isConst = true → ins = [] ∧ outs = []) ∧
            m.KeepsTwice s c name v.isConst (ins.getLast?.getD start)
              (outs.getLast?.getD start) := by
  obtain ⟨config, disk, hosts, T, hsealed⟩ := hm.sealed
  rcases hsealed.made_of_mem (InSession.idle (.initial config disk hosts)).plainFields
    (fun _ => False.elim) hc with
    hold | ⟨s, made, made', hmade, hmove, hlt, hkind, hrun, -, -⟩
  · exact absurd hold not_mem_nil
  have hclass : c < made'.heap.classes.size :=
    (hmove.after.owned.heap.modules (path, c) (hmade.modules ▸ mem_cons_self)).lt
  have hscope := (hrun.runs.classScope hclass).2
  have hne : s ≠ (made'.heap.classAt c).scope := by
    rw [hmade.classScope]
    exact Nat.ne_of_lt hlt
  have hkept := hmade.kept hlt
  -- Names stand for the same on both sides, so it is still the same variables that are found.
  obtain ⟨hinside, houtside⟩ := hrun.names
  have hnames : made.heap.SameNames m.heap s := (Heap.SameNames.of_eq hkept).trans hinside
  rw [hscope]
  refine ⟨s, made, made', hmade, hrun.runs, hne, hnames, houtside, fun name hnone => ?_,
    fun name v start hlocal haccess hslot => ?_⟩
  · have hbefore := hnames.varAt? name
    rw [hnone] at hbefore
    have hafter := houtside.varAt? name
    rw [hmade.varAt?_eq_none hlt (Option.map_eq_none_iff.mp hbefore.symm)] at hafter
    unfold Heap.classVariable?
    rw [hscope]
    exact Option.map_eq_none_iff.mp hafter
  · -- No class has declared it, so that it and its copy can be used from everywhere.
    have howner : v.owner = none :=
      (hmove.before.owned.heap.scopes s).unowned_variable hkind
        (mem_of_find? (find?_of_local? hlocal))
    have hinner : (made'.heap.scopeAt s).local? name = some (.variable v) := by
      rw [hkept]
      exact hlocal
    have houter := hmade.copies hlt hlocal haccess
    obtain ⟨ins, outs, hd, hconst⟩ := hrun.drifts hne (find?_of_local? hinner) hslot
      (find?_of_local? houter) hslot rfl
    obtain ⟨hv, hw⟩ := hd.holds hne (find?_of_local? hinner) hslot
      (find?_of_local? houter) hslot
    refine ⟨ins, outs, hd, hconst, ?_⟩
    have hcopy := local?_of_bindings houtside houter hw
    rw [← hscope] at hne hcopy
    have hkeeps := hm.steady.keepsTwice
      (Nat.lt_of_lt_of_le hlt (hmove.extend.grows.trans hrun.runs.grows).scopes) hne
      (local?_of_bindings hinside hinner hv) (Variable.storage_withValue hslot _)
      ((v.owner_withValue _).trans howner) hcopy
      (Variable.storage_withValue (v := v.exported) hslot _)
      ((v.exported.owner_withValue _).trans howner)
      ((v.exported.isConst_withValue _).trans (v.isConst_withValue _).symm)
    rw [Variable.isConst_withValue] at hkeeps
    exact hkeeps

/-! ## A module that counts -/

def Machine.withCounter : Machine :=
  Machine.initial Config.standard
    ⟨[], [(["m.cv"], "var x = 1; fn inc() \x7b x = x + 1; return x; \x7d".toUTF8)]⟩ []

def Request.counting : Request :=
  .source "import \"m\"; m.inc();"

def Machine.counted : Machine :=
  (Request.counting.unwatched Machine.withCounter).machine

def Overload.closure? (f : Overload) : Option ScopeId :=
  match f.body with
  | .script _ closure => some closure
  | .native _ => none

theorem Machine.counted_module :
    ("/m.cv", 50) ∈ Machine.counted.modules ∧
    ((Machine.counted.heap.classVariable? 50 "x").isSome = true ∧
      ∀ s < Machine.counted.heap.scopes.size,
        (Machine.counted.heap.varAt? s "x").isSome = true →
          s ≠ (Machine.counted.heap.classAt 50).scope → s = 52) ∧
    ((Machine.counted.heap.overloadAt 89).closure? = some 52 ∧
      (Machine.counted.heap.scopeAt 52).functions.find? (Machine.counted.heap.overloadAt 89).name =
        some [89] ∧
      (Machine.counted.heap.scopeAt (Machine.counted.heap.classAt 50).scope).functions.find?
        (Machine.counted.heap.overloadAt 89).name = some [89]) ∧
    ((Machine.counted.heap.scopeAt 52).classes.find? "x" = none ∧
      (Machine.counted.heap.scopeAt 52).functions.find? "x" = none ∧
      (Machine.counted.heap.scopeAt 52).vars.find? "x" = some (.numbered 2 false false none)) ∧
    (Member.getName (level 40) "x" { Machine.counted with
        registers := Machine.counted.registers.goTo 52 }).endsIn (fun v _ => v == .int 2) = true ∧
      (Member.get (level 40) (.type 50) "x" default Machine.counted).endsIn
        (fun v _ => v == .int 1) = true := by
  decide +kernel

theorem InSession.counted : InSession Machine.counted :=
  .running (.initial _ _ _) (fun _ => false) 40 Request.counting

theorem InSession.module_copied_counter :
    InSession Machine.counted ∧ ("/m.cv", 50) ∈ Machine.counted.modules ∧
      ∃ made made' v start ins outs, Import.Makes "/m.cv" 52 50 made made' ∧
        (made.heap.scopeAt 52).local? "x" = some (.variable v) ∧ v.access ≠ .private ∧
        v.storage = .slot start ∧
        Machine.Drifts 52 (Machine.counted.heap.classAt 50).scope "x" made' ins outs
          Machine.counted ∧
        ins.getLast?.getD start = .int 2 ∧ outs.getLast?.getD start = .int 1 ∧
        Machine.counted.KeepsTwice 52 50 "x" false (.int 2) (.int 1) := by
  have hsession := InSession.counted
  obtain ⟨hmodules, ⟨hcopy, honly⟩, -, hlocal, hinner, houter⟩ := counted_module
  generalize Machine.counted = m at *
  obtain ⟨s, made, made', hmade, -, hne, hsame, -, hnone, hall⟩ :=
    InSession.module_copied hsession hmodules
  -- Which scope it is can be told from the names, since these stay.
  have hs : s = 52 := by
    cases hv : m.heap.varAt? s "x" with
    | none =>
      rw [hnone "x" hv] at hcopy
      cases hcopy
    | some v => exact honly s (lt_of_varAt? hv) (congrArg Option.isSome hv) hne
  subst hs
  have hnow : m.heap.varAt? 52 "x" = some (.numbered 2 false false none) := hlocal.2.2
  have hthen := hsame.varAt? "x"
  rw [hnow] at hthen
  obtain ⟨v, hv, hdeclared⟩ := Option.map_eq_some_iff.mp hthen.symm
  obtain ⟨start, rfl⟩ :=
    Variable.eq_withValue_of_declaration (w := .numbered 2 false false none) rfl hdeclared
  have hmember := local?_of_bindings hsame.symm (Scope.local?_eq_variable_iff.mpr hlocal) hv
  obtain ⟨ins, outs, hd, -, hkeeps⟩ := hall "x" _ start hmember nofun rfl
  rw [hkeeps.reads.inside (level 40) (m.registers.goTo 52) [] _
    (hsession.steady.linked.heap.chain_eq 52) (forall_mem_nil _)] at hinner
  have hread := hkeeps.reads.outside (level 40) default m.registers
  change Member.get (level 40) (.type 50) "x" default m = .done _ m at hread
  rw [hread] at houter
  have hins := beq_iff_eq.mp hinner
  have houts := beq_iff_eq.mp houter
  rw [hins, houts] at hkeeps
  exact ⟨hsession, hmodules, made, made', _, start, ins, outs, hmade, hmember, nofun, rfl, hd,
    hins, houts, hkeeps⟩

theorem module_class_not_live :
    ¬ ∀ m, InSession m → ∀ path c, (path, c) ∈ m.modules → ∀ (s : ScopeId) (f : OverloadId),
      (m.heap.overloadAt f).closure? = some s →
      (m.heap.scopeAt s).functions.find? (m.heap.overloadAt f).name = some [f] →
      (m.heap.scopeAt (m.heap.classAt c).scope).functions.find? (m.heap.overloadAt f).name =
        some [f] →
      ∀ name v, (m.heap.scopeAt s).local? name = some (.variable v) → v.access ≠ .private →
        ∀ L span inner m₁,
          Member.getName L name { m with registers := m.registers.goTo s } = .done inner m₁ →
            ∃ m₂, Member.get L (.type c) name span m = .done inner m₂ := by
  intro hlive
  have hsession := InSession.counted
  obtain ⟨hmodules, -, ⟨hclosure, hown, hexported⟩, hlocal, hinner, houter⟩ :=
    counted_module
  generalize Machine.counted = m at *
  obtain ⟨inner, m₁, hget, hinner⟩ := Outcome.done_of_endsIn hinner
  obtain ⟨m₂, hsame⟩ := hlive m hsession "/m.cv" 50 hmodules 52 89 hclosure hown hexported "x" _
    (Scope.local?_eq_variable_iff.mpr hlocal) (by decide) (level 40) default inner m₁ hget
  rw [hsame] at houter
  exact absurd ((beq_iff_eq.mp hinner).symm.trans (beq_iff_eq.mp houter)) (by decide)

end ClassScript
