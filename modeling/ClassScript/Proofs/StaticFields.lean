import ClassScript.Proofs.Constants
import ClassScript.Proofs.Inheritance.Overriding
import ClassScript.Proofs.Uses

/-!
# Static Fields

A static field is one slot, in the scope of the members of its class. A class that inherits takes
over a copy when its body has been run, and from there on the two are independent.
-/

namespace ClassScript

open List Heap Machine Scope
open Eval hiding pure

variable {v : Variable} {value : Value} {s site : ScopeId} {d : ClassId}
variable {before after : List ScopeId} {m : Machine}

/-! ## Reading and writing slots -/

theorem Variable.storage_withValue {old : Value} (hv : v.storage = .slot old)
    (value : Value) : (v.withValue value).storage = .slot value := by
  unfold withValue
  rw [hv]

theorem Variable.withValue_self (hv : v.storage = .slot value) : v.withValue value = v := by
  obtain ⟨storage, isConst, isStatic, access, owner⟩ := v
  cases hv
  rfl

theorem Variable.withValue_withValue (v : Variable) (old value : Value) :
    (v.withValue old).withValue value = v.withValue value := by
  obtain ⟨storage, isConst, isStatic, access, owner⟩ := v
  cases storage <;> rfl

/-- The variable that a name stands for among the members of a class can be used from where
    code runs. -/
structure Machine.Offers (m : Machine) (c : ClassId) (name : String) (v : Variable) : Prop where
  members : (m.heap.scopeAt (m.heap.classAt c).scope).local? name = some (.variable v)
  access : m.heap.mayUse m.registers.scope v.access v.owner = true

/-! ## Ways to a slot -/

/-- The place is where the static field of a class is: a member of the class, or of an instance
    without such a field, or the name alone. -/
inductive Expression.Place.Reaches (m : Machine) (c : ClassId) (name : String) :
    Expression.Place → Prop
  | ofType : Reaches m c name (.member (.type c) name)
  | ofInstance {target : Value} (htype : ∀ d, target ≠ .type d)
      (hfunction : ∀ f, target ≠ .function f) (hclass : m.heap.typeOf target = c)
      (hfield : Member.fieldVariable? m.heap target name = none) :
      Reaches m c name (.member target name)
  | byName {v : Variable} (hfound :
        m.heap.lookup m.registers.scope name = some (.variable v, (m.heap.classAt c).scope)) :
      Reaches m c name (.name name)

namespace Machine

variable {m m' : Machine} {c : ClassId} {name : String} {v : Variable} {value old : Value}

theorem Offers.classVariable? (ho : m.Offers c name v) : m.heap.classVariable? c name = some v :=
  find?_of_local? ho.members

theorem Offers.eq_of_lookup (ho : m.Offers c name v) {w : Variable}
    (hfound : m.heap.lookup site name = some (.variable w, (m.heap.classAt c).scope)) : w = v :=
  Option.some.inj ((lookup_variable hfound).symm.trans ho.classVariable?)

/-- All ways to a static field give this value. -/
structure Reads (m : Machine) (c : ClassId) (name : String) (value : Value) : Prop where
  place : ∀ (L : Level) (span : Span) (p : Expression.Place) (v : Variable),
    p.Reaches m c name → m.Offers c name v → Expression.readPlace L span p m = .done value m
  super : ∀ (L : Level) (d : ClassId) (v : Variable),
    (m.heap.lexicalClasses m.registers.scope).head? = some d →
      (m.heap.classAt d).ancestors = some c → m.Offers c name v →
        Member.getSuper L name m = .done value m

theorem reads_of_slot (hv : m.heap.classVariable? c name = some v)
    (hslot : v.storage = .slot value) :
    m.Reads c name value := by
  have hsame {w : Variable} (ho : m.Offers c name w) : w.storage = .slot value := by
    cases ho.classVariable?.symm.trans hv
    exact hslot
  constructor
  · intro L span p w hp ho
    cases hp with
    | ofType =>
      exact (Member.get_static L span ho.members).trans
        (Member.checkedRead_slot L _ ho.access (hsame ho))
    | ofInstance htype hfunction hclass hfield =>
      subst hclass
      exact (Member.get_member L span ⟨htype, hfunction⟩ hfield ho.members).trans
        (Member.checkedRead_slot L _ ho.access (hsame ho))
    | byName hfound =>
      cases ho.eq_of_lookup hfound
      exact (Member.getName_variable L hfound).trans
        (Member.checkedRead_slot L _ ho.access (hsame ho))
  · intro L d w hclass hsuper ho
    exact (Member.getSuper_variable L hclass hsuper ho.members).trans
      (Member.checkedRead_slot L _ ho.access (hsame ho))

theorem writePlace_slot (L : Level) (span : Span) {p : Expression.Place}
    (hp : p.Reaches m c name) (ho : m.Offers c name v) (hconst : v.isConst = false)
    (hslot : v.storage = .slot old) (value : Value) :
    Expression.writePlace L span value p m = .done ()
      { m with heap := m.heap.updateScope (m.heap.classAt c).scope (·.assign name value) } := by
  cases hp with
  | ofType =>
    exact (Member.set_static L ho.classVariable?).trans
      (Member.checkedWrite_slot L _ _ ho.access hconst hslot)
  | ofInstance htype hfunction hclass hfield =>
    subst hclass
    exact (Member.set_member L ⟨htype, hfunction⟩ hfield ho.classVariable?).trans
      (Member.checkedWrite_slot L _ _ ho.access hconst hslot)
  | byName hfound =>
    cases ho.eq_of_lookup hfound
    exact (Member.setName_variable L hfound).trans
      (Member.checkedWrite_slot L _ _ ho.access hconst hslot)

/-! ## Runs with what is written -/

/-- A run, with the values that it wrote to a variable. -/
inductive Writing (s : ScopeId) (name : String) (m : Machine) : List Value → Machine → Prop
  | start : Writing s name m [] m
  | other {values : List Value} {m₁ m₂ : Machine} (hrun : Writing s name m values m₁)
      (hmove : m₁.Moves m₂) (hnot : ∀ value, ¬ m₁.Assigns m₂ s name value) :
      Writing s name m values m₂
  | write {values : List Value} {m₁ m₂ : Machine} {value : Value}
      (hrun : Writing s name m values m₁) (hmove : m₁.Moves m₂)
      (hassigns : m₁.Assigns m₂ s name value) : Writing s name m (values ++ [value]) m₂

variable {s : ScopeId} {values : List Value}

theorem Writing.runs (hw : Writing s name m values m') : m.Runs m' := by
  induction hw with
  | start => exact .refl
  | other _ hmove _ ih | write _ hmove _ ih => exact ih.trans (.single hmove)

theorem Runs.writing (hrun : m.Runs m') (s : ScopeId) (name : String) :
    ∃ values, Writing s name m values m' := by
  induction hrun with
  | refl => exact ⟨[], .start⟩
  | @tail m₁ m₂ _ hmove ih =>
    obtain ⟨values, hw⟩ := ih
    by_cases hassigns : ∃ value, m₁.Assigns m₂ s name value
    · obtain ⟨value, hassigns⟩ := hassigns
      exact ⟨values ++ [value], .write hw hmove hassigns⟩
    · exact ⟨values, .other hw hmove fun value h => hassigns ⟨value, h⟩⟩

theorem Writing.holds (hw : Writing s name m values m') (hplain : m.heap.PlainFields)
    (hkind : (m.heap.scopeAt s).kind = .classBody c) (hv : m.heap.varAt? s name = some v)
    (hslot : v.storage = .slot old) :
    m'.heap.varAt? s name = some (v.withValue (values.getLast?.getD old)) := by
  induction hw with
  | start =>
    rw [hv]
    exact congrArg some (Variable.withValue_self hslot).symm
  | other hbefore hmove hnot ih =>
    have hthen := hbefore.runs.kind (lt_of_varAt? hv)
    rcases hmove.member (hbefore.runs.plainFields hplain) (hthen.trans hkind) ih with
      hkept | ⟨_, value, hassigns⟩
    · exact hkept
    · exact absurd hassigns (hnot value)
  | write _ _ hassigns ih =>
    rw [hassigns.varAt? ih, Variable.withValue_withValue, getLast?_append]
    rfl

theorem Moves.assign (hm : m.Steady) (hv : m.heap.varAt? s name = some v)
    (hconst : v.isConst = false) (value : Value) :
    m.Moves { m with heap := m.heap.updateScope s (·.assign name value) } := by
  have hfree : ¬ (m.heap.scopeAt s).hasConstant name = true := by
    have hfind : (m.heap.scopeAt s).vars.find? name = some v := hv
    rw [Scope.hasConstant, hfind]
    exact Bool.eq_false_iff.mp hconst
  have hwrite : Write False [] fun h => h.updateScope s fun sc =>
      if sc.hasConstant name then sc else sc.assign name value :=
    .slot s name value _ .checked
  have hready := Ready.nil hm
  have hlead := Machine.Leads.of_heap hm.linked (hwrite.leads hm.linked.heap)
  have hmove : m.Moves _ := .of_upholds hm (.write hwrite hready) hlead
    (hwrite.upholds hm.linked hm.owned hready.knows)
  have hsame : m.heap.updateScope s (fun sc =>
      if sc.hasConstant name then sc else sc.assign name value) =
        m.heap.updateScope s (·.assign name value) :=
    updateScope_congr (if_neg hfree)
  rw [hsame] at hmove
  exact hmove

end Machine

variable {name : String}

/-! ## Names in methods -/

theorem Heap.Linked.lookup_along {h : Heap} (hl : h.Linked) {binding : Binding}
    (hchain : h.chain site = before ++ s :: after) (hbefore : ∀ t ∈ before, h.Lacks name t)
    (hlocal : (h.scopeAt s).local? name = some binding) :
    h.lookup site name = some (binding, s) := by
  rw [hl.lookup_eq, hchain, findAlong_append, findAlong_of_lacks hbefore,
    Heap.findAlong, hlocal]
  rfl

theorem Heap.Linked.reaches_byName (hl : m.heap.Linked) {c : ClassId}
    (hchain : m.heap.chain m.registers.scope = before ++ (m.heap.classAt c).scope :: after)
    (hbefore : ∀ s ∈ before, m.heap.Lacks name s)
    (hmember : (m.heap.scopeAt (m.heap.classAt c).scope).local? name = some (.variable v)) :
    (Expression.Place.name name).Reaches m c name :=
  .byName (hl.lookup_along hchain hbefore hmember)

/-- In a method on an instance, and in the blocks inside it, the name stands for the static
    field of the class of the instance, whichever class declared the method. -/
theorem Heap.Linked.reaches_inMethod (hl : m.heap.Linked) {frame : ScopeId}
    {o : ObjectId} (hf : m.heap.MethodFrame frame d o) {inner : List ScopeId}
    (hsite : m.heap.chain m.registers.scope = inner ++ m.heap.chain frame)
    (hinner : ∀ s ∈ inner, m.heap.Lacks name s) (hframe : m.heap.Lacks name frame)
    (hfields : ∀ fields ∈ m.heap.fieldScope? (.object o), m.heap.Lacks name fields)
    (hmember : (m.heap.scopeAt (m.heap.classAt (m.heap.objectAt o).type).scope).local? name =
      some (.variable v)) :
    (Expression.Place.name name).Reaches m (m.heap.objectAt o).type name := by
  obtain ⟨fields, hfield, -, -, -, hchain⟩ := hl.chain_methodFrame hf
  have hway : m.heap.chain m.registers.scope = (inner ++ [frame, fields]) ++
      (m.heap.classAt (m.heap.objectAt o).type).scope ::
        m.heap.around (m.heap.declaredIn (m.heap.objectAt o).type) := by
    rw [hsite, hchain, append_assoc]
    rfl
  refine hl.reaches_byName hway (fun s hs => ?_) hmember
  grind

/-! ## What a class that inherits starts with -/

namespace Heap

variable {h h' : Heap} {modules : List (String × ClassId)} {c : ClassId} {name : String}
variable {sources : List ScopeId}

/-- The variable that the super classes of a class pass on. One that comes later takes the place of
    an earlier one, unless that was declared by the same class or by one that inherits from it. -/
def passedOn (h : Heap) (c : ClassId) (name : String) : Option Variable :=
  ((h.classAt c).supers.flatMap h.sourcesOf).foldl
    (fun old s => h.settleVariable .replace old (h.varAt? s name)) none

theorem gathered_variable (ho : h.Owned modules) (hl : h.Linked) :
    (h.gathered c).varAt? h.scopes.size name = h.passedOn c name := by
  refine gathered_follows (I := fun old sc => sc.vars.find? name = old) ho hl (fun _ => rfl)
    fun k hk p _ d _ _ old sc hsc => ?_
  rw [find?_merge k .replace, hsc, settleVariable_of_supers fun d =>
    (congrArg Class.supers (hk.classAt d)).trans (withShadow_supers d)]
  rfl

theorem TakesOver.variable (ht : h.TakesOver c h') (ho : h.Owned modules) (hl : h.Linked)
    (hc : c < h.classes.size) (hnone : h.classVariable? c name = none) :
    h'.classVariable? c name = h.passedOn c name := by
  have hown : (h.scopeAt (h.classAt c).scope).vars.find? name = none := hnone
  unfold classVariable?
  rw [ht.scope c hc, ht.ownScope, find?_merge _ .keep, hown,
    settleVariable_none_left]
  exact gathered_variable ho hl

theorem foldl_settleVariable
    (hsources : ∀ s ∈ sources, h.varAt? s name = none ∨ h.varAt? s name = some v) :
    ∀ old, old = none ∨ old = some v →
      sources.foldl (fun old s => h.settleVariable .replace old (h.varAt? s name)) old =
        if ∃ s ∈ sources, h.varAt? s name = some v then some v else old := by
  induction sources with
  | nil => simp
  | cons s rest ih =>
    intro old hold
    have hrest := ih fun s' hs' => hsources s' (mem_cons_of_mem s hs')
    rw [foldl_cons]
    rcases hsources s mem_cons_self with hnone | hsome
    · rw [hnone, settleVariable_none, hrest old hold]
      simp [hnone]
    · have hnow : h.settleVariable .replace old (some v) = some v := by
        rcases hold with rfl | rfl
        · rfl
        · rw [settleVariable, ite_self]
      rw [hsome, hnow, hrest (some v) (.inr rfl), ite_self,
        if_pos ⟨s, mem_cons_self, hsome⟩]

theorem foldl_settleVariable_isSome (hs : s ∈ sources)
    (hv : (h.varAt? s name).isSome = true) (old : Option Variable) :
    (sources.foldl (fun old s => h.settleVariable .replace old (h.varAt? s name)) old).isSome =
      true := by
  have hstep (old new : Option Variable) (hsome : old.isSome = true ∨ new.isSome = true) :
      (h.settleVariable .replace old new).isSome = true := by
    cases new with
    | none => exact hsome.resolve_right Bool.false_ne_true
    | some new =>
      cases old with
      | none => rfl
      | some old =>
        rw [settleVariable]
        split <;> rfl
  refine foldl_reaches (I := fun old => old.isSome = true) (K := fun _ => True) hs
    (fun _ _ _ h => h) (fun old _ => ?_) (fun old _ _ _ hold => ?_) old trivial
  · exact hstep old _ (.inr hv)
  · exact hstep old _ (.inl hold)

section PassedOn

variable {p : ClassId} {v : Variable}

theorem passedOn_of_only (hp : p ∈ (h.classAt c).supers) (hv : h.classVariable? p name = some v)
    (honly : ∀ s ∈ (h.classAt c).supers.flatMap h.sourcesOf, s ≠ (h.classAt p).scope →
      h.varAt? s name = none) : h.passedOn c name = some v := by
  have hsources (s : ScopeId) (hs : s ∈ (h.classAt c).supers.flatMap h.sourcesOf) :
      h.varAt? s name = none ∨ h.varAt? s name = some v := by
    by_cases hsp : s = (h.classAt p).scope
    · rw [hsp]
      exact .inr hv
    · exact .inl (honly s hs hsp)
  rw [passedOn, foldl_settleVariable hsources none (.inl rfl)]
  exact if_pos ⟨_, scope_mem_sources hp, hv⟩

theorem passedOn_of_inherited {g o : ClassId} {w : Variable} (hsupers : (h.classAt c).supers = [p])
    (hg : (h.classAt p).ancestors = some g) (hw : h.classVariable? g name = some w)
    (hwo : w.owner = some o) (hv : h.classVariable? p name = some v) (hvo : v.owner = some o) :
    h.passedOn c name = some w := by
  have hsources : (h.classAt c).supers.flatMap h.sourcesOf =
      [(h.classAt g).scope, (h.classAt p).scope] := by
    rw [hsupers, flatMap_cons, sourcesOf, hg]
    rfl
  have hfirst : h.varAt? (h.classAt g).scope name = some w := hw
  have hsecond : h.varAt? (h.classAt p).scope name = some v := hv
  -- What the super class has was declared by the same class, and does not come in its place.
  have hstays : h.displaces w.owner v.owner = false := by
    rw [hwo, hvo, displaces, inherits, inheritsWithin, beq_self_eq_true]
    rfl
  rw [passedOn, hsources, foldl_cons, foldl_cons, hfirst, hsecond,
    settleVariable_none_left, settleVariable, hstays]
  rfl

end PassedOn

end Heap

/-! ## Static fields -/

namespace Machine

variable {m m' : Machine} {c : ClassId} {name : String}

theorem Runs.classScope (hrun : m.Runs m') (hc : c < m.heap.classes.size) :
    c < m'.heap.classes.size ∧ (m'.heap.classAt c).scope = (m.heap.classAt c).scope := by
  refine hrun.keeps (I := fun m' => c < m'.heap.classes.size ∧
    (m'.heap.classAt c).scope = (m.heap.classAt c).scope) (fun a b hmove hk => ?_) ⟨hc, rfl⟩
  have hgrows := hmove.extend.grows
  exact ⟨Nat.lt_of_lt_of_le hk.1 hgrows.classes, (hgrows.classScope c hk.1).trans hk.2⟩

/-- A class has a slot that holds a value. All ways to it read the value and, but for `super`, write
    it. -/
structure SlotAt (m : Machine) (c : ClassId) (name : String) (value : Value) : Prop where
  reads : m.Reads c name value
  writes : ∀ (L : Level) (span : Span) (p : Expression.Place) (v : Variable) (new : Value),
    p.Reaches m c name → m.Offers c name v →
      ∃ m₂, Expression.writePlace L span new p m = .done () m₂ ∧ m.Moves m₂ ∧
        m.Assigns m₂ (m.heap.classAt c).scope name new ∧
        ∀ d, d < m.heap.classes.size → d ≠ c →
          m₂.heap.classVariable? d name = m.heap.classVariable? d name
  super : ∀ (L : Level) (span : Span),
    Expression.place L (.super span name) m = .failed (.fault .assignThroughSuper none []) m
  inside : ∀ (before after : List ScopeId) (v : Variable),
    m.heap.chain m.registers.scope = before ++ (m.heap.classAt c).scope :: after →
      (∀ s ∈ before, m.heap.Lacks name s) → m.Offers c name v →
        (Expression.Place.name name).Reaches m c name
  methods : ∀ (frame : ScopeId) (d : ClassId) (o : ObjectId) (inner : List ScopeId) (v : Variable),
    m.heap.MethodFrame frame d o → (m.heap.objectAt o).type = c →
      m.heap.chain m.registers.scope = inner ++ m.heap.chain frame →
        (∀ s ∈ inner, m.heap.Lacks name s) → m.heap.Lacks name frame →
          (∀ fields ∈ m.heap.fieldScope? (.object o), m.heap.Lacks name fields) →
            m.Offers c name v → (Expression.Place.name name).Reaches m c name

theorem slotAt_of_slot (hm : m.Steady) (hc : c < m.heap.classes.size)
    (hv : m.heap.classVariable? c name = some v) (hconst : v.isConst = false)
    (hslot : v.storage = .slot value) : m.SlotAt c name value where
  reads := reads_of_slot hv hslot
  writes L span p w new hp ho := by
    cases ho.classVariable?.symm.trans hv
    refine ⟨_, writePlace_slot L span hp ho hconst hslot new, .assign hm hv hconst new, rfl,
      fun d hd hdc => ?_⟩
    have hne : (m.heap.classAt c).scope ≠ (m.heap.classAt d).scope :=
      fun hsame => hdc (hm.linked.heap.class_eq hd hc hsame.symm)
    exact varAt?_updateScope_of_ne _ hne
  super _ _ := rfl
  inside _ _ _ hchain hlacks ho := hm.linked.heap.reaches_byName hchain hlacks ho.members
  methods frame d o inner w hf htype hsite hinner hframe hfields ho := by
    subst htype
    exact hm.linked.heap.reaches_inMethod hf hsite hinner hframe hfields ho.members

end Machine

/-- A static field is one slot of its class: all ways to it read what was written to it last. A
    class that inherits takes over a copy of what its super classes pass on, and from then on has a
    slot of its own. -/
theorem InSession.static_slot {m₀ m : Machine} (hm : InSession m₀) (hrun : m₀.Runs m)
    {c : ClassId} (hc : c < m.heap.classes.size) {name : String} {v : Variable} {start : Value}
    (hv : m.heap.classVariable? c name = some v) (hconst : v.isConst = false)
    (hslot : v.storage = .slot start) :
    (∀ m', m.Runs m' → ∃ values, Machine.Writing (m.heap.classAt c).scope name m values m') ∧
    (∀ values m', Machine.Writing (m.heap.classAt c).scope name m values m' →
      m'.SlotAt c name (values.getLast?.getD start)) ∧
    ∀ b, c ∈ (m.heap.classAt b).supers → m.heap.classVariable? b name = none →
      (m.heap.flatten b).classVariable? b name = m.heap.passedOn b name ∧
      (m.heap.passedOn b name).isSome = true ∧
      ((∀ s ∈ (m.heap.classAt b).supers.flatMap m.heap.sourcesOf, s ≠ (m.heap.classAt c).scope →
        m.heap.varAt? s name = none) → m.heap.passedOn b name = some v) ∧
      ∀ g o w, (m.heap.classAt b).supers = [c] → (m.heap.classAt c).ancestors = some g →
        m.heap.classVariable? g name = some w → w.owner = some o → v.owner = some o →
          m.heap.passedOn b name = some w := by
  have hsteady := hrun.steady hm.steady
  have hplain := hrun.plainFields hm.plainFields
  refine ⟨fun m' hrest => hrest.writing _ _, fun values m' hw => ?_, fun b hb hnone => ?_⟩
  · have hkind := (hsteady.linked.heap.classes c hc).kind
    obtain ⟨hc', hscope⟩ := hw.runs.classScope hc
    have hholds := hw.holds hplain hkind hv hslot
    rw [← hscope] at hholds
    refine slotAt_of_slot (hw.runs.steady hsteady) hc' hholds ?_
      (Variable.storage_withValue hslot _)
    rw [Variable.isConst_withValue]
    exact hconst
  · have hlt : b < m.heap.classes.size := (Heap.Refers.super hb).has
    have htakes := flatten_takesOver hsteady.linked.heap hlt (ne_nil_of_mem hb)
    have hthere : (m.heap.varAt? (m.heap.classAt c).scope name).isSome = true :=
      congrArg Option.isSome hv
    exact ⟨htakes.variable hsteady.owned.heap hsteady.linked.heap hlt hnone,
      foldl_settleVariable_isSome (scope_mem_sources hb) hthere none,
      passedOn_of_only hb hv,
      fun g o w hsupers hg hw hwo hvo => passedOn_of_inherited hsupers hg hw hwo hv hvo⟩

/-! ## Two classes -/

theorem Scope.local?_of_find? {sc : Scope}
    (hclass : sc.classes.find? name = none) (hfunction : sc.functions.find? name = none)
    (hv : sc.vars.find? name = some v) : sc.local? name = some (.variable v) := by
  rw [local?, hclass, hfunction, hv]
  rfl

def Request.inheriting : Request :=
  .source "class A \x7b static var f = 1; \x7d fn h() \x7b return 0; \x7d
    class B : A \x7b static var g = h(); \x7d"

def Machine.inFunction (m : Machine) : Bool :=
  (m.heap.scopeAt m.registers.scope).kind matches .frame _ none

def Machine.inheriting : Machine :=
  (Request.inheriting.perform (watchedLevel Machine.inFunction 40)
    (Machine.initial Config.standard default [])).machine

def Variable.staticField (n : Int64) (owner : ClassId) : Variable :=
  .numbered n false true (some owner)

theorem Machine.inheriting_classes : (50 < Machine.inheriting.heap.classes.size ∧
      Machine.inheriting.heap.classVariable? 50 "f" = some (.staticField 1 50) ∧
      50 ∈ (Machine.inheriting.heap.classAt 52).supers ∧
      Machine.inheriting.heap.classVariable? 52 "f" = none ∧
      ∀ s ∈ (Machine.inheriting.heap.classAt 52).supers.flatMap Machine.inheriting.heap.sourcesOf,
        s ≠ (Machine.inheriting.heap.classAt 50).scope →
          Machine.inheriting.heap.varAt? s "f" = none) ∧
    (Machine.inheriting.heap.scopeAt (Machine.inheriting.heap.classAt 50).scope).classes.find? "f" =
        none ∧
      (Machine.inheriting.heap.scopeAt
        (Machine.inheriting.heap.classAt 50).scope).functions.find? "f" = none := by
  decide +kernel

theorem InSession.static_slot_copied :
    InSession Machine.inheriting ∧ Machine.inheriting.SlotAt 50 "f" (.int 1) ∧
      (∃ m₂, Expression.writePlace (level 40) default (.int 2) (.member (.type 50) "f")
          Machine.inheriting = .done () m₂ ∧ m₂.SlotAt 50 "f" (.int 2)) ∧
      (Machine.inheriting.heap.flatten 52).classVariable? 52 "f" = some (.staticField 1 50) := by
  have hsession : InSession Machine.inheriting :=
    .running (.initial Config.standard default []) Machine.inFunction 40 Request.inheriting
  obtain ⟨⟨hc, hv, hsuper, hnone, honly⟩, hclass, hfunction⟩ := inheriting_classes
  generalize Machine.inheriting = m at *
  obtain ⟨-, hslots, hcopies⟩ := InSession.static_slot hsession .refl hc hv rfl rfl
  have hstart : m.SlotAt 50 "f" (.int 1) := hslots [] m .start
  have hoffers : m.Offers 50 "f" (.staticField 1 50) :=
    ⟨local?_of_find? hclass hfunction hv, rfl⟩
  obtain ⟨m₂, hwrite, hmove, hassigns, -⟩ :=
    hstart.writes (level 40) default _ _ (.int 2) .ofType hoffers
  obtain ⟨hcopy, -, hfrom, -⟩ := hcopies 52 hsuper hnone
  exact ⟨hsession, hstart, ⟨m₂, hwrite, hslots [.int 2] m₂ (.write .start hmove hassigns)⟩,
    hcopy.trans (hfrom honly)⟩

def Request.twoClasses : Request :=
  .source "class A \x7b static var f = 1; \x7d class B : A \x7b \x7d"

theorem static_field_not_shared :
    ¬ ∀ m, InSession m → ∀ (a b : ClassId) (name : String) (v w : Variable),
      a < m.heap.classes.size → b < m.heap.classes.size → m.heap.inherits b a = true →
      m.heap.classVariable? a name = some v → v.owner = some a → v.isStatic = true →
      v.isConst = false → m.heap.classVariable? b name = some w → w.owner = some a →
      ∀ (L : Level) (span : Span) (value : Value) (m₂ : Machine),
        Expression.writePlace L span value (.member (.type a) name) m = .done () m₂ →
          Expression.readPlace L span (.member (.type b) name) m₂ = .done value m₂ := by
  intro hshared
  have hcheck : (Request.twoClasses.unwatched (Machine.initial Config.standard default [])).endsIn
      (fun _ m => decide ((50 < m.heap.classes.size ∧ 52 < m.heap.classes.size ∧
          m.heap.inherits 52 50 = true ∧
          m.heap.classVariable? 50 "f" = some (.staticField 1 50) ∧
          m.heap.classVariable? 52 "f" = some (.staticField 1 50)) ∧
        ((do
          Expression.writePlace (level 40) default (.int 2) (.member (.type 50) "f")
          Expression.readPlace (level 40) default (.member (.type 52) "f") : Eval Value) m).endsIn
            (fun value _ => value == .int 1) = true)) = true := by
    decide +kernel
  obtain ⟨reply, m, hdone, htest⟩ := Outcome.done_of_endsIn hcheck
  obtain ⟨⟨ha, hb, hinherits, hv, hw⟩, hread⟩ := of_decide_eq_true htest
  have hidle : Idle m :=
    .done (.initial _ _ _) (fun _ => false) 40 Request.twoClasses reply hdone
  obtain ⟨value, m₃, hends, hvalue⟩ := Outcome.done_of_endsIn hread
  obtain ⟨_, m₂, hwrite, hget⟩ := bind_done hends
  have hsame := hshared m (.idle hidle) 50 52 "f" _ _ ha hb hinherits hv rfl rfl rfl hw rfl
    (level 40) default (.int 2) m₂ hwrite
  rw [hget] at hsame
  cases hsame
  exact absurd hvalue (by decide)

end ClassScript
