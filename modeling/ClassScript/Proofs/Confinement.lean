import ClassScript.Proofs.Preparation

/-!
# Names Stay Where They Are

A scope gets names only by a declaration that is run directly in it. Every scope that is filled on
the way was created by the run, so the proof carries that the scopes known for it are outside of a
set of scopes, whichever it is.
-/

namespace ClassScript

open List Heap Registers

variable {α : Type} {h h' : Heap} {S T : ScopeId → Prop} {m : Machine} {k : Fact} {r : Registers}
variable {s : ScopeId} {f : Heap → Heap} {x : Level → Eval α}

/-! ## What names stand for -/

def Variable.declaration (v : Variable) : Variable :=
  v.withValue .null

def Scope.declarations (sc : Scope) : OrderedMap String Variable :=
  sc.vars.filterMap fun _ v => some v.declaration

def Scope.bindings (sc : Scope) : Scope :=
  { sc with vars := sc.declarations }

def Heap.SameNames (h h' : Heap) (s : ScopeId) : Prop :=
  (h'.scopeAt s).bindings = (h.scopeAt s).bindings

theorem Variable.declaration_withValue (v : Variable) (value : Value) :
    (v.withValue value).declaration = v.declaration := by
  obtain ⟨storage, isConst, isStatic, access, owner⟩ := v
  cases storage <;> rfl

theorem Scope.bindings_assign (sc : Scope) (name : String) (value : Value) :
    (sc.assign name value).bindings = sc.bindings := by
  unfold assign
  cases hv : sc.vars.find? name with
  | none => rfl
  | some v =>
    have hvars : (sc.vars.insert name (v.withValue value)).filterMap _ = sc.declarations :=
      OrderedMap.filterMap_insert (congrArg some (v.declaration_withValue value)) hv
    exact congrArg (fun vars => { sc with vars := vars }) hvars

theorem Scope.find?_declarations (sc : Scope) (name : String) :
    sc.declarations.find? name = (sc.vars.find? name).map (·.declaration) := by
  rw [declarations, OrderedMap.find?_filterMap, Option.map_eq_bind]
  rfl

namespace Heap

variable {a b c h : Heap} {s : ScopeId}

theorem SameNames.refl (h : Heap) (s : ScopeId) : h.SameNames h s := rfl

theorem SameNames.trans (hab : a.SameNames b s) (hbc : b.SameNames c s) : a.SameNames c s :=
  Eq.trans hbc hab

theorem SameNames.of_eq (hs : b.scopeAt s = a.scopeAt s) : a.SameNames b s :=
  congrArg Scope.bindings hs

theorem updateScope_sameNames {t : ScopeId} (f : Scope → Scope) (ht : t ≠ s) :
    h.SameNames (h.updateScope t f) s := by
  refine .of_eq ?_
  rw [scopeAt_updateScope, if_neg fun hst => ht hst.1]

theorem assign_sameNames (t : ScopeId) (name : String) (value : Value) (kept : Scope → Bool) :
    h.SameNames (h.updateScope t fun sc => if kept sc then sc else sc.assign name value) s := by
  unfold SameNames
  rw [scopeAt_updateScope]
  split
  · next hts =>
    rw [← hts.1]
    split
    · rfl
    · exact Scope.bindings_assign _ name value
  · rfl

theorem newScope_sameNames (kind : ScopeKind) (parent : Option ScopeId)
    (hs : s < h.scopes.size) : h.SameNames (h.newScope kind parent).2 s := by
  refine .of_eq ?_
  rw [scopeAt_newScope, if_neg (Nat.ne_of_lt hs)]

theorem newClass_sameNames (k : Class) (parent : Option ScopeId) (hs : s < h.scopes.size) :
    h.SameNames (h.newClass k parent).2 s :=
  newScope_sameNames _ parent hs

theorem payloadOf_newInstance (h : Heap) (type : ClassId) :
    (h.newInstance type).2.payloadOf h.objects.size = .fields h.scopes.size :=
  congrArg Object.payload (getD_push_size h.objects _ _)

theorem Grows.scope_newClass {k : Class} {parent : Option ScopeId}
    (hgrows : (h.newClass k parent).2.Grows h') :
    (h'.classAt h.classes.size).scope = h.scopes.size := by
  have hlt : h.classes.size < (h.newClass k parent).2.classes.size :=
    Nat.lt_of_lt_of_eq (Nat.lt_succ_self _) (Array.size_push _).symm
  rw [hgrows.classScope _ hlt, classAt_newClass, if_pos rfl]

theorem exportClass_scopeAt (name : String) (source : ScopeId) (parent : Option ScopeId)
    (hs : s < h.scopes.size) : (h.exportClass name source parent).2.scopeAt s = h.scopeAt s := by
  let fresh := Class.fresh name [] true .public
  have hscope : ((h.newClass fresh parent).2.classAt h.classes.size).scope = h.scopes.size := by
    rw [classAt_newClass, if_pos rfl]
  have hne : ((h.newClass fresh parent).2.classAt h.classes.size).scope ≠ s :=
    ne_of_eq_of_ne hscope (Nat.ne_of_gt hs)
  refine (scopeAt_updateScope _ _ _ _).trans ?_
  rw [if_neg fun h => hne h.1]
  exact (scopeAt_newScope h _ parent s).trans (if_neg (Nat.ne_of_lt hs))

theorem flatten_scopeAt (hl : h.Linked) {k : ClassId} (hk : k < h.classes.size)
    (hs : s < h.scopes.size) (hne : s ≠ (h.classAt k).scope) :
    (h.flatten k).scopeAt s = h.scopeAt s := by
  by_cases hsupers : (h.classAt k).supers = []
  · rw [flatten_of_supers_nil hsupers]
  · exact (flatten_takesOver hl hk hsupers).otherScope s (Nat.ne_of_lt hs) hne

end Heap

/-! ## Where names may be put -/

def Fact.Apart (S : ScopeId → Prop) (m : Machine) : Fact → Prop
  | .own s | .naming s => s < m.heap.scopes.size ∧ ¬ S s
  | .created o => ∃ s, m.heap.payloadOf o = .fields s ∧ ¬ S s
  | .declared c => c < m.heap.classes.size ∧ ¬ S (m.heap.classAt c).scope
  | .here | .inside => ¬ S m.registers.scope
  | .scope _ | .type _ | .membersIn _ | .members _ _ | .fields _ _ | .module _ | .named _ => True
  | .fieldsIn _ | .opened _ | .overload _ _ | .exported _ _ | .importing => True

structure Machine.Spares (m : Machine) (S : ScopeId → Prop) (Γ : List Fact) : Prop where
  holds : ∀ k ∈ Γ, k.Holds m.heap
  old : ∀ s, S s → s < m.heap.scopes.size
  apart : ∀ k ∈ Γ, k.Apart S m

theorem Fact.Apart.later {m' : Machine} (hk : k.Apart S m)
    (hm : m.Linked) (hg : m.heap.Grows m'.heap) (hr : m'.registers.scope = m.registers.scope)
    (hT : ∀ s, s < m.heap.scopes.size → T s → S s) : k.Apart T m' := by
  cases k with
  | created o =>
    obtain ⟨s, hs, hS⟩ := hk
    exact ⟨s, hg.fields o s hs, fun h => hS (hT s (hm.heap.objects o s hs).scope h)⟩
  | declared c =>
    refine ⟨Nat.lt_of_lt_of_le hk.1 hg.classes, ?_⟩
    rw [hg.classScope c hk.1]
    exact fun h => hk.2 (hT _ (hm.heap.classes c hk.1).scope h)
  | here | inside =>
    unfold Apart
    rw [hr]
    exact fun h => hk (hT _ hm.scope h)
  | own s | naming s => exact ⟨Nat.lt_of_lt_of_le hk.1 hg.scopes, fun h => hk.2 (hT s hk.1 h)⟩
  | _ => trivial

theorem Fact.Apart.withRegisters
    (hk : k.Apart S m) (hr : ¬ S r.scope) : k.Apart S { m with registers := r } := by
  cases k with
  | here | inside => exact hr
  | _ => exact hk

namespace Machine.Spares

variable {S : ScopeId → Prop} {m m' : Machine} {Γ : List Fact} {Δ : List Fact}

theorem later (hm : m.Spares S Γ) (hl : m.Linked)
    (hg : m.heap.Grows m'.heap) (hr : m'.registers.scope = m.registers.scope)
    (hold : ∀ s, T s → s < m'.heap.scopes.size)
    (hT : ∀ s, s < m.heap.scopes.size → T s → S s) : m'.Spares T Γ :=
  ⟨fun k hk => (hm.holds k hk).grows hg, hold, fun k hk => (hm.apart k hk).later hl hg hr hT⟩

theorem subset (hm : m.Spares S Γ) (hl : m.Linked) (hT : ∀ s, T s → S s) : m.Spares T Γ :=
  hm.later hl (.refl _) rfl (fun s hs => hm.old s (hT s hs)) fun s _ => hT s

theorem mono (hm : m.Spares S Γ) (hΔ : ∀ k ∈ Δ, k ∈ Γ) : m.Spares S Δ :=
  ⟨fun k hk => hm.holds k (hΔ k hk), hm.old, fun k hk => hm.apart k (hΔ k hk)⟩

theorem withRegisters (hm : m.Spares S Γ) (hr : ¬ S r.scope) :
    Machine.Spares { m with registers := r } S Γ :=
  ⟨hm.holds, hm.old, fun k hk => (hm.apart k hk).withRegisters hr⟩

theorem append (hm : m.Spares S Γ) (hholds : ∀ k ∈ Δ, k.Holds m.heap)
    (hapart : ∀ k ∈ Δ, k.Apart S m) : m.Spares S (Δ ++ Γ) :=
  ⟨forall_mem_append.mpr ⟨hholds, hm.holds⟩, hm.old,
    forall_mem_append.mpr ⟨hapart, hm.apart⟩⟩

theorem cons (hm : m.Spares S Γ) (hholds : k.Holds m.heap) (hapart : k.Apart S m) :
    m.Spares S (k :: Γ) :=
  ⟨forall_mem_cons.mpr ⟨hholds, hm.holds⟩, hm.old,
    forall_mem_cons.mpr ⟨hapart, hm.apart⟩⟩

theorem new (hm : m.Spares S Γ) : ¬ S m.heap.scopes.size :=
  fun hs => absurd (hm.old _ hs) (Nat.lt_irrefl _)

end Machine.Spares

variable {Γ : List Fact} {m : Machine} {S : ScopeId → Prop} {k : Fact}

/-! ## Where steps put names -/

theorem Placing.apart {owner : Option ClassId}
    (hp : Placing Γ s owner) (hΓ : m.Spares S Γ) : ¬ S s := by
  cases hp with
  | free ho => exact (hΓ.apart _ ho).2
  | field o c hs ho =>
    obtain ⟨t, ht, hapart⟩ := hΓ.apart _ ho
    have hsame : m.heap.payloadOf o = .fields s := hΓ.holds _ hs
    cases ht.symm.trans hsame
    exact hapart
  | member c hc hs =>
    obtain ⟨_, hscope⟩ := hΓ.holds _ hs
    rw [← hscope]
    exact (hΓ.apart _ hc).2

theorem Write.confined (hf : Write False Γ f) (hΓ : m.Spares S Γ) (hs : S s) :
    m.heap.SameNames (f m.heap) s := by
  have helsewhere {t : ScopeId} (ht : ¬ S t) : t ≠ s := by
    rintro rfl
    exact ht hs
  cases hf with
  | «variable» t name v kept hv _ => exact updateScope_sameNames _ (helsewhere (hv.apart hΓ))
  | slot t name value kept _ => exact assign_sameNames t name value kept
  | overload t id f _ hp => exact updateScope_sameNames _ (helsewhere (hp.apart hΓ))
  | copy t name c _ ho | family t name family _ ho | «class» t name c _ ho =>
    exact updateScope_sameNames _ (helsewhere (hΓ.apart _ ho).2)
  | field | contents => exact .refl _ s

theorem mem_exportFacts {name : String} {found : Option Binding} (hk : k ∈ exportFacts name found) :
    (∃ c, k = .named c) ∨ ∃ family, k = .exported name family := by
  unfold exportFacts at hk
  grind

theorem mem_moduleFacts {found : Option ClassId} (hk : k ∈ moduleFacts found) :
    (∃ c, k = .module c) ∨ ∃ c, k = .named c := by
  unfold moduleFacts at hk
  grind

theorem Found.apart (hf : Found Γ m.heap k) (hm : m.Linked) (hΓ : m.Spares S Γ) : k.Apart S m := by
  cases hf with
  | link hk =>
    cases k with
    | scope | type | membersIn | members | fields | fieldsIn => trivial
    | _ => exact hk.elim
  | naming hd =>
    obtain ⟨hc, hapart⟩ := hΓ.apart _ hd
    exact ⟨(hm.heap.classes _ hc).scope, hapart⟩
  | named _ => trivial
  | exported _ hk => rcases mem_exportFacts hk with ⟨_, rfl⟩ | ⟨_, rfl⟩ <;> trivial

/-! ## What computations rely on, and what they leave -/

/-- A machine fits what a computation is built on: what is known is true, and names are put outside
    of a set of scopes. -/
structure Machine.Fits (m : Machine) (S : ScopeId → Prop) (Γ : List Fact) : Prop where
  linked : m.Linked
  owned : m.Owned
  stands : ∀ k ∈ Γ, k.Stands m.heap m.modules
  spares : m.Spares S Γ

/-- A later machine that is in order, in which the names of the scopes of a set stand for the same.
    -/
structure Machine.Keeps (m : Machine) (S : ScopeId → Prop) (m' : Machine) : Prop where
  leads : m.Leads m'
  upholds : m.Upholds m'
  names : ∀ s, S s → m.heap.SameNames m'.heap s

namespace Machine

variable {S : ScopeId → Prop} {m m' : Machine} {Γ Δ : List Fact}

theorem Fits.knows (hm : m.Fits S Γ) : m.Knows Γ := ⟨hm.spares.holds, hm.stands⟩

theorem Fits.mono (hm : m.Fits S Γ) (hΔ : ∀ k ∈ Δ, k ∈ Γ) : m.Fits S Δ :=
  ⟨hm.linked, hm.owned, fun k hk => hm.stands k (hΔ k hk), hm.spares.mono hΔ⟩

theorem Fits.append (hm : m.Fits S Γ) (hholds : ∀ k ∈ Δ, k.Holds m.heap)
    (hstands : ∀ k ∈ Δ, k.Stands m.heap m.modules) (hapart : ∀ k ∈ Δ, k.Apart S m) :
    m.Fits S (Δ ++ Γ) :=
  ⟨hm.linked, hm.owned, forall_mem_append.mpr ⟨hstands, hm.stands⟩,
    hm.spares.append hholds hapart⟩

theorem Fits.cons (hm : m.Fits S Γ) (hholds : k.Holds m.heap)
    (hstands : k.Stands m.heap m.modules) (hapart : k.Apart S m) : m.Fits S (k :: Γ) :=
  ⟨hm.linked, hm.owned, forall_mem_cons.mpr ⟨hstands, hm.stands⟩,
    hm.spares.cons hholds hapart⟩

section

variable (hm : m.Fits S Γ)
include hm

theorem Fits.later (hk : m.Keeps S m') (hr : m'.registers.scope = m.registers.scope) :
    m'.Fits S Γ :=
  ⟨hk.leads.linked, hk.upholds.owned hm.owned,
    fun k hmem => (hm.stands k hmem).extends (Heap.Upholds.extend hk.upholds),
    hm.spares.later hm.linked hk.leads.grows hr
      (fun s hs => Nat.lt_of_lt_of_le (hm.spares.old s hs) hk.leads.grows.scopes) fun _ _ => id⟩

theorem Fits.enter (hr : r.scope < m.heap.scopes.size) (hS : ¬ S r.scope) :
    Fits { m with registers := r } S Γ :=
  ⟨hm.linked.withRegisters hr, ⟨hm.owned.heap, hm.owned.object, hm.owned.null⟩, hm.stands,
    hm.spares.withRegisters hS⟩

theorem Fits.withRegisters (hr : r.scope = m.registers.scope) :
    Fits { m with registers := r } S Γ := by
  have hlt : r.scope < m.heap.scopes.size := by
    rw [hr]
    exact hm.linked.scope
  exact ⟨hm.linked.withRegisters hlt, ⟨hm.owned.heap, hm.owned.object, hm.owned.null⟩, hm.stands,
    hm.spares.later hm.linked (.refl _) hr hm.spares.old fun _ _ => id⟩

theorem Fits.modules (path : String) : m.Fits S (moduleFacts (m.modules.lookup path) ++ Γ) := by
  refine hm.append (fun k hk => ?_) (moduleFacts_stand hm.owned path) fun k hk => ?_
  all_goals rcases mem_moduleFacts hk with ⟨_, rfl⟩ | ⟨_, rfl⟩ <;> trivial

theorem Fits.site (hh : .here ∈ Γ) :
    m.Fits S (.scope m.registers.scope :: .own m.registers.scope ::
      .naming m.registers.scope :: Γ) := by
  have hcurrent : (Fact.own m.registers.scope).Apart S m := ⟨hm.linked.scope, hm.spares.apart _ hh⟩
  exact .cons (.cons (.cons hm trivial trivial hcurrent) trivial trivial hcurrent) hm.linked.scope
    trivial trivial

theorem Fits.siteInside (hh : .inside ∈ Γ) :
    m.Fits S (.scope m.registers.scope :: .naming m.registers.scope :: Γ) :=
  .cons (hm.cons trivial trivial ⟨hm.linked.scope, hm.spares.apart _ hh⟩) hm.linked.scope trivial
    trivial

theorem Keeps.refl : m.Keeps S m :=
  ⟨.refl hm.linked, .refl hm.owned, fun s _ => .refl m.heap s⟩

end

theorem Keeps.trans {m'' : Machine} (h : m.Keeps S m') (h' : m'.Keeps S m'') : m.Keeps S m'' :=
  ⟨h.leads.trans h'.leads, h.upholds.trans h'.upholds,
    fun s hs => (h.names s hs).trans (h'.names s hs)⟩

theorem Keeps.of_scopes (hm : m.Fits S Γ) (hl : m.heap.Leads h)
    (hu : m.Upholds { m with heap := h })
    (hscopes : ∀ s, s < m.heap.scopes.size → h.scopeAt s = m.heap.scopeAt s) :
    m.Keeps S { m with heap := h } :=
  ⟨.of_heap hm.linked hl, hu, fun s hs => .of_eq (hscopes s (hm.spares.old s hs))⟩

end Machine

/-! ## Steps -/

section Steps

variable {S : ScopeId → Prop} {m : Machine} {Γ : List Fact}

theorem Write.keeps (hf : Write False Γ f) (hm : m.Fits S Γ) :
    m.Keeps S { m with heap := f m.heap } :=
  ⟨.of_heap hm.linked (hf.leads hm.linked.heap), hf.upholds hm.linked hm.owned hm.knows,
    fun _ hs => hf.confined hm.spares hs⟩

theorem Creation.keeps {f : Heap → Nat × Heap} (hf : Creation Γ f) (hm : m.Fits S Γ) :
    m.Keeps S { m with heap := (f m.heap).2 } := by
  refine .of_scopes hm (hf.leads hm.linked.heap) (hf.upholds hm.linked hm.owned) fun _ _ => ?_
  cases hf <;> rfl

namespace Machine.Fits

variable {parent : Option ScopeId}

theorem newScope (hm : m.Fits S Γ) {kind : ScopeKind}
    (hopen : Opening Γ kind parent) :
    let m' := { m with heap := (m.heap.newScope kind parent).2 }
    m.Keeps S m' ∧ m'.Fits S (.scope m.heap.scopes.size :: .opened m.heap.scopes.size ::
      .own m.heap.scopes.size :: Γ) := by
  intro m'
  have hlead := hopen.leads hm.linked.heap hm.spares.holds
  have hkind := hopen.isOpened
  have hup : m.Upholds m' := newScope_upholds hm.owned.heap hlead.grows rfl rfl fun c hc => by
    rw [hc] at hkind
    exact hkind
  have hkeeps : m.Keeps S m' := .of_scopes hm hlead hup fun s hs => by
    rw [scopeAt_newScope, if_neg (Nat.ne_of_lt hs)]
  have hlt : m.heap.scopes.size < m'.heap.scopes.size :=
    Nat.lt_of_lt_of_eq (Nat.lt_succ_self _) (Array.size_push _).symm
  have hroom : (m'.heap.scopeAt m.heap.scopes.size).kind.IsOpened := by
    rw [scopeAt_newScope, if_pos rfl]
    exact hkind
  have hown := (hm.later hkeeps rfl).cons (k := .own m.heap.scopes.size) trivial trivial
    ⟨hlt, hm.spares.new⟩
  exact ⟨hkeeps, .cons (.cons hown trivial ⟨hlt, hroom⟩ trivial) hlt trivial trivial⟩

theorem newInstance (hm : m.Fits S Γ) (type : ClassId) :
    let m' := { m with heap := (m.heap.newInstance type).2 }
    m.Keeps S m' ∧ m'.Fits S (.created m.heap.objects.size :: Γ) := by
  intro m'
  have hlead := newInstance_leads hm.linked.heap hm.linked.root type
  have hup : m.Upholds m' := newScope_upholds hm.owned.heap hlead.grows rfl rfl fun _ => nofun
  have hkeeps : m.Keeps S m' := .of_scopes hm hlead hup fun s hs =>
    (scopeAt_newScope ..).trans (if_neg (Nat.ne_of_lt hs))
  exact ⟨hkeeps, (hm.later hkeeps rfl).cons trivial trivial
    ⟨_, m.heap.payloadOf_newInstance type, hm.spares.new⟩⟩

theorem newOverload (hm : m.Fits S Γ) {f : Overload} (hf : ∀ k ∈ f.facts, k ∈ Γ) :
    let m' := { m with heap := (m.heap.newOverload f).2 }
    m.Keeps S m' ∧ m'.Fits S (.overload m.heap.overloads.size f :: Γ) := by
  intro m'
  have hlead := newOverload_leads hm.linked.heap f fun k hk => hm.spares.holds k (hf k hk)
  have hkeeps : m.Keeps S m' := .of_scopes hm hlead
    (upholds_of_same hm.owned.heap hlead.grows rfl rfl) fun _ _ => rfl
  refine ⟨hkeeps, (hm.later hkeeps rfl).cons trivial ⟨?_, getD_push_size _ _ _⟩ trivial⟩
  exact Nat.lt_of_lt_of_eq (Nat.lt_succ_self _) (Array.size_push _).symm

theorem newClass (hm : m.Fits S Γ) {parent : ScopeId} (hp : .scope parent ∈ Γ) (name : String)
    {supers : List ClassId} (isStatic : Bool) (access : Access)
    (hs : ∀ p ∈ supers, m.heap.Named p) :
    let new := m.heap.newClass (Class.fresh name supers isStatic access) (some parent)
    let m' := { m with heap := new.2 }
    m.Keeps S m' ∧ m'.Fits S (newClassFacts new.1 ++ Γ) := by
  intro new m'
  have hparent (p : ScopeId) (hq : some parent = some p) : p < m.heap.scopes.size := by
    cases hq
    exact hm.spares.holds _ hp
  have hlead : m.heap.Leads m'.heap := newClass_leads hm.linked.heap _ _ hparent
  have hkeeps : m.Keeps S m' :=
    .of_scopes hm hlead (newClass_upholds hm.owned.heap hlead rfl hs) fun s hlt =>
      (scopeAt_newScope ..).trans (if_neg (Nat.ne_of_lt hlt))
  obtain ⟨hnamed, hmodules⟩ := newClass_named hm.owned.heap (some parent)
    (c := Class.fresh name supers isStatic access) rfl
  have hscope : (m'.heap.classAt new.1).scope = m.heap.scopes.size :=
    (Heap.Grows.refl m'.heap).scope_newClass
  have hbelow := (hm.later hkeeps rfl).cons (k := .named new.1) trivial hnamed trivial
  have hdeclared := hbelow.cons (k := .declared new.1) trivial ⟨hnamed, hmodules⟩
    ⟨hnamed.lt, fun hS => hm.spares.new (hscope ▸ hS)⟩
  exact ⟨hkeeps, hdeclared.cons hnamed.lt trivial trivial⟩

theorem «export» (hm : m.Fits S Γ) (path name : String) {source parent : ScopeId}
    (hp : .scope parent ∈ Γ) (hs : .opened source ∈ Γ) :
    let new := m.heap.exportClass name source (some parent)
    let m' := { m with heap := new.2, modules := (path, new.1) :: m.modules }
    m.Keeps S m' ∧ m'.Fits S (.module new.1 :: .named new.1 :: Γ) := by
  intro new m'
  have hparent (p : ScopeId) (hq : some parent = some p) : p < m.heap.scopes.size := by
    cases hq
    exact hm.spares.holds _ hp
  obtain ⟨hsource, hkind⟩ := hm.stands _ hs
  have hheap := exportClass_leads hm.linked.heap name source (some parent) hparent
  have hup : m.Upholds m' :=
    exportClass_upholds hm.owned.heap hm.linked.heap path name hparent hsource hkind
  have hkeeps : m.Keeps S m' :=
    ⟨⟨{ (Machine.Leads.of_heap hm.linked hheap).linked with }, hheap.grows⟩, hup,
      fun s hS => .of_eq (exportClass_scopeAt name source (some parent) (hm.spares.old s hS))⟩
  have hmem : (path, new.1) ∈ m'.modules := mem_cons_self
  have hnamed := (hm.later hkeeps rfl).cons (k := .named new.1) trivial
    ((hup.owned hm.owned).heap.modules _ hmem) trivial
  exact ⟨hkeeps, hnamed.cons trivial ⟨path, hmem⟩ trivial⟩

theorem flatten (hm : m.Fits S Γ) {c : Class} {m₂ : Machine}
    (hfresh : c.ancestors = none)
    (hmade : m.Keeps S { m with heap := (m.heap.newClass c parent).2 })
    (hrun : Keeps { m with heap := (m.heap.newClass c parent).2 } S m₂) :
    m.Keeps S { m₂ with heap := m₂.heap.flatten m.heap.classes.size } := by
  have hscope : (m₂.heap.classAt m.heap.classes.size).scope = m.heap.scopes.size :=
    hrun.leads.grows.scope_newClass
  have hnew := newClass_named hm.owned.heap parent hfresh
  have hlead := flatten_leads hrun.leads.linked.heap m.heap.classes.size
  refine ⟨⟨(Leads.of_heap hrun.leads.linked hlead).linked,
    (hmade.leads.grows.trans hrun.leads.grows).trans hlead.grows⟩, ?_, fun s hs => ?_⟩
  · exact flatten_upholds hmade.upholds hrun.upholds hrun.leads.linked.heap (Nat.le_refl _)
      (newClass_ancestors m.heap parent hfresh) hnew
  · have hold := hm.spares.old s hs
    refine ((hmade.trans hrun).names s hs).trans
      (.of_eq (flatten_scopeAt hrun.leads.linked.heap ?_ ?_ ?_))
    · exact Nat.lt_of_lt_of_le hnew.1.lt hrun.leads.grows.classes
    · exact Nat.lt_of_lt_of_le hold (hmade.trans hrun).leads.grows.scopes
    · grind

end Machine.Fits

end Steps

/-! ## Runs -/

def Eval.Keeping {α : Type} (Γ : List Fact) (x : Eval α) : Prop :=
  ∀ (m : Machine) (S : ScopeId → Prop), m.Fits S Γ → m.Keeps S (x m).machine

def Level.Keeping (L : Level) : Prop :=
  L.Entries fun _ Γ x => x.Keeping Γ

namespace Eval.Keeping

variable {α β : Type} {Γ : List Fact} {x : Eval α}

theorem of_same (hx : ∀ m, (x m).machine = m) : x.Keeping Γ := by
  intro m S hm
  rw [hx m]
  exact .refl hm

theorem mono {Δ : List Fact} (hx : x.Keeping Δ) (hΔ : ∀ k ∈ Δ, k ∈ Γ) : x.Keeping Γ :=
  fun m S hm => hx m S (hm.mono hΔ)

theorem of_nil (hx : x.Keeping []) : x.Keeping Γ :=
  hx.mono fun _ hk => absurd hk not_mem_nil

theorem bind {k : α → Eval β} (hr : x.Restoring) (hx : x.Keeping Γ)
    (hk : ∀ a, (k a).Keeping Γ) : (x >>= k).Keeping Γ := by
  intro m S hm
  have hkeeps := hx m S hm
  have hrestores := hr m
  rw [Eval.bind_apply]
  generalize x m = o at hkeeps hrestores ⊢
  cases hrestores with
  | done hregisters _ =>
    exact hkeeps.trans (hk _ _ S (hm.later hkeeps (congrArg Registers.scope hregisters)))
  | failed | stopped => exact hkeeps

theorem mapFailure (f : Failure → Failure) (hx : x.Keeping Γ) :
    (Eval.mapFailure f x).Keeping Γ := by
  intro m S hm
  have hkeeps := hx m S hm
  unfold Eval.mapFailure
  cases hxm : x m <;> rw [hxm] at hkeeps <;> exact hkeeps

theorem attempt (hx : x.Keeping Γ) : (Eval.attempt x).Keeping Γ := by
  intro m S hm
  have hkeeps := hx m S hm
  unfold Eval.attempt
  cases hxm : x m <;> rw [hxm] at hkeeps <;> exact hkeeps

theorem bracket (hr : x.Restoring) (hx : x.Keeping Γ)
    {enter leave : Registers → Registers}
    (hback : leave (enter m.registers) = m.registers) (hm : m.Linked)
    (hΓ : Machine.Fits { m with registers := enter m.registers } S Γ) :
    m.Keeps S (Eval.bracket enter leave x m).machine := by
  have hinside := hx _ S hΓ
  have hregisters := hr { m with registers := enter m.registers }
  have hleave (m' : Machine) (hsame : m'.registers = enter m.registers)
      (hk : Machine.Keeps { m with registers := enter m.registers } S m') :
      m.Keeps S { m' with registers := leave m'.registers } := by
    refine ⟨⟨hk.leads.linked.withRegisters ?_, hk.leads.grows⟩, hk.upholds, hk.names⟩
    rw [hsame, hback]
    exact Nat.lt_of_lt_of_le hm.scope hk.leads.grows.scopes
  unfold Eval.bracket
  generalize x { m with registers := enter m.registers } = o at hinside hregisters ⊢
  cases hregisters with
  | done hsame _ | failed hsame _ => exact hleave _ hsame hinside
  | stopped => exact ⟨⟨hinside.leads.linked, hinside.leads.grows⟩, hinside.upholds, hinside.names⟩

theorem loop {step : Eval (Option α)} (hr : step.Restoring) (hstep : step.Keeping Γ) (n : Nat) :
    Eval.Keeping Γ (Eval.loop step n) := by
  induction n with
  | zero => exact of_same fun _ => rfl
  | succ n ih =>
    rw [Eval.loop_succ]
    refine bind hr hstep fun answer => ?_
    cases answer with
    | some a => exact of_same fun _ => rfl
    | none => exact ih

end Eval.Keeping

variable {m : Machine}

theorem Built.keeping (hx : Built False Γ x)
    {L : Level} (hR : L.Restoring) (hK : L.Keeping) : (x L).Keeping Γ := by
  induction hx with
  | pure | raise | ask | read => exact .of_same fun _ => rfl
  | bind hx _ ihx ihk => exact .bind (hx.restores hR) ihx ihk
  | find hf _ ihk =>
    intro m S hm
    have hfound := hf.found m.heap
    exact ihk _ (hf.learned_of_false _) m S (hm.append
      (hf.holds hm.linked.heap hm.linked.root hm.spares.holds)
      (fun k hk => (hfound k hk).stands hm.linked hm.owned hm.knows)
      fun k hk => (hfound k hk).apart hm.linked hm.spares)
  | scope _ ihk => exact fun m S hm => ihk _ m S (hm.cons hm.linked.scope trivial trivial)
  | site hh _ ihk => exact fun m S hm => ihk _ m S (hm.site hh)
  | siteInside hh _ ihk => exact fun m S hm => ihk _ m S (hm.siteInside hh)
  | disk _ ihk => exact fun m S hm => ihk _ trivial m S hm
  | globals _ ihk => exact fun m S hm => ihk _ m S (hm.cons hm.linked.globals trivial trivial)
  | modules path _ ihk => exact fun m S hm => ihk _ m S (hm.modules path)
  | change hf | create hf => exact fun m S hm => hf.keeps hm
  | newScope kind parent hopen _ ihk =>
    intro m S hm
    obtain ⟨hkeeps, hfits⟩ := hm.newScope hopen
    exact hkeeps.trans (ihk _ _ S hfits)
  | newInstance type _ ihk =>
    intro m S hm
    obtain ⟨hkeeps, hfits⟩ := hm.newInstance type
    exact hkeeps.trans (ihk _ _ S hfits)
  | newOverload f hf _ _ ihk =>
    intro m S hm
    obtain ⟨hkeeps, hfits⟩ := hm.newOverload hf
    exact hkeeps.trans (ihk _ _ S hfits)
  | newClass name supers isStatic access parent hp hs _ _ ihk =>
    intro m S hm
    obtain ⟨hkeeps, hfits⟩ := hm.newClass hp name isStatic access fun p hq =>
      (hs p hq).named hm.owned hm.knows
    exact hkeeps.trans (ihk _ _ S hfits)
  | @declare Γ k name supers isStatic access parent hp hs _ hk ihk =>
    intro m S hm
    obtain ⟨hmade, hfits⟩ := hm.newClass hp name isStatic access fun p hq =>
      (hs p hq).named hm.owned hm.knows
    let made := m.heap.newClass (Class.fresh name supers isStatic access) (some parent)
    let m₁ : Machine := { m with heap := made.2 }
    have hbody : m₁.Keeps S (k L made.1 m₁).machine := ihk made.1 m₁ S hfits
    change m.Keeps S ((k L made.1 >>= fun _ => Eval.change (·.flatten made.1)) m₁).machine
    rw [Eval.bind_apply]
    generalize k L made.1 m₁ = o at hbody ⊢
    cases o with
    | done => exact hm.flatten rfl hmade hbody
    | failed | stopped => exact hmade.trans hbody
  | «export» path name source parent _ hp hs _ ihk =>
    intro m S hm
    obtain ⟨hkeeps, hfits⟩ := hm.export path name hp hs
    exact hkeeps.trans (ihk _ _ S hfits)
  | print =>
    exact fun m S hm => ⟨⟨{ hm.linked with }, .refl _⟩,
      Heap.Upholds.refl hm.owned.heap, fun s _ => .refl _ s⟩
  | mapFailure f _ _ _ ihx => exact ihx.mapFailure f
  | attempt hx _ _ ihx ihk =>
    exact .bind (hx.restores hR).attempt ihx.attempt fun r => ihk r fun _ _ _ _ => False.elim
  | inScope s hs ho hx ihx =>
    intro m S hm
    have hinner : ¬ S s := (hm.spares.apart _ ho).2
    have hentered := hm.enter (r := m.registers.goTo s) (hm.spares.holds _ hs) hinner
    exact ihx.bracket (hx.restores hR) (goTo_goTo m.registers s) hm.linked
      (.cons (.cons hentered trivial trivial hinner) trivial trivial hinner)
  | inBody s Δ hs ho hΔ _ hx ihx =>
    intro m S hm
    have hinner : ¬ S s := (hm.spares.apart _ ho).2
    have hentered := (hm.mono hΔ).enter (r := m.registers.goTo s) (hm.spares.holds _ hs) hinner
    exact ihx.bracket (hx.restores hR) (goTo_goTo m.registers s) hm.linked
      (.cons hentered trivial trivial hinner)
  | bracket enter leave hback hscope _ _ hx ihx =>
    intro m S hm
    exact ihx.bracket (hx.restores hR) (hback m.registers) hm.linked (hm.withRegisters (hscope _))
  | load _ _ _ _ _ ihx _ _ => exact fun m S hm => ihx m S (hm.cons trivial trivial trivial)
  | pointwise y _ hxy ihy =>
    intro m S hm
    have hsame := hxy m L m.config.maxDepth
    exact hsame ▸ ihy m m S hm
  | nested f span hx ihx =>
    intro m S hm
    dsimp only
    rw [Eval.bind_apply, Invocation.checkDepth_apply]
    by_cases hd : m.registers.depth < m.config.maxDepth
    · rw [if_pos hd]
      exact ihx.bracket (hx.restores hR) (leaveCall_enterCall m.registers) hm.linked
        (hm.withRegisters rfl)
    · rw [if_neg hd]
      exact .refl hm
  | loop hstep ihstep => exact .loop (hstep.restores hR) ihstep L.rounds
  | evaluate e _ => exact (hK.evaluate e).of_nil
  | execute stmt _ hh _ ihk =>
    exact .bind (hR.execute stmt) ((hK.execute stmt).mono hh) fun flow => ihk flow trivial
  | invoke f receiver arguments span => exact (hK.invoke f receiver arguments span).of_nil
  | body f receiver arguments hf _ => exact (hK.body f receiver arguments).mono hf
  | stringify v => exact (hK.stringify v).of_nil
  | operate op left rest span => exact (hK.operate op left rest span).of_nil
  | serialize outer v => exact (hK.serialize outer v).of_nil
  | deserialize j c => exact (hK.deserialize j c).of_nil

theorem watchedLevel_keeping (watch : Machine → Bool) (n : Nat) :
    (watchedLevel watch n).Keeping := by
  refine watchedLevel_entries (fun _ _ => .of_same fun _ => rfl) (fun hy hx m S hm => ?_)
    (fun n hK _ _ _ hbuilt => hbuilt.keeping (watchedLevel_restoring watch n) hK) n
  rcases hy m with hstop | hsame
  · rw [hstop]
    exact .refl hm
  · rw [hsame]
    exact hx m S hm

theorem Built.keeps (hx : Built False Γ x) (watch : Machine → Bool) (n : Nat) (hm : m.Fits S Γ) :
    m.Keeps S (x (watchedLevel watch n) m).machine :=
  hx.keeping (watchedLevel_restoring watch n) (watchedLevel_keeping watch n) m S hm

/-! ## Machines that occur -/

theorem Machine.Fits.here (hl : m.Linked) (ho : m.Owned) :
    m.Fits (fun _ => False) [.here, .inside] :=
  .cons (.cons ⟨hl, ho, forall_mem_nil _, forall_mem_nil _, fun _ => False.elim,
    forall_mem_nil _⟩ trivial trivial id) trivial trivial id

theorem Reachable.in_order (hm : Reachable m) : m.Linked ∧ m.Owned := by
  induction hm with
  | initial config disk hosts =>
    exact ⟨Machine.initial_linked config disk hosts, Machine.initial_owned config disk hosts⟩
  | @request m _ watch n r ih =>
    have hkeeps := (r.perform_built []).keeps watch n (.here ih.1 ih.2)
    exact ⟨hkeeps.leads.linked, hkeeps.upholds.owned ih.2⟩

theorem Reachable.linked (hm : Reachable m) : m.Linked := hm.in_order.1

theorem Reachable.owned (hm : Reachable m) : m.Owned := hm.in_order.2

/-! ## Scopes that were there -/

/-- A scope has the names it had, and its functions are what they were. -/
structure Heap.KeepsNames (h h' : Heap) (s : ScopeId) : Prop where
  names : h.SameNames h' s
  functions : ∀ e ∈ (h.scopeAt s).functions.entries, ∀ f ∈ e.2, h'.overloadAt f = h.overloadAt f

theorem Heap.SameNames.keeps {modules : List (String × ClassId)}
    (hs : h.SameNames h' s) (ho : h.Owned modules) (hg : h.Grows h') : h.KeepsNames h' s :=
  ⟨hs, fun e he f hf => hg.overload f (((ho.scopes s).families e he).lt f hf)⟩

/-- Every scope stands for the same names after an expression has been evaluated, and after a
    statement has been run unless it is a declaration in this very scope. It makes no difference how
    they end. -/
theorem Reachable.names_kept {m : Machine} (hm : Reachable m) (watch : Machine → Bool) (n : Nat)
    {s : ScopeId} (hs : s < m.heap.scopes.size) :
    (∀ e, m.heap.KeepsNames ((watchedLevel watch n).evaluate e m).machine.heap s) ∧
      ∀ stmt : Stmt, stmt.isDeclaration = false ∨ s ≠ m.registers.scope →
        m.heap.KeepsNames ((watchedLevel watch n).execute stmt m).machine.heap s := by
  have hK := watchedLevel_keeping watch n
  -- The one scope is a set of scopes.
  have hfits : m.Fits (· = s) [] :=
    ⟨hm.linked, hm.owned, forall_mem_nil _, forall_mem_nil _, fun t ht => ht ▸ hs,
      forall_mem_nil _⟩
  have hkept {m' : Machine} (hk : m.Keeps (· = s) m') : m.heap.KeepsNames m'.heap s :=
    (hk.names s rfl).keeps hm.owned.heap hk.leads.grows
  constructor
  · exact fun e => hkept (hK.evaluate e m _ hfits)
  · intro stmt hstmt
    have hrun := hK.execute stmt
    rcases hstmt with hplain | hne
    · rw [stmt.needs_of_not_declaration hplain] at hrun
      exact hkept (hrun m _ hfits)
    · have hhere : m.Fits (· = s) [.here, .inside] :=
        .cons (hfits.cons trivial trivial hne.symm) trivial trivial hne.symm
      exact hkept (hrun.mono (stmt.needs_subset (List.Subset.refl _)) m _ hhere)

def Declaration.counter : List Stmt :=
  [.variable default ⟨"x", false, none, some (.literal default (.int 1)), .none⟩,
   .function ⟨"f", [⟨"y", none, none, false, default⟩],
     [.class ⟨"C", [], [], .none, default⟩,
      .expr (.assign default (.name default "x") none (.name default "y"))], .none, default⟩]

def Stmt.recount : Stmt :=
  .block default [.variable default ⟨"y", false, none, some (.literal default (.int 2)), .none⟩,
    .expr (.call default (.name default "f") [⟨none, .name default "y"⟩])]

def Machine.counter : Machine :=
  ((Request.module Declaration.counter).perform (level 20)
    (Machine.initial Config.standard default [])).machine

def Heap.valueIn? (h : Heap) (s : ScopeId) (name : String) : Option Value :=
  ((h.scopeAt s).vars.find? name).bind (·.value?)

theorem Reachable.counter_kept :
    let m := Machine.counter
    let m' := ((level 20).execute .recount m).machine
    Reachable m ∧ m.heap.KeepsNames m'.heap m.registers.scope ∧
      m.heap.scopes.size < m'.heap.scopes.size ∧
      m.heap.valueIn? m.registers.scope "x" = some (.int 1) ∧
      m'.heap.valueIn? m.registers.scope "x" = some (.int 2) := by
  intro m m'
  have hm : Reachable m :=
    .request (.initial Config.standard default []) (fun _ => false) 20 (.module Declaration.counter)
  have hkept := (Reachable.names_kept hm (fun _ => false) 20 hm.linked.scope).2 .recount (.inl rfl)
  exact ⟨hm, hkept, by decide +kernel⟩

end ClassScript
