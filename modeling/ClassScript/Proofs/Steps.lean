import ClassScript.Proofs.Confinement
import ClassScript.Proofs.Loading
import Mathlib.Logic.Relation

/-!
# Runs as Sequences of Steps

A property of all machines that occur needs a proof for new machines and one for each kind of step.

A class that has taken over members is settled: no names are put there. This needs that a request is
made where names of all kinds may be put, which is so if the request before has ended.
-/

namespace ClassScript

variable {h : Heap} {s : ScopeId}

/-- The scope of a class that has taken over members, or of what it has from its
    ancestors. -/
def Heap.Settled (h : Heap) (s : ScopeId) : Prop :=
  ∃ c g, (h.classAt c).ancestors = some g ∧ (s = (h.classAt c).scope ∨ s = (h.classAt g).scope)

namespace Heap

variable {h h' : Heap} {modules modules' : List (String × ClassId)} {s : ScopeId}

theorem Settled.of_class (ho : h.Owned modules) (hs : h.Settled s) :
    ∃ c, c < h.classes.size ∧ s = (h.classAt c).scope := by
  obtain ⟨c, g, hg, hs | hs⟩ := hs
  · exact ⟨c, lt_of_ancestors hg, hs⟩
  · exact ⟨g, ho.shadows c g hg, hs⟩

theorem Settled.lt (hl : h.Linked) (ho : h.Owned modules) (hs : h.Settled s) :
    s < h.scopes.size := by
  obtain ⟨c, hc, rfl⟩ := hs.of_class ho
  exact (hl.classes c hc).scope

theorem Settled.before (ho : h.Owned modules) (hl' : h'.Linked)
    (hu : h.Upholds modules h' modules') (hs : s < h.scopes.size) (hset : h'.Settled s) :
    h.Settled s := by
  have hgrows := hu.extend.grows
  -- A class whose scope is old is old itself.
  have hold (d : ClassId) (hd : d < h'.classes.size) (hsd : s = (h'.classAt d).scope) :
      d < h.classes.size ∧ s = (h.classAt d).scope := by
    have hkind := (hl'.classes d hd).kind
    rw [← hsd, hgrows.kind s hs] at hkind
    have hlt := (ho.scopes s).body d hkind
    exact ⟨hlt, hsd.trans (hgrows.classScope d hlt)⟩
  obtain ⟨c, g, hg, hsd | hsd⟩ := hset
  · obtain ⟨hlt, hscope⟩ := hold c (lt_of_ancestors hg) hsd
    rw [hu.settled c hlt] at hg
    exact ⟨c, g, hg, .inl hscope⟩
  · obtain ⟨hlt, hscope⟩ := hold g (hu.owned.shadows c g hg) hsd
    rcases hu.extend.fresh c g hg with hg | hnew
    · exact ⟨c, g, hg, .inr hscope⟩
    · exact absurd hlt (Nat.not_lt.mpr hnew)

theorem Settled.of_same (ho : h.Owned modules) (hg : h.Grows h')
    (hsame : ∀ c g, (h'.classAt c).ancestors = some g → (h.classAt c).ancestors = some g)
    (hset : h'.Settled s) : h.Settled s := by
  obtain ⟨c, g, hancestors, hs | hs⟩ := hset
  · have hold := hsame c g hancestors
    exact ⟨c, g, hold, .inl (hs.trans (hg.classScope c (lt_of_ancestors hold)))⟩
  · have hold := hsame c g hancestors
    exact ⟨c, g, hold, .inr (hs.trans (hg.classScope g (ho.shadows c g hold)))⟩

theorem not_settled_of_named (hl : h.Linked) (ho : h.Owned modules) {c : ClassId} (hn : h.Named c)
    (hnone : (h.classAt c).ancestors = none) : ¬ h.Settled (h.classAt c).scope := by
  rintro ⟨d, g, hg, hs | hs⟩
  · rw [hl.class_eq hn.lt (lt_of_ancestors hg) hs, hg] at hnone
    cases hnone
  · rw [← hl.class_eq hn.lt (ho.shadows d g hg) hs] at hg
    exact hn.shadow d hg

end Heap

def Heap.IsOpen (h : Heap) (s : ScopeId) : Prop :=
  ∀ c, (h.scopeAt s).kind ≠ .classBody c

theorem Heap.isOpen_of_opened (hs : (h.scopeAt s).kind.IsOpened) : h.IsOpen s := by
  intro c hc
  rw [hc] at hs
  exact hs

def Fact.Allowed (m : Machine) : Fact → Prop
  | .own s => (m.heap.scopeAt s).kind.IsOpened
  | .here => (m.heap.scopeAt m.registers.scope).kind.IsOpened
  | .declared c => c ≠ ClassId.object
  | .importing => False
  | _ => True

structure Machine.Ready (m : Machine) (Γ : List Fact) : Prop where
  knows : m.Knows Γ
  spares : m.Spares m.heap.Settled Γ
  allowed : ∀ k ∈ Γ, k.Allowed m

/-- What a step can do to a machine. -/
inductive Machine.Step (m : Machine) : Machine → Prop
  | still {m' : Machine} (hheap : m'.heap = m.heap) (hmodules : m'.modules = m.modules)
      (hdisk : m'.disk = m.disk) : m.Step m'
  | write {Γ : List Fact} {f : Heap → Heap} (hf : Write False Γ f) (hΓ : m.Ready Γ) :
      m.Step { m with heap := f m.heap }
  | create {Γ : List Fact} {f : Heap → Nat × Heap} (hf : Creation Γ f) (hΓ : m.Ready Γ) :
      m.Step { m with heap := (f m.heap).2 }
  | newScope (kind : ScopeKind) (parent : Option ScopeId) (hkind : kind.IsOpened) :
      m.Step { m with heap := (m.heap.newScope kind parent).2 }
  | newInstance (type : ClassId) : m.Step { m with heap := (m.heap.newInstance type).2 }
  | newOverload (f : Overload) : m.Step { m with heap := (m.heap.newOverload f).2 }
  | newClass (name : String) (supers : List ClassId) (isStatic : Bool) (access : Access)
      (parent : Option ScopeId) (hroot : supers = [] → isStatic = true) :
      m.Step { m with heap := (m.heap.newClass (Class.fresh name supers isStatic access) parent).2 }
  | flatten (c : ClassId) (hn : m.heap.Named c) (hmodules : ∀ e ∈ m.modules, e.2 ≠ c)
      (hnone : (m.heap.classAt c).ancestors = none) : m.Step { m with heap := m.heap.flatten c }
  | export (path name : String) (source : ScopeId) (parent : Option ScopeId)
      (hkind : (m.heap.scopeAt source).kind.IsOpened) (hnew : m.modules.lookup path = none)
      (hout : path ∉ m.registers.loading) :
      m.Step
        { m with
          heap := (m.heap.exportClass name source parent).2
          modules := (path, (m.heap.exportClass name source parent).1) :: m.modules }

/-- The files on record are being run as modules: none is remembered, and each is on record once. -/
structure Machine.Recorded (m : Machine) : Prop where
  apart : ∀ path ∈ m.registers.loading, m.modules.lookup path = none
  once : m.registers.loading.Nodup
  files : ∀ path ∈ m.registers.loading,
    Path.IsCanonical path ∧ ∃ text, m.disk.readText path = .ok text

/-- A machine between two steps: it is in order, and the current scope is not settled. -/
structure Machine.Steady (m : Machine) : Prop where
  linked : m.Linked
  owned : m.Owned
  current : ¬ m.heap.Settled m.registers.scope
  recorded : m.Recorded

/-- A step that keeps the invariants. -/
structure Machine.Moves (m m' : Machine) : Prop where
  before : m.Steady
  after : m'.Steady
  step : m.Step m'
  extend : m.heap.Extends m.modules m'.heap m'.modules

def Machine.Runs : Machine → Machine → Prop :=
  Relation.ReflTransGen Machine.Moves

namespace Machine

variable {m m' : Machine} {r : Registers}

theorem Steady.lt_of_settled (hm : m.Steady) (hs : m.heap.Settled s) : s < m.heap.scopes.size :=
  hs.lt hm.linked.heap hm.owned.heap

theorem Steady.before (hm : m.Steady) (hl : m.Leads m') (hu : m.Upholds m')
    (hs : s < m.heap.scopes.size) (hset : m'.heap.Settled s) : m.heap.Settled s :=
  hset.before hm.owned.heap hl.linked.heap hu hs

theorem Steady.later (hm : m.Steady) (hl : m.Leads m') (hu : m.Upholds m')
    (hr : m'.registers.scope = m.registers.scope) (hrecorded : m'.Recorded) : m'.Steady where
  linked := hl.linked
  owned := hu.owned hm.owned
  current hset := by
    rw [hr] at hset
    exact hm.current (hm.before hl hu hm.linked.scope hset)
  recorded := hrecorded

theorem Steady.withRegisters (hm : m.Steady) (hr : r.scope < m.heap.scopes.size)
    (hset : ¬ m.heap.Settled r.scope) (hrecorded : Recorded { m with registers := r }) :
    Steady { m with registers := r } :=
  ⟨hm.linked.withRegisters hr, ⟨hm.owned.heap, hm.owned.object, hm.owned.null⟩, hset, hrecorded⟩

theorem Recorded.of_eq (hm : m.Recorded) (hloading : m'.registers.loading = m.registers.loading)
    (hmodules : m'.modules = m.modules) (hdisk : m'.disk = m.disk) : m'.Recorded := by
  constructor
  · rw [hloading, hmodules]
    exact hm.apart
  · rw [hloading]
    exact hm.once
  · rw [hloading, hdisk]
    exact hm.files

namespace Ready

variable {Γ Δ : List Fact}

theorem nil (hm : m.Steady) : m.Ready [] :=
  ⟨.nil, ⟨List.forall_mem_nil _, fun _ => hm.lt_of_settled, List.forall_mem_nil _⟩,
    List.forall_mem_nil _⟩

theorem mono (hΓ : m.Ready Γ) (hΔ : ∀ k ∈ Δ, k ∈ Γ) : m.Ready Δ :=
  ⟨hΓ.knows.mono hΔ, hΓ.spares.mono hΔ, fun k hk => hΓ.allowed k (hΔ k hk)⟩

theorem later (hΓ : m.Ready Γ) (hm : m.Steady) (hm' : m'.Steady) (hl : m.Leads m')
    (hu : m.Upholds m') (hr : m'.registers.scope = m.registers.scope) : m'.Ready Γ := by
  have hopen (s : ScopeId) (hs : s < m.heap.scopes.size) (h : (m.heap.scopeAt s).kind.IsOpened) :
      (m'.heap.scopeAt s).kind.IsOpened := by
    rw [hl.grows.kind s hs]
    exact h
  refine ⟨hΓ.knows.later hl hu, hΓ.spares.later hm.linked hl.grows hr (fun s => hm'.lt_of_settled)
    fun s hs => hm.before hl hu hs, ?_⟩
  intro k hk
  have hallowed := hΓ.allowed k hk
  cases k with
  | own s => exact hopen s (hΓ.spares.apart _ hk).1 hallowed
  | here =>
    unfold Fact.Allowed
    rw [hr]
    exact hopen _ hm.linked.scope hallowed
  | declared | importing => exact hallowed
  | _ => trivial

theorem withRegisters (hΓ : m.Ready Γ) (hset : ¬ m.heap.Settled r.scope)
    (hhere : .here ∈ Γ → (m.heap.scopeAt r.scope).kind.IsOpened) :
    Ready { m with registers := r } Γ := by
  refine ⟨⟨hΓ.knows.holds, hΓ.knows.stands⟩, hΓ.spares.withRegisters hset, fun k hk => ?_⟩
  cases k with
  | here => exact hhere hk
  | _ => exact hΓ.allowed _ hk

end Ready

theorem Runs.steady (hrun : m.Runs m') (hm : m.Steady) : m'.Steady := by
  cases hrun with
  | refl => exact hm
  | tail _ hmove => exact hmove.after

theorem Runs.single (hmove : m.Moves m') : m.Runs m' := Relation.ReflTransGen.single hmove

theorem Runs.trans {m'' : Machine} (hrun : m.Runs m') (hrest : m'.Runs m'') : m.Runs m'' :=
  Relation.ReflTransGen.trans hrun hrest

theorem Runs.keeps {I : Machine → Prop} (hmove : ∀ m m', m.Moves m' → I m → I m')
    (hrun : m.Runs m') (hm : I m) : I m' := by
  induction hrun with
  | refl => exact hm
  | tail _ hlast ih => exact hmove _ _ hlast ih

theorem Runs.grows (hrun : m.Runs m') : m.heap.Grows m'.heap :=
  hrun.keeps (I := fun m' => m.heap.Grows m'.heap)
    (fun _ _ hmove hg => hg.trans hmove.extend.grows) (.refl _)

theorem Moves.of_upholds (hm : m.Steady) (hstep : m.Step { m with heap := h })
    (hl : m.Leads { m with heap := h }) (hu : m.Upholds { m with heap := h }) :
    m.Moves { m with heap := h } :=
  ⟨hm, hm.later hl hu rfl (hm.recorded.of_eq rfl rfl rfl), hstep, Heap.Upholds.extend hu⟩

theorem Moves.withRegisters (hm : m.Steady) (hr : r.scope < m.heap.scopes.size)
    (hset : ¬ m.heap.Settled r.scope) (hrecorded : Recorded { m with registers := r }) :
    m.Moves { m with registers := r } :=
  ⟨hm, hm.withRegisters hr hset hrecorded, .still rfl rfl rfl, .refl _ _⟩

theorem Moves.leave (hm : m.Steady) (hm' : m'.Steady) (hg : m.heap.Grows m'.heap)
    (hu : m.Upholds m') (hl : m.registers.loading ⊆ m'.registers.loading) :
    m'.Moves { m' with registers := m.registers } := by
  refine .withRegisters hm' ?_ (fun hset => ?_) ⟨?_, hm.recorded.once, ?_⟩
  · exact Nat.lt_of_lt_of_le hm.linked.scope hg.scopes
  · exact hm.current (hset.before hm.owned.heap hm'.linked.heap hu hm.linked.scope)
  · exact fun path hp => hm'.recorded.apart path (hl hp)
  · exact fun path hp => hm'.recorded.files path (hl hp)

theorem Moves.export (hm : m.Steady) {path : String} (name : String) {source parent : ScopeId}
    (hsource : source < m.heap.scopes.size) (hkind : (m.heap.scopeAt source).kind.IsOpened)
    (hparent : parent < m.heap.scopes.size) (hnew : m.modules.lookup path = none)
    (hout : path ∉ m.registers.loading) :
    let m' :=
      { m with
        heap := (m.heap.exportClass name source (some parent)).2
        modules := (path, (m.heap.exportClass name source (some parent)).1) :: m.modules }
    m.Moves m' ∧ m.Upholds m' := by
  intro m'
  have hsome (p : ScopeId) (hp : some parent = some p) : p < m.heap.scopes.size := by
    cases hp
    exact hparent
  have hheap := Heap.exportClass_leads hm.linked.heap name source (some parent) hsome
  have hup : m.Upholds m' :=
    Heap.exportClass_upholds hm.owned.heap hm.linked.heap path name hsome hsource hkind
  refine ⟨⟨hm, hm.later ⟨{ (Leads.of_heap hm.linked hheap).linked with }, hheap.grows⟩ hup rfl
    ⟨fun p hp => ?_, hm.recorded.once, hm.recorded.files⟩,
    .export path name source (some parent) hkind hnew hout, Heap.Upholds.extend hup⟩, hup⟩
  have hne : (p == path) = false := beq_eq_false_iff_ne.mpr fun h => hout (h ▸ hp)
  rw [List.lookup_cons, hne]
  exact hm.recorded.apart p hp

end Machine

end ClassScript
