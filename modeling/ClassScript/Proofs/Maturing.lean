import ClassScript.Proofs.Inheritance.Overriding

/-!
# How Classes Mature

A class gets fields while it is being declared, and takes over fields and operators of its super
classes once. So what is true before a program runs, and is kept when classes mature, is true at any
time of a session.
-/

namespace ClassScript

open Heap

/-- What a step can make of a class. -/
inductive Heap.Becomes (h : Heap) (c : ClassId) : Class → Prop
  | same : h.Becomes c (h.classAt c)
  | new (k : Class) (hc : c = h.classes.size) (hnone : k.ancestors = none) (hfields : k.fields = [])
      (hoperators : k.operators = .empty) (hroot : k.supers = [] → k.isStatic = true) :
      h.Becomes c k
  | field (f : FieldInit) (howner : f.owner = c) (hlt : c < h.classes.size)
      (hobject : c ≠ ClassId.object) (hnone : (h.classAt c).ancestors = none) :
      h.Becomes c ((h.classAt c).addField f)
  | taken (hlt : c < h.classes.size) (hnone : (h.classAt c).ancestors = none) : h.Becomes c
      { h.classAt c with
        ancestors := some h.classes.size
        fields := h.inheritedFields (h.classAt c).supers ++ (h.classAt c).fields
        operators := h.inheritedOperators (h.classAt c) }

structure Heap.Matures (h : Heap) (modules : List (String × ClassId)) (h' : Heap)
    (modules' : List (String × ClassId)) : Prop where
  linked : h.Linked
  owned : h.Owned modules
  extend : h.Extends modules h' modules'
  classes : ∀ c, h.Becomes c (h'.classAt c)
  functions : ∀ s, h.Settled s → (h'.scopeAt s).functions = (h.scopeAt s).functions

namespace Heap

variable {h h' : Heap} {c d : ClassId}

theorem Becomes.of_classes (hclasses : h'.classes = h.classes) (c : ClassId) :
    h.Becomes c (h'.classAt c) := by
  unfold classAt
  rw [hclasses]
  exact .same

theorem Becomes.newClass {k : Class} (parent : Option ScopeId) (hnone : k.ancestors = none)
    (hfields : k.fields = []) (hoperators : k.operators = .empty)
    (hroot : k.supers = [] → k.isStatic = true) (d : ClassId) :
    h.Becomes d ((h.newClass k parent).2.classAt d) := by
  rw [classAt_newClass]
  split
  · next hd => exact .new _ hd hnone hfields hoperators hroot
  · exact .same

theorem Becomes.flatten (hc : c < h.classes.size) (hnone : (h.classAt c).ancestors = none)
    (d : ClassId) : h.Becomes d ((h.flatten c).classAt d) := by
  by_cases hs : (h.classAt c).supers = []
  · rw [flatten_of_supers_nil hs]
    exact .same
  · rw [flatten_classAt h c hc hs]
    split
    · next hd =>
      subst hd
      exact .taken hc hnone
    · exact .newClass _ rfl rfl rfl (fun _ => rfl) d

theorem Matures.flatten {modules : List (String × ClassId)} (hl : h.Linked) (ho : h.Owned modules)
    (hn : h.Named c) (hnone : (h.classAt c).ancestors = none)
    (hext : h.Extends modules (h.flatten c) modules) : h.Matures modules (h.flatten c) modules := by
  refine ⟨hl, ho, hext, .flatten hn.lt hnone, fun s hs => ?_⟩
  have hne : s ≠ (h.classAt c).scope := by
    rintro rfl
    exact not_settled_of_named hl ho hn hnone hs
  exact congrArg Scope.functions (flatten_scopeAt hl hn.lt (hs.lt hl ho) hne)

end Heap

namespace Machine.Moves

variable {m m' : Machine}

theorem becomes (hmove : m.Moves m') (c : ClassId) : m.heap.Becomes c (m'.heap.classAt c) := by
  cases hmove.step with
  | still hheap => exact .of_classes (congrArg _ hheap) c
  | write hf hΓ =>
    cases hf with
    | field f hd _ =>
      rw [classAt_updateClass]
      split
      · next hc =>
        rw [hc.1]
        exact .field f hc.1 (hc.1 ▸ hc.2) (hc.1 ▸ hΓ.allowed _ hd) (hc.1 ▸ hΓ.unsettled hd)
      · exact .same
    | _ => exact .of_classes rfl c
  | create hf _ => cases hf <;> exact .of_classes rfl c
  | newScope | newInstance | newOverload => exact .of_classes rfl c
  | newClass name supers isStatic access parent hroot => exact .newClass parent rfl rfl rfl hroot c
  | flatten d hn _ hnone => exact .flatten hn.lt hnone c
  | «export» path name source parent _ =>
    exact .newClass (k := Class.fresh name [] true .public) parent rfl rfl rfl (fun _ => rfl) c

theorem functions (hmove : m.Moves m') {s : ScopeId} (hs : m.heap.Settled s) :
    (m'.heap.scopeAt s).functions = (m.heap.scopeAt s).functions := by
  have hl := hmove.before.linked.heap
  have ho := hmove.before.owned.heap
  have hlt := hs.lt hl ho
  cases hmove.step with
  | still hheap => rw [hheap]
  | write hf hΓ => exact ((hf.continues hmove.before hΓ hmove.extend).frozen s hs).functions
  | create hf _ => cases hf <;> rfl
  | newOverload => rfl
  | newScope | newInstance | newClass =>
    exact congrArg Scope.functions (getD_push_of_lt hlt _ _)
  | flatten c hn _ hnone => exact (Heap.Matures.flatten hl ho hn hnone hmove.extend).functions s hs
  | «export» path name source parent _ =>
    exact congrArg Scope.functions (exportClass_scopeAt name source parent hlt)

theorem matures (hmove : m.Moves m') : m.heap.Matures m.modules m'.heap m'.modules :=
  ⟨hmove.before.linked.heap, hmove.before.owned.heap, hmove.extend, hmove.becomes,
    fun _ => hmove.functions⟩

end Machine.Moves

section Invariants

variable {I : Heap → Prop} (hworld : I World.heap.2)
  (hstep : ∀ h modules h' modules', h.Matures modules h' modules' → I h → I h')

include hstep

theorem World.registerHost_keeps {h : Heap} (hl : h.Linked) (ho : h.Owned [])
    (hobject : h.Named ClassId.object) {globals : ScopeId} (hg : globals < h.scopes.size)
    (kind : HostClass) (hh : I h) : I (registerHost globals h kind) := by
  let c : Class := { Class.fresh (hostName kind) [ClassId.object] false .public with
    host := some kind }
  let made := (h.newClass c (some globals)).2
  have hmade : h.Settles made := by
    refine (Heap.Prepares.newClass c (some globals) (fun p hp => Option.some.inj hp ▸ hg) ⟨rfl, rfl⟩
      fun p hp => ?_).settles hl ho
    rw [List.mem_singleton.mp hp]
    exact hobject
  have hnone := newClass_ancestors h (c := c) (some globals) rfl
  have hnamed := (newClass_named ho (c := c) (some globals) rfl).1
  obtain ⟨howned, hext, -⟩ :=
    flatten_owned hmade.upholds.owned hmade.leads.linked hnamed hnone nofun
  have hflat := flatten_leads hmade.leads.linked h.classes.size
  have hname := (Heap.Prepares.name globals (hnamed.extends hext)).settles hflat.linked howned
  refine hstep _ [] _ []
    ⟨hflat.linked, howned, hname.upholds.extend, .of_classes rfl, fun s _ => ?_⟩
    (hstep _ [] _ [] (.flatten hmade.leads.linked hmade.upholds.owned hnamed hnone hext)
      (hstep _ [] _ []
        ⟨hl, ho, hmade.upholds.extend, .newClass _ rfl rfl rfl nofun, fun s hs => ?_⟩ hh))
  · exact getD_modify Scope.functions (made.flatten h.classes.size).scopes
      (fun sc => { sc with classes := sc.classes.insert _ h.classes.size }) (fun _ => rfl) default
      globals s
  · exact congrArg Scope.functions (getD_push_of_lt (hs.lt hl ho) _ _)

include hworld

theorem Machine.initial_keeps (config : Config) (disk : Disk) (hosts : List HostClass) :
    I (initial config disk hosts).heap := by
  obtain ⟨hsettled, hglobals⟩ := World.heap_settled
  have hobject : World.heap.2.Named ClassId.object :=
    hsettled.named (World.classHeap_prepared.2.2.2.2 ClassId.object (by decide))
  unfold initial
  generalize World.heap = world at hworld hsettled hglobals hobject ⊢
  obtain ⟨hh, hs⟩ := List.foldlRecOn (motive := fun h : Heap => I h ∧ world.2.Settles h) hosts
    (World.registerHost world.1) ⟨hworld, .refl hsettled.leads.linked hsettled.upholds.owned⟩
    fun h ⟨hh, hs⟩ kind _ => by
      have hlt := Nat.lt_of_lt_of_le hglobals hs.leads.grows.scopes
      exact ⟨World.registerHost_keeps hstep hs.leads.linked hs.upholds.owned (hs.named hobject) hlt
        kind hh, hs.trans
        (World.registerHost_settles hs.leads.linked hs.upholds.owned (hs.named hobject) hlt kind)⟩
  have hlt := Nat.lt_of_lt_of_le hglobals hs.leads.grows.scopes
  have hscope := (Heap.Prepares.newScope (some world.1) fun p hp =>
    Option.some.inj hp ▸ hlt).settles hs.leads.linked hs.upholds.owned
  refine hstep _ [] _ [] ⟨hs.leads.linked, hs.upholds.owned, hscope.upholds.extend, .of_classes rfl,
    fun s hset => ?_⟩ hh
  exact congrArg Scope.functions (getD_push_of_lt (hset.lt hs.leads.linked hs.upholds.owned) _ _)

theorem InSession.keeps {m₀ m : Machine} (hm : InSession m₀) (hrun : m₀.Runs m) : I m.heap :=
  have hmove (m m' : Machine) (hmove : m.Moves m') : I m.heap → I m'.heap :=
    hstep _ _ _ _ hmove.matures
  hrun.keeps (I := fun m => I m.heap) hmove
    (hm.invariant (Machine.initial_keeps hworld hstep) hmove)

end Invariants

end ClassScript
