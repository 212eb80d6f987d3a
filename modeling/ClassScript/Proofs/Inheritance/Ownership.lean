import ClassScript.Proofs.Inheritance.Merging
import ClassScript.Proofs.Links

/-!
# Who Declared What

Among the members of a class is only what that class or one of its ancestors declared. Those that
it has from its ancestors are in a class of their own, for which no name stands and from which
nothing inherits; `Heap.Named` says of a class that it is not of this kind.
-/

namespace ClassScript

open List Array Heap OrderedMap

variable {kind : ScopeKind} {f : Overload}

/-- A class has another one above it, or is the same. -/
inductive Heap.Descends (h : Heap) : ClassId → ClassId → Prop
  | self (c : ClassId) : h.Descends c c
  | super {c p a : ClassId} (hp : p ∈ (h.classAt c).supers) (ha : h.Descends p a) : h.Descends c a

/-- A class that a name can stand for: it exists, and does not hold what another class
    has from its ancestors. -/
structure Heap.Named (h : Heap) (c : ClassId) : Prop where
  lt : c < h.classes.size
  shadow : ∀ d, (h.classAt d).ancestors ≠ some c

/-- What one class declared may be among the members of another, given the classes that
    stand for modules. -/
structure Heap.Fits (h : Heap) (modules : List (String × ClassId)) (c o : ClassId) : Prop where
  member : h.Named c → h.Descends c o
  shadow : ∀ d, (h.classAt d).ancestors = some c → h.Descends d o ∧ o ≠ d
  module : ∀ e ∈ modules, e.2 ≠ c

def Heap.MayOwn (h : Heap) (modules : List (String × ClassId)) : ScopeKind → ClassId → Prop
  | .classBody c, o => h.Fits modules c o
  | .fields _, _ => True
  | .module, _ | .block, _ | .frame _ _, _ => False

/-- A function may be in a scope of a kind. Among the members of a class there are no
    constructors of others. -/
structure Heap.MayHold (h : Heap) (modules : List (String × ClassId)) (kind : ScopeKind)
    (f : Overload) : Prop where
  owner : ∀ o, f.owner = some o → h.MayOwn modules kind o
  constructor : ∀ c, kind = .classBody c → h.Named c → ∀ o, f.owner = some o → o ≠ c →
    h.isConstructor f = false

structure Heap.Family (h : Heap) (name : String) (family : List OverloadId) : Prop where
  lt : ∀ f ∈ family, f < h.overloads.size
  name : ∀ f ∈ family, (h.overloadAt f).name = name
  apart : h.Apart family

structure Scope.Owned (h : Heap) (modules : List (String × ClassId)) (sc : Scope) : Prop where
  body : ∀ c, sc.kind = .classBody c → c < h.classes.size
  classes : ∀ e ∈ sc.classes.entries, h.Named e.2
  families : ∀ e ∈ sc.functions.entries, h.Family e.1 e.2
  functions : ∀ e ∈ sc.functions.entries, ∀ f ∈ e.2, h.MayHold modules sc.kind (h.overloadAt f)
  vars : ∀ e ∈ sc.vars.entries, ∀ o, e.2.owner = some o → h.MayOwn modules sc.kind o

/-- Members have owners that are there, and super classes are older. -/
structure Heap.Owned (h : Heap) (modules : List (String × ClassId)) : Prop where
  scopes : ∀ s, (h.scopeAt s).Owned h modules
  supers : ∀ c, ∀ p ∈ (h.classAt c).supers, p < c ∧ h.Named p
  shadows : ∀ c g, (h.classAt c).ancestors = some g → g < h.classes.size
  modules : ∀ e ∈ modules, h.Named e.2

structure Heap.Extends (h : Heap) (modules : List (String × ClassId)) (h' : Heap)
    (modules' : List (String × ClassId)) : Prop where
  grows : h.Grows h'
  supers : ∀ c, c < h.classes.size → (h'.classAt c).supers = (h.classAt c).supers
  name : ∀ c, c < h.classes.size → (h'.classAt c).name = (h.classAt c).name
  kept : ∀ c g, (h.classAt c).ancestors = some g → (h'.classAt c).ancestors = some g
  fresh : ∀ c g, (h'.classAt c).ancestors = some g →
    (h.classAt c).ancestors = some g ∨ h.classes.size ≤ g
  oldModules : ∀ e ∈ modules, e ∈ modules'
  newModules : ∀ e ∈ modules', e ∈ modules ∨ h.classes.size ≤ e.2

structure Heap.Upholds (h : Heap) (modules : List (String × ClassId)) (h' : Heap)
    (modules' : List (String × ClassId)) : Prop where
  owned : h'.Owned modules'
  extend : h.Extends modules h' modules'
  settled : ∀ c, c < h.classes.size → (h'.classAt c).ancestors = (h.classAt c).ancestors

/-! ## Growing -/

section Growing

variable {h h' : Heap} {modules modules' : List (String × ClassId)}

namespace Heap

variable {c a : ClassId} {h'' : Heap} {modules'' : List (String × ClassId)} {o : ClassId}

theorem Extends.refl (h : Heap) (modules : List (String × ClassId)) : h.Extends modules h modules :=
  ⟨Grows.refl h, fun _ _ => rfl, fun _ _ => rfl, fun _ _ hg => hg, fun _ _ hg => .inl hg,
    fun _ he => he, fun _ he => .inl he⟩

theorem Extends.trans
    (hab : h.Extends modules h' modules') (hbc : h'.Extends modules' h'' modules'') :
    h.Extends modules h'' modules'' where
  grows := hab.grows.trans hbc.grows
  supers c hc := (hbc.supers c (Nat.lt_of_lt_of_le hc hab.grows.classes)).trans (hab.supers c hc)
  name c hc := (hbc.name c (Nat.lt_of_lt_of_le hc hab.grows.classes)).trans (hab.name c hc)
  kept c g hg := hbc.kept c g (hab.kept c g hg)
  fresh c g hg := by
    rcases hbc.fresh c g hg with hold | hnew
    · exact hab.fresh c g hold
    · exact .inr (Nat.le_trans hab.grows.classes hnew)
  oldModules e he := hbc.oldModules e (hab.oldModules e he)
  newModules e he := by
    rcases hbc.newModules e he with hold | hnew
    · exact hab.newModules e hold
    · exact .inr (Nat.le_trans hab.grows.classes hnew)

theorem Upholds.refl (ho : h.Owned modules) : h.Upholds modules h modules :=
  ⟨ho, .refl h modules, fun _ _ => rfl⟩

theorem Upholds.trans
    (hab : h.Upholds modules h' modules') (hbc : h'.Upholds modules' h'' modules'') :
    h.Upholds modules h'' modules'' :=
  ⟨hbc.owned, hab.extend.trans hbc.extend, fun c hc =>
    (hbc.settled c (Nat.lt_of_lt_of_le hc hab.extend.grows.classes)).trans (hab.settled c hc)⟩

theorem Named.extends (he : h.Extends modules h' modules') (hc : h.Named c) : h'.Named c := by
  refine ⟨Nat.lt_of_lt_of_le hc.lt he.grows.classes, fun d hd => ?_⟩
  rcases he.fresh d c hd with hold | hnew
  · exact hc.shadow d hold
  · exact absurd hc.lt (Nat.not_lt.mpr hnew)

theorem Named.of_extends (he : h.Extends modules h' modules')
    (hlt : c < h.classes.size) (hc : h'.Named c) : h.Named c :=
  ⟨hlt, fun d hd => hc.shadow d (he.kept d c hd)⟩

theorem Descends.le (ho : h.Owned modules) (hd : h.Descends c a) : a ≤ c := by
  induction hd with
  | self c => exact Nat.le_refl c
  | super hp _ ih => exact Nat.le_of_lt (Nat.lt_of_le_of_lt ih (ho.supers _ _ hp).1)

theorem Descends.extends (ho : h.Owned modules) (he : h.Extends modules h' modules')
    (hd : h.Descends c a) (hc : c < h.classes.size) : h'.Descends c a := by
  induction hd with
  | self c => exact .self c
  | super hp _ ih =>
    have hlt := (ho.supers _ _ hp).2.lt
    refine .super ?_ (ih hlt)
    rw [he.supers _ hc]
    exact hp

theorem Descends.trans {b : ClassId} (hab : h.Descends a b) (hbc : h.Descends b c) :
    h.Descends a c := by
  induction hab with
  | self _ => exact hbc
  | super hp _ ih => exact .super hp (ih hbc)

theorem lt_of_ancestors {g : ClassId} (hg : (h.classAt c).ancestors = some g) :
    c < h.classes.size :=
  lt_size_of_getD (P := fun k : Class => k.ancestors = some g) hg nofun

theorem Fits.extends (ho : h.Owned modules) (he : h.Extends modules h' modules')
    (hc : c < h.classes.size) (hf : h.Fits modules c o) : h'.Fits modules' c o := by
  refine ⟨fun hn => ?_, fun d hd => ?_, fun e hm hec => ?_⟩
  · exact (hf.member (hn.of_extends he hc)).extends ho he hc
  · rcases he.fresh d c hd with hold | hnew
    · obtain ⟨hdo, hne⟩ := hf.shadow d hold
      exact ⟨hdo.extends ho he (lt_of_ancestors hold), hne⟩
    · exact absurd hc (Nat.not_lt.mpr hnew)
  · rcases he.newModules e hm with hold | hnew
    · exact hf.module e hold hec
    · grind

theorem MayOwn.extends (ho : h.Owned modules) (he : h.Extends modules h' modules')
    (hkind : ∀ c, kind = .classBody c → c < h.classes.size)
    (hown : h.MayOwn modules kind o) : h'.MayOwn modules' kind o := by
  cases kind with
  | classBody c => exact Fits.extends ho he (hkind c rfl) hown
  | fields => trivial
  | module | block | frame => exact hown

theorem isConstructor_extends (he : h.Extends modules h' modules')
    (hf : ∀ o, f.owner = some o → o < h.classes.size) : h'.isConstructor f = h.isConstructor f := by
  unfold isConstructor className
  cases ho : f.owner with
  | none => rfl
  | some o => rw [Option.any_some, Option.any_some, he.name o (hf o ho)]

theorem MayHold.extends (ho : h.Owned modules) (he : h.Extends modules h' modules')
    (hkind : ∀ c, kind = .classBody c → c < h.classes.size)
    (hf : h.MayHold modules kind f) : h'.MayHold modules' kind f := by
  refine ⟨fun o howner => (hf.owner o howner).extends ho he hkind, fun c hc hn o howner hne => ?_⟩
  have hlt := hkind c hc
  have hnamed := hn.of_extends he hlt
  rw [isConstructor_extends he]
  · exact hf.constructor c hc hnamed o howner hne
  · intro o' ho'
    have hfits := hf.owner o' ho'
    rw [hc] at hfits
    exact Nat.lt_of_le_of_lt ((Fits.member hfits hnamed).le ho) hlt

theorem sameShape_extends (hg : h.Grows h') {f g : OverloadId} (hf : f < h.overloads.size)
    (hgl : g < h.overloads.size) : h'.sameShape f g = h.sameShape f g := by
  unfold sameShape
  rw [hg.overload f hf, hg.overload g hgl]

theorem Family.extends (hg : h.Grows h') {name : String} {family : List OverloadId}
    (hf : h.Family name family) : h'.Family name family where
  lt f hfm := Nat.lt_of_lt_of_le (hf.lt f hfm) hg.overloads
  name f hfm := by
    rw [hg.overload f (hf.lt f hfm)]
    exact hf.name f hfm
  apart := by
    refine List.Pairwise.imp_of_mem (fun {a b} ha hb hab => ?_) hf.apart
    rw [sameShape_extends hg (hf.lt a ha) (hf.lt b hb)]
    exact hab

end Heap

theorem Scope.Owned.extends (ho : h.Owned modules) (he : h.Extends modules h' modules')
    {sc : Scope} (hs : sc.Owned h modules) : sc.Owned h' modules' where
  body c hc := Nat.lt_of_lt_of_le (hs.body c hc) he.grows.classes
  classes e hm := (hs.classes e hm).extends he
  families e hm := (hs.families e hm).extends he.grows
  functions e hm f hf := by
    rw [he.grows.overload f ((hs.families e hm).lt f hf)]
    exact (hs.functions e hm f hf).extends ho he hs.body
  vars e hm o howner := (hs.vars e hm o howner).extends ho he hs.body

theorem Heap.Owned.of_extends (ho : h.Owned modules) (he : h.Extends modules h' modules')
    (hscopes : ∀ s, h'.scopeAt s = h.scopeAt s ∨ (h'.scopeAt s).Owned h' modules')
    (hsupers : ∀ c, h.classes.size ≤ c → ∀ p ∈ (h'.classAt c).supers, p < c ∧ h'.Named p)
    (hshadows : ∀ c g, (h'.classAt c).ancestors = some g → h.classes.size ≤ g →
      g < h'.classes.size)
    (hmodules : ∀ e ∈ modules', e ∈ modules ∨ h'.Named e.2) : h'.Owned modules' := by
  refine ⟨fun s => ?_, fun c p hp => ?_, fun c g hg => ?_, fun e hm => ?_⟩
  · rcases hscopes s with hsame | hnew
    · rw [hsame]
      exact (ho.scopes s).extends ho he
    · exact hnew
  · rcases Nat.lt_or_ge c h.classes.size with hlt | hge
    · rw [he.supers c hlt] at hp
      exact ⟨(ho.supers c p hp).1, (ho.supers c p hp).2.extends he⟩
    · exact hsupers c hge p hp
  · rcases he.fresh c g hg with hold | hnew
    · exact Nat.lt_of_lt_of_le (ho.shadows c g hold) he.grows.classes
    · exact hshadows c g hg hnew
  · rcases hmodules e hm with hold | hnew
    · exact (ho.modules e hold).extends he
    · exact hnew

end Growing

/-! ## Changing a heap -/

namespace Heap

variable {h : Heap} {modules : List (String × ClassId)} {h' : Heap}

theorem Extends.of_classes (modules : List (String × ClassId)) (hg : h.Grows h')
    (hclass : ∀ c, h'.classAt c = h.classAt c) : h.Extends modules h' modules :=
  { Extends.refl h modules with
    grows := hg
    supers := fun c _ => by rw [hclass]
    name := fun c _ => by rw [hclass]
    kept := fun c g hc => by rw [hclass]; exact hc
    fresh := fun c g hc => by rw [hclass] at hc; exact .inl hc }

theorem Upholds.of_classes (ho : h.Owned modules) (hg : h.Grows h')
    (hclass : ∀ c, h'.classAt c = h.classAt c)
    (hscopes : h.Extends modules h' modules → ∀ s,
      h'.scopeAt s = h.scopeAt s ∨ (h'.scopeAt s).Owned h' modules) :
    h.Upholds modules h' modules := by
  have he := Extends.of_classes modules hg hclass
  refine ⟨ho.of_extends he (hscopes he) (fun c _ p hp => ?_) (fun c g hc hnew => ?_)
    fun e hm => .inl hm, he, fun c _ => by rw [hclass]⟩
  · rw [hclass] at hp
    exact ⟨(ho.supers c p hp).1, (ho.supers c p hp).2.extends he⟩
  · rw [hclass] at hc
    exact absurd (ho.shadows c g hc) (Nat.not_lt.mpr hnew)

theorem upholds_of_same (ho : h.Owned modules) (hg : h.Grows h')
    (hscopes : h'.scopes = h.scopes) (hclasses : h'.classes = h.classes) :
    h.Upholds modules h' modules := by
  refine .of_classes ho hg (fun c => ?_) fun _ s => .inl ?_
  · unfold classAt
    rw [hclasses]
  · unfold scopeAt
    rw [hscopes]

theorem getD_modify_eq {α : Type} (xs : Array α) (f : α → α) (d : α) (i j : Nat) :
    (xs.modify i f).getD j d = if i = j ∧ i < xs.size then f (xs.getD i d) else xs.getD j d := by
  simp only [getD_eq_getD_getElem?, Array.getElem?_modify]
  split
  · next hij =>
    by_cases hlt : i < xs.size
    · simp_all
    · simp_all
  · next hij => rw [if_neg (fun h => hij h.1)]

theorem scopeAt_updateScope (h : Heap) (s : ScopeId) (f : Scope → Scope) (s' : ScopeId) :
    (h.updateScope s f).scopeAt s' = if s = s' ∧ s < h.scopes.size then f (h.scopeAt s)
      else h.scopeAt s' :=
  getD_modify_eq h.scopes f default s s'

theorem classAt_updateClass (h : Heap) (c : ClassId) (f : Class → Class) (d : ClassId) :
    (h.updateClass c f).classAt d = if c = d ∧ c < h.classes.size then f (h.classAt c)
      else h.classAt d :=
  getD_modify_eq h.classes f default c d

theorem updateScope_upholds (ho : h.Owned modules) {s : ScopeId} {f : Scope → Scope}
    (hlead : h.Leads (h.updateScope s f)) (hf : (f (h.scopeAt s)).Owned h modules) :
    h.Upholds modules (h.updateScope s f) modules := by
  refine .of_classes ho hlead.grows (fun _ => rfl) fun he s' => ?_
  rw [scopeAt_updateScope]
  split
  · exact .inr (hf.extends ho he)
  · exact .inl rfl

theorem updateClass_upholds (ho : h.Owned modules) {c : ClassId} {f : Class → Class}
    (hlead : h.Leads (h.updateClass c f))
    (hf : ∀ k, (f k).supers = k.supers ∧ (f k).name = k.name ∧ (f k).ancestors = k.ancestors) :
    h.Upholds modules (h.updateClass c f) modules := by
  have hsupers (d : ClassId) : ((h.updateClass c f).classAt d).supers = (h.classAt d).supers :=
    getD_modify Class.supers h.classes f (fun k => (hf k).1) _ c d
  have hname (d : ClassId) : ((h.updateClass c f).classAt d).name = (h.classAt d).name :=
    getD_modify Class.name h.classes f (fun k => (hf k).2.1) _ c d
  have hancestors (d : ClassId) :
      ((h.updateClass c f).classAt d).ancestors = (h.classAt d).ancestors :=
    getD_modify Class.ancestors h.classes f (fun k => (hf k).2.2) _ c d
  have he : h.Extends modules (h.updateClass c f) modules :=
    { Extends.refl h modules with
      grows := hlead.grows
      supers := fun d _ => hsupers d
      name := fun d _ => hname d
      kept := fun d g hd => (hancestors d).trans hd
      fresh := fun d g hd => .inl ((hancestors d).symm.trans hd) }
  refine ⟨ho.of_extends he (fun s => .inl rfl) (fun d _ p hp => ?_) (fun d g hd hnew => ?_)
    fun e hm => .inl hm, he, fun d _ => hancestors d⟩
  · rw [hsupers] at hp
    exact ⟨(ho.supers d p hp).1, (ho.supers d p hp).2.extends he⟩
  · rw [hancestors] at hd
    exact absurd (ho.shadows d g hd) (Nat.not_lt.mpr hnew)

end Heap

theorem Scope.Owned.fresh {h : Heap} {modules : List (String × ClassId)}
    (hkind : ∀ c, kind = .classBody c → c < h.classes.size) (parent : Option ScopeId) :
    (Scope.fresh kind parent).Owned h modules :=
  ⟨hkind, fun _ => nofun, fun _ => nofun, fun _ => nofun, fun _ => nofun⟩

namespace Heap

variable {h : Heap} {modules : List (String × ClassId)}
variable {parent : Option ScopeId} {c : Class}

theorem scopeAt_newScope (h : Heap) (kind : ScopeKind) (parent : Option ScopeId) (s : ScopeId) :
    (h.newScope kind parent).2.scopeAt s =
      if s = h.scopes.size then .fresh kind parent else h.scopeAt s :=
  getD_push h.scopes _ _ s

theorem newScope_upholds {h' : Heap} (ho : h.Owned modules) (hg : h.Grows h')
    (hscopes : h'.scopes = h.scopes.push (.fresh kind parent)) (hclasses : h'.classes = h.classes)
    (hkind : ∀ c, kind ≠ .classBody c) : h.Upholds modules h' modules := by
  refine .of_classes ho hg (fun c => ?_) fun _ s => ?_
  · unfold classAt
    rw [hclasses]
  · have hscope : h'.scopeAt s = if s = h.scopes.size then .fresh kind parent else h.scopeAt s := by
      unfold scopeAt
      rw [hscopes, getD_push]
    rw [hscope]
    split
    · exact .inr (.fresh (fun c hc => absurd hc (hkind c)) parent)
    · exact .inl rfl

theorem classAt_newClass (h : Heap) (c : Class) (parent : Option ScopeId) (d : ClassId) :
    (h.newClass c parent).2.classAt d =
      if d = h.classes.size then { c with id := h.classes.size, scope := h.scopes.size }
      else h.classAt d :=
  getD_push h.classes _ _ d

theorem newClass_field {β : Type} (g : Class → β) (h : Heap) (c : Class) (parent : Option ScopeId)
    (hg : g { c with id := h.classes.size, scope := h.scopes.size } = g default) (d : ClassId) :
    g ((h.newClass c parent).2.classAt d) = g (h.classAt d) := by
  rw [classAt_newClass]
  split
  · next hd =>
    have hdefault : h.classAt d = default := getD_of_size_le (Nat.le_of_eq hd.symm) _
    rw [hdefault, hg]
  · rfl

theorem newClass_extends (modules : List (String × ClassId))
    (hlead : h.Leads (h.newClass c parent).2) (hancestors : c.ancestors = none) :
    h.Extends modules (h.newClass c parent).2 modules := by
  have hold (d : ClassId) (hd : d < h.classes.size) :
      (h.newClass c parent).2.classAt d = h.classAt d := by
    rw [classAt_newClass, if_neg (Nat.ne_of_lt hd)]
  exact
    { Extends.refl h modules with
      grows := hlead.grows
      supers := fun d hd => by rw [hold d hd]
      name := fun d hd => by rw [hold d hd]
      kept := fun d g hg => by
        rw [hold d (lt_of_ancestors hg)]
        exact hg
      fresh := fun d g hg => by
        rw [classAt_newClass] at hg
        split at hg
        · rw [hancestors] at hg
          cases hg
        · exact .inl hg }

theorem newClass_upholds (ho : h.Owned modules)
    (hlead : h.Leads (h.newClass c parent).2) (hancestors : c.ancestors = none)
    (hsupers : ∀ p ∈ c.supers, h.Named p) :
    h.Upholds modules (h.newClass c parent).2 modules := by
  have he := newClass_extends modules hlead hancestors
  refine ⟨ho.of_extends he (fun s => ?_) (fun d hd p hp => ?_) (fun d g hg hnew => ?_)
    fun e hm => .inl hm, he, fun d hd => ?_⟩
  · change (h.newScope (.classBody h.classes.size) parent).2.scopeAt s = h.scopeAt s ∨
      ((h.newScope (.classBody h.classes.size) parent).2.scopeAt s).Owned _ modules
    rw [scopeAt_newScope]
    split
    · refine .inr (.fresh (fun d hd => ?_) parent)
      cases hd
      exact Nat.lt_of_lt_of_eq (Nat.lt_succ_self _) (size_push _).symm
    · exact .inl rfl
  · rw [classAt_newClass] at hp
    split at hp
    · next hnew =>
      rw [hnew]
      exact ⟨(hsupers p hp).lt, (hsupers p hp).extends he⟩
    · exact ⟨(ho.supers d p hp).1, (ho.supers d p hp).2.extends he⟩
  · rcases he.fresh d g hg with hold | _
    · exact Nat.lt_of_lt_of_le (ho.shadows d g hold) he.grows.classes
    · rw [classAt_newClass] at hg
      split at hg
      · rw [hancestors] at hg
        cases hg
      · exact absurd (ho.shadows d g hg) (Nat.not_lt.mpr hnew)
  · rw [classAt_newClass, if_neg (Nat.ne_of_lt hd)]

theorem newClass_named (ho : h.Owned modules) (parent : Option ScopeId)
    (hancestors : c.ancestors = none) :
    (h.newClass c parent).2.Named h.classes.size ∧ ∀ e ∈ modules, e.2 ≠ h.classes.size := by
  refine ⟨⟨Nat.lt_of_lt_of_eq (Nat.lt_succ_self _) (size_push _).symm, fun d hd => ?_⟩,
    fun e hm => Nat.ne_of_lt (ho.modules e hm).lt⟩
  rw [classAt_newClass] at hd
  split at hd
  · rw [hancestors] at hd
    cases hd
  · exact absurd (ho.shadows d _ hd) (Nat.lt_irrefl _)

end Heap

/-! ## Members of a scope -/

def ScopeKind.IsOpened : ScopeKind → Prop
  | .module | .block | .frame _ _ => True
  | .classBody _ | .fields _ => False

namespace Scope.Owned

variable {h : Heap} {modules : List (String × ClassId)} {sc : Scope}

theorem not_mayOwn (hk : kind.IsOpened) (o : ClassId) : ¬ h.MayOwn modules kind o := by
  cases kind with
  | module | block | frame _ _ => exact id
  | classBody _ | fields _ => exact absurd hk id

section

variable (hs : sc.Owned h modules)
include hs

theorem unowned_function (hk : sc.kind.IsOpened) {e : String × List OverloadId}
    (he : e ∈ sc.functions.entries) {f : OverloadId} (hf : f ∈ e.2) :
    (h.overloadAt f).owner = none := by
  cases howner : (h.overloadAt f).owner with
  | none => rfl
  | some o => exact absurd ((hs.functions e he f hf).owner o howner) (not_mayOwn hk o)

theorem unowned_variable (hk : sc.kind.IsOpened) {e : String × Variable} (he : e ∈ sc.vars.entries)
    : e.2.owner = none := by
  cases howner : e.2.owner with
  | none => rfl
  | some o => exact absurd (hs.vars e he o howner) (not_mayOwn hk o)

theorem insertVariable (name : String) {v : Variable}
    (hv : ∀ o, v.owner = some o → h.MayOwn modules sc.kind o) :
    Scope.Owned h modules { sc with vars := sc.vars.insert name v } := by
  refine { hs with vars := fun e he => ?_ }
  rcases mem_insertIn he with rfl | he
  · exact hv
  · exact hs.vars e he

theorem insertClass (name : String) {c : ClassId} (hc : h.Named c) :
    Scope.Owned h modules { sc with classes := sc.classes.insert name c } := by
  refine { hs with classes := fun e he => ?_ }
  rcases mem_insertIn he with rfl | he
  · exact hc
  · exact hs.classes e he

theorem insertFamily {name : String} {family : List OverloadId} (hfamily : h.Family name family)
    (hf : ∀ f ∈ family, h.MayHold modules sc.kind (h.overloadAt f)) :
    Scope.Owned h modules { sc with functions := sc.functions.insert name family } := by
  refine { hs with families := fun e he => ?_, functions := fun e he => ?_ }
  · rcases mem_insertIn he with rfl | he
    · exact hfamily
    · exact hs.families e he
  · rcases mem_insertIn he with rfl | he
    · exact hf
    · exact hs.functions e he

theorem family (name : String) : h.Family name ((sc.functions.find? name).getD []) := by
  cases hfamily : sc.functions.find? name with
  | none => exact ⟨fun _ => nofun, fun _ => nofun, List.Pairwise.nil⟩
  | some family => exact hs.families _ (mem_of_find? hfamily)

theorem addOverload {id : OverloadId} (hid : id < h.overloads.size)
    (hf : h.MayHold modules sc.kind (h.overloadAt id)) :
    (Scope.addOverload h id sc).Owned h modules := by
  have hthere := hs.family (h.overloadAt id).name
  refine hs.insertFamily ⟨fun f hfm => ?_, fun f hfm => ?_, hthere.apart.insertOverload id⟩
    fun f hfm => ?_
  · rcases mem_insertOverload hfm with rfl | hold
    · exact hid
    · exact hthere.lt f hold
  · rcases mem_insertOverload hfm with rfl | hold
    · rfl
    · exact hthere.name f hold
  · rcases mem_insertOverload hfm with rfl | hold
    · exact hf
    · obtain ⟨e, he, _, hfe⟩ := Scope.mem_family hold
      exact hs.functions e he f hfe

theorem assign (name : String) (value : Value) : Scope.Owned h modules (sc.assign name value) := by
  unfold Scope.assign
  cases hv : sc.vars.find? name with
  | none => exact hs
  | some v =>
    have howner : (v.withValue value).owner = v.owner := by
      unfold Variable.withValue
      cases v.storage <;> rfl
    refine hs.insertVariable name fun o ho => ?_
    rw [howner] at ho
    exact hs.vars _ (mem_of_find? hv) o ho

end

end Scope.Owned

variable {h : Heap} {modules : List (String × ClassId)}

/-! ## Modules -/

theorem Heap.MayHold.of_unowned (hf : f.owner = none) : h.MayHold modules kind f := by
  constructor
  · intro o ho
    rw [hf] at ho
    cases ho
  · simp_all

theorem Scope.Owned.exportedScope
    {source target : Scope} (hs : source.Owned h modules) (hk : source.kind.IsOpened)
    (ht : target.Owned h modules) (h₁ : Heap) :
    (h₁.exportedScope source target).Owned h modules := by
  have hfunctions (e : String × List OverloadId)
      (he : e ∈ (h₁.exportedScope source target).functions.entries) :
      ∃ family, (e.1, family) ∈ source.functions.entries ∧ e.2.Sublist family := by
    obtain ⟨⟨name, family⟩, hx, hsome⟩ := mem_filterMap.mp he
    dsimp only at hsome
    split at hsome <;> cases hsome
    exact ⟨family, hx, filter_sublist⟩
  refine ⟨ht.body, fun e he => ?_, fun e he => ?_, fun e he f hf => ?_, fun e he => ?_⟩
  · obtain ⟨⟨name, c⟩, hx, hsome⟩ := mem_filterMap.mp he
    dsimp only at hsome
    split at hsome <;> cases hsome
    exact hs.classes _ hx
  · obtain ⟨family, hx, hsub⟩ := hfunctions e he
    have hfamily := hs.families _ hx
    exact ⟨fun f hf => hfamily.lt f (hsub.subset hf), fun f hf => hfamily.name f (hsub.subset hf),
      hfamily.apart.sublist hsub⟩
  · obtain ⟨family, hx, hsub⟩ := hfunctions e he
    exact .of_unowned (hs.unowned_function hk hx (hsub.subset hf))
  · obtain ⟨⟨name, v⟩, hx, hsome⟩ := mem_filterMap.mp he
    dsimp only at hsome
    split at hsome <;> cases hsome
    intro o ho
    have hnone := hs.unowned_variable hk hx
    rw [hnone] at ho
    cases ho

theorem Heap.exportClass_upholds
    (ho : h.Owned modules) (hl : h.Linked) (path name : String) {source : ScopeId}
    {parent : Option ScopeId} (hp : ∀ p, parent = some p → p < h.scopes.size)
    (hsource : source < h.scopes.size) (hk : (h.scopeAt source).kind.IsOpened) :
    h.Upholds modules (h.exportClass name source parent).2
      ((path, h.classes.size) :: modules) := by
  have hfirst := newClass_leads hl (Class.fresh name [] true .public) parent hp
  have hlead := exportClass_leads hl name source parent hp
  have hext := newClass_extends modules hfirst rfl
  have hnamed := (newClass_named ho parent (c := Class.fresh name [] true .public) rfl).1
  -- The class is made first, and only its scope is changed then.
  let h₁ := (h.newClass (Class.fresh name [] true .public) parent).2
  have hmembers : h₁.scopeAt source = h.scopeAt source :=
    (scopeAt_newScope h _ parent source).trans (if_neg (Nat.ne_of_lt hsource))
  have hclass : (h₁.classAt h.classes.size).scope = h.scopes.size := by
    rw [classAt_newClass, if_pos rfl]
  have hresult : (h.exportClass name source parent).2 =
      h₁.updateScope h.scopes.size (h₁.exportedScope (h.scopeAt source)) := by
    change h₁.updateScope (h₁.classAt h.classes.size).scope
      (h₁.exportedScope (h₁.scopeAt source)) = _
    rw [hclass, hmembers]
  rw [hresult] at hlead ⊢
  have he : h.Extends modules (h₁.updateScope h.scopes.size (h₁.exportedScope (h.scopeAt source)))
      ((path, h.classes.size) :: modules) :=
    { grows := hlead.grows
      supers := hext.supers
      name := hext.name
      kept := hext.kept
      fresh := hext.fresh
      oldModules := fun e hm => mem_cons_of_mem _ hm
      newModules := fun e hm => by
        rcases mem_cons.mp hm with rfl | hm
        · exact .inr (Nat.le_refl _)
        · exact .inl hm }
  have hold := newClass_upholds ho hfirst rfl fun _ hp => nomatch hp
  refine ⟨ho.of_extends he (fun s => ?_) (fun c _ p hp => ?_) (fun c g hg _ => ?_) fun e hm => ?_,
    he, hold.settled⟩
  · rw [scopeAt_updateScope]
    by_cases hs : h.scopes.size = s
    · rw [if_pos ⟨hs, Nat.lt_of_lt_of_eq (Nat.lt_succ_self _) (size_push _).symm⟩]
      refine .inr (((ho.scopes source).extends ho he).exportedScope hk ?_ h₁)
      have hfresh : h₁.scopeAt h.scopes.size = .fresh (.classBody h.classes.size) parent :=
        (scopeAt_newScope h _ parent _).trans (if_pos rfl)
      rw [hfresh]
      refine .fresh (fun c hc => ?_) parent
      cases hc
      exact hnamed.lt
    · rw [if_neg (fun h => hs h.1)]
      exact .inl ((scopeAt_newScope h _ parent s).trans (if_neg (Ne.symm hs)))
  · exact ⟨(hold.owned.supers c p hp).1, (hold.owned.supers c p hp).2.lt,
      (hold.owned.supers c p hp).2.shadow⟩
  · exact hold.owned.shadows c g hg
  · rcases mem_cons.mp hm with rfl | hm
    · exact .inr ⟨hnamed.lt, hnamed.shadow⟩
    · exact .inl hm

end ClassScript
