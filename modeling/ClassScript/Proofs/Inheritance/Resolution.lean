import ClassScript.Proofs.Inheritance.Precedence

/-!
# What Classes Have Later

The invariant `Heap.Selecting` is kept by whatever a program does to a heap: the scopes of a class
that has taken over members are settled, and a class that has not can get its own members only.
-/

namespace ClassScript

open List OrderedMap Scope

variable {h : Heap}

/-! ### Names that stay -/

theorem Variable.declaration_owner (v : Variable) : v.declaration.owner = v.owner := by
  unfold declaration withValue
  cases v.storage <;> rfl

structure Heap.SameMembers (h h' : Heap) (s : ScopeId) : Prop where
  functions : (h'.scopeAt s).functions = (h.scopeAt s).functions
  vars : (h'.scopeAt s).declarations = (h.scopeAt s).declarations

namespace Heap

variable {s : ScopeId}

theorem SameNames.members {h' : Heap} (hs : h.SameNames h' s) :
    h.SameMembers h' s where
  functions := (congrArg Scope.functions hs :)
  vars := (congrArg Scope.vars hs :)

theorem updateScope_sameMembers {f : Scope → Scope}
    (hfunctions : (f (h.scopeAt s)).functions = (h.scopeAt s).functions)
    (hvars : (f (h.scopeAt s)).declarations = (h.scopeAt s).declarations) (t : ScopeId) :
    h.SameMembers (h.updateScope s f) t := by
  by_cases hst : s = t ∧ s < h.scopes.size
  · have hscope : (h.updateScope s f).scopeAt t = f (h.scopeAt s) := by
      rw [scopeAt_updateScope, if_pos hst]
    constructor <;> rw [hscope, ← hst.1]
    · exact hfunctions
    · exact hvars
  · refine SameNames.members (.of_eq ?_)
    rw [scopeAt_updateScope, if_neg hst]

section SameMembers

variable {h h' : Heap} {modules : List (String × ClassId)} {s : ScopeId} (hs : h.SameMembers h' s)

include hs

theorem SameMembers.overloadAt (ho : h.Owned modules) (hg : h.Grows h') :
    ∀ e ∈ (h'.scopeAt s).functions.entries, ∀ f ∈ e.2, h'.overloadAt f = h.overloadAt f := by
  rw [hs.functions]
  exact fun e he f hf => hg.overload f (((ho.scopes s).families e he).lt f hf)

theorem SameMembers.selected? (ho : h.Owned modules) (hg : h.Grows h') (key : MemberKey) :
    (h'.scopeAt s).selected? h' key = (h.scopeAt s).selected? h key := by
  rw [selected?_congr (hs.overloadAt ho hg) key]
  cases key with
  | function =>
    unfold Scope.selected?
    rw [hs.functions]
  | «variable» name =>
    have howner (sc : Scope) : sc.selected? h (.variable name) =
        (sc.declarations.find? name).map (·.owner) := by
      rw [sc.find?_declarations, Option.map_map]
      exact congrArg (fun g => (sc.vars.find? name).map g)
        (funext fun v => v.declaration_owner.symm)
    rw [howner, howner, hs.vars]

theorem SameMembers.isOwn (ho : h.Owned modules) (hg : h.Grows h') {c : ClassId}
    (hown : (h.scopeAt s).IsOwn h c) : (h'.scopeAt s).IsOwn h' c := by
  have hover := hs.overloadAt ho hg
  rw [hs.functions] at hover
  constructor
  · rw [hs.functions]
    intro e he f hf
    rw [hover e he f hf]
    exact hown.functions e he f hf
  · intro e he
    have hfind : (h'.scopeAt s).declarations.find? e.1 = some e.2.declaration := by
      rw [Scope.find?_declarations, find?_eq_some_iff.mpr he]
      rfl
    rw [hs.vars, Scope.find?_declarations] at hfind
    obtain ⟨old, hold, hsame⟩ := Option.map_eq_some_iff.mp hfind
    rw [← e.2.declaration_owner, ← hsame, old.declaration_owner]
    exact hown.vars _ (mem_of_find? hold)

end SameMembers

end Heap

/-! ### Members of its own -/

inductive Scope.Gains (h : Heap) (c : ClassId) (sc : Scope) : Scope → Prop
  | variable (name : String) (v : Variable) (hv : v.owner = some c) :
      sc.Gains h c { sc with vars := sc.vars.insert name v }
  | overload (id : OverloadId) (hid : (h.overloadAt id).owner = some c) :
      sc.Gains h c (sc.addOverload h id)

theorem Heap.choice?_insertOverload {shape : Overload} (hs : shape.Distinct)
    {f : OverloadId} (hf : (h.overloadAt f).Distinct) {family : List OverloadId}
    (hfamily : ∀ g ∈ family, (h.overloadAt g).Distinct) :
    h.choice? shape (h.insertOverload f family) = h.choice? shape family ∨
      h.choice? shape (h.insertOverload f family) = some (h.overloadAt f).owner := by
  induction family with
  | nil =>
    by_cases hfs : (h.overloadAt f).sameShape shape = true
    · exact .inr (choice?_cons_of_pos hfs)
    · exact .inl (choice?_cons_of_neg hfs)
  | cons g rest ih =>
    have hg := hfamily g mem_cons_self
    rw [insertOverload]
    split
    · next hgf =>
      by_cases hfs : (h.overloadAt f).sameShape shape = true
      · exact .inr (choice?_cons_of_pos hfs)
      · have hgs : ¬ (h.overloadAt g).sameShape shape = true := fun hgs =>
          hfs ((sameShape_congr hs hf hg hgf).symm.trans hgs)
        exact .inl ((choice?_cons_of_neg hfs).trans (choice?_cons_of_neg hgs).symm)
    · by_cases hgs : (h.overloadAt g).sameShape shape = true
      · exact .inl ((choice?_cons_of_pos hgs).trans (choice?_cons_of_pos hgs).symm)
      · rw [choice?_cons_of_neg hgs, choice?_cons_of_neg hgs]
        exact ih fun k hk => hfamily k (mem_cons_of_mem g hk)

namespace Scope.Gains

variable {h : Heap} {c : ClassId} {sc sc' : Scope} (hgain : sc.Gains h c sc')

include hgain

theorem isOwn (hsc : sc.IsOwn h c) : sc'.IsOwn h c := by
  cases hgain with
  | «variable» name v hv =>
    refine ⟨hsc.functions, fun e he => ?_⟩
    rcases mem_insertIn he with rfl | he
    · exact hv
    · exact hsc.vars e he
  | overload id hid =>
    refine ⟨fun e he f hf => ?_, hsc.vars⟩
    rcases mem_insertIn he with rfl | he
    · rcases Heap.mem_insertOverload hf with rfl | hf
      · exact hid
      · obtain ⟨e, he, _, hfe⟩ := mem_family hf
        exact hsc.functions e he f hfe
    · exact hsc.functions e he f hf

theorem selected? {key : MemberKey} (hkey : key.Clear h) (hsc : sc.Sorted h) :
    sc'.selected? h key = sc.selected? h key ∨ sc'.selected? h key = some (some c) := by
  cases hgain with
  | «variable» =>
    cases key with
    | function => exact .inl rfl
    | «variable» =>
      unfold Scope.selected?
      dsimp only
      rw [find?_insert]
      grind
  | overload id hid =>
    cases key with
    | function =>
      obtain ⟨hs, hclear⟩ := hkey
      unfold Scope.selected? addOverload
      dsimp only
      rw [find?_insert]
      split
      · next hname =>
        rw [hname, ← hid]
        exact Heap.choice?_insertOverload hs (hclear id hname) (hsc.distinctIn hclear)
      · exact .inl rfl
    | «variable» => exact .inl rfl

end Scope.Gains

/-! ### Later heaps -/

/-- A heap and a later one: settled scopes have kept their members, and other classes have at most
    one more of their own. -/
structure Heap.Continues (h : Heap) (modules : List (String × ClassId)) (h' : Heap)
    (modules' : List (String × ClassId)) : Prop where
  extend : h.Extends modules h' modules'
  frozen : ∀ s, h.Settled s → h.SameMembers h' s
  bodies : ∀ c, h.Named c → (h'.classAt c).ancestors = none →
    h.SameMembers h' (h.classAt c).scope ∨ h'.overloads = h.overloads ∧ (∀ e ∈ modules, e.2 ≠ c) ∧
      (h.scopeAt (h.classAt c).scope).Gains h c (h'.scopeAt (h.classAt c).scope)

namespace Heap

variable {h h' : Heap} {modules modules' : List (String × ClassId)}
variable {key : MemberKey} {c : ClassId}

theorem clear_of_grows (hg : h.Grows h') (hkey : key.Clear h') : key.Clear h := by
  cases key with
  | function =>
    refine ⟨hkey.1, fun f hf => ?_⟩
    rcases Nat.lt_or_ge f h.overloads.size with hlt | hge
    · rw [← hg.overload f hlt] at hf ⊢
      exact hkey.2 f hf
    · have hdefault : h.overloadAt f = default := getD_of_size_le hge _
      rw [hdefault]
      exact fun p hp => absurd hp not_mem_nil
  | «variable» => trivial

theorem gather_later (ho : h.Owned modules) (hext : h.Extends modules h' modules')
    (hc : c < h.classes.size) {has : ScopeId → Option (Option ClassId)}
    (hsources : ∀ p ∈ (h.classAt c).supers, h'.sourcesOf p = h.sourcesOf p)
    (hhas : ∀ p ∈ (h.classAt c).supers, ∀ s ∈ h.sourcesOf p, ∀ o, has s = some (some o) →
      o < h.classes.size) : h'.gather c has = h.gather c has := by
  have hP (d : ClassId) (hd : d < h.classes.size) :
      (h'.classAt d).supers = (h.classAt d).supers ∧
        ∀ p ∈ (h.classAt d).supers, p < h.classes.size :=
    ⟨hext.supers d hd, fun p hp => (ho.supers d p hp).2.lt⟩
  have hfold (sources : List ScopeId)
      (hall : ∀ s ∈ sources, ∀ o, has s = some (some o) → o < h.classes.size) :
      ∀ old, (∀ o, old = some (some o) → o < h.classes.size) →
        sources.foldl (fun old s => h'.settle .replace old (has s)) old =
          sources.foldl (fun old s => h.settle .replace old (has s)) old := by
    induction sources with
    | nil => intro old _; rfl
    | cons s rest ih =>
      intro old hold
      rw [foldl_cons, settle_congr hP hold]
      refine ih (fun s' hs' => hall s' (mem_cons_of_mem s hs')) _ fun o hsettle => ?_
      rcases settle_eq_some hsettle with hthere | hnew
      · exact hold o hthere
      · exact hall s mem_cons_self o hnew
  have hflat : (h'.classAt c).supers.flatMap h'.sourcesOf =
      (h.classAt c).supers.flatMap h.sourcesOf := by
    rw [hext.supers c hc]
    exact flatMap_congr hsources
  unfold gather
  rw [hflat]
  refine hfold _ (fun s hs => ?_) none nofun
  obtain ⟨p, hp, hsp⟩ := mem_flatMap.mp hs
  exact hhas p hp s hsp

theorem lt_of_selected? (ho : h.Owned modules) (hl : h.Linked) {o : ClassId}
    (hc : c < h.classes.size) (hselected : h.selected? c key = some (some o)) :
    o < h.classes.size := by
  have hfits := selected?_fits ho hl hc hselected
  by_cases hn : h.Named c
  · exact Nat.lt_of_le_of_lt ((hfits.member hn).le ho) hc
  · obtain ⟨d, hd⟩ : ∃ d, (h.classAt d).ancestors = some c := by
      by_contra hall
      exact hn ⟨hc, fun d hd => hall ⟨d, hd⟩⟩
    exact Nat.lt_of_le_of_lt ((hfits.shadow d hd).1.le ho) (lt_of_ancestors hd)

theorem Continues.selected?_of_settled (hcont : h.Continues modules h' modules')
    (ho : h.Owned modules) (hc : c < h.classes.size)
    (hset : h.Settled (h.classAt c).scope) (key : MemberKey) :
    h'.selected? c key = h.selected? c key := by
  have hgrows := hcont.extend.grows
  unfold Heap.selected?
  rw [hgrows.classScope c hc]
  exact (hcont.frozen _ hset).selected? ho hgrows key

theorem Continues.selected? (hcont : h.Continues modules h' modules') (hs : h.Selecting modules)
    (ho : h.Owned modules) {p : ClassId} (hn : h.Named p)
    (hsame : (h'.classAt p).ancestors = (h.classAt p).ancestors) (hkey : key.Clear h) :
    h'.selected? p key = h.selected? p key ∨
      h.selected? p key = none ∧ (h.classAt p).ancestors = none := by
  have hgrows := hcont.extend.grows
  cases hancestors : (h.classAt p).ancestors with
  | some g => exact .inl (hcont.selected?_of_settled ho hn.lt ⟨p, g, hancestors, .inl rfl⟩ key)
  | none =>
    unfold Heap.selected?
    rw [hgrows.classScope p hn.lt]
    rcases hcont.bodies p hn (hsame.trans hancestors) with hnames | ⟨hover, hmodules, hgain⟩
    · exact .inl (hnames.selected? ho hgrows key)
    · have hfunctions (f : OverloadId) : h'.overloadAt f = h.overloadAt f := by
        unfold Heap.overloadAt
        rw [hover]
      rw [selected?_congr fun _ _ f _ => hfunctions f]
      cases hold : (h.scopeAt (h.classAt p).scope).selected? h key with
      | none => exact .inr ⟨rfl, rfl⟩
      | some o =>
        -- It had only members of its own, and the new one is its own as well.
        obtain rfl := (hs.own p hn hmodules hancestors).selected hold
        rcases hgain.selected? hkey (ho.sorted _) with hkept | hnew
        · exact .inl (hkept.trans hold)
        · exact .inl hnew

theorem Resolved.later {g : ClassId} (hr : h.Resolved c g) (hg : (h.classAt c).ancestors = some g)
    (hs : h.Selecting modules) (ho : h.Owned modules) (hl : h.Linked)
    (hcont : h.Continues modules h' modules') : h'.Resolved c g := by
  have hext := hcont.extend
  have hgrows := hext.grows
  have hc : c < h.classes.size := lt_of_ancestors hg
  have hown := hcont.selected?_of_settled ho hc ⟨c, g, hg, .inl rfl⟩
  have hshadow := hcont.selected?_of_settled ho (ho.shadows c g hg) ⟨c, g, hg, .inr rfl⟩
  constructor
  · intro key hkey o hselected
    rw [hown] at hselected
    rw [hshadow]
    exact hr.own key (clear_of_grows hgrows hkey) o hselected
  · intro key hkey hfinished
    have hkey₀ := clear_of_grows hgrows hkey
    rw [hext.supers c hc] at hfinished ⊢
    have hnamed (p : ClassId) (hp : p ∈ (h.classAt c).supers) : h.Named p := (ho.supers c p hp).2
    -- A super class took over members before, or has not done so.
    have hancestors (p : ClassId) (hp : p ∈ (h.classAt c).supers) :
        (h'.classAt p).ancestors = (h.classAt p).ancestors := by
      cases hp' : (h'.classAt p).ancestors with
      | none =>
        cases hp₀ : (h.classAt p).ancestors with
        | none => rfl
        | some d =>
          rw [hext.kept p d hp₀] at hp'
          cases hp'
      | some d =>
        rcases hext.fresh p d hp' with hold | hnew
        · exact hold.symm
        · have hlt := Nat.lt_trans (hfinished p hp d hp') (ho.shadows c g hg)
          exact absurd hlt (Nat.not_lt.mpr hnew)
    have hsources (p : ClassId) (hp : p ∈ (h.classAt c).supers) :
        h'.sourcesOf p = h.sourcesOf p := by
      unfold sourcesOf
      rw [hancestors p hp, hgrows.classScope p (hnamed p hp).lt]
      refine congrArg (· ++ _) (map_congr_left fun d hd => ?_)
      exact hgrows.classScope d (ho.shadows p d (Option.mem_toList.mp hd))
    obtain ⟨seen, hgathered, hseen⟩ := hr.gathered key hkey₀ fun p hp d hd =>
      hfinished p hp d ((hancestors p hp).trans hd)
    refine ⟨seen, ?_, fun p hp s hsp => ?_⟩
    · rw [hshadow, hgathered]
      refine (gather_later ho hext hc hsources fun p hp s hsp o hsome => ?_).symm
      have hnow : (h.scopeAt s).selected? h key = some (some o) := by grind
      rcases mem_sourcesOf.mp hsp with ⟨d, hd, rfl⟩ | rfl
      · exact lt_of_selected? ho hl (ho.shadows p d hd) hnow
      · exact lt_of_selected? ho hl (hnamed p hp).lt hnow
    · rw [hsources p hp] at hsp
      rw [hancestors p hp]
      rcases hseen p hp s hsp with hsame | hmissing
      · rcases mem_sourcesOf.mp hsp with ⟨d, hd, rfl⟩ | rfl
        · have hnow := (hcont.frozen _ ⟨p, d, hd, .inr rfl⟩).selected? ho hgrows key
          exact .inl (hsame.trans hnow.symm)
        · have hnow := hcont.selected? hs ho (hnamed p hp) (hancestors p hp) hkey₀
          unfold Heap.selected? at hnow
          rw [hgrows.classScope p (hnamed p hp).lt] at hnow
          grind
      · exact .inr hmissing

theorem Selecting.later (hs : h.Selecting modules) (ho : h.Owned modules) (hl : h.Linked)
    (hcont : h.Continues modules h' modules')
    (hfresh : ∀ c, h.classes.size ≤ c → h'.Named c → (∀ e ∈ modules', e.2 ≠ c) →
      (h'.scopeAt (h'.classAt c).scope).IsOwn h' c)
    (hnew : ∀ c g, (h'.classAt c).ancestors = some g →
      (h.classAt c).ancestors = some g ∨ h'.Resolved c g) : h'.Selecting modules' := by
  have hext := hcont.extend
  refine ⟨fun c hn hmodules hnone => ?_, fun c g hg => ?_⟩
  · rcases Nat.lt_or_ge c h.classes.size with hlt | hge
    · have hn₀ := hn.of_extends hext hlt
      have hnone₀ : (h.classAt c).ancestors = none := by
        cases hancestors : (h.classAt c).ancestors with
        | none => rfl
        | some g =>
          rw [hext.kept c g hancestors] at hnone
          cases hnone
      have hown := hs.own c hn₀ (fun e he => hmodules e (hext.oldModules e he)) hnone₀
      rw [hext.grows.classScope c hlt]
      rcases hcont.bodies c hn₀ hnone with hnames | ⟨hover, _, hgain⟩
      · exact hnames.isOwn ho hext.grows hown
      · obtain ⟨hfunctions, hvars⟩ := hgain.isOwn hown
        refine ⟨fun e he f hf => ?_, hvars⟩
        unfold Heap.overloadAt
        rw [hover]
        exact hfunctions e he f hf
    · exact hfresh c hge hn hmodules
  · rcases hnew c g hg with hold | hresolved
    · exact (hs.resolved c g hold).later hold hs ho hl hcont
    · exact hresolved

/-! ### Changes of a heap -/

section Changes

variable (ho : h.Owned modules) (hl : h.Linked) {f : Scope → Scope}

include ho hl

theorem Continues.of_members (hext : h.Extends modules h' modules')
    (hmembers : ∀ s, s < h.scopes.size → h.SameMembers h' s) : h.Continues modules h' modules' :=
  ⟨hext, fun s hs => hmembers s (hs.lt hl ho), fun c hn _ =>
    .inl (hmembers _ (hl.classes c hn.lt).scope)⟩

theorem Continues.of_open {s : ScopeId}
    (hext : h.Extends modules (h.updateScope s f) modules) (hopen : h.IsOpen s) :
    h.Continues modules (h.updateScope s f) modules := by
  have hmembers (c : ClassId) (hc : c < h.classes.size) :
      h.SameMembers (h.updateScope s f) (h.classAt c).scope := by
    refine (updateScope_sameNames f fun hsc => hopen c ?_).members
    rw [hsc]
    exact (hl.classes c hc).kind
  refine ⟨hext, fun s hs => ?_, fun c hn _ => .inl (hmembers c hn.lt)⟩
  obtain ⟨c, hc, rfl⟩ := hs.of_class ho
  exact hmembers c hc

theorem Continues.of_gain
    (hext : h.Extends modules (h.updateScope (h.classAt c).scope f) modules) (hn : h.Named c)
    (hmodules : ∀ e ∈ modules, e.2 ≠ c) (hnone : (h.classAt c).ancestors = none)
    (hgain : (h.scopeAt (h.classAt c).scope).Gains h c (f (h.scopeAt (h.classAt c).scope))) :
    h.Continues modules (h.updateScope (h.classAt c).scope f) modules := by
  refine ⟨hext, fun s hs => ?_, fun d hd _ => ?_⟩
  · have hout := not_settled_of_named hl ho hn hnone
    refine (updateScope_sameNames f fun hcs => hout ?_).members
    rw [hcs]
    exact hs
  · by_cases hdc : d = c
    · rw [hdc]
      refine .inr ⟨rfl, hmodules, ?_⟩
      rw [scopeAt_updateScope, if_pos ⟨rfl, (hl.classes c hn.lt).scope⟩]
      exact hgain
    · exact .inl (updateScope_sameNames f fun hcd =>
        hdc (hl.class_eq hd.lt hn.lt hcd.symm)).members

variable (hs : h.Selecting modules)

include hs

theorem Selecting.continues (hcont : h.Continues modules h' modules)
    (hsize : h'.classes.size = h.classes.size)
    (hancestors : ∀ c g, (h'.classAt c).ancestors = some g → (h.classAt c).ancestors = some g) :
    h'.Selecting modules := by
  refine hs.later ho hl hcont (fun c hc hn _ => ?_) fun c g hg => .inl (hancestors c g hg)
  exact absurd (Nat.lt_of_lt_of_eq hn.lt hsize) (Nat.not_lt.mpr hc)

theorem Selecting.of_scopes (hext : h.Extends modules h' modules) (hscopes : h'.scopes = h.scopes)
    (hsize : h'.classes.size = h.classes.size)
    (hancestors : ∀ c g, (h'.classAt c).ancestors = some g → (h.classAt c).ancestors = some g) :
    h'.Selecting modules := by
  have hscope (s : ScopeId) : h'.scopeAt s = h.scopeAt s := by
    unfold Heap.scopeAt
    rw [hscopes]
  exact hs.continues ho hl (.of_members ho hl hext fun s _ => (SameNames.of_eq (hscope s)).members)
    hsize hancestors

theorem Selecting.newScope {kind : ScopeKind} {parent : Option ScopeId}
    (hext : h.Extends modules h' modules) (hscopes : h'.scopes = h.scopes.push (.fresh kind parent))
    (hclasses : h'.classes = h.classes) : h'.Selecting modules := by
  have hscope (s : ScopeId) :
      h'.scopeAt s = if s = h.scopes.size then .fresh kind parent else h.scopeAt s := by
    unfold Heap.scopeAt
    rw [hscopes, getD_push]
  have hclass (c : ClassId) : h'.classAt c = h.classAt c := by
    unfold Heap.classAt
    rw [hclasses]
  refine hs.continues ho hl (.of_members ho hl hext fun s hlt => (SameNames.of_eq ?_).members)
    (congrArg Array.size hclasses) fun c g hg => hclass c ▸ hg
  rw [hscope, if_neg (Nat.ne_of_lt hlt)]

theorem Selecting.newClass (c : Class) (parent : Option ScopeId)
    (hext : h.Extends modules (h.newClass c parent).2 modules) (hnone : c.ancestors = none) :
    (h.newClass c parent).2.Selecting modules := by
  have hscope (s : ScopeId) : (h.newClass c parent).2.scopeAt s =
      if s = h.scopes.size then .fresh (.classBody h.classes.size) parent else h.scopeAt s :=
    scopeAt_newScope h _ parent s
  refine hs.later ho hl
    (.of_members ho hl hext fun s hlt => (newClass_sameNames c parent hlt).members)
    (fun d hd hn _ => ?_) fun d g hg => .inl ?_
  · have hlt : d < h.classes.size + 1 := Nat.lt_of_lt_of_eq hn.lt (Array.size_push _)
    obtain rfl : d = h.classes.size := Nat.le_antisymm (Nat.le_of_lt_succ hlt) hd
    rw [classAt_newClass, if_pos rfl, hscope, if_pos rfl]
    exact ⟨fun _ => nofun, fun _ => nofun⟩
  · rw [classAt_newClass] at hg
    split at hg
    · rw [hnone] at hg
      cases hg
    · exact hg

theorem Selecting.exportClass (path name : String) (source : ScopeId) (parent : Option ScopeId)
    (hext : h.Extends modules (h.exportClass name source parent).2
      ((path, h.classes.size) :: modules)) :
    (h.exportClass name source parent).2.Selecting ((path, h.classes.size) :: modules) := by
  let made := (h.newClass (Class.fresh name [] true .public) parent).2
  refine hs.later ho hl
    (.of_members ho hl hext fun s hlt =>
      (SameNames.of_eq (exportClass_scopeAt name source parent hlt)).members)
    (fun d hd hn hmodules => ?_) fun d g hg => .inl ?_
  · -- The only new class is the one that stands for the module.
    have hlt : d < h.classes.size + 1 := Nat.lt_of_lt_of_eq hn.lt (Array.size_push _)
    have hnew : h.classes.size = d := Nat.le_antisymm hd (Nat.le_of_lt_succ hlt)
    simp_all
  · change (made.classAt d).ancestors = some g at hg
    have hclass : made.classAt d = _ := classAt_newClass h _ parent d
    rw [hclass] at hg
    split at hg
    · cases hg
    · exact hg

end Changes

/-! ### Taking over members -/

section Flatten

variable {c : ClassId}

theorem gathered_sorted (ho : h.Owned modules) (hl : h.Linked) :
    ((h.gathered c).scopeAt h.scopes.size).Sorted h := by
  refine gathered_keeps (I := Scope.Sorted h) ho hl (fun _ _ => nofun)
    fun k hk p _ d _ _ sc hsc => ?_
  have hover : k.overloads = h.overloads := hk.overloads
  exact sorted_congr hover.symm
    (merge_sorted _ (sorted_congr hover (ho.sorted _)) (sorted_congr hover hsc))

section

variable (ht : h.TakesOver c h') (hs : h.Selecting modules) (ho : h.Owned modules) (hl : h.Linked)
  (hn : h.Named c) (hmodules : ∀ e ∈ modules, e.2 ≠ c) (hnone : (h.classAt c).ancestors = none)
include ht hs ho hl hn hmodules hnone

theorem TakesOver.own_or_gathered (hkey : key.Clear h) {o : Option ClassId}
    (hselected : (h'.scopeAt (h.classAt c).scope).selected? h key = some o) :
    o = some c ∨ ((h.gathered c).scopeAt h.scopes.size).selected? h key = some o := by
  have hover : (h.gathered c).overloads = h.overloads := (h.gathered_sameBut c).overloads
  have hfunctions (f : OverloadId) : (h.gathered c).overloadAt f = h.overloadAt f :=
    (h.gathered_sameBut c).overloadAt f
  have hsame (sc : Scope) : sc.selected? (h.gathered c) key = sc.selected? h key :=
    selected?_congr (fun _ _ f _ => hfunctions f) key
  have hclear := clear_congr hfunctions hkey
  have hgathered := sorted_congr hover (gathered_sorted (c := c) ho hl)
  rw [ht.ownScope, ← hsame, selected?_merge hclear hgathered
    (sorted_congr hover (ho.sorted _))] at hselected
  rcases settle_eq_some hselected with hown | htaken
  · rw [hsame] at hown
    exact .inl ((hs.own c hn hmodules hnone).selected hown)
  · rw [← hsame]
    exact .inr (selected?_of_offered? hclear hgathered htaken)

theorem TakesOver.resolved : h'.Resolved c h.classes.size := by
  have hclear (key : MemberKey) (hkey : key.Clear h') : key.Clear h :=
    clear_congr (fun f => (ht.overloadAt f).symm) hkey
  have hsame (sc : Scope) (key : MemberKey) : sc.selected? h' key = sc.selected? h key :=
    selected?_congr (fun _ _ f _ => ht.overloadAt f) key
  have hshadow (key : MemberKey) : h'.selected? h.classes.size key =
      ((h.gathered c).scopeAt h.scopes.size).selected? h key := by
    unfold Heap.selected?
    rw [ht.shadow, ht.shadowScope, hsame]
  have hsources (p : ClassId) (hp : p ∈ (h.classAt c).supers) : h'.sourcesOf p = h.sourcesOf p := by
    obtain ⟨hpc, hpn⟩ := ho.supers c p hp
    unfold sourcesOf
    rw [ht.ancestors, if_neg (Nat.ne_of_lt hpc), ht.scope p hpn.lt]
    refine congrArg (· ++ _) (map_congr_left fun d hd => ?_)
    exact ht.scope d (ho.shadows p d (Option.mem_toList.mp hd))
  -- The scopes of super classes are not touched.
  have hscopes (p : ClassId) (hp : p ∈ (h.classAt c).supers) (s : ScopeId)
      (hsp : s ∈ h.sourcesOf p) : h'.scopeAt s = h.scopeAt s := by
    obtain ⟨hpc, hpn⟩ := ho.supers c p hp
    obtain ⟨d, hd, hdc, rfl⟩ : ∃ d, d < h.classes.size ∧ d ≠ c ∧ s = (h.classAt d).scope := by
      rcases mem_sourcesOf.mp hsp with ⟨d, hd, rfl⟩ | rfl
      · exact ⟨d, ho.shadows p d hd, fun hdc => hn.shadow p (hdc ▸ hd), rfl⟩
      · exact ⟨p, hpn.lt, Nat.ne_of_lt hpc, rfl⟩
    exact ht.otherScope _ (Nat.ne_of_lt (hl.classes d hd).scope) fun hdc' =>
      hdc (hl.class_eq hd hn.lt hdc')
  constructor
  · intro key hkey o hselected
    unfold Heap.selected? at hselected
    rw [ht.scope c hn.lt, hsame] at hselected
    rw [hshadow]
    exact ht.own_or_gathered hs ho hl hn hmodules hnone (hclear key hkey) hselected
  · intro key hkey _
    rw [ht.supers]
    refine ⟨fun s => (h.scopeAt s).selected? h key, ?_, fun p hp s hsp => .inl ?_⟩
    · rw [hshadow, gathered_selected ho hl (hclear key hkey)]
      unfold gather
      rw [ht.supers, flatMap_congr hsources]
      exact foldl_ext _ _ none fun old s _ => (settle_of_supers ht.supers old _).symm
    · grind

end

theorem Selecting.flatten (hs : h.Selecting modules) (ho : h.Owned modules) (hl : h.Linked)
    (hn : h.Named c) (hmodules : ∀ e ∈ modules, e.2 ≠ c) (hnone : (h.classAt c).ancestors = none) :
    (h.flatten c).Selecting modules := by
  by_cases hsupers : (h.classAt c).supers = []
  · rw [flatten_of_supers_nil hsupers]
    exact hs
  have ht := flatten_takesOver hl hn.lt hsupers
  obtain ⟨_, hext, _⟩ := flatten_owned ho hl hn hnone hmodules
  have hshadow : ((h.flatten c).classAt c).ancestors = some h.classes.size := by
    rw [ht.ancestors, if_pos rfl]
  have hcont : h.Continues modules (h.flatten c) modules := by
    refine ⟨hext, fun s hs => ?_, fun d hd hnone' => .inl ?_⟩
    · have hout := not_settled_of_named hl ho hn hnone
      exact (SameNames.of_eq
        (flatten_scopeAt hl hn.lt (hs.lt hl ho) fun hsc => hout (hsc ▸ hs))).members
    · refine (SameNames.of_eq
        (flatten_scopeAt hl hn.lt (hl.classes d hd.lt).scope fun hdc => ?_)).members
      rw [hl.class_eq hd.lt hn.lt hdc, hshadow] at hnone'
      cases hnone'
  refine hs.later ho hl hcont (fun d hd hdn _ => ?_) fun d g hg => ?_
  · -- The only new class is not named.
    have hlt := hdn.lt
    rw [ht.classes] at hlt
    obtain rfl : d = h.classes.size := Nat.le_antisymm (Nat.le_of_lt_succ hlt) hd
    exact absurd hshadow (hdn.shadow c)
  · by_cases hdc : d = c
    · rw [hdc, hshadow] at hg
      cases hg
      rw [hdc]
      exact .inr (ht.resolved hs ho hl hn hmodules hnone)
    · rw [ht.ancestors, if_neg hdc] at hg
      exact .inl hg

end Flatten

end Heap

end ClassScript
