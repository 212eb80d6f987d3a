import ClassScript.Proofs.Inheritance.Flattening
import ClassScript.Proofs.Linking

/-!
# Where Members May Be

Every step of the evaluator leaves the members of classes where they may be, since the scope that a
class or an instance is known to have is one of the right kind.
-/

namespace ClassScript

open List Heap OrderedMap

variable {m : Machine} {h : Heap} {modules : List (String × ClassId)} {k : Fact} {c o : ClassId}
variable {path : String}

structure Machine.Owned (m : Machine) : Prop where
  heap : m.heap.Owned m.modules
  object : m.heap.Named ClassId.object
  null : m.heap.Named ClassId.null

def Machine.Upholds (m m' : Machine) : Prop :=
  m.heap.Upholds m.modules m'.heap m'.modules

/-- What is known about classes, scopes and functions is true. What is known of links is
    of no concern here. -/
def Fact.Stands (h : Heap) (modules : List (String × ClassId)) : Fact → Prop
  | .declared c => h.Named c ∧ ∀ e ∈ modules, e.2 ≠ c
  | .module c => ∃ path, (path, c) ∈ modules
  | .named c => h.Named c
  | .opened s => s < h.scopes.size ∧ (h.scopeAt s).kind.IsOpened
  | .overload id f => id < h.overloads.size ∧ h.overloadAt id = f
  | .exported name family => h.Family name family ∧ ∀ f ∈ family, (h.overloadAt f).owner = none
  | .scope _ | .type _ | .membersIn _ | .members _ _ | .fields _ _ => True
  | .fieldsIn _ | .created _ | .own _ | .here | .naming _ | .inside | .importing => True

structure Machine.Knows (m : Machine) (Γ : List Fact) : Prop where
  holds : ∀ k ∈ Γ, k.Holds m.heap
  stands : ∀ k ∈ Γ, k.Stands m.heap m.modules

namespace Machine

theorem Upholds.refl (ho : m.Owned) : m.Upholds m := Heap.Upholds.refl ho.heap

theorem Upholds.trans {a b c : Machine} (hab : a.Upholds b) (hbc : b.Upholds c) : a.Upholds c :=
  Heap.Upholds.trans hab hbc

theorem Upholds.owned {m' : Machine} (ho : m.Owned) (h : m.Upholds m') : m'.Owned :=
  ⟨Heap.Upholds.owned h, ho.object.extends (Heap.Upholds.extend h),
    ho.null.extends (Heap.Upholds.extend h)⟩

end Machine

theorem Fact.Stands.extends {h' : Heap} {modules' : List (String × ClassId)}
    (he : h.Extends modules h' modules') (hk : k.Stands h modules) :
    k.Stands h' modules' := by
  cases k with
  | declared =>
    refine ⟨hk.1.extends he, fun e hm hec => ?_⟩
    rcases he.newModules e hm with hold | hnew
    · exact hk.2 e hold hec
    · exact absurd hk.1.lt (Nat.not_lt.mpr (hec ▸ hnew))
  | module =>
    obtain ⟨path, hpath⟩ := hk
    exact ⟨path, he.oldModules _ hpath⟩
  | named => exact Heap.Named.extends he hk
  | opened s =>
    refine ⟨Nat.lt_of_lt_of_le hk.1 he.grows.scopes, ?_⟩
    rw [he.grows.kind s hk.1]
    exact hk.2
  | overload id f =>
    refine ⟨Nat.lt_of_lt_of_le hk.1 he.grows.overloads, ?_⟩
    rw [he.grows.overload id hk.1]
    exact hk.2
  | exported =>
    refine ⟨hk.1.extends he.grows, fun f hf => ?_⟩
    rw [he.grows.overload f (hk.1.lt f hf)]
    exact hk.2 f hf
  | scope | type | membersIn | members | fields | created | fieldsIn | own | here | naming | inside
  | importing => trivial

namespace Machine.Knows

variable {m m' : Machine} {Γ : List Fact}

theorem nil : m.Knows [] :=
  ⟨fun _ hk => absurd hk not_mem_nil, fun _ hk => absurd hk not_mem_nil⟩

theorem later (hΓ : m.Knows Γ) (hl : m.Leads m') (hu : m.Upholds m') : m'.Knows Γ :=
  ⟨fun k hk => (hΓ.holds k hk).grows hl.grows,
    fun k hk => (hΓ.stands k hk).extends (Heap.Upholds.extend hu)⟩

theorem mono {Δ : List Fact} (hΓ : m.Knows Γ) (hΔ : ∀ k ∈ Δ, k ∈ Γ) : m.Knows Δ :=
  ⟨fun k hk => hΓ.holds k (hΔ k hk), fun k hk => hΓ.stands k (hΔ k hk)⟩

end Machine.Knows

theorem Known.named {Γ : List Fact} (ho : m.Owned) (hΓ : m.Knows Γ)
    (hc : Known Γ c) : m.heap.Named c := by
  rcases hc with rfl | rfl | hc
  · exact ho.object
  · exact ho.null
  · exact hΓ.stands _ hc

namespace Placing

variable {m : Machine} {Γ : List Fact} {s : ScopeId} {owner : Option ClassId}

theorem mayOwn (hp : Placing Γ s owner) (hm : m.Linked) (hΓ : m.Knows Γ)
    (ho : owner = some o) : m.heap.MayOwn m.modules (m.heap.scopeAt s).kind o := by
  cases hp with
  | free => cases ho
  | member c hd hs =>
    obtain rfl : c = o := Option.some.inj ho
    obtain ⟨hlt, hscope⟩ := hΓ.holds _ hs
    obtain ⟨hnamed, hmodules⟩ := hΓ.stands _ hd
    have hkind := (hm.heap.classes c hlt).kind
    rw [hscope] at hkind
    rw [hkind]
    exact ⟨fun _ => .self c, fun d hd => absurd hd (hnamed.shadow d), hmodules⟩
  | field object c hs _ =>
    have hkind := (hm.heap.objects object s (hΓ.holds _ hs)).kind
    rw [hkind]
    trivial

theorem owner_eq (hp : Placing Γ s owner) (hm : m.Linked) (hΓ : m.Knows Γ)
    (hkind : (m.heap.scopeAt s).kind = .classBody c) (ho : owner = some o) : o = c := by
  cases hp with
  | free => cases ho
  | member d _ hs =>
    obtain ⟨hlt, hscope⟩ := hΓ.holds _ hs
    have hd := (hm.heap.classes d hlt).kind
    simp_all
  | field object d hs _ =>
    have hfields := (hm.heap.objects object s (hΓ.holds _ hs)).kind
    rw [hkind] at hfields
    cases hfields

theorem mayHold {f : Overload} (hp : Placing Γ s f.owner) (hm : m.Linked) (hΓ : m.Knows Γ) :
    m.heap.MayHold m.modules (m.heap.scopeAt s).kind f :=
  ⟨fun _ ho => hp.mayOwn hm hΓ ho, fun _ hkind _ _ ho hne =>
    absurd (hp.owner_eq hm hΓ hkind ho) hne⟩

end Placing

variable {Γ : List Fact}

theorem Heap.module_unowned (ho : h.Owned modules) (hl : h.Linked) (hc : (path, c) ∈ modules)
    (hown : h.MayOwn modules (h.scopeAt (h.classAt c).scope).kind o) : False := by
  rw [(hl.classes c (ho.modules _ hc).lt).kind] at hown
  exact Fits.module hown _ hc rfl

theorem Write.upholds {f : Heap → Heap} (hf : Write False Γ f)
    (hm : m.Linked) (ho : m.Owned) (hΓ : m.Knows Γ) :
    m.heap.Upholds m.modules (f m.heap) m.modules := by
  have hlead := hf.leads hm.heap
  have hscope (s : ScopeId) := ho.heap.scopes s
  cases hf with
  | «variable» s name v kept hv _ =>
    refine updateScope_upholds ho.heap hlead ?_
    split
    · exact hscope s
    · exact (hscope s).insertVariable name fun o howner => hv.mayOwn hm hΓ howner
  | slot s name value kept _ =>
    refine updateScope_upholds ho.heap hlead ?_
    split
    · exact hscope s
    · exact (hscope s).assign name value
  | copy s name c hc _ =>
    obtain ⟨path, hpath⟩ := hΓ.stands _ hc
    refine updateScope_upholds ho.heap hlead ?_
    unfold Scope.copy
    split
    · next v hv =>
      refine (hscope s).insertVariable name fun o howner => ?_
      exact (module_unowned ho.heap hm.heap hpath
        ((hscope _).vars _ (mem_of_find? hv) o howner)).elim
    · exact hscope s
  | overload s id f hf hs =>
    obtain ⟨hlt, hid⟩ := hΓ.stands _ hf
    refine updateScope_upholds ho.heap hlead ((hscope s).addOverload hlt ?_)
    rw [hid]
    exact hs.mayHold hm hΓ
  | family s name family hfamily _ =>
    obtain ⟨hfamily, hnone⟩ := hΓ.stands _ hfamily
    exact updateScope_upholds ho.heap hlead
      ((hscope s).insertFamily hfamily fun f hf => .of_unowned (hnone f hf))
  | «class» s name c hc _ =>
    exact updateScope_upholds ho.heap hlead ((hscope s).insertClass name (hΓ.stands _ hc))
  | field => exact updateClass_upholds ho.heap hlead fun _ => ⟨rfl, rfl, rfl⟩
  | contents => exact upholds_of_same ho.heap hlead.grows rfl rfl

theorem Creation.upholds {f : Heap → Nat × Heap} (hf : Creation Γ f)
    (hm : m.Linked) (ho : m.Owned) : m.heap.Upholds m.modules (f m.heap).2 m.modules := by
  have hlead := hf.leads hm.heap
  cases hf with
  | object | callable => exact upholds_of_same ho.heap hlead.grows rfl rfl

theorem Opening.isOpened {kind : ScopeKind} {parent : Option ScopeId}
    (ho : Opening Γ kind parent) : kind.IsOpened := by
  cases ho <;> trivial

namespace Heap

variable {h : Heap} {modules : List (String × ClassId)}
variable {name : String} {c : ClassId} {s : ScopeId}

theorem lookup_named (ho : h.Owned modules) {site : ScopeId}
    (hfound : h.lookup site name = some (.type c, s)) : h.Named c := by
  rcases Scope.local?_cases (local?_of_lookupWithin _ site hfound) with
    ⟨c, ⟨⟩, hc⟩ | ⟨family, ⟨⟩, _⟩ | ⟨v, ⟨⟩, _⟩
  exact (ho.scopes s).classes _ (mem_of_find? hc)

theorem exportFacts_stand (ho : h.Owned modules) (hl : h.Linked)
    (hc : (path, c) ∈ modules) (name : String) :
    ∀ k ∈ exportFacts name ((h.scopeAt (h.classAt c).scope).local? name), k.Stands h modules := by
  have hscope := ho.scopes (h.classAt c).scope
  have hunowned {owner : Option ClassId}
      (hmay : ∀ o, owner = some o → h.MayOwn modules (h.scopeAt (h.classAt c).scope).kind o) :
      owner = none := by
    cases howner : owner with
    | none => rfl
    | some o => exact (module_unowned ho hl hc (hmay o howner)).elim
  intro k hk
  cases hlocal : (h.scopeAt (h.classAt c).scope).local? name with
  | none =>
    rw [hlocal] at hk
    exact absurd hk not_mem_nil
  | some binding =>
    rw [hlocal] at hk
    rcases Scope.local?_cases hlocal with ⟨d, rfl, hd⟩ | ⟨family, rfl, hfamily⟩ | ⟨v, rfl, _⟩
    · rw [mem_singleton.mp hk]
      exact hscope.classes _ (mem_of_find? hd)
    · have hmem := mem_of_find? hfamily
      rw [mem_singleton.mp hk]
      exact ⟨hscope.families _ hmem, fun f hf => hunowned (hscope.functions _ hmem f hf).owner⟩
    · exact absurd hk not_mem_nil

end Heap

def Fact.IsLink : Fact → Prop
  | .scope _ | .type _ | .membersIn _ | .members _ _ | .fields _ _ | .fieldsIn _ => True
  | _ => False

inductive Found (Γ : List Fact) (h : Heap) : Fact → Prop
  | link {k : Fact} (hk : k.IsLink) : Found Γ h k
  | naming {c : ClassId} (hd : .declared c ∈ Γ) : Found Γ h (.naming (h.classAt c).scope)
  | named {site s : ScopeId} {name : String} {c : ClassId}
      (hfound : h.lookup site name = some (.type c, s)) : Found Γ h (.named c)
  | exported {c : ClassId} {name : String} {k : Fact} (hc : .module c ∈ Γ)
      (hk : k ∈ exportFacts name ((h.scopeAt (h.classAt c).scope).local? name)) : Found Γ h k

theorem Finding.found {C : Law} {α : Type} {f : Heap → α} {known : α → List Fact}
    {learned : α → Prop} (hf : Finding C Γ f known learned) (h : Heap) :
    ∀ k ∈ known (f h), Found Γ h k := by
  intro k hk
  cases hf with
  | classScope =>
    simp only [mem_cons, not_mem_nil, or_false] at hk
    rcases hk with rfl | rfl <;> exact .link trivial
  | type c _ hd | bodyScope c _ hd =>
    simp only [mem_cons, not_mem_nil, or_false] at hk
    rcases hk with rfl | rfl | rfl | rfl
    · exact .link trivial
    · exact .link trivial
    · exact .link trivial
    · exact .naming hd
  | fields => exact absurd hk not_mem_nil
  | overload =>
    unfold Overload.facts at hk
    split at hk
    · exact absurd hk not_mem_nil
    · rw [mem_singleton.mp hk]
      exact .link trivial
    · simp only [mem_cons, not_mem_nil, or_false] at hk
      rcases hk with rfl | rfl | rfl <;> exact .link trivial
  | host | slots =>
    obtain ⟨_, _, rfl⟩ := mem_map.mp hk
    exact .link trivial
  | fieldScope | receiver =>
    obtain ⟨_, _, hk⟩ := mem_flatMap.mp hk
    simp only [mem_cons, not_mem_nil, or_false] at hk
    rcases hk with rfl | rfl <;> exact .link trivial
  | name =>
    unfold lookupFacts at hk
    split at hk
    · next c s hfound =>
      rw [mem_singleton.mp hk]
      exact .named hfound
    · exact absurd hk not_mem_nil
  | «export» c name hc => exact .exported hc hk

theorem Found.stands (hf : Found Γ m.heap k)
    (hm : m.Linked) (ho : m.Owned) (hΓ : m.Knows Γ) : k.Stands m.heap m.modules := by
  cases hf with
  | link hk =>
    cases k with
    | scope | type | membersIn | members | fields | fieldsIn => trivial
    | _ => exact hk.elim
  | naming _ => trivial
  | named hfound => exact lookup_named ho.heap hfound
  | exported hc hk =>
    obtain ⟨path, hpath⟩ := hΓ.stands _ hc
    exact exportFacts_stand ho.heap hm.heap hpath _ k hk

theorem declared_mem (c : ClassId) (Γ : List Fact) : .declared c ∈ newClassFacts c ++ Γ :=
  mem_append_left Γ (mem_cons_of_mem _ mem_cons_self)

theorem moduleFacts_stand (ho : m.Owned) (path : String) :
    ∀ k ∈ moduleFacts (m.modules.lookup path), k.Stands m.heap m.modules := by
  intro k hk
  cases hfound : m.modules.lookup path with
  | none =>
    rw [hfound] at hk
    exact absurd hk not_mem_nil
  | some c =>
    rw [hfound] at hk
    have hmem : (path, c) ∈ m.modules := by
      obtain ⟨first, rest, hsplit, _⟩ := lookup_eq_some_iff.mp hfound
      simp_all
    rcases mem_cons.mp hk with rfl | hk
    · exact ⟨path, hmem⟩
    · rw [mem_singleton.mp hk]
      exact ho.heap.modules _ hmem

theorem Heap.newClass_ancestors (h : Heap) {c : Class} (parent : Option ScopeId)
    (hancestors : c.ancestors = none) :
    ((h.newClass c parent).2.classAt h.classes.size).ancestors = none := by
  rw [classAt_newClass, if_pos rfl]
  exact hancestors

theorem Heap.flatten_upholds {h₁ h₂ : Heap} {modules₁ modules₂ : List (String × ClassId)}
    (hnew : h.Upholds modules h₁ modules₁)
    (hbody : h₁.Upholds modules₁ h₂ modules₂) (hl : h₂.Linked) (hc : h.classes.size ≤ c)
    (hnone : (h₁.classAt c).ancestors = none) (hdeclared : (Fact.declared c).Stands h₁ modules₁) :
    h.Upholds modules (h₂.flatten c) modules₂ := by
  have hfirst : (h₂.classAt c).ancestors = none := (hbody.settled c hdeclared.1.lt).trans hnone
  obtain ⟨hnamed, hmodules⟩ := hdeclared.extends hbody.extend
  obtain ⟨howned, hlast, hsettled⟩ := flatten_owned hbody.owned hl hnamed hfirst hmodules
  have hup := hnew.trans hbody
  refine ⟨howned, hup.extend.trans hlast, fun d hd => ?_⟩
  have hdc : d ≠ c := Nat.ne_of_lt (Nat.lt_of_lt_of_le hd hc)
  exact (hsettled d hdc).trans (hup.settled d hd)

end ClassScript
