import ClassScript.Proofs.Inheritance.Owning

/-!
# The World Before a Program

The built-in classes are made one after the other, each after those it inherits from. These steps
are said here once, so that what is true before a program runs needs a proof for each kind of step.
-/

namespace ClassScript

open List Array Heap

inductive Heap.Prepares (h : Heap) : Heap → Prop
  | newScope (parent : Option ScopeId) (hp : ∀ p, parent = some p → p < h.scopes.size) :
      h.Prepares (h.newScope .module parent).2
  | newClass (c : Class) (parent : Option ScopeId) (hp : ∀ p, parent = some p → p < h.scopes.size)
      (hfresh : c.ancestors = none ∧ c.fields = []) (hs : ∀ p ∈ c.supers, h.Named p) :
      h.Prepares (h.newClass c parent).2
  | newOverload (f : Overload) {native : Native} (hf : f.body = .native native) :
      h.Prepares (h.newOverload f).2
  | variable {c : ClassId} (hn : h.Named c) (hnone : (h.classAt c).ancestors = none)
      (name : String) (v : Variable) (hv : v.owner = some c) :
      h.Prepares (World.addVariable h (h.classAt c).scope name v)
  | method {c : ClassId} (hn : h.Named c) (hnone : (h.classAt c).ancestors = none)
      (id : OverloadId) (hid : id < h.overloads.size) (hf : (h.overloadAt id).owner = some c) :
      h.Prepares (h.updateScope (h.classAt c).scope (Scope.addOverload h id))
  | function {s : ScopeId} (hs : (h.scopeAt s).kind = .module) (id : OverloadId)
      (hid : id < h.overloads.size) (hf : (h.overloadAt id).owner = none) :
      h.Prepares (h.updateScope s (Scope.addOverload h id))
  | name (s : ScopeId) {c : ClassId} (hn : h.Named c) : h.Prepares (World.bindClass h s c)
  | field (c : ClassId) (name : String) (value : Literal) :
      h.Prepares (World.install h (.field c name value))
  | native (c : ClassId) : h.Prepares (h.updateClass c fun k => { k with nativeConstruct := true })
  | operators (row : ClassId × OperatorFamily × List Operator) :
      h.Prepares (World.installOperators h row)

inductive Heap.Prepared : Heap → Prop
  | empty : Prepared Heap.empty
  | step {h h' : Heap} (hp : Prepared h) (hl : h.Linked) (ho : h.Owned []) (hstep : h.Prepares h') :
      Prepared h'
  | flatten {h : Heap} {c : ClassId} (hp : Prepared h) (hl : h.Linked) (ho : h.Owned [])
      (hn : h.Named c) (hnone : (h.classAt c).ancestors = none) : Prepared (h.flatten c)

structure Heap.Settles (h h' : Heap) : Prop where
  leads : h.Leads h'
  upholds : h.Upholds [] h' []
  prepared : h.Prepared → h'.Prepared

namespace Heap

variable {h h' : Heap} {c : ClassId}

theorem Settles.refl (hl : h.Linked) (ho : h.Owned []) : h.Settles h := ⟨.refl hl, .refl ho, id⟩

theorem Settles.trans {a b c : Heap} (hab : a.Settles b) (hbc : b.Settles c) : a.Settles c :=
  ⟨hab.leads.trans hbc.leads, hab.upholds.trans hbc.upholds,
    fun hp => hbc.prepared (hab.prepared hp)⟩

theorem Settles.named (hs : h.Settles h') (hc : h.Named c) : h'.Named c :=
  hc.extends hs.upholds.extend

theorem Settles.none (hs : h.Settles h') (hc : h.Named c)
    (hnone : (h.classAt c).ancestors = none) : (h'.classAt c).ancestors = none :=
  (hs.upholds.settled c hc.lt).trans hnone

theorem Settles.foldl {ε : Type} {h₀ : Heap} (step : Heap → ε → Heap) (es : List ε)
    (hstep : ∀ h, h₀.Settles h → ∀ e ∈ es, h.Settles (step h e)) :
    ∀ h, h₀.Settles h → h₀.Settles (es.foldl step h) := by
  induction es with
  | nil => intro h hs; exact hs
  | cons e es ih =>
    intro h hs
    refine ih (fun h' hs' e' he' => hstep h' hs' e' (mem_cons_of_mem e he')) _ ?_
    exact hs.trans (hstep h hs e mem_cons_self)

theorem empty_linked : Heap.empty.Linked :=
  ⟨fun _ hs => absurd hs (Nat.not_lt_zero _), fun _ hc => absurd hc (Nat.not_lt_zero _),
    fun _ _ hp => absurd (lt_of_payloadOf hp) (Nat.not_lt_zero _),
    fun _ hf => absurd hf (Nat.not_lt_zero _)⟩

theorem empty_owned : Heap.empty.Owned [] where
  scopes _ := .fresh (fun c (hc : ScopeKind.module = .classBody c) => by cases hc) none
  supers _ := nofun
  shadows c g hg := by cases hg
  modules := nofun

theorem Fits.self (hc : h.Named c) : h.Fits [] c c :=
  ⟨fun _ => .self c, fun d hd => absurd hd (hc.shadow d), nofun⟩

theorem MayHold.self (hc : h.Named c) {f : Overload}
    (hf : f.owner = some c) : h.MayHold [] (.classBody c) f := by
  refine ⟨fun o ho => ?_, fun d hd _ o ho hne => ?_⟩
  · obtain rfl : c = o := Option.some.inj (hf.symm.trans ho)
    exact Fits.self hc
  · simp_all

theorem Prepares.leads (hstep : h.Prepares h') (hl : h.Linked) : h.Leads h' := by
  cases hstep with
  | newScope parent hp => exact newScope_leads hl .module parent (.fresh hp fun _ _ => nofun)
  | newClass c parent hp _ _ => exact newClass_leads hl c parent hp
  | newOverload f hf =>
    refine newOverload_leads hl f fun k hk => ?_
    unfold Overload.facts at hk
    simp_all
  | «variable» | method | function | name => exact updateScope_leads hl _ _ fun _ => ⟨rfl, rfl⟩
  | field | native | operators => exact updateClass_leads hl _ _ fun _ => ⟨rfl, rfl⟩

theorem Prepares.settles (hstep : h.Prepares h') (hl : h.Linked) (ho : h.Owned []) :
    h.Settles h' := by
  have hlead := hstep.leads hl
  refine ⟨hlead, ?_, fun hp => .step hp hl ho hstep⟩
  cases hstep with
  | newScope => exact newScope_upholds ho hlead.grows rfl rfl fun _ => nofun
  | newClass c parent hp hfresh hs => exact newClass_upholds ho hlead hfresh.1 hs
  | newOverload => exact upholds_of_same ho hlead.grows rfl rfl
  | @«variable» c hn hnone name v hv =>
    refine updateScope_upholds ho hlead ((ho.scopes _).insertVariable name fun o howner => ?_)
    rw [(hl.classes c hn.lt).kind, ← Option.some.inj (hv.symm.trans howner)]
    exact Fits.self hn
  | @method c hn hnone id hid hf =>
    refine updateScope_upholds ho hlead ((ho.scopes _).addOverload hid ?_)
    rw [(hl.classes c hn.lt).kind]
    exact .self hn hf
  | function hs id hid hf =>
    exact updateScope_upholds ho hlead ((ho.scopes _).addOverload hid (.of_unowned hf))
  | name s hn => exact updateScope_upholds ho hlead ((ho.scopes s).insertClass _ hn)
  | field | native | operators => exact updateClass_upholds ho hlead fun _ => ⟨rfl, rfl, rfl⟩

end Heap

namespace World

variable {h : Heap}

def Entry.type : Entry → ClassId
  | .method type _ _ _ | .static type _ _ _ | .construct type _ _ | .property type _ _
  | .constant type _ _ | .field type _ _ => type

section Install

variable (hl : h.Linked) (ho : h.Owned [])

include hl ho

theorem newOverload_settles (f : Overload) {native : Native} (hf : f.body = .native native) :
    h.Settles (h.newOverload f).2 ∧ h.overloads.size < (h.newOverload f).2.overloads.size ∧
      (h.newOverload f).2.overloadAt h.overloads.size = f :=
  ⟨(Heap.Prepares.newOverload f hf).settles hl ho,
    Nat.lt_of_lt_of_eq (Nat.lt_succ_self _) (size_push _).symm, getD_push_size _ _ _⟩

theorem install_settles (e : Entry) (hn : h.Named e.type)
    (hnone : (h.classAt e.type).ancestors = none) : h.Settles (install h e) := by
  have hmethod (f : Overload) {native : Native} (hf : f.body = .native native)
      (howner : f.owner = some e.type) : h.Settles (addFunction h (h.classAt e.type).scope f) := by
    obtain ⟨hnew, hlt, hthere⟩ := newOverload_settles hl ho f hf
    have hstep := Heap.Prepares.method (hnew.named hn) (hnew.none hn hnone) h.overloads.size hlt
      ((congrArg Overload.owner hthere).trans howner)
    exact hnew.trans (hstep.settles hnew.leads.linked hnew.upholds.owned)
  cases e with
  | method | static => exact hmethod _ rfl rfl
  | construct type params f =>
    have hadd := hmethod (member type (h.classAt type).name params true f) rfl rfl
    exact hadd.trans ((Heap.Prepares.native type).settles hadd.leads.linked hadd.upholds.owned)
  | property type name f =>
    obtain ⟨hnew, -, -⟩ := newOverload_settles hl ho (member type name [] false f) rfl
    have hstep := Heap.Prepares.variable (hnew.named hn) (hnew.none hn hnone) name
      ⟨.accessor (some h.overloads.size) none, false, false, .public, some type⟩ rfl
    exact hnew.trans (hstep.settles hnew.leads.linked hnew.upholds.owned)
  | constant type name value =>
    exact (Heap.Prepares.variable hn hnone name
      ⟨.slot value, true, true, .public, some type⟩ rfl).settles hl ho
  | field type name value => exact (Heap.Prepares.field type name value).settles hl ho

end Install

theorem bareClasses_settle (cs : List Class) : ∀ h : Heap, h.Linked → h.Owned [] →
    (∀ c, (h.classAt c).ancestors = none) →
    (∀ i, (hi : i < cs.length) → (cs[i].ancestors = none ∧ cs[i].fields = []) ∧
      ∀ p ∈ cs[i].supers, p < h.classes.size + i) →
    h.Settles (cs.foldl (fun h c => (h.newClass c none).2) h) ∧
      (∀ c, ((cs.foldl (fun h c => (h.newClass c none).2) h).classAt c).ancestors = none) ∧
      (cs.foldl (fun h c => (h.newClass c none).2) h).classes.size =
        h.classes.size + cs.length := by
  induction cs with
  | nil => intro h hl ho hnone _; exact ⟨.refl hl ho, hnone, rfl⟩
  | cons c cs ih =>
    intro h hl ho hnone hcs
    obtain ⟨hfresh, hsupers⟩ := hcs 0 (Nat.zero_lt_succ _)
    have hnew : h.Settles (h.newClass c none).2 :=
      (Heap.Prepares.newClass c none nofun hfresh fun p hp =>
        ⟨hsupers p hp, fun d hd => by rw [hnone d] at hd; cases hd⟩).settles hl ho
    have hsize : (h.newClass c none).2.classes.size = h.classes.size + 1 := size_push _
    obtain ⟨hrest, hnone', hsize'⟩ := ih _ hnew.leads.linked hnew.upholds.owned
      (fun d => by
        rw [classAt_newClass]
        split
        · exact hfresh.1
        · exact hnone d)
      (fun i hi => by
        obtain ⟨hancestors, hlt⟩ := hcs (i + 1) (Nat.succ_lt_succ hi)
        refine ⟨hancestors, fun p hp => ?_⟩
        rw [hsize, Nat.add_right_comm]
        exact hlt p hp)
    refine ⟨hnew.trans hrest, hnone', ?_⟩
    rw [foldl_cons, length_cons]
    omega

theorem flattenAll_prepared (cs : List ClassId) (hcs : cs.Nodup) : ∀ h : Heap, h.Linked →
    h.Owned [] → h.Prepared → (∀ c ∈ cs, h.Named c ∧ (h.classAt c).ancestors = none) →
    h.Leads (cs.foldl Heap.flatten h) ∧ (cs.foldl Heap.flatten h).Owned [] ∧
      h.Extends [] (cs.foldl Heap.flatten h) [] ∧ (cs.foldl Heap.flatten h).Prepared := by
  induction cs with
  | nil => intro h hl ho hp _; exact ⟨.refl hl, ho, .refl h [], hp⟩
  | cons c cs ih =>
    intro h hl ho hp hready
    obtain ⟨hnotin, hnodup⟩ := nodup_cons.mp hcs
    obtain ⟨hnamed, hnone⟩ := hready c mem_cons_self
    obtain ⟨howned, hext, hsettled⟩ := flatten_owned ho hl hnamed hnone nofun
    have hlead := flatten_leads hl c
    obtain ⟨hrest, howned', hext', hprepared⟩ := ih hnodup _ hlead.linked howned
      (.flatten hp hl ho hnamed hnone) fun d hd => by
        obtain ⟨hnamed', hnone'⟩ := hready d (mem_cons_of_mem c hd)
        have hne : d ≠ c := fun hdc => hnotin (hdc ▸ hd)
        exact ⟨hnamed'.extends hext, (hsettled d hne).trans hnone'⟩
    exact ⟨hlead.trans hrest, howned', hext.trans hext', hprepared⟩

theorem classes_ordered : ∀ i, (hi : i < classes.length) →
    (classes[i].ancestors = none ∧ classes[i].fields = []) ∧
      ∀ p ∈ classes[i].supers, p < Heap.empty.classes.size + i := by
  decide

theorem entries_ordered : ∀ e ∈ entries, e.type < classes.length := by decide +kernel

theorem classHeap_prepared : Heap.empty.Leads classHeap ∧ classHeap.Owned [] ∧
    classHeap.Rooted ∧ classHeap.Prepared ∧ ∀ c, c < classes.length → classHeap.Named c := by
  let bare := classes.foldl (fun h c => (h.newClass c none).2) Heap.empty
  obtain ⟨hbare, hnone, hsize⟩ : Heap.empty.Settles bare ∧
    (∀ c, (bare.classAt c).ancestors = none) ∧
      bare.classes.size = Heap.empty.classes.size + classes.length :=
    bareClasses_settle classes Heap.empty empty_linked empty_owned (fun _ => rfl)
      classes_ordered
  have hroot : bare.Rooted := ⟨by decide, by decide⟩
  have hnamed (c : ClassId) (hc : c < classes.length) : bare.Named c :=
    ⟨Nat.lt_of_lt_of_eq hc (hsize.trans (Nat.zero_add _)).symm,
      fun d hd => absurd ((hnone d).symm.trans hd) nofun⟩
  have hentries := Heap.Settles.foldl install entries (fun h hs e he => by
    have hn := hnamed _ (entries_ordered e he)
    exact install_settles hs.leads.linked hs.upholds.owned e (hs.named hn) (hs.none hn (hnone _)))
    bare (.refl hbare.leads.linked hbare.upholds.owned)
  have hfull := Heap.Settles.foldl installOperators operators (fun h hs row _ =>
    (Heap.Prepares.operators row).settles hs.leads.linked hs.upholds.owned) _ hentries
  -- Nothing has been taken over up to here.
  obtain ⟨hlead, howned, hext, hprepared⟩ := flattenAll_prepared
    ((List.range classes.length).drop 1) (nodup_range.sublist (drop_sublist 1 _)) _
    hfull.leads.linked hfull.upholds.owned (hfull.prepared (hbare.prepared .empty)) fun c hc => by
      have hn := hnamed c (mem_range.mp (mem_of_mem_drop hc))
      exact ⟨hfull.named hn, hfull.none hn (hnone c)⟩
  exact ⟨hbare.leads.trans (hfull.leads.trans hlead), howned,
    (hroot.grows hfull.leads.grows).grows hlead.grows, hprepared,
    fun c hc => (hfull.named (hnamed c hc)).extends hext⟩

theorem functions_native {f : Overload} (hf : f ∈ functions) :
    f.owner = none ∧ ∃ native, f.body = .native native := by
  unfold functions at hf
  grind

theorem heap_settled : classHeap.Settles heap.2 ∧ heap.1 < heap.2.scopes.size := by
  obtain ⟨hlead, howned, -, -, hnamed⟩ := classHeap_prepared
  have hlinked := hlead.linked
  unfold heap
  generalize classHeap = start at howned hnamed hlinked ⊢
  have hscope : start.Settles (start.newScope .module none).2 :=
    (Heap.Prepares.newScope none nofun).settles hlinked howned
  have hlt : start.scopes.size < (start.newScope .module none).2.scopes.size :=
    Nat.lt_of_lt_of_eq (Nat.lt_succ_self _) (size_push _).symm
  have hkind : ((start.newScope .module none).2.scopeAt start.scopes.size).kind = .module := by
    rw [scopeAt_newScope, if_pos rfl]
    rfl
  have hclasses := Heap.Settles.foldl (fun h c => bindClass h (start.newScope .module none).1 c)
    (List.range classes.length) (fun h hs c hc =>
      (Heap.Prepares.name _ (hs.named (hscope.named (hnamed c (mem_range.mp hc))))).settles
        hs.leads.linked hs.upholds.owned) _ (.refl hscope.leads.linked hscope.upholds.owned)
  have hall := Heap.Settles.foldl (fun h f => addFunction h (start.newScope .module none).1 f)
    functions (fun h hs f hf => by
      obtain ⟨howner, native, hbody⟩ := functions_native hf
      obtain ⟨hnew, hid, hthere⟩ := newOverload_settles hs.leads.linked hs.upholds.owned f hbody
      have hmodule : ((h.newOverload f).2.scopeAt start.scopes.size).kind = .module :=
        (hs.leads.grows.kind _ hlt).trans hkind
      exact hnew.trans ((Heap.Prepares.function hmodule h.overloads.size hid
        ((congrArg Overload.owner hthere).trans howner)).settles hnew.leads.linked
          hnew.upholds.owned)) _ hclasses
  exact ⟨hscope.trans hall, Nat.lt_of_lt_of_le hlt hall.leads.grows.scopes⟩

theorem registerHost_settles (hl : h.Linked) (ho : h.Owned []) (hobject : h.Named ClassId.object)
    {globals : ScopeId} (hg : globals < h.scopes.size) (kind : HostClass) :
    h.Settles (registerHost globals h kind) := by
  let c : Class := { Class.fresh (hostName kind) [ClassId.object] false .public with
    host := some kind }
  let made := (h.newClass c (some globals)).2
  have hstep : h.Prepares made := by
    refine .newClass c (some globals) (fun p hp => ?_) ⟨rfl, rfl⟩ fun p hp => ?_
    · cases hp
      exact hg
    · rw [mem_singleton.mp hp]
      exact hobject
  have hmade := hstep.settles hl ho
  have hdeclared := newClass_named ho (c := c) (some globals) rfl
  have hnone : (made.classAt h.classes.size).ancestors = none :=
    newClass_ancestors h (some globals) rfl
  have hflat : h.Settles (made.flatten h.classes.size) :=
    ⟨hmade.leads.trans (flatten_leads hmade.leads.linked _),
      flatten_upholds hmade.upholds (.refl hmade.upholds.owned) hmade.leads.linked
        (Nat.le_refl _) hnone hdeclared,
      fun hp => .flatten (hmade.prepared hp) hmade.leads.linked hmade.upholds.owned
        hdeclared.1 hnone⟩
  have hnamed : (made.flatten h.classes.size).Named h.classes.size :=
    hdeclared.1.extends (flatten_owned hmade.upholds.owned hmade.leads.linked hdeclared.1
      hnone nofun).2.1
  exact hflat.trans ((Heap.Prepares.name globals hnamed).settles hflat.leads.linked
    hflat.upholds.owned)

end World

namespace Machine

section

variable (config : Config) (disk : Disk) (hosts : List HostClass)
include config disk hosts

theorem initial_settles :
    World.classHeap.Settles (initial config disk hosts).heap ∧
      (initial config disk hosts).registers.scope < (initial config disk hosts).heap.scopes.size ∧
      (initial config disk hosts).globals < (initial config disk hosts).heap.scopes.size := by
  obtain ⟨hworld, hglobals⟩ := World.heap_settled
  have hobject : World.heap.2.Named ClassId.object :=
    hworld.named (World.classHeap_prepared.2.2.2.2 ClassId.object (by decide))
  unfold initial
  dsimp only
  generalize World.heap = world at hworld hobject hglobals ⊢
  have hhosts := Heap.Settles.foldl (World.registerHost world.1) hosts
    (fun h hs kind _ => World.registerHost_settles hs.leads.linked hs.upholds.owned
      (hs.named hobject) (Nat.lt_of_lt_of_le hglobals hs.leads.grows.scopes) kind) world.2
    (.refl hworld.leads.linked hworld.upholds.owned)
  generalize hosts.foldl (World.registerHost world.1) world.2 = start at hhosts ⊢
  have hstart : world.1 < start.scopes.size := Nat.lt_of_lt_of_le hglobals hhosts.leads.grows.scopes
  have hscope : start.Settles (start.newScope .module (some world.1)).2 := by
    refine (Heap.Prepares.newScope (some world.1) fun p hp => ?_).settles hhosts.leads.linked
      hhosts.upholds.owned
    cases hp
    exact hstart
  exact ⟨(hworld.trans hhosts).trans hscope,
    Nat.lt_of_lt_of_eq (Nat.lt_succ_self _) (size_push _).symm,
    Nat.lt_of_lt_of_le hstart hscope.leads.grows.scopes⟩

theorem initial_prepared : (initial config disk hosts).heap.Prepared :=
  (initial_settles config disk hosts).1.prepared World.classHeap_prepared.2.2.2.1

theorem initial_linked : (initial config disk hosts).Linked := by
  obtain ⟨hsettles, hscope, hglobals⟩ := initial_settles config disk hosts
  exact ⟨hsettles.leads.linked, World.classHeap_prepared.2.2.1.grows hsettles.leads.grows, hscope,
    hglobals⟩

theorem initial_named {c : ClassId} (hc : c < World.classes.length) :
    (initial config disk hosts).heap.Named c :=
  (initial_settles config disk hosts).1.named (World.classHeap_prepared.2.2.2.2 c hc)

theorem initial_owned : (initial config disk hosts).Owned :=
  ⟨(initial_settles config disk hosts).1.upholds.owned, initial_named config disk hosts (by decide),
    initial_named config disk hosts (by decide)⟩

end

end Machine

end ClassScript
