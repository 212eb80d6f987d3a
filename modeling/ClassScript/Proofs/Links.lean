import ClassScript.Proofs.Built

/-!
# Links in the Heap

A scope links to the scope around it, and a frame also to the scope that its function was defined
in. Following these links takes no more steps than the number of the scope, because every link leads
to an older one, as `Heap.Linked` says; a frame on an instance stands in its fields.
-/

namespace ClassScript

open List Array Heap

variable {α : Type} {xs : Array α} {i : Nat} {h h' : Heap} {kind : ScopeKind}
variable {parent : Option ScopeId} {c : ClassId} {o : ObjectId} {C : Law}

/-- What is known is true of a heap. What classes and scopes are for makes no
    difference to links. -/
def Fact.Holds (h : Heap) : Fact → Prop
  | .scope s => s < h.scopes.size
  | .type c => c < h.classes.size
  | .membersIn s => ∃ c, c < h.classes.size ∧ (h.classAt c).scope = s
  | .members c s => c < h.classes.size ∧ (h.classAt c).scope = s
  | .fields o s => h.payloadOf o = .fields s
  | .fieldsIn s => ∃ o, h.payloadOf o = .fields s
  | .declared _ | .module _ | .named _ | .opened _ | .overload _ _ | .exported _ _ => True
  | .created _ | .own _ | .here | .naming _ | .inside | .importing => True

structure Heap.Grows (h h' : Heap) : Prop where
  scopes : h.scopes.size ≤ h'.scopes.size
  parent : ∀ s, s < h.scopes.size → (h'.scopeAt s).parent = (h.scopeAt s).parent
  kind : ∀ s, s < h.scopes.size → (h'.scopeAt s).kind = (h.scopeAt s).kind
  classes : h.classes.size ≤ h'.classes.size
  classScope : ∀ c, c < h.classes.size → (h'.classAt c).scope = (h.classAt c).scope
  classId : ∀ c, c < h.classes.size → (h'.classAt c).id = (h.classAt c).id
  fields : ∀ o s, h.payloadOf o = .fields s → h'.payloadOf o = .fields s
  type : ∀ o s, h.payloadOf o = .fields s → (h'.objectAt o).type = (h.objectAt o).type
  overloads : h.overloads.size ≤ h'.overloads.size
  overload : ∀ f, f < h.overloads.size → h'.overloadAt f = h.overloadAt f

/-- The links of a scope at a place lead to older scopes. A frame on an instance
    stands in the fields of that instance and is defined in a class. -/
structure Scope.Linked (h : Heap) (s : ScopeId) (sc : Scope) : Prop where
  parent : ∀ p, sc.parent = some p → p < s
  closure : ∀ c r, sc.kind = .frame c r → c < s
  receiver : ∀ c o, sc.kind = .frame c (some o) →
    (Fact.membersIn c).Holds h ∧ ∃ fields, sc.parent = some fields ∧ (Fact.fields o fields).Holds h

structure Class.Linked (h : Heap) (c : ClassId) (info : Class) : Prop where
  id : info.id = c
  scope : info.scope < h.scopes.size
  kind : (h.scopeAt info.scope).kind = .classBody c

structure Object.Linked (h : Heap) (o : ObjectId) (c : ClassId) (s : ScopeId) : Prop where
  type : c < h.classes.size
  scope : s < h.scopes.size
  kind : (h.scopeAt s).kind = .fields o
  parent : (h.scopeAt s).parent = some (h.classAt c).scope

/-- Whatever is referred to is there. -/
structure Heap.Linked (h : Heap) : Prop where
  scopes : ∀ s, s < h.scopes.size → (h.scopeAt s).Linked h s
  classes : ∀ c, c < h.classes.size → (h.classAt c).Linked h c
  objects : ∀ o s, h.payloadOf o = .fields s → Object.Linked h o (h.objectAt o).type s
  overloads : ∀ f, f < h.overloads.size → ∀ k ∈ (h.overloadAt f).facts, k.Holds h

structure Heap.Rooted (h : Heap) : Prop where
  classes : 0 < h.classes.size
  scope : (h.classAt 0).scope = 0

structure Heap.Leads (h h' : Heap) : Prop where
  linked : h'.Linked
  grows : h.Grows h'

/-! ## Reading after writing -/

theorem getD_push (xs : Array α) (a d : α) (i : Nat) :
    (xs.push a).getD i d = if i = xs.size then a else xs.getD i d := by
  simp only [getD_eq_getD_getElem?, getElem?_push]
  by_cases h : i = xs.size
  · rw [if_pos h, if_pos h]; rfl
  · rw [if_neg h, if_neg h]

theorem getD_push_of_lt (hi : i < xs.size) (a d : α) : (xs.push a).getD i d = xs.getD i d := by
  rw [getD_push, if_neg (by omega)]

theorem getD_push_size (xs : Array α) (a d : α) : (xs.push a).getD xs.size d = a := by
  rw [getD_push, if_pos rfl]

theorem getD_modify {β : Type} (g : α → β) (xs : Array α) (f : α → α) (hf : ∀ a, g (f a) = g a)
    (d : α) (i j : Nat) : g ((xs.modify i f).getD j d) = g (xs.getD j d) := by
  simp only [getD_eq_getD_getElem?]
  grind

theorem getD_of_size_le (hi : xs.size ≤ i) (d : α) : xs.getD i d = d := by
  rw [getD_eq_getD_getElem?, Array.getElem?_eq_none hi]
  rfl

theorem lt_size_of_getD {d : α} {P : α → Prop} (hi : P (xs.getD i d)) (hd : ¬ P d) : i < xs.size :=
  Nat.lt_of_not_le fun hge => hd (getD_of_size_le hge d ▸ hi)

/-! ## Growing -/

theorem Fact.Holds.grows (hg : h.Grows h') {k : Fact} (hk : k.Holds h) : k.Holds h' := by
  cases k with
  | scope s => exact Nat.lt_of_lt_of_le hk hg.scopes
  | type c => exact Nat.lt_of_lt_of_le hk hg.classes
  | membersIn s =>
    obtain ⟨c, hc, hs⟩ := hk
    exact ⟨c, Nat.lt_of_lt_of_le hc hg.classes, (hg.classScope c hc).trans hs⟩
  | members c s =>
    obtain ⟨hc, hs⟩ := hk
    exact ⟨Nat.lt_of_lt_of_le hc hg.classes, (hg.classScope c hc).trans hs⟩
  | fields o s => exact hg.fields o s hk
  | fieldsIn s =>
    obtain ⟨o, ho⟩ := hk
    exact ⟨o, hg.fields o s ho⟩
  | _ => trivial

namespace Heap

variable {a b c : Heap}

theorem Grows.refl (h : Heap) : h.Grows h :=
  ⟨Nat.le_refl _, fun _ _ => rfl, fun _ _ => rfl, Nat.le_refl _, fun _ _ => rfl, fun _ _ => rfl,
    fun _ _ hp => hp, fun _ _ _ => rfl, Nat.le_refl _, fun _ _ => rfl⟩

theorem Grows.trans (hab : a.Grows b) (hbc : b.Grows c) : a.Grows c where
  scopes := Nat.le_trans hab.scopes hbc.scopes
  parent s hs := (hbc.parent s (Nat.lt_of_lt_of_le hs hab.scopes)).trans (hab.parent s hs)
  kind s hs := (hbc.kind s (Nat.lt_of_lt_of_le hs hab.scopes)).trans (hab.kind s hs)
  classes := Nat.le_trans hab.classes hbc.classes
  classScope c hc :=
    (hbc.classScope c (Nat.lt_of_lt_of_le hc hab.classes)).trans (hab.classScope c hc)
  classId c hc := (hbc.classId c (Nat.lt_of_lt_of_le hc hab.classes)).trans (hab.classId c hc)
  fields o s hp := hbc.fields o s (hab.fields o s hp)
  type o s hp := (hbc.type o s (hab.fields o s hp)).trans (hab.type o s hp)
  overloads := Nat.le_trans hab.overloads hbc.overloads
  overload f hf := (hbc.overload f (Nat.lt_of_lt_of_le hf hab.overloads)).trans (hab.overload f hf)

theorem Rooted.grows (hr : h.Rooted) (hg : h.Grows h') : h'.Rooted :=
  ⟨Nat.lt_of_lt_of_le hr.classes hg.classes, (hg.classScope 0 hr.classes).trans hr.scope⟩

theorem Leads.trans (hab : a.Leads b) (hbc : b.Leads c) : a.Leads c :=
  ⟨hbc.linked, hab.grows.trans hbc.grows⟩

end Heap

variable {h h' : Heap} {s : ScopeId}

theorem Scope.Linked.grows (hg : h.Grows h') (hs : s < h.scopes.size)
    (hl : (h.scopeAt s).Linked h s) : (h'.scopeAt s).Linked h' s := by
  constructor
  · rw [hg.parent s hs]
    exact hl.parent
  · rw [hg.kind s hs]
    exact hl.closure
  · rw [hg.kind s hs, hg.parent s hs]
    intro c o hk
    obtain ⟨hc, fields, hp, hf⟩ := hl.receiver c o hk
    exact ⟨hc.grows hg, fields, hp, hf.grows hg⟩

theorem Scope.Linked.fresh (hp : ∀ p, parent = some p → p < s) (hk : ∀ c r, kind ≠ .frame c r) :
    (Scope.fresh kind parent).Linked h s :=
  ⟨hp, fun c r hf => absurd hf (hk c r), fun c o hf => absurd hf (hk c (some o))⟩

theorem Class.Linked.grows (hg : h.Grows h') (hc : c < h.classes.size)
    (hl : (h.classAt c).Linked h c) : (h'.classAt c).Linked h' c := by
  constructor
  · rw [hg.classId c hc]
    exact hl.id
  · rw [hg.classScope c hc]
    exact Nat.lt_of_lt_of_le hl.scope hg.scopes
  · rw [hg.classScope c hc, hg.kind _ hl.scope]
    exact hl.kind

theorem Object.Linked.grows
    (hg : h.Grows h') (hl : Object.Linked h o c s) : Object.Linked h' o c s where
  type := Nat.lt_of_lt_of_le hl.type hg.classes
  scope := Nat.lt_of_lt_of_le hl.scope hg.scopes
  kind := (hg.kind s hl.scope).trans hl.kind
  parent := by
    rw [hg.parent s hl.scope, hg.classScope c hl.type]
    exact hl.parent

theorem Heap.Linked.of_grows (hl : h.Linked) (hg : h.Grows h')
    (hscopes : ∀ s, h.scopes.size ≤ s → s < h'.scopes.size → (h'.scopeAt s).Linked h' s)
    (hclasses : ∀ c, h.classes.size ≤ c → c < h'.classes.size → (h'.classAt c).Linked h' c)
    (hobjects : ∀ o s, h'.payloadOf o = .fields s →
      h.payloadOf o = .fields s ∨ Object.Linked h' o (h'.objectAt o).type s)
    (hoverloads : ∀ f, h.overloads.size ≤ f → f < h'.overloads.size →
      ∀ k ∈ (h'.overloadAt f).facts, k.Holds h') : h.Leads h' := by
  refine ⟨⟨fun s hs => ?_, fun c hc => ?_, fun o s hp => ?_, fun f hf k hk => ?_⟩, hg⟩
  · by_cases hold : s < h.scopes.size
    · exact (hl.scopes s hold).grows hg hold
    · exact hscopes s (Nat.le_of_not_lt hold) hs
  · by_cases hold : c < h.classes.size
    · exact (hl.classes c hold).grows hg hold
    · exact hclasses c (Nat.le_of_not_lt hold) hc
  · rcases hobjects o s hp with hold | hnew
    · rw [hg.type o s hold]
      exact (hl.objects o s hold).grows hg
    · exact hnew
  · by_cases hold : f < h.overloads.size
    · rw [hg.overload f hold] at hk
      exact (hl.overloads f hold k hk).grows hg
    · grind

/-! ## Changing a heap -/

namespace Heap

variable {h : Heap}

theorem none_new {P : Nat → Prop} {n n' : Nat} (h : n' ≤ n) (i : Nat) (hi : n ≤ i)
    (hi' : i < n') : P i := by
  omega

theorem lt_of_payloadOf (hp : h.payloadOf o = .fields s) : o < h.objects.size :=
  lt_size_of_getD (P := fun o : Object => o.payload = .fields s) hp nofun

theorem updateScope_leads (hl : h.Linked) (id : ScopeId) (f : Scope → Scope)
    (hf : ∀ sc, (f sc).parent = sc.parent ∧ (f sc).kind = sc.kind) :
    h.Leads (h.updateScope id f) := by
  have hsize : (h.updateScope id f).scopes.size = h.scopes.size := size_modify
  have hg : h.Grows (h.updateScope id f) :=
    { Grows.refl h with
      scopes := Nat.le_of_eq hsize.symm
      parent := fun s _ => getD_modify Scope.parent h.scopes f (fun sc => (hf sc).1) _ id s
      kind := fun s _ => getD_modify Scope.kind h.scopes f (fun sc => (hf sc).2) _ id s }
  exact hl.of_grows hg (none_new (Nat.le_of_eq hsize)) (none_new (Nat.le_refl _))
    (fun o s hp => .inl hp) (none_new (Nat.le_refl _))

theorem updateClass_leads (hl : h.Linked) (id : ClassId) (f : Class → Class)
    (hf : ∀ k, (f k).scope = k.scope ∧ (f k).id = k.id) : h.Leads (h.updateClass id f) := by
  have hsize : (h.updateClass id f).classes.size = h.classes.size := size_modify
  have hg : h.Grows (h.updateClass id f) :=
    { Grows.refl h with
      classes := Nat.le_of_eq hsize.symm
      classScope := fun c _ => getD_modify Class.scope h.classes f (fun k => (hf k).1) _ id c
      classId := fun c _ => getD_modify Class.id h.classes f (fun k => (hf k).2) _ id c }
  exact hl.of_grows hg (none_new (Nat.le_refl _)) (none_new (Nat.le_of_eq hsize))
    (fun o s hp => .inl hp) (none_new (Nat.le_refl _))

theorem payloadOf_updatePayload (f : Payload → Payload) (id o : ObjectId) (s : ScopeId) :
    (h.updatePayload id f).payloadOf o = .fields s ↔ h.payloadOf o = .fields s := by
  have hchange (p : Payload) : (p.change f = .fields s) = (p = .fields s) := by
    unfold Payload.change
    split <;> simp
  have hsame := getD_modify (fun o : Object => o.payload = .fields s) h.objects
    (fun o => { o with payload := o.payload.change f }) (fun o => hchange o.payload) default id o
  exact Iff.of_eq hsame

theorem updatePayload_leads (hl : h.Linked) (id : ObjectId) (f : Payload → Payload) :
    h.Leads (h.updatePayload id f) := by
  have hg : h.Grows (h.updatePayload id f) :=
    { Grows.refl h with
      fields := fun o s hp => (payloadOf_updatePayload f id o s).mpr hp
      type := fun o _ _ => getD_modify Object.type h.objects
        (fun o => { o with payload := o.payload.change f }) (fun _ => rfl) _ id o }
  exact hl.of_grows hg (none_new (Nat.le_refl _)) (none_new (Nat.le_refl _))
    (fun o s hp => .inl ((payloadOf_updatePayload f id o s).mp hp)) (none_new (Nat.le_refl _))

theorem newScope_leads (hl : h.Linked) (kind : ScopeKind) (parent : Option ScopeId)
    (hs : (Scope.fresh kind parent).Linked h h.scopes.size) :
    h.Leads (h.newScope kind parent).2 := by
  have hsize : (h.newScope kind parent).2.scopes.size = h.scopes.size + 1 := size_push _
  have hold (s : ScopeId) (hs : s < h.scopes.size) :
      (h.newScope kind parent).2.scopeAt s = h.scopeAt s := getD_push_of_lt hs _ _
  have hnew : (h.newScope kind parent).2.scopeAt h.scopes.size = .fresh kind parent :=
    getD_push_size _ _ _
  have hg : h.Grows (h.newScope kind parent).2 :=
    { Grows.refl h with
      scopes := by omega
      parent := fun s hs => congrArg Scope.parent (hold s hs)
      kind := fun s hs => congrArg Scope.kind (hold s hs) }
  refine hl.of_grows hg (fun s hs' hs'' => ?_) (none_new (Nat.le_refl _)) (fun o s hp => .inl hp)
    (none_new (Nat.le_refl _))
  obtain rfl : s = h.scopes.size := by omega
  rw [hnew]
  refine ⟨hs.parent, hs.closure, fun c o hk => ?_⟩
  obtain ⟨hc, fields, hp, hf⟩ := hs.receiver c o hk
  exact ⟨hc.grows hg, fields, hp, hf.grows hg⟩

theorem newClass_leads (hl : h.Linked) (c : Class) (parent : Option ScopeId)
    (hp : ∀ p, parent = some p → p < h.scopes.size) : h.Leads (h.newClass c parent).2 := by
  -- First the scope of the members, then the class itself.
  let h₁ := (h.newScope (.classBody h.classes.size) parent).2
  have hscope : h.Leads h₁ := newScope_leads hl _ _ (.fresh hp fun _ _ => nofun)
  refine hscope.trans ?_
  have hnew : h₁.scopeAt h.scopes.size = .fresh (.classBody h.classes.size) parent :=
    getD_push_size _ _ _
  have hsize : (h.newClass c parent).2.classes.size = h₁.classes.size + 1 := size_push _
  have hold (k : ClassId) (hk : k < h₁.classes.size) :
      (h.newClass c parent).2.classAt k = h₁.classAt k := getD_push_of_lt hk _ _
  have hg : h₁.Grows (h.newClass c parent).2 :=
    { Grows.refl h₁ with
      classes := by omega
      classScope := fun k hk => congrArg Class.scope (hold k hk)
      classId := fun k hk => congrArg Class.id (hold k hk) }
  refine hscope.linked.of_grows hg (none_new (Nat.le_refl _)) (fun k hk hk' => ?_)
    (fun o s hp => .inl hp) (none_new (Nat.le_refl _))
  rw [hsize] at hk'
  obtain rfl : k = h.classes.size := Nat.le_antisymm (Nat.le_of_lt_succ hk') hk
  have hclass : (h.newClass c parent).2.classAt h.classes.size
      = { c with id := h.classes.size, scope := h.scopes.size } := getD_push_size _ _ _
  rw [hclass]
  refine ⟨rfl, ?_, congrArg Scope.kind hnew⟩
  change h.scopes.size < (h.scopes.push _).size
  rw [size_push]
  omega

theorem newObject_leads (hl : h.Linked) (type : ClassId) (payload : Payload)
    (hp : ∀ s, payload = .fields s → Object.Linked h h.objects.size type s) :
    h.Leads (h.newObject type payload).2 := by
  have hold (o : ObjectId) (ho : o < h.objects.size) :
      (h.newObject type payload).2.objectAt o = h.objectAt o := getD_push_of_lt ho _ _
  have hnew : (h.newObject type payload).2.objectAt h.objects.size = ⟨type, payload⟩ :=
    getD_push_size _ _ _
  have hg : h.Grows (h.newObject type payload).2 :=
    { Grows.refl h with
      fields := fun o s hp => by
        rw [payloadOf, hold o (lt_of_payloadOf hp)]
        exact hp
      type := fun o s hp => congrArg Object.type (hold o (lt_of_payloadOf hp)) }
  refine hl.of_grows hg (none_new (Nat.le_refl _)) (none_new (Nat.le_refl _)) (fun o s ho => ?_)
    (none_new (Nat.le_refl _))
  have hlt : o < (h.objects.push ⟨type, payload⟩).size := lt_of_payloadOf ho
  rw [size_push] at hlt
  rcases Nat.lt_or_eq_of_le (Nat.le_of_lt_succ hlt) with hlt | rfl
  · rw [payloadOf, hold o hlt] at ho
    exact .inl ho
  · rw [payloadOf, hnew] at ho
    rw [hnew]
    exact .inr ((hp s ho).grows hg)

theorem Rooted.classAt (hr : h.Rooted) (hl : h.Linked) (c : ClassId) :
    (h.classAt c).id < h.classes.size ∧
      (h.classAt (h.classAt c).id).scope = (h.classAt c).scope := by
  rcases Nat.lt_or_ge c h.classes.size with hlt | hge
  · rw [(hl.classes c hlt).id]
    exact ⟨hlt, rfl⟩
  · have hdefault : h.classAt c = default := getD_of_size_le hge _
    rw [hdefault]
    exact ⟨hr.classes, hr.scope⟩

theorem Rooted.classScope_lt (hr : h.Rooted) (hl : h.Linked) (c : ClassId) :
    (h.classAt c).scope < h.scopes.size := by
  obtain ⟨hid, hscope⟩ := hr.classAt hl c
  rw [← hscope]
  exact (hl.classes _ hid).scope

theorem newInstance_leads (hl : h.Linked) (hr : h.Rooted) (type : ClassId) :
    h.Leads (h.newInstance type).2 := by
  -- First the scope of the fields, then the instance itself.
  let h₁ := (h.newScope (.fields h.objects.size) (some (h.classAt type).scope)).2
  have hscope : h.Leads h₁ := by
    refine newScope_leads hl _ _ (.fresh (fun p hp => ?_) fun _ _ => nofun)
    cases hp
    exact hr.classScope_lt hl type
  have hnew : h₁.scopeAt h.scopes.size
      = .fresh (.fields h.objects.size) (some (h.classAt type).scope) :=
    getD_push_size _ _ _
  obtain ⟨hid, hsame⟩ := hr.classAt hl type
  refine hscope.trans (newObject_leads hscope.linked _ _ fun s hs => ?_)
  cases hs
  refine ⟨Nat.lt_of_lt_of_le hid hscope.grows.classes, ?_, congrArg Scope.kind hnew, ?_⟩
  · change h.scopes.size < (h.scopes.push _).size
    rw [size_push]
    omega
  · rw [hnew, hscope.grows.classScope _ hid, hsame]
    rfl

theorem newOverload_grows (h : Heap) (f : Overload) : h.Grows (h.newOverload f).2 :=
  { Grows.refl h with
    overloads := Nat.le_of_lt (Nat.lt_of_lt_of_eq (Nat.lt_succ_self _) (size_push _).symm)
    overload := fun _ hid => getD_push_of_lt hid _ _ }

theorem newOverload_leads (hl : h.Linked) (f : Overload)
    (hf : ∀ k ∈ f.facts, k.Holds h) : h.Leads (h.newOverload f).2 := by
  have hsize : (h.newOverload f).2.overloads.size = h.overloads.size + 1 := size_push _
  have hg := h.newOverload_grows f
  refine hl.of_grows hg (none_new (Nat.le_refl _)) (none_new (Nat.le_refl _))
    (fun o s hp => .inl hp)
    fun id hid hid' k hk => ?_
  obtain rfl : id = h.overloads.size := by omega
  have hnew : (h.newOverload f).2.overloadAt h.overloads.size = f := getD_push_size _ _ _
  rw [hnew] at hk
  exact (hf k hk).grows hg

theorem newCallable_leads (hl : h.Linked) (c : Callable) : h.Leads (h.newCallable c).2 := by
  have hg : h.Grows (h.newCallable c).2 := { Grows.refl h with }
  exact hl.of_grows hg (none_new (Nat.le_refl _)) (none_new (Nat.le_refl _)) (fun o s hp => .inl hp)
    (none_new (Nat.le_refl _))

end Heap

/-! ## Inheritance -/

def Scope.SamePlace (a b : Scope) : Prop :=
  a.parent = b.parent ∧ a.kind = b.kind

namespace Scope

variable {a b : Scope}

theorem SamePlace.trans {c : Scope} (hab : a.SamePlace b) (hbc : b.SamePlace c) : a.SamePlace c :=
  ⟨hab.1.trans hbc.1, hab.2.trans hbc.2⟩

theorem SamePlace.ite {s : Scope} (c : Prop) [Decidable c] (ha : a.SamePlace s)
    (hb : b.SamePlace s) : (if c then a else b).SamePlace s := by
  split
  · exact ha
  · exact hb

theorem SamePlace.foldl {ε : Type} (step : Scope → ε → Scope)
    (hstep : ∀ s e, (step s e).SamePlace s) (es : List ε) :
    ∀ s, (es.foldl step s).SamePlace s := by
  induction es with
  | nil => intro s; exact ⟨rfl, rfl⟩
  | cons e es ih => intro s; exact (ih (step s e)).trans (hstep s e)

theorem mergeClass_samePlace (mode : MergeMode) (s : Scope) (name : String) (c : ClassId) :
    (mergeClass mode s name c).SamePlace s :=
  .ite _ ⟨rfl, rfl⟩ ⟨rfl, rfl⟩

theorem mergeFamily_samePlace (h : Heap) (mode : MergeMode) (s : Scope) (name : String)
    (family : List OverloadId) : (mergeFamily h mode s name family).SamePlace s := by
  refine SamePlace.foldl _ (fun s f => ?_) family s
  exact .ite _ ⟨rfl, rfl⟩ ⟨rfl, rfl⟩

theorem mergeVariable_samePlace (h : Heap) (mode : MergeMode) (s : Scope) (name : String)
    (v : Variable) : (mergeVariable h mode s name v).SamePlace s :=
  .ite _ ⟨rfl, rfl⟩ ⟨rfl, rfl⟩

theorem merge_samePlace (h : Heap) (mode : MergeMode) (source target : Scope) :
    (merge h mode source target).SamePlace target := by
  have hclasses := SamePlace.foldl _ (fun s e => mergeClass_samePlace mode s e.1 e.2)
    source.classes.entries target
  have hfunctions := SamePlace.foldl _ (fun s e => mergeFamily_samePlace h mode s e.1 e.2)
    source.functions.entries
  have hvars := SamePlace.foldl _ (fun s e => mergeVariable_samePlace h mode s e.1 e.2)
    source.vars.entries
  exact (hvars _).trans ((hfunctions _).trans hclasses)

end Scope

namespace Heap

variable {h : Heap}

theorem mergeScopes_leads (hl : h.Linked) (mode : MergeMode)
    (source target : ScopeId) : h.Leads (h.mergeScopes mode source target) :=
  updateScope_leads hl target _ fun sc => Scope.merge_samePlace h mode (h.scopeAt source) sc

theorem mergeSuper_leads (hl : h.Linked) (target : ScopeId) (super : ClassId) :
    h.Leads (h.mergeSuper target super) := by
  unfold mergeSuper
  dsimp only
  cases (h.classAt super).ancestors with
  | none => exact mergeScopes_leads hl _ _ _
  | some grand =>
    have hgrand := mergeScopes_leads hl .replace (h.classAt grand).scope target
    exact hgrand.trans (mergeScopes_leads hgrand.linked _ _ _)

theorem Leads.foldl {ε : Type} {h₀ : Heap} (step : Heap → ε → Heap)
    (hstep : ∀ (h : Heap) (e : ε), h₀.Leads h → h.Leads (step h e)) (es : List ε) :
    ∀ h : Heap, h₀.Leads h → h₀.Leads (es.foldl step h) := by
  induction es with
  | nil => intro h hl; exact hl
  | cons e es ih => intro h hl; exact ih (step h e) (hl.trans (hstep h e hl))

theorem Leads.refl (hl : h.Linked) : h.Leads h := ⟨hl, Grows.refl h⟩

theorem flatten_leads (hl : h.Linked) (id : ClassId) : h.Leads (h.flatten id) := by
  unfold flatten
  dsimp only
  split
  · exact .refl hl
  · -- The class of the ancestors' members stands where the class itself does.
    have hparent (p : ScopeId) (hp : (h.scopeAt (h.classAt id).scope).parent = some p) :
        p < h.scopes.size := by
      have hlt := lt_size_of_getD (P := fun sc : Scope => sc.parent = some p) hp nofun
      exact Nat.lt_trans ((hl.scopes _ hlt).parent p hp) hlt
    have hnew := newClass_leads hl (Class.fresh ((h.classAt id).name ++ ".super") [] true .private)
      (h.scopeAt (h.classAt id).scope).parent hparent
    generalize h.newClass _ _ = shadow at hnew ⊢
    have hsupers := Leads.foldl (fun h p => h.mergeSuper (shadow.2.classAt shadow.1).scope p)
      (fun h p hl => mergeSuper_leads hl.linked _ p) (h.classAt id).supers shadow.2
      (.refl hnew.linked)
    have hown := mergeScopes_leads hsupers.linked .keep (shadow.2.classAt shadow.1).scope
      (h.classAt id).scope
    refine hnew.trans (hsupers.trans (hown.trans ?_))
    exact updateClass_leads hown.linked id _ fun k => ⟨rfl, rfl⟩

theorem exportClass_leads (hl : h.Linked) (name : String) (source : ScopeId)
    (parent : Option ScopeId) (hp : ∀ p, parent = some p → p < h.scopes.size) :
    h.Leads (h.exportClass name source parent).2 := by
  have hnew := newClass_leads hl (Class.fresh name [] true .public) parent hp
  exact hnew.trans (updateScope_leads hnew.linked _ _ fun sc => ⟨rfl, rfl⟩)

end Heap

variable {Γ : List Fact} {h : Heap}

/-! ## Steps -/

theorem Write.leads {f : Heap → Heap} (hf : Write C Γ f) (hl : h.Linked) : h.Leads (f h) := by
  cases hf with
  | «variable» s name v kept _ _ =>
    refine updateScope_leads hl s _ fun sc => ?_
    cases kept sc <;> exact ⟨rfl, rfl⟩
  | slot s name value kept _ =>
    refine updateScope_leads hl s _ fun sc => ?_
    unfold Scope.assign
    cases kept sc <;> cases sc.vars.find? name <;> exact ⟨rfl, rfl⟩
  | copy s name c _ _ =>
    refine updateScope_leads hl s _ fun sc => ?_
    unfold Scope.copy
    cases (h.scopeAt (h.classAt c).scope).vars.find? name <;> exact ⟨rfl, rfl⟩
  | overload s id f _ _ | family s name overloads _ _ | «class» s name c _ _ =>
    exact updateScope_leads hl s _ fun _ => ⟨rfl, rfl⟩
  | field f _ _ => exact updateClass_leads hl _ _ fun _ => ⟨rfl, rfl⟩
  | contents id f => exact updatePayload_leads hl id f

theorem Creation.leads {f : Heap → Nat × Heap} (hf : Creation Γ f)
    (hl : h.Linked) : h.Leads (f h).2 := by
  cases hf with
  | object type payload _ hp =>
    refine newObject_leads hl type payload fun s hs => ?_
    rw [hs] at hp
    cases hp
  | callable c => exact newCallable_leads hl c

theorem Opening.leads (ho : Opening Γ kind parent) (hl : h.Linked) (hΓ : ∀ k ∈ Γ, k.Holds h) :
    h.Leads (h.newScope kind parent).2 := by
  refine newScope_leads hl kind parent ?_
  cases ho with
  | module globals hg =>
    refine .fresh (fun p hp => ?_) fun _ _ => nofun
    cases hp
    exact hΓ _ hg
  | block outer ho =>
    refine .fresh (fun p hp => ?_) fun _ _ => nofun
    cases hp
    exact hΓ _ ho
  | function closure hc =>
    refine ⟨fun p hp => ?_, fun c r hk => ?_, fun c o hk => by cases hk⟩
    · cases hp
      exact hΓ _ hc
    · cases hk
      exact hΓ _ hc
  | method closure object fields hc hm hs hf =>
    refine ⟨fun p hp => ?_, fun c r hk => ?_, fun c o hk => ?_⟩
    · cases hp
      exact hΓ _ hs
    · cases hk
      exact hΓ _ hc
    · cases hk
      exact ⟨hΓ _ hm, fields, rfl, hΓ _ hf⟩

theorem Heap.Linked.fieldScope (hl : h.Linked) (hs : h.fieldScope? (.object o) = some s) :
    (Fact.scope s).Holds h ∧ (Fact.fields o s).Holds h := by
  have hp : h.payloadOf o = .fields s := by
    unfold Heap.fieldScope? at hs
    grind
  exact ⟨(hl.objects o s hp).scope, hp⟩

theorem Heap.Linked.class_eq (hl : h.Linked) {a b : ClassId} (ha : a < h.classes.size)
    (hb : b < h.classes.size) (hab : (h.classAt a).scope = (h.classAt b).scope) : a = b := by
  have hkind := (hl.classes a ha).kind
  rw [hab, (hl.classes b hb).kind] at hkind
  cases hkind
  rfl

theorem Heap.Linked.bodyScope (hl : h.Linked) (hc : c < h.classes.size) :
    ∀ k ∈ [Fact.scope (h.classAt c).scope, .membersIn (h.classAt c).scope,
      .members c (h.classAt c).scope, .naming (h.classAt c).scope], k.Holds h := by
  simp only [forall_mem_cons]
  exact ⟨(hl.classes c hc).scope, ⟨c, hc, rfl⟩, ⟨hc, rfl⟩, trivial, forall_mem_nil _⟩

theorem Finding.holds {f : Heap → α} {known : α → List Fact}
    {learned : α → Prop} (hf : Finding C Γ f known learned) (hl : h.Linked)
    (hr : h.Rooted) (hΓ : ∀ k ∈ Γ, k.Holds h) : ∀ k ∈ known (f h), k.Holds h := by
  cases hf with
  | classScope c =>
    intro k hk
    rcases mem_cons.mp hk with rfl | hk
    · exact hr.classScope_lt hl c
    · rw [mem_singleton.mp hk]
      exact ⟨_, hr.classAt hl c⟩
  | type c hc _ | bodyScope c hc _ => exact hl.bodyScope (hΓ _ hc)
  | fields => simp
  | overload id =>
    dsimp only
    rcases Nat.lt_or_ge id h.overloads.size with hlt | hge
    · exact hl.overloads id hlt
    · have hdefault : h.overloadAt id = default := getD_of_size_le hge _
      rw [hdefault]
      exact fun k hk => absurd hk not_mem_nil
  | host =>
    intro k hk
    obtain ⟨kind, hkind, rfl⟩ := mem_map.mp hk
    exact lt_size_of_getD (P := fun k : Class => kind ∈ k.host.toList) hkind not_mem_nil
  | fieldScope o =>
    dsimp only
    cases hs : h.fieldScope? (.object o) with
    | none => simp
    | some s =>
      obtain ⟨hscope, hfields⟩ := hl.fieldScope hs
      simp_all
  | slots v =>
    intro k hk
    obtain ⟨s, hs, rfl⟩ := mem_map.mp hk
    rw [Option.mem_toList] at hs
    cases v with
    | object o => exact ⟨o, (hl.fieldScope hs).2⟩
    | _ => cases hs
  | receiver =>
    dsimp only
    unfold Invocation.boundInstance?
    split
    · rename_i id _
      split
      · exact fun k hk => absurd hk not_mem_nil
      · cases hs : h.fieldScope? (.object id) with
        | none => simp
        | some s =>
          obtain ⟨hscope, hfields⟩ := hl.fieldScope hs
          simp [hscope, hfields]
    · exact fun k hk => absurd hk not_mem_nil
  | name =>
    intro k hk
    unfold lookupFacts at hk
    split at hk
    · rw [mem_singleton.mp hk]
      trivial
    · exact absurd hk not_mem_nil
  | «export» =>
    intro k hk
    unfold exportFacts at hk
    split at hk
    · rw [mem_singleton.mp hk]
      trivial
    · rw [mem_singleton.mp hk]
      trivial
    · exact absurd hk not_mem_nil

end ClassScript
