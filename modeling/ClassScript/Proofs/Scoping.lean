import ClassScript.Proofs.Confinement

/-!
# What a Name in a Method Means

The frame of a method has two scopes around it: the fields of the instance, and the scope in which
the method was defined. A name is looked up along the first way to its end, and only then along
the second.
-/

namespace ClassScript

open List Machine Scope

variable {closure : ScopeId}

theorem Scope.detachedClosure?_of_plain {s : Scope} {kind : ScopeKind} (hk : s.kind = kind)
    (hplain : ∀ closure receiver, kind ≠ .frame closure receiver) :
    s.detachedClosure? = none := by
  unfold Scope.detachedClosure?
  simp_all

namespace Heap

variable {h : Heap} {s : ScopeId} {name : String}

def around (h : Heap) : Option ScopeId → List ScopeId
  | none => []
  | some s => h.chain s

def declaredIn (h : Heap) (c : ClassId) : Option ScopeId :=
  (h.scopeAt (h.classAt c).scope).parent

def Lacks (h : Heap) (name : String) (s : ScopeId) : Prop :=
  (h.scopeAt s).local? name = none

instance decidableLacks (h : Heap) (name : String) (s : ScopeId) : Decidable (h.Lacks name s) :=
  decidable_of_iff (((h.scopeAt s).local? name).isNone = true) Option.isNone_iff_eq_none

def closuresOf (h : Heap) (scopes : List ScopeId) : List ScopeId :=
  scopes.filterMap fun s => (h.scopeAt s).detachedClosure?

/-- The frame of a call of a method on an instance. -/
structure MethodFrame (h : Heap) (frame : ScopeId) (c : ClassId) (o : ObjectId) : Prop where
  type : c < h.classes.size
  kind : (h.scopeAt frame).kind = .frame (h.classAt c).scope (some o)

instance decidableMethodFrame (h : Heap) (frame : ScopeId) (c : ClassId) (o : ObjectId) :
    Decidable (h.MethodFrame frame c o) :=
  decidable_of_iff (c < h.classes.size ∧
      (h.scopeAt frame).kind = .frame (h.classAt c).scope (some o))
    ⟨fun ⟨ht, hk⟩ => ⟨ht, hk⟩, fun ⟨ht, hk⟩ => ⟨ht, hk⟩⟩

/-- A name is neither in a frame on an instance, nor among its fields, nor among the
    members of its class. -/
structure FreeInMethod (h : Heap) (name : String) (frame : ScopeId) (o : ObjectId) : Prop where
  frame : h.Lacks name frame
  fields : ∀ fields ∈ h.fieldScope? (.object o), h.Lacks name fields
  members : h.Lacks name (h.classAt (h.objectAt o).type).scope

instance decidableFreeInMethod (h : Heap) (name : String) (frame : ScopeId) (o : ObjectId) :
    Decidable (h.FreeInMethod name frame o) :=
  decidable_of_iff (h.Lacks name frame ∧
      (∀ fields ∈ h.fieldScope? (.object o), h.Lacks name fields) ∧
      h.Lacks name (h.classAt (h.objectAt o).type).scope)
    ⟨fun ⟨hf, hs, hm⟩ => ⟨hf, hs, hm⟩, fun ⟨hf, hs, hm⟩ => ⟨hf, hs, hm⟩⟩

theorem lt_of_frame {receiver : Option ObjectId}
    (hk : (h.scopeAt s).kind = .frame closure receiver) : s < h.scopes.size :=
  lt_size_of_getD (P := fun sc : Scope => sc.kind = .frame closure receiver) hk nofun

namespace Linked

variable {h : Heap} (hl : h.Linked)

include hl

theorem parent_lt {p : ScopeId} (hp : (h.scopeAt s).parent = some p) : p < s :=
  (hl.scopes s (lt_size_of_getD (P := fun sc : Scope => sc.parent = some p) hp nofun)).parent p hp

theorem follow_eq : ∀ (n n' : Nat) (s : ScopeId), s < n → s < n' →
    h.follow Scope.parent n (some s) = h.follow Scope.parent n' (some s) := by
  intro n
  induction n with
  | zero => simp
  | succ n ih =>
    intro n' s hs hs'
    cases n' with
    | zero => exact absurd hs' (Nat.not_lt_zero s)
    | succ n' =>
      rw [follow, follow]
      cases hp : (h.scopeAt s).parent with
      | none => cases n <;> cases n' <;> rfl
      | some p =>
        have hlt := hl.parent_lt hp
        grind

theorem chain_eq (s : ScopeId) : h.chain s = s :: h.around (h.scopeAt s).parent := by
  rw [chain, follow]
  cases hp : (h.scopeAt s).parent with
  | none => cases s <;> rfl
  | some p =>
    have hlt := hl.parent_lt hp
    rw [hl.follow_eq s (p + 1) p hlt (Nat.lt_succ_self p)]
    rfl

theorem le_of_mem_chain (s : ScopeId) : ∀ t ∈ h.chain s, t ≤ s := by
  induction s using Nat.strongRecOn with
  | ind s ih =>
    intro t ht
    rw [hl.chain_eq s] at ht
    rcases mem_cons.mp ht with rfl | ht
    · exact Nat.le_refl t
    · cases hp : (h.scopeAt s).parent with
      | none =>
        rw [hp] at ht
        exact absurd ht not_mem_nil
      | some p =>
        rw [hp] at ht
        have hlt := hl.parent_lt hp
        exact Nat.le_trans (ih p hlt t ht) (Nat.le_of_lt hlt)

theorem lt_of_mem_closuresOf {c : ScopeId} (hc : c ∈ h.closuresOf (h.chain s)) : c < s := by
  obtain ⟨t, ht, hclosure⟩ := mem_filterMap.mp hc
  have hle := hl.le_of_mem_chain s t ht
  unfold Scope.detachedClosure? at hclosure
  cases hk : (h.scopeAt t).kind with
  | frame closure receiver =>
    have hold := (hl.scopes t (lt_of_frame hk)).closure closure receiver hk
    grind
  | _ =>
    rw [hk] at hclosure
    cases hclosure

end Linked

theorem findAlong_append (h : Heap) (name : String) (ss ts : List ScopeId) :
    h.findAlong name (ss ++ ts) = (h.findAlong name ss).or (h.findAlong name ts) := by
  induction ss with
  | nil => rfl
  | cons s ss ih =>
    rw [cons_append, findAlong, findAlong]
    cases (h.scopeAt s).local? name with
    | some binding => rfl
    | none => exact ih

theorem findAlong_of_lacks {ss : List ScopeId}
    (hss : ∀ s ∈ ss, h.Lacks name s) : h.findAlong name ss = none := by
  induction ss with
  | nil => rfl
  | cons s ss ih =>
    have hs : (h.scopeAt s).local? name = none := hss s mem_cons_self
    rw [findAlong]
    simp_all

theorem findSome?_congr {α β : Type} {f g : α → Option β} {as : List α}
    (hfg : ∀ a ∈ as, f a = g a) : as.findSome? f = as.findSome? g := by
  induction as with
  | nil => rfl
  | cons a as ih => grind

namespace Linked

variable {h : Heap} (hl : h.Linked)
variable {c : ClassId} {frame : ScopeId} {o : ObjectId}

include hl

theorem lookupWithin_eq (name : String) : ∀ (n n' : Nat) (s : ScopeId), s < n → s < n' →
    h.lookupWithin name n s = h.lookupWithin name n' s := by
  intro n
  induction n with
  | zero => simp
  | succ n ih =>
    intro n' s hs hs'
    cases n' with
    | zero => exact absurd hs' (Nat.not_lt_zero s)
    | succ n' =>
      have hclosures : (h.closuresOf (h.chain s)).findSome? (h.lookupWithin name n ·)
          = (h.closuresOf (h.chain s)).findSome? (h.lookupWithin name n' ·) := by
        refine findSome?_congr fun c hc => ?_
        have hlt := hl.lt_of_mem_closuresOf hc
        exact ih n' c (Nat.lt_of_lt_of_le hlt (Nat.le_of_lt_succ hs))
          (Nat.lt_of_lt_of_le hlt (Nat.le_of_lt_succ hs'))
      rw [lookupWithin, lookupWithin]
      cases h.findAlong name (h.chain s) with
      | some found => rfl
      | none => exact hclosures

theorem lookup_eq (s : ScopeId) (name : String) :
    h.lookup s name = (h.findAlong name (h.chain s)).or
      ((h.closuresOf (h.chain s)).findSome? (h.lookup · name)) := by
  have hclosures : (h.closuresOf (h.chain s)).findSome? (h.lookupWithin name s ·)
      = (h.closuresOf (h.chain s)).findSome? (h.lookup · name) := by
    refine findSome?_congr fun c hc => ?_
    exact hl.lookupWithin_eq name s (c + 1) c (hl.lt_of_mem_closuresOf hc) (Nat.lt_succ_self c)
  rw [lookup, lookupWithin]
  cases h.findAlong name (h.chain s) with
  | some found => rfl
  | none => exact hclosures

theorem detachedClosure?_members (hc : c < h.classes.size) :
    (h.scopeAt (h.classAt c).scope).detachedClosure? = none :=
  detachedClosure?_of_plain (hl.classes c hc).kind fun _ _ => nofun

theorem lookup_members (hc : c < h.classes.size) (name : String) :
    h.lookup (h.classAt c).scope name =
      (h.findAlong name [(h.classAt c).scope]).or
        ((h.declaredIn c).bind fun place => h.lookup place name) := by
  have hchain : h.chain (h.classAt c).scope
      = [(h.classAt c).scope] ++ h.around (h.declaredIn c) := hl.chain_eq _
  have hclosures : h.closuresOf (h.chain (h.classAt c).scope)
      = h.closuresOf (h.around (h.declaredIn c)) := by
    rw [hchain, closuresOf, filterMap_append, filterMap_cons,
      hl.detachedClosure?_members hc]
    rfl
  rw [hl.lookup_eq, hclosures, hchain, findAlong_append, Option.or_assoc]
  congr 1
  cases h.declaredIn c with
  | none => rfl
  | some place => exact (hl.lookup_eq place name).symm

theorem chain_methodFrame (hf : h.MethodFrame frame c o) :
    ∃ fields, h.fieldScope? (.object o) = some fields ∧
      (h.scopeAt frame).parent = some fields ∧ (h.scopeAt fields).kind = .fields o ∧
      (h.objectAt o).type < h.classes.size ∧
      h.chain frame = [frame, fields, (h.classAt (h.objectAt o).type).scope] ++
        h.around (h.declaredIn (h.objectAt o).type) := by
  obtain ⟨-, fields, hparent, hpayload⟩ :=
    (hl.scopes frame (lt_of_frame hf.kind)).receiver _ _ hf.kind
  have hobject := hl.objects o fields hpayload
  refine ⟨fields, ?_, hparent, hobject.kind, hobject.type, ?_⟩
  · unfold fieldScope?
    dsimp only
    rw [show h.payloadOf o = .fields fields from hpayload]
  · rw [hl.chain_eq frame, hparent, around, hl.chain_eq fields, hobject.parent, around,
      hl.chain_eq (h.classAt (h.objectAt o).type).scope]
    rfl

theorem detachedClosure?_methodFrame (hf : h.MethodFrame frame c o) :
    (h.scopeAt frame).detachedClosure? = some (h.classAt c).scope := by
  obtain ⟨fields, -, hparent, hkind, -, -⟩ := hl.chain_methodFrame hf
  have hne : (h.scopeAt frame).parent ≠ some (h.classAt c).scope := by
    rw [hparent]
    intro heq
    rw [Option.some.inj heq, (hl.classes c hf.type).kind] at hkind
    cases hkind
  unfold Scope.detachedClosure?
  rw [hf.kind]
  dsimp only
  rw [if_neg hne]

theorem lookup_inMethod {inner : List ScopeId}
    (hf : h.MethodFrame frame c o) (hs : h.chain s = inner ++ h.chain frame)
    (hblocks : ∀ t ∈ inner, (h.scopeAt t).kind = .block) (hinner : ∀ t ∈ inner, h.Lacks name t)
    (hfree : h.FreeInMethod name frame o) :
    h.lookup s name =
      (h.findAlong name (h.around (h.declaredIn (h.objectAt o).type))).or
        ((h.lookup (h.classAt c).scope name).or
          ((h.closuresOf (h.around (h.declaredIn (h.objectAt o).type))).findSome?
            (h.lookup · name))) := by
  obtain ⟨fields, hfield, -, hkind, htype, hchain⟩ := hl.chain_methodFrame hf
  have hnear : ∀ t ∈ inner ++ [frame, fields, (h.classAt (h.objectAt o).type).scope],
      h.Lacks name t := by
    intro t ht
    simp only [mem_append, mem_cons, not_mem_nil, or_false] at ht
    rcases ht with ht | rfl | rfl | rfl
    · exact hinner t ht
    · exact hfree.frame
    · exact hfree.fields t hfield
    · exact hfree.members
  -- Of the scopes up to the members of the class, only the frame is defined elsewhere.
  have hclosures : h.closuresOf (inner ++ [frame, fields, (h.classAt (h.objectAt o).type).scope])
      = [(h.classAt c).scope] := by
    have hnone : inner.filterMap (fun t => (h.scopeAt t).detachedClosure?) = [] :=
      filterMap_eq_nil_iff.mpr fun t ht =>
        detachedClosure?_of_plain (hblocks t ht) fun _ _ => nofun
    have hplain : (h.scopeAt fields).detachedClosure? = none :=
      detachedClosure?_of_plain hkind fun _ _ => nofun
    rw [closuresOf, filterMap_append, hnone]
    simp [hl.detachedClosure?_methodFrame hf, hplain, hl.detachedClosure?_members htype]
  rw [hl.lookup_eq, hs, hchain, ← append_assoc, findAlong_append, findAlong_of_lacks hnear]
  congr 1
  rw [closuresOf, filterMap_append]
  change ((h.closuresOf _) ++ (h.closuresOf _)).findSome? _ = _
  rw [hclosures, findSome?_append, findSome?_cons]
  cases h.lookup (h.classAt c).scope name <;> rfl

end Linked

end Heap

theorem Invocation.frame_methodFrame {m : Machine} (hm : m.Linked) {id : OverloadId}
    {body : List Stmt} {c : ClassId} {o : ObjectId} {frame : ScopeId}
    {m' : Machine} (hc : (m.heap.overloadAt id).owner = some c)
    (hstatic : (m.heap.overloadAt id).isStatic = false)
    (hbody : (m.heap.overloadAt id).body = .script body closure)
    (ho : (m.heap.fieldScope? (.object o)).isSome)
    (hframe : Invocation.frame (m.heap.overloadAt id) closure (some (.object o)) m
      = .done frame m') : m'.heap.MethodFrame frame c o := by
  have hid : id < m.heap.overloads.size :=
    lt_size_of_getD (P := fun ov : Overload => ov.owner = some c) hc nofun
  have hmembers : (Fact.members c closure).Holds m.heap := by
    refine hm.heap.overloads id hid _ ?_
    rw [Declaration.facts_of_member hbody hc]
    simp
  obtain ⟨fields, hfields⟩ := Option.isSome_iff_exists.mp ho
  have hbound : Invocation.boundInstance? m.heap (m.heap.overloadAt id) (some (.object o))
      = some (o, fields) := by
    unfold Invocation.boundInstance?
    rw [hc]
    dsimp only
    rw [hstatic, hfields]
    rfl
  have hrun : Invocation.frame (m.heap.overloadAt id) closure (some (.object o)) m
      = Eval.create (·.newScope (.frame closure (some o)) (some fields)) m := by
    unfold Invocation.frame
    rw [Eval.bind_apply]
    unfold Eval.ask
    dsimp only
    rw [hbound]
  rw [hrun] at hframe
  cases hframe
  refine ⟨hmembers.1, ?_⟩
  change ((m.heap.scopes.push _).getD m.heap.scopes.size _).kind = _
  rw [getD_push_size, ← hmembers.2]
  rfl

/-- From the frame of a method, a name that neither the method nor the instance has means what it
    means around the declaration of the instance's class, or else among the members of the method's
    class, or else from where that class was declared, or else from the defining scopes of the
    frames around the first. -/
theorem Reachable.lookup_methodFrame {m : Machine} (hm : Reachable m) :
    (∀ (id : OverloadId) (body : List Stmt) (closure : ScopeId) (c : ClassId) (o : ObjectId)
        (frame : ScopeId) (m' : Machine),
      (m.heap.overloadAt id).owner = some c → (m.heap.overloadAt id).isStatic = false →
      (m.heap.overloadAt id).body = .script body closure →
      (m.heap.fieldScope? (.object o)).isSome →
      Invocation.frame (m.heap.overloadAt id) closure (some (.object o)) m = .done frame m' →
      m'.heap.MethodFrame frame c o) ∧
    (∀ (frame s : ScopeId) (c : ClassId) (o : ObjectId) (inner : List ScopeId) (name : String),
      m.heap.MethodFrame frame c o → m.heap.chain s = inner ++ m.heap.chain frame →
      (∀ t ∈ inner, (m.heap.scopeAt t).kind = .block) → (∀ t ∈ inner, m.heap.Lacks name t) →
      m.heap.FreeInMethod name frame o →
      m.heap.lookup s name =
        (m.heap.findAlong name (m.heap.around (m.heap.declaredIn (m.heap.objectAt o).type))).or
          (((m.heap.findAlong name [(m.heap.classAt c).scope]).or
              ((m.heap.declaredIn c).bind fun place => m.heap.lookup place name)).or
            ((m.heap.closuresOf
              (m.heap.around (m.heap.declaredIn (m.heap.objectAt o).type))).findSome?
              (m.heap.lookup · name)))) := by
  have hl := hm.linked
  constructor
  · intro id body closure c o frame m' hc hstatic hbody ho hframe
    exact Invocation.frame_methodFrame hl hc hstatic hbody ho hframe
  · intro frame s c o inner name hf hs hblocks hinner hfree
    rw [← hl.heap.lookup_members hf.type name]
    exact hl.heap.lookup_inMethod hf hs hblocks hinner hfree

def Request.shadowing : Request :=
  .source "var helper = 1; class B \x7b fn m() \x7b return helper; \x7d \x7d
    fn make() \x7b var helper = 2; class D : B \x7b \x7d return D(); \x7d make().m()"

def Machine.inMethod (m : Machine) : Bool :=
  (Heap.instanceOf? (m.heap.scopeAt m.registers.scope)).isSome

def Machine.shadowed : Machine :=
  (Request.shadowing.perform (watchedLevel Machine.inMethod 40)
    (Machine.initial Config.standard default [])).machine

theorem Machine.shadowed_reachable : Reachable Machine.shadowed :=
  .request (.initial Config.standard default []) Machine.inMethod 40 Request.shadowing

def Body.isScript : Body → Bool
  | .script _ _ => true
  | .native _ => false

theorem Machine.shadowed_lookup : (Machine.shadowed.heap.MethodFrame 58 50 0 ∧
      Machine.shadowed.heap.FreeInMethod "helper" 58 0 ∧
      Machine.shadowed.heap.inherits (Machine.shadowed.heap.objectAt 0).type 50 = true ∧
      (Machine.shadowed.heap.lookup 58 "helper").map (·.2) = some 54 ∧
      ((Machine.shadowed.heap.declaredIn 50).bind fun place =>
        Machine.shadowed.heap.lookup place "helper").map (·.2) = some 51) ∧
    (Machine.shadowed.heap.overloadAt 89).owner = some 50 ∧
      (Machine.shadowed.heap.overloadAt 89).isStatic = false ∧
      (Machine.shadowed.heap.overloadAt 89).body.isScript = true ∧
      (Machine.shadowed.heap.fieldScope? (.object 0)).isSome = true := by
  decide +kernel

theorem Reachable.lookup_methodFrame_shadowed :
    (∃ frame m' body closure,
      (Machine.shadowed.heap.overloadAt 89).body = .script body closure ∧
      Invocation.frame (Machine.shadowed.heap.overloadAt 89) closure (some (.object 0))
        Machine.shadowed = .done frame m' ∧ m'.heap.MethodFrame frame 50 0) ∧
    ∃ binding, (Machine.shadowed.heap.findAlong "helper" (Machine.shadowed.heap.around
      (Machine.shadowed.heap.declaredIn (Machine.shadowed.heap.objectAt 0).type))).or
        (((Machine.shadowed.heap.findAlong "helper" [(Machine.shadowed.heap.classAt 50).scope]).or
            ((Machine.shadowed.heap.declaredIn 50).bind fun place =>
              Machine.shadowed.heap.lookup place "helper")).or
          ((Machine.shadowed.heap.closuresOf (Machine.shadowed.heap.around
            (Machine.shadowed.heap.declaredIn (Machine.shadowed.heap.objectAt 0).type))).findSome?
              (Machine.shadowed.heap.lookup · "helper"))) = some (binding, 54) := by
  obtain ⟨⟨hframe, hfree, -, hlookup, -⟩, howner, hstatic, hscript, hfields⟩ :=
    shadowed_lookup
  have horder := Reachable.lookup_methodFrame shadowed_reachable
  generalize Machine.shadowed = m at hframe hfree hlookup howner hstatic hscript hfields horder ⊢
  constructor
  · obtain ⟨body, closure, hbody⟩ : ∃ body closure,
        (m.heap.overloadAt 89).body = .script body closure := by
      cases hb : (m.heap.overloadAt 89).body with
      | script body closure => exact ⟨body, closure, rfl⟩
      | native f =>
        rw [hb] at hscript
        cases hscript
    obtain ⟨frame, m', hrun⟩ : ∃ frame m', Invocation.frame (m.heap.overloadAt 89) closure
        (some (.object 0)) m = .done frame m' := by
      unfold Invocation.frame
      rw [Eval.bind_apply]
      unfold Eval.ask
      dsimp only
      cases Invocation.boundInstance? m.heap (m.heap.overloadAt 89) (some (.object 0)) with
      | none => exact ⟨_, _, rfl⟩
      | some bound => exact ⟨_, _, rfl⟩
    exact ⟨frame, m', body, closure, hbody, hrun,
      horder.1 89 body closure 50 0 frame m' howner hstatic hbody hfields hrun⟩
  · have hempty (P : ScopeId → Prop) : ∀ t ∈ ([] : List ScopeId), P t :=
      fun t ht => absurd ht not_mem_nil
    rw [← horder.2 58 58 50 0 [] "helper" hframe rfl (hempty _) (hempty _) hfree]
    obtain ⟨found, hfound, hscope⟩ := Option.map_eq_some_iff.mp hlookup
    refine ⟨found.1, ?_⟩
    rw [hfound, ← hscope]

theorem lookup_is_not_lexical :
    ¬ ∀ m : Machine, Reachable m →
      ∀ (frame : ScopeId) (c : ClassId) (o : ObjectId) (name : String),
        m.heap.MethodFrame frame c o → m.heap.inherits (m.heap.objectAt o).type c = true →
        m.heap.FreeInMethod name frame o →
        m.heap.lookup frame name =
          (m.heap.declaredIn c).bind fun place => m.heap.lookup place name := by
  intro hlexical
  obtain ⟨⟨hframe, hfree, hinherits, hhere, hthere⟩, -⟩ := shadowed_lookup
  have hsame := hlexical Machine.shadowed shadowed_reachable 58 50 0 "helper" hframe
    hinherits hfree
  rw [hsame, hthere] at hhere
  exact absurd hhere (by decide)

end ClassScript
