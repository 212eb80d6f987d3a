import ClassScript.Proofs.Ages

/-!
# What Becomes of a Variable

A slot gets a value, if it is no constant; what is declared is new; a parameter comes in the place
of what is no constant; and what is imported by its name comes in the place of anything. Once a
class has a variable, nothing but an assignment changes it.
-/

namespace ClassScript

open Heap OrderedMap Scope

def Heap.varAt? (h : Heap) (s : ScopeId) (name : String) : Option Variable :=
  (h.scopeAt s).vars.find? name

theorem Variable.isConst_withValue (v : Variable) (value : Value) :
    (v.withValue value).isConst = v.isConst := by
  obtain ⟨storage, isConst, isStatic, access, owner⟩ := v
  cases storage <;> rfl

namespace Scope

variable {sc : Scope} {name : String}

theorem isConst_of_not_hasConstant {v : Variable} (hv : sc.vars.find? name = some v)
    (hnot : ¬ sc.hasConstant name = true) : v.isConst = false := by
  rw [hasConstant, hv] at hnot
  exact Bool.eq_false_iff.mpr hnot

theorem find?_assign (sc : Scope) (name : String) (value : Value) (name' : String) :
    (sc.assign name value).vars.find? name' =
      if name = name' then (sc.vars.find? name).map (·.withValue value)
      else sc.vars.find? name' := by
  unfold assign
  cases hv : sc.vars.find? name with
  | none => grind
  | some v => exact find?_insert _ _ _ _

theorem find?_copy (source : Scope) {name' : String} (hname : name ≠ name') :
    (sc.copy name source).vars.find? name' = sc.vars.find? name' := by
  unfold copy
  split
  · exact (find?_insert _ _ _ _).trans (if_neg hname)
  · rfl

end Scope

namespace Heap

variable {h : Heap} {s t : ScopeId} {name : String}

theorem lt_of_varAt? {v : Variable} (hv : h.varAt? s name = some v) : s < h.scopes.size :=
  lt_size_of_getD (P := fun sc : Scope => sc.vars.find? name = some v) hv nofun

theorem varAt?_congr {h' : Heap} (hs : h'.scopeAt s = h.scopeAt s) :
    h'.varAt? s name = h.varAt? s name :=
  congrArg (fun sc => sc.vars.find? name) hs

theorem varAt?_updateScope (f : Scope → Scope) (hs : s < h.scopes.size) :
    (h.updateScope s f).varAt? s name = (f (h.scopeAt s)).vars.find? name := by
  rw [varAt?, scopeAt_updateScope, if_pos ⟨rfl, hs⟩]

theorem varAt?_updateScope_of_ne (f : Scope → Scope) (hts : t ≠ s) :
    (h.updateScope t f).varAt? s name = h.varAt? s name := by
  rw [varAt?, scopeAt_updateScope, if_neg fun h => hts h.1]
  rfl

theorem payloadOf_newObject (h : Heap) (type : ClassId) (payload : Payload) (o : ObjectId) :
    (h.newObject type payload).2.payloadOf o =
      if o = h.objects.size then payload else h.payloadOf o := by
  unfold payloadOf objectAt newObject
  rw [getD_push]
  split <;> rfl

def PlainFields (h : Heap) : Prop :=
  ∀ o s name v, h.payloadOf o = .fields s → h.varAt? s name = some v → v.isConst = false

end Heap

namespace Machine

def Assigns (m m' : Machine) (s : ScopeId) (name : String) (value : Value) : Prop :=
  m' = { m with heap := m.heap.updateScope s (·.assign name value) }

/-- A step that copies a variable of a module into a scope that was opened for running code. -/
def Imports (m m' : Machine) (s : ScopeId) (name : String) : Prop :=
  ∃ path c, (path, c) ∈ m.modules ∧ (m.heap.scopeAt s).kind.IsOpened ∧
    m' =
      { m with
        heap := m.heap.updateScope s (·.copy name (m.heap.scopeAt (m.heap.classAt c).scope)) }

inductive Alters (m m' : Machine) (s : ScopeId) (name : String) : Prop
  | kept (hsame : m'.heap.varAt? s name = m.heap.varAt? s name)
  | assigned {v : Variable} {value : Value} (hv : m.heap.varAt? s name = some v)
      (hconst : v.isConst = false) (hassigns : m.Assigns m' s name value)
  | declared (hnone : m.heap.varAt? s name = none) (hkind : ∀ o, m.heap.payloadOf o ≠ .fields s)
  | bound (hkind : (m.heap.scopeAt s).kind.IsOpened)
      (hconst : ∀ v, m.heap.varAt? s name = some v → v.isConst = false)
  | field {o : ObjectId} {v : Variable} (hfields : m.heap.payloadOf o = .fields s)
      (hv : m'.heap.varAt? s name = some v) (hconst : v.isConst = false)
  | imported (himports : m.Imports m' s name)

variable {m m' : Machine} {s : ScopeId} {name : String}

theorem Assigns.varAt? {value : Value} (hassigns : m.Assigns m' s name value) {v : Variable}
    (hv : m.heap.varAt? s name = some v) :
    m'.heap.varAt? s name = some (v.withValue value) := by
  subst hassigns
  have hfind : (m.heap.scopeAt s).vars.find? name = some v := hv
  rw [varAt?_updateScope _ (lt_of_varAt? hv), find?_assign, if_pos rfl, hfind]
  rfl

theorem Steady.not_fields (hm : m.Steady)
    (hkind : (m.heap.scopeAt s).kind.IsOpened ∨ ∃ c, (m.heap.scopeAt s).kind = .classBody c)
    (o : ObjectId) : m.heap.payloadOf o ≠ .fields s := by
  intro hfields
  have hs := (hm.linked.heap.objects o s hfields).kind
  rcases hkind with hopened | ⟨c, hc⟩
  · rw [hs] at hopened
    exact hopened
  · rw [hs] at hc
    cases hc

end Machine

section Writes

variable {m : Machine} {Γ : List Fact} {s : ScopeId} {name : String} {kept : Scope → Bool}

theorem Putting.alters {v : Variable} (hp : Putting Γ s name v kept) (hm : m.Steady)
    (hΓ : m.Ready Γ) (hs : s < m.heap.scopes.size) :
    m.Alters
      { m with
        heap := m.heap.updateScope s fun sc =>
          if kept sc then sc else { sc with vars := sc.vars.insert name v } } s name := by
  by_cases hkept : kept (m.heap.scopeAt s) = true
  · refine .kept ?_
    rw [varAt?_updateScope _ hs, if_pos hkept]
    rfl
  · cases hp with
    | declared v hplace =>
      refine .declared ?_ (hm.not_fields ?_)
      · -- Otherwise the name has a variable, and keeps it.
        cases hv : m.heap.varAt? s name with
        | none => rfl
        | some old => exact absurd (congrArg Option.isSome hv) hkept
      · rcases hplace with hown | ⟨c, hc⟩
        · exact .inl (hΓ.allowed _ hown)
        · obtain ⟨hlt, hscope⟩ := hΓ.knows.holds _ hc
          exact .inr ⟨c, hscope ▸ (hm.linked.heap.classes c hlt).kind⟩
    | bound value hown =>
      exact .bound (hΓ.allowed _ hown) fun v hv => isConst_of_not_hasConstant hv hkept
    | field o v hfields hconst =>
      refine .field (hΓ.knows.holds _ hfields) ?_ hconst
      rw [varAt?_updateScope _ hs]
      exact (find?_insert _ _ _ _).trans (if_pos rfl)

section

variable (hp : Assigning Γ s name kept) (hplain : m.heap.PlainFields) (hΓ : m.Ready Γ)
  (hs : s < m.heap.scopes.size) (value : Value)
include hp hplain hΓ hs value

theorem Assigning.kept_or_assigned : let m' :=
      { m with
        heap := m.heap.updateScope s fun sc => if kept sc then sc else sc.assign name value }
    m'.heap.varAt? s name = m.heap.varAt? s name ∨
      ∃ v, m.heap.varAt? s name = some v ∧ v.isConst = false ∧ m.Assigns m' s name value := by
  intro m'
  by_cases hkept : kept (m.heap.scopeAt s) = true
  · refine .inl ?_
    rw [varAt?_updateScope _ hs, if_pos hkept]
    rfl
  · have hassigns : m'.heap = m.heap.updateScope s (·.assign name value) :=
      updateScope_congr (if_neg hkept)
    cases hv : m.heap.varAt? s name with
    | none =>
      refine .inl ?_
      have hfind : (m.heap.scopeAt s).vars.find? name = none := hv
      rw [hassigns, varAt?_updateScope _ hs, find?_assign, if_pos rfl, hfind]
      rfl
    | some v =>
      have hmachine : m.Assigns m' s name value :=
        congrArg (fun h => ({ m with heap := h } : Machine)) hassigns
      refine .inr ⟨v, rfl, ?_, hmachine⟩
      cases hp with
      | checked => exact isConst_of_not_hasConstant hv hkept
      | field hfields =>
        obtain ⟨o, ho⟩ := hΓ.knows.holds _ hfields
        exact hplain o s name v ho hv

theorem Assigning.alters :
    m.Alters
      { m with
        heap := m.heap.updateScope s fun sc =>
          if kept sc then sc else sc.assign name value } s name := by
  rcases hp.kept_or_assigned hplain hΓ hs value with hsame | ⟨v, hv, hconst, hassigns⟩
  · exact .kept hsame
  · exact .assigned hv hconst hassigns

end

theorem Write.alters {f : Heap → Heap} (hf : Write False Γ f) (hm : m.Steady)
    (hplain : m.heap.PlainFields) (hΓ : m.Ready Γ) (hs : s < m.heap.scopes.size) :
    m.Alters { m with heap := f m.heap } s name := by
  -- A change of another scope, or of another name, is not noticed.
  have hother {t : ScopeId} (f : Scope → Scope) (hts : t ≠ s) :
      m.Alters { m with heap := m.heap.updateScope t f } s name :=
    .kept (varAt?_updateScope_of_ne f hts)
  have hsame (f : Scope → Scope)
      (hf : (f (m.heap.scopeAt s)).vars.find? name = (m.heap.scopeAt s).vars.find? name) :
      m.Alters { m with heap := m.heap.updateScope s f } s name :=
    .kept ((varAt?_updateScope f hs).trans hf)
  cases hf with
  | «variable» t name' v kept _ hp =>
    by_cases hts : t = s
    · subst hts
      by_cases hname : name' = name
      · subst hname
        exact hp.alters hm hΓ hs
      · refine hsame _ ?_
        split
        · rfl
        · exact (find?_insert _ _ _ _).trans (if_neg hname)
    · exact hother _ hts
  | slot t name' value kept hp =>
    by_cases hts : t = s
    · subst hts
      by_cases hname : name' = name
      · subst hname
        exact hp.alters hplain hΓ hs value
      · refine hsame _ ?_
        split
        · rfl
        · exact (find?_assign _ _ _ _).trans (if_neg hname)
    · exact hother _ hts
  | copy t name' c hc ho =>
    by_cases hts : t = s
    · subst hts
      by_cases hname : name' = name
      · subst hname
        obtain ⟨path, hpath⟩ := hΓ.knows.stands _ hc
        exact .imported ⟨path, c, hpath, hΓ.allowed _ ho, rfl⟩
      · exact hsame _ (find?_copy _ hname)
    · exact hother _ hts
  | overload t id f _ _ | family t name' overloads _ _ | «class» t name' c _ _ =>
    by_cases hts : t = s
    · subst hts
      exact hsame _ rfl
    · exact hother _ hts
  | field | contents => exact .kept rfl

end Writes

namespace Machine

variable {m m' : Machine} {s : ScopeId} {name : String}

theorem Moves.alters (hmove : m.Moves m') (hplain : m.heap.PlainFields)
    (hs : s < m.heap.scopes.size) (name : String) : m.Alters m' s name := by
  have hm := hmove.before
  have hnew (kind : ScopeKind) (parent : Option ScopeId) :
      (m.heap.newScope kind parent).2.varAt? s name = m.heap.varAt? s name :=
    varAt?_congr ((scopeAt_newScope ..).trans (if_neg (Nat.ne_of_lt hs)))
  cases hmove.step with
  | still hheap _ => exact .kept (by rw [hheap])
  | write hf hΓ => exact hf.alters hm hplain hΓ hs
  | create hf _ => cases hf <;> exact .kept rfl
  | newScope kind parent _ => exact .kept (hnew kind parent)
  | newInstance | newClass => exact .kept (hnew _ _)
  | newOverload => exact .kept rfl
  | flatten c hn _ _ =>
    by_cases hsupers : (m.heap.classAt c).supers = []
    · exact .kept (by rw [flatten_of_supers_nil hsupers])
    · have htakes := flatten_takesOver hm.linked.heap hn.lt hsupers
      by_cases hsc : s = (m.heap.classAt c).scope
      · subst hsc
        cases hv : m.heap.varAt? (m.heap.classAt c).scope name with
        | none =>
          exact .declared hv
            (hm.not_fields (.inr ⟨c, (hm.linked.heap.classes c hn.lt).kind⟩))
        | some v =>
          -- What the class has itself is not replaced by what it takes over.
          refine .kept (Eq.trans ?_ hv.symm)
          rw [Heap.varAt?, htakes.ownScope]
          exact merge_keep_variable hv
      · exact .kept (varAt?_congr (htakes.otherScope s (Nat.ne_of_lt hs) hsc))
  | «export» path name source parent _ =>
    exact .kept (varAt?_congr (exportClass_scopeAt name source parent hs))

theorem Step.fields_before (hstep : m.Step m') {o : ObjectId}
    (hfields : m'.heap.payloadOf o = .fields s) (name : String) :
    m.heap.payloadOf o = .fields s ∨ m'.heap.varAt? s name = none := by
  cases hstep with
  | still hheap _ => exact .inl (hheap ▸ hfields)
  | write hf _ =>
    cases hf with
    | contents id f => exact .inl ((payloadOf_updatePayload f id o s).mp hfields)
    | _ => exact .inl hfields
  | create hf _ =>
    cases hf with
    | object type payload ht hp =>
      rw [payloadOf_newObject] at hfields
      split at hfields
      · rw [hfields] at hp
        cases hp
      · exact .inl hfields
    | callable => exact .inl hfields
  | newInstance type =>
    have hpayload := (payloadOf_newObject _ _ _ o).symm.trans hfields
    split at hpayload
    · -- The scope of its fields is new as well.
      cases hpayload
      refine .inr ?_
      have hfresh := scopeAt_newScope m.heap (.fields m.heap.objects.size)
        (some (m.heap.classAt type).scope) m.heap.scopes.size
      rw [if_pos rfl] at hfresh
      exact congrArg (fun sc => sc.vars.find? name) hfresh
    · exact .inl hpayload
  | flatten c _ _ _ =>
    refine .inl ?_
    unfold Heap.payloadOf Heap.objectAt at hfields ⊢
    rw [← flatten_objects m.heap c]
    exact hfields
  | _ => exact .inl hfields

theorem Moves.plainFields (hmove : m.Moves m') (hplain : m.heap.PlainFields) :
    m'.heap.PlainFields := by
  intro o s name v hfields hv
  rcases hmove.step.fields_before hfields name with hbefore | hnone
  · have hs := (hmove.before.linked.heap.objects o s hbefore).scope
    have hkind := (hmove.before.linked.heap.objects o s hbefore).kind
    cases hmove.alters hplain hs name with
    | kept hsame => exact hplain o s name v hbefore (hsame.symm.trans hv)
    | assigned hold hconst hassigns =>
      rw [hassigns.varAt? hold] at hv
      cases hv
      rw [Variable.isConst_withValue]
      exact hconst
    | declared _ hother => exact absurd hbefore (hother o)
    | bound hopened _ =>
      rw [hkind] at hopened
      exact hopened.elim
    | field => simp_all
    | imported himports =>
      obtain ⟨_, _, _, hopened, _⟩ := himports
      rw [hkind] at hopened
      exact hopened.elim
  · rw [hnone] at hv
    cases hv

theorem Moves.member (hmove : m.Moves m') (hplain : m.heap.PlainFields) {c : ClassId}
    (hkind : (m.heap.scopeAt s).kind = .classBody c) {v : Variable}
    (hv : m.heap.varAt? s name = some v) :
    m'.heap.varAt? s name = some v ∨
      v.isConst = false ∧ ∃ value, m.Assigns m' s name value := by
  cases hmove.alters hplain (lt_of_varAt? hv) name with
  | kept hsame => exact .inl (hsame.trans hv)
  | assigned => grind
  | declared hnone _ =>
    rw [hnone] at hv
    cases hv
  | bound hopened _ =>
    rw [hkind] at hopened
    exact hopened.elim
  | field hfields _ _ =>
    rw [(hmove.before.linked.heap.objects _ s hfields).kind] at hkind
    cases hkind
  | imported himports =>
    obtain ⟨_, _, _, hopened, _⟩ := himports
    rw [hkind] at hopened
    exact hopened.elim

end Machine

theorem InSession.plainFields {m : Machine} (hm : InSession m) : m.heap.PlainFields := by
  refine hm.invariant (I := fun m => m.heap.PlainFields) (fun config disk hosts => ?_)
    fun _ _ hmove => hmove.plainFields
  -- There are no instances yet.
  intro o s name v hfields _
  rw [Heap.payloadOf, Heap.objectAt, Machine.initial_objects] at hfields
  cases hfields

end ClassScript
