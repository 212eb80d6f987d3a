import ClassScript.Proofs.Built

/-!
# Calls and Members Are Built From Steps

The pieces of the evaluator that call values, make instances, and read and write
names and members, each derived from the steps of `Built`.
-/

namespace ClassScript

open List Eval Heap

variable {C : Law} {Γ : List Fact} {α : Type} {binding : Binding} {sc : Scope} {v : Variable}

namespace Eval

theorem mismatch_built (what : String) (v : Value) :
    Built C Γ fun _ => (mismatch what v : Eval α) :=
  .bind (.ask _) fun _ => .fail _ rfl

theorem expectInt_built (v : Value) : Built C Γ fun _ => expectInt v := by
  cases v with
  | int n => exact .pure n
  | _ => exact mismatch_built "int" _

theorem expectStr_built (v : Value) : Built C Γ fun _ => expectStr v := by
  cases v with
  | str s => exact .pure s
  | _ => exact mismatch_built "str" _

theorem expectType_built (v : Value) : Built C Γ fun _ => expectType v := by
  cases v with
  | type c => exact .pure c
  | _ => exact mismatch_built "a class" _

theorem newList_built (items : Array Value) : Built C Γ fun _ => newList items :=
  .bind (.create (.object _ _ (.inl (by decide)) .list)) fun _ => .pure _

theorem newDict_built (entries : Entries) : Built C Γ fun _ => newDict entries :=
  .bind (.create (.object _ _ (.inl (by decide)) .dict)) fun _ => .pure _

theorem newRange_built (r : Range) : Built C Γ fun _ => newRange r :=
  .bind (.create (.object _ _ (.inl (by decide)) .range)) fun _ => .pure _

theorem newEnumerator_built (e : Enumerator) : Built C Γ fun _ => newEnumerator e :=
  .bind (.create (.object _ _ (.inl (by decide)) .enumerator)) fun _ => .pure _

theorem newFunction_built (name : String) (overloads : List OverloadId)
    (receiver : Option Value) : Built C Γ fun _ => newFunction name overloads receiver :=
  .bind (.create (.callable _)) fun _ => .pure _

theorem ofExcept_built {r : Except Fault α} (hr : Lawful r) : Built C Γ fun _ => ofExcept r := by
  cases r with
  | ok a => exact .pure a
  | error f => exact .fail f (hr f rfl)

theorem orFail_built (o : Option α) (f : Fault) (hf : f.isStructural = false) :
    Built C Γ fun _ => orFail o f := by
  cases o with
  | some a => exact .pure a
  | none => exact .fail f hf

end Eval

namespace Calling

theorem parameterValues_built (b : Bound) : Built C Γ fun _ => parameterValues b := by
  unfold parameterValues
  cases b.rest with
  | none => exact .pure _
  | some items => exact .bind (newList_built _) fun _ => .pure _

theorem family_built (name : String) (overloads : List OverloadId) (receiver : Option Value)
    (a : Arguments) (span : Span) :
    Built C Γ fun L => family L name overloads receiver a span := by
  refine .bind (.ask _) fun found => ?_
  cases found with
  | some chosen => exact .bind (parameterValues_built chosen.2) fun values => .invoke _ _ values _
  | none => exact .bind (.ask _) fun _ => .bind (.ask _) fun _ => .fail _ rfl

section

variable (object : ObjectId) (scope : ScopeId) (f : FieldInit) (hs : .scope scope ∈ Γ)
  (hf : .fields object scope ∈ Γ)
include object scope f hs hf

theorem fieldValue_built (hc : C.field f) : Built C Γ fun L => fieldValue L object scope f := by
  unfold fieldValue
  cases hi : f.initializer with
  | none => exact .pure _
  | some e =>
    have he : C.code (.expr e) := hc e hi
    refine .find (.classScope f.owner) fun closure _ => ?_
    have hc : Fact.scope closure ∈ [.scope closure, .membersIn closure] ++ Γ := mem_cons_self
    have hm : Fact.membersIn closure ∈ [.scope closure, .membersIn closure] ++ Γ :=
      mem_cons_of_mem _ mem_cons_self
    refine .newScope _ _ (.method closure object scope hc hm (mem_append_right _ hs)
      (mem_append_right _ hf)) fun frame => ?_
    exact .inScope frame (by simp) (by simp) (.evaluate e he)

theorem initializeField_built (ho : .created object ∈ Γ) (hc : C.field f) :
    Built C Γ fun L => initializeField L object scope f :=
  .bind (fieldValue_built object scope f hs hf hc) fun _ =>
    .change (.variable scope f.name _ _ (.field object f.owner hf ho) (.field object _ hf rfl))

end

theorem instantiate_built (c : ClassId) : Built C Γ fun L => instantiate L c := by
  refine .newInstance c fun object => ?_
  refine .find (.fieldScope object) fun found _ => ?_
  cases found with
  | none => exact .pure _
  | some scope =>
    refine .find (.fields c) fun fields hfields => ?_
    refine .bind (.forList fields fun f hf => ?_) fun _ => .pure _
    exact initializeField_built object scope f (by simp) (by simp) (by simp) (hfields f hf)

theorem hostObject_built (kind : HostClass) (arguments : List Value) :
    Built C Γ fun _ => hostObject kind arguments := by
  cases kind with
  | tally =>
    cases arguments with
    | nil => exact .pure _
    | cons first rest => exact .bind (expectInt_built first) fun _ => .pure _
  | blank => exact .pure _

theorem construct_built (c : ClassId) (a : Arguments) (span : Span) :
    Built C Γ fun L => construct L c a span := by
  refine .find (.host c) fun info _ => ?_
  refine .ite _ (.fail _ rfl) ?_
  cases hkind : info.host with
  | some kind =>
    have hc : .type c ∈ hostFacts c info := by simp [hostFacts, hkind]
    refine .bind (hostObject_built kind _) fun state => ?_
    refine .bind (.create (.object c _ (.inr ?_) .host)) fun _ => .pure _
    exact mem_append_left Γ hc
  | none =>
    refine .ite _ ?_ ?_
    · refine .bind (.ask _) fun found => ?_
      cases found with
      | some => exact family_built _ _ _ _ _
      | none => exact .fail _ rfl
    · refine .bind (instantiate_built c) fun object => ?_
      refine .bind (.ask _) fun constructors => ?_
      cases constructors with
      | nil => exact .ite _ (.pure _) (.fail _ rfl)
      | cons => exact .bind (family_built _ _ _ _ _) fun _ => .pure _

theorem value_built (callee : Value) (a : Arguments) (span : Span) :
    Built C Γ fun L => value L callee a span := by
  cases callee with
  | function id => exact .bind (.ask _) fun c => family_built _ _ _ _ _
  | type c => exact construct_built c a span
  | _ => exact .bind (.ask _) fun _ => .fail _ rfl

end Calling

variable {h : Heap} {s : ScopeId} {name : String}

theorem modify_congr {xs : Array α} {i : Nat} {d : α} {f g : α → α}
    (hfg : f (xs.getD i d) = g (xs.getD i d)) : xs.modify i f = xs.modify i g := by
  refine Array.ext (by rw [Array.size_modify, Array.size_modify]) fun j hj hj' => ?_
  rw [Array.getElem_modify, Array.getElem_modify]
  by_cases hi : i = j
  · subst hi
    have hlt : i < xs.size := Nat.lt_of_lt_of_eq hj Array.size_modify
    have hat : xs.getD i d = xs[i] := dif_pos hlt
    rw [if_pos rfl, if_pos rfl, ← hat, hfg]
  · rw [if_neg hi, if_neg hi]

theorem Heap.updateScope_congr {f g : Scope → Scope}
    (hfg : f (h.scopeAt s) = g (h.scopeAt s)) : h.updateScope s f = h.updateScope s g :=
  congrArg (fun scopes => { h with scopes }) (modify_congr hfg)

theorem Heap.updateClass_congr {c : ClassId} {f g : Class → Class}
    (hfg : f (h.classAt c) = g (h.classAt c)) : h.updateClass c f = h.updateClass c g :=
  congrArg (fun classes => { h with classes }) (modify_congr hfg)

theorem Heap.local?_of_findAlong
    (scopes : List ScopeId) (hfound : h.findAlong name scopes = some (binding, s)) :
    (h.scopeAt s).local? name = some binding := by
  induction scopes with
  | nil => cases hfound
  | cons first rest ih =>
    rw [findAlong] at hfound
    cases hlocal : (h.scopeAt first).local? name with
    | some | none => simp_all

theorem Heap.local?_of_lookupWithin
    (n : Nat) : ∀ site, h.lookupWithin name n site = some (binding, s) →
      (h.scopeAt s).local? name = some binding := by
  induction n with
  | zero => intro site hfound; cases hfound
  | succ n ih =>
    intro site hfound
    rw [lookupWithin] at hfound
    cases halong : h.findAlong name (h.chain site) with
    | some found =>
      rw [halong] at hfound
      cases hfound
      exact local?_of_findAlong _ halong
    | none =>
      rw [halong] at hfound
      obtain ⟨closure, _, hclosure⟩ := exists_of_findSome?_eq_some hfound
      exact ih closure hclosure

theorem Scope.local?_cases (h : sc.local? name = some binding) :
    (∃ c, binding = .type c ∧ sc.classes.find? name = some c) ∨
      (∃ family, binding = .family family ∧ sc.functions.find? name = some family) ∨
        ∃ v, binding = .variable v ∧ sc.classes.find? name = none ∧
          sc.functions.find? name = none ∧ sc.vars.find? name = some v := by
  unfold local? at h
  generalize sc.classes.find? name = o at h ⊢
  cases o with
  | some c =>
    cases h
    exact .inl ⟨c, rfl, rfl⟩
  | none =>
    generalize sc.functions.find? name = o at h ⊢
    cases o with
    | some family => simp_all
    | none =>
      obtain ⟨v, hv, rfl⟩ := Option.map_eq_some_iff.mp h
      exact .inr (.inr ⟨v, rfl, rfl, rfl, hv⟩)

theorem Scope.find?_of_local?
    (h : sc.local? name = some (.variable v)) : sc.vars.find? name = some v := by
  rcases local?_cases h with ⟨c, ⟨⟩, _⟩ | ⟨family, ⟨⟩, _⟩ | ⟨v, ⟨⟩, _, _, hv⟩
  exact hv

theorem Heap.lookup_variable {site : ScopeId}
    (hfound : h.lookup site name = some (.variable v, s)) :
    (h.scopeAt s).vars.find? name = some v :=
  Scope.find?_of_local? (local?_of_lookupWithin _ site hfound)

namespace Member

variable {m : Machine}

theorem fieldVariable?_find {target : Value}
    {field : ScopeId × Variable} (hfound : fieldVariable? h target name = some field) :
    (h.scopeAt field.1).vars.find? name = some field.2 := by
  obtain ⟨scope, _, hmap⟩ := Option.bind_eq_some_iff.mp hfound
  obtain ⟨v, hv, hfield⟩ := Option.map_eq_some_iff.mp hmap
  rw [← hfield]
  exact hv

theorem checkAccess_built (name : String) (v : Variable) :
    Built C Γ fun _ => checkAccess name v := by
  refine .scope fun site => ?_
  refine .bind (.ask _) fun allowed => ?_
  exact .ite _ (.pure _) (.bind (.ask _) fun _ => .fail _ rfl)

theorem currentReceiver_built : Built C Γ fun _ => currentReceiver :=
  .scope fun _ => .bind (.ask _) fun _ => .pure _

theorem readVariable_built (name : String) (v : Variable) (receiver : Option Value) :
    Built C Γ fun L => readVariable L name v receiver := by
  unfold readVariable
  cases v.storage with
  | slot value => exact .pure _
  | accessor getter setter =>
    cases getter with
    | some getter => exact Calling.family_built _ _ _ _ _
    | none => exact .fail _ rfl

theorem assignSlot_built (scope : ScopeId) (name : String) (value : Value)
    (hs : .fieldsIn scope ∈ Γ) : Built C Γ fun _ => assignSlot scope name value :=
  .change (.slot scope name value _ (.field hs))

theorem writeVariable_built {scope : ScopeId}
    (hv : (m.heap.scopeAt scope).vars.find? name = some v) (value : Value)
    (receiver : Option Value) :
    BuiltAt C Γ m fun L => writeVariable L scope name v value receiver := by
  refine .ite _ (fun _ => .of_built (.fail _ rfl)) fun hconst => ?_
  cases v.storage with
  | slot old =>
    have hfree : (m.heap.scopeAt scope).hasConstant name = false := by
      rw [Scope.hasConstant, hv]
      exact eq_false_of_ne_true hconst
    refine ⟨_, .change (.slot scope name value _ .checked), fun _ limit => ?_⟩
    exact congrArg (fun h => Outcome.done () { m.withLimit limit with heap := h })
      (updateScope_congr (if_neg (ne_true_of_eq_false hfree)).symm)
  | accessor getter setter =>
    cases setter with
    | some setter => exact .of_built (.bind (Calling.family_built _ _ _ _ _) fun _ => .pure _)
    | none => exact .of_built (.fail _ rfl)

theorem checkAccess_builtAt {β : Type} {k : Level → Unit → Eval β} (name : String)
    (v : Variable) (hk : BuiltAt C Γ m fun L => k L ()) :
    BuiltAt C Γ m fun L => checkAccess name v >>= k L := by
  refine .assoc (.scope (.assoc (.ask ?_)))
  cases m.heap.mayUse m.registers.scope v.access v.owner with
  | true => exact hk
  | false =>
    have hfail : Built C Γ fun _ => (Eval.ask fun h => (v.owner.map h.className).getD "") >>=
        fun owner => (Eval.fail (.memberAccess name v.access.name owner) : Eval β) :=
      .bind (.ask _) fun _ => .fail _ rfl
    exact ⟨_, hfail, fun _ _ => rfl⟩

theorem familyValue_built (scope : ScopeId) (name : String) (overloads : List OverloadId) :
    Built C Γ fun _ => familyValue scope name overloads := by
  refine .bind (.ask _) fun kind => ?_
  cases kind with
  | classBody c =>
    refine .bind (.ask _) fun held => ?_
    refine .ite _ (newFunction_built _ _ _) ?_
    refine .bind (.ask _) fun className => ?_
    refine .ite _ (.pure _) ?_
    exact .bind currentReceiver_built fun _ => newFunction_built _ _ _
  | _ => exact newFunction_built _ _ _

theorem getName_built (name : String) : Built C Γ fun L => getName L name := by
  refine .scope fun site => ?_
  refine .bind (.ask _) fun found => ?_
  rcases found with _ | ⟨binding, scope⟩
  · exact .fail _ rfl
  · cases binding with
    | type c => exact .pure _
    | family overloads => exact familyValue_built scope name overloads
    | «variable» v =>
      refine .bind (checkAccess_built name v) fun _ => ?_
      exact .bind currentReceiver_built fun _ => readVariable_built _ _ _

theorem setName_built (name : String) (value : Value) :
    Built C Γ fun L => setName L name value := by
  refine .of_each fun m => .scope (.ask ?_)
  rcases hfound : m.heap.lookup m.registers.scope name with _ | ⟨binding, scope⟩
  · exact .of_built (.fail _ rfl)
  · cases binding with
    | type | family => exact .of_built (.fail _ rfl)
    | «variable» v =>
      refine checkAccess_builtAt name v (.assoc (.scope (.assoc (.ask ?_))))
      exact writeVariable_built (lookup_variable hfound) _ _

theorem ofClass_built (c : ClassId) (name : String) (receiver : Option Value) :
    Built C Γ fun L => ofClass L c name receiver := by
  refine .bind (.ask _) fun found => ?_
  rcases found with _ | binding
  · exact .pure _
  · cases binding with
    | type =>
      refine .scope fun site => ?_
      refine .bind (.ask _) fun access => ?_
      refine .bind (.ask _) fun allowed => ?_
      exact .ite _ (.pure _) (.bind (.ask _) fun _ => .fail _ rfl)
    | family => exact .bind (newFunction_built _ _ _) fun _ => .pure _
    | «variable» v =>
      refine .bind (checkAccess_built name v) fun _ => ?_
      exact .bind (readVariable_built _ _ _) fun _ => .pure _

theorem ofHost_built (id : ObjectId) (o : HostObject) (name : String) :
    Built C Γ fun _ => ofHost id o name := by
  unfold ofHost
  split
  · exact .pure _
  · refine .ite _ ?_ (.pure _)
    -- A method of a host object is built in, so it refers to no scope.
    refine .newOverload _ (fun k h => absurd h not_mem_nil) (Law.overload_native rfl) fun f => ?_
    exact .bind (newFunction_built _ _ _) fun _ => .pure _

theorem setHost_built (id : ObjectId) (o : HostObject) (name : String) (value : Value) :
    Built C Γ fun _ => setHost id o name value := by
  unfold setHost
  split
  · refine .bind (expectInt_built value) fun count => ?_
    exact .bind (.change (.contents id _)) fun _ => .pure _
  · exact .pure _

theorem missing_built (target : Value) (name : String) (span : Span) :
    Built C Γ fun _ => (missing target name span : Eval α) :=
  .locate span (.bind (.ask _) fun _ => .fail _ rfl)

theorem ofInstance_built (target : Value) (name : String) :
    Built C Γ fun L => ofInstance L target name := by
  refine .bind (.ask _) fun c => ?_
  refine .bind (ofClass_built c name (some target)) fun found => ?_
  cases found with
  | some value => exact .pure _
  | none =>
    refine .bind (.ask _) fun host => ?_
    split
    · exact ofHost_built _ _ _
    · exact .pure _

theorem find_built (target : Value) (name : String) : Built C Γ fun L => find L target name := by
  cases target with
  | type c =>
    refine .bind (ofClass_built c name none) fun found => ?_
    cases found with
    | some value => exact .pure _
    | none => exact ofClass_built _ _ _
  | function f => exact ofClass_built _ _ _
  | _ =>
    refine .bind (.ask _) fun found => ?_
    cases found with
    | none => exact ofInstance_built _ name
    | some field =>
      refine .bind (checkAccess_built name field.2) fun _ => ?_
      exact .bind (readVariable_built _ _ _) fun _ => .pure _

theorem get_built (target : Value) (name : String) (span : Span) :
    Built C Γ fun L => get L target name span := by
  refine .bind (find_built target name) fun found => ?_
  cases found with
  | some value => exact .pure _
  | none => exact missing_built _ _ _

theorem setInstance_built (target : Value) (name : String) (value : Value) :
    Built C Γ fun L => setInstance L target name value := by
  refine .of_each fun m => .ask ?_
  cases hfound : fieldVariable? m.heap target name with
  | some field =>
    refine checkAccess_builtAt name field.2 (.bind ?_ fun _ => .pure _)
    exact writeVariable_built (fieldVariable?_find hfound) _ _
  | none =>
    refine .ask ?_
    refine .ask ?_
    cases hv : m.heap.classVariable? (m.heap.typeOf target) name with
    | some v =>
      refine checkAccess_builtAt name v (.ask (.bind ?_ fun _ => .pure _))
      exact writeVariable_built hv _ _
    | none =>
      refine .of_built (.bind (.ask _) fun host => ?_)
      split
      · exact setHost_built _ _ _ _
      · exact .pure _

theorem set_built (target : Value) (name : String) (value : Value) (span : Span) :
    Built C Γ fun L => set L target name value span := by
  have hend (found : Bool) : Built C Γ fun _ =>
      (if found then return () else missing target name span : Eval Unit) :=
    .ite _ (.pure _) (missing_built _ _ _)
  cases target with
  | function f => exact hend false
  | type c =>
    refine .of_each fun m => .ask ?_
    cases hv : m.heap.classVariable? c name with
    | none => exact .of_built (hend false)
    | some v =>
      refine checkAccess_builtAt name v (.ask (.bind ?_ fun _ => hend true))
      exact writeVariable_built hv _ _
  | _ => exact .bind (setInstance_built _ name value) hend

theorem getSuper_built (name : String) : Built C Γ fun L => getSuper L name := by
  refine .scope fun site => ?_
  refine .bind (.ask _) fun classes => ?_
  cases classes.head? with
  | none => exact .fail _ rfl
  | some c =>
    refine .bind (.ask _) fun info => ?_
    cases info.ancestors with
    | none => exact .fail _ rfl
    | some ancestors =>
      refine .bind currentReceiver_built fun receiver => ?_
      refine .bind (ofClass_built ancestors name receiver) fun found => ?_
      cases found with
      | some value => exact .pure _
      | none => exact .fail _ rfl

theorem call_built (target : Value) (name : String) (span : Span) :
    Built C Γ fun L => call L target name span :=
  .bind (get_built target name span) fun _ => Calling.value_built _ _ _

end Member

end ClassScript
