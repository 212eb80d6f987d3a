import ClassScript.Proofs.StaticFields

/-!
# Private Classes Inside Classes

Access to a private class is asked for the class whose member it is said to be, and not for the
one that declared it. By its name alone such a class can be used by all code that finds it.
-/

namespace ClassScript

open List Machine

namespace Heap

variable {c : ClassId}

/-- A scope in which names are looked for: the scope itself, and what is in view from the one around
    it and, for a call, from where the function was defined. -/
inductive InView (h : Heap) (t : ScopeId) : ScopeId → Prop
  | here : h.InView t t
  | parent {s p : ScopeId} (hparent : (h.scopeAt s).parent = some p) (hp : h.InView t p) :
      h.InView t s
  | closure {s closure : ScopeId} {receiver : Option ObjectId}
      (hkind : (h.scopeAt s).kind = .frame closure receiver) (hc : h.InView t closure) :
      h.InView t s

def Displaced (h : Heap) (t site : ScopeId) : Prop :=
  ∃ frame closure receiver, h.InView frame site ∧
    (h.scopeAt frame).kind = .frame closure receiver ∧ (h.scopeAt frame).parent ≠ some closure ∧
    ∀ o, receiver = some o → h.InView t (h.classAt (h.objectAt o).type).scope

variable {h : Heap} {s t u site : ScopeId} {name : String} {binding : Binding}

theorem InView.trans (hst : h.InView t s) (htu : h.InView u t) : h.InView u s := by
  induction hst with
  | here => exact htu
  | parent hparent _ ih => exact .parent hparent ih
  | closure hkind _ ih => exact .closure hkind ih

theorem Walks.inView {start : Option ScopeId} {passed : List ScopeId}
    (hw : h.Walks Scope.parent start passed) (ht : t ∈ passed) :
    ∃ s, start = some s ∧ h.InView t s := by
  induction hw with
  | stop => exact absurd ht not_mem_nil
  | @pass s rest _ ih =>
    refine ⟨s, rfl, ?_⟩
    rcases mem_cons.mp ht with rfl | ht
    · exact .here
    · obtain ⟨p, hparent, hin⟩ := ih ht
      exact .parent hparent hin

theorem Ordered.inView_of_mem_chain (ho : h.Ordered) (ht : t ∈ h.chain s) : h.InView t s := by
  obtain ⟨s', hs, hin⟩ := (ho.walks_chain s).inView ht
  cases hs
  exact hin

theorem Ordered.inView_of_mem_closuresOf (ho : h.Ordered) (ht : t ∈ h.closuresOf (h.chain s)) :
    h.InView t s := by
  obtain ⟨frame, hframe, hclosure⟩ := mem_filterMap.mp ht
  refine (ho.inView_of_mem_chain hframe).trans ?_
  unfold Scope.detachedClosure? at hclosure
  split at hclosure
  · next closure receiver hkind =>
    split at hclosure
    · cases hclosure
    · cases hclosure
      exact .closure hkind .here
  · cases hclosure

theorem Linked.inView_of_lookup (hl : h.Linked) (ho : h.Ordered) :
    ∀ site, h.lookup site name = some (binding, t) → h.InView t site := by
  intro site
  induction site using Nat.strongRecOn with
  | ind site ih =>
    intro hfound
    rw [hl.lookup_eq, findAlong_eq_findSome?] at hfound
    rcases Option.or_eq_some_iff.mp hfound with hchain | ⟨-, hclosures⟩
    · obtain ⟨s, hs, hbinding⟩ := exists_of_findSome?_eq_some hchain
      obtain ⟨_, _, hpair⟩ := Option.map_eq_some_iff.mp hbinding
      cases hpair
      exact ho.inView_of_mem_chain hs
    · obtain ⟨c, hc, hlookup⟩ := exists_of_findSome?_eq_some hclosures
      exact (ho.inView_of_mem_closuresOf hc).trans (ih c (hl.lt_of_mem_closuresOf hc) hlookup)

theorem Displaced.seen (hd : h.Displaced t s) (hs : h.InView s u) : h.Displaced t u := by
  obtain ⟨frame, closure, receiver, hframe, hrest⟩ := hd
  exact ⟨frame, closure, receiver, hs.trans hframe, hrest⟩

theorem Linked.inView_of_fields (hl : h.Linked) {o : ObjectId} {fields : ScopeId}
    (hfields : h.payloadOf o = .fields fields) (hclass : (h.scopeAt t).kind = .classBody c)
    (hin : h.InView t fields) : h.InView t (h.classAt (h.objectAt o).type).scope := by
  have hobject := hl.objects o fields hfields
  -- The scope of the fields is neither one of a class nor a frame, so there is one way out.
  cases hin with
  | here => exact nomatch hobject.kind.symm.trans hclass
  | parent hparent hp =>
    cases hobject.parent.symm.trans hparent
    exact hp
  | closure hkind _ => exact nomatch hobject.kind.symm.trans hkind

theorem Linked.liesAround_or_displaced (hl : h.Linked)
    (hclass : (h.scopeAt t).kind = .classBody c) (hin : h.InView t site) :
    h.LiesAround t site ∨ h.Displaced t site := by
  induction hin with
  | here => exact .inl .self
  | @parent s p hparent hp ih =>
    have hseen : h.InView p s := .parent hparent .here
    cases hkind : (h.scopeAt s).kind with
    | frame closure receiver =>
      -- In the text, a call is inside its function, wherever it stands.
      by_cases hpc : p = closure
      · subst hpc
        exact ih.imp (.closure hkind) (·.seen hseen)
      · refine .inr ⟨s, closure, receiver, .here, hkind, ?_, ?_⟩
        · simp_all
        · -- On an instance it stands in the fields of that.
          rintro o rfl
          obtain ⟨-, fields, hfields, hpayload⟩ :=
            (hl.scopes s (lt_of_frame hkind)).receiver closure o hkind
          cases hparent.symm.trans hfields
          exact hl.inView_of_fields hpayload hclass hp
    | _ =>
      refine ih.imp (.parent (fun _ _ hk => ?_) hparent) (·.seen hseen)
      cases hkind.symm.trans hk
  | closure hkind _ ih => exact ih.imp (.closure hkind) (·.seen (.closure hkind .here))

end Heap

/-- A member of this name is asked of a class: by the class itself, or by an instance that has no
    field of the name. -/
inductive Machine.AsksFor (m : Machine) (c : ClassId) (name : String) : Value → Prop
  | type : m.AsksFor c name (.type c)
  | instance {target : Value} (hplain : target.IsPlain) (hclass : m.heap.typeOf target = c)
      (hfield : Member.fieldVariable? m.heap target name = none) : m.AsksFor c name target

namespace Member

variable {m : Machine} {c n : ClassId} {name : String}

theorem ofClass_nested (L : Level) (receiver : Option Value)
    (hmember : m.heap.member? c name = some (.type n)) :
    ofClass L c name receiver m =
      if m.heap.canAccess m.registers.scope (m.heap.classAt n).access (some c) then
        .done (some (.type n)) m
      else .failed (.fault (.nestedClassAccess name (m.heap.classAt n).access.name
        (m.heap.className c)) none []) m := by
  have hlocal : (m.heap.scopeAt (m.heap.classAt c).scope).local? name = some (.type n) := hmember
  unfold ofClass
  rw [Eval.ask_bind, hlocal]
  dsimp only
  rw [Eval.scope_bind, Eval.ask_bind, Eval.ask_bind]
  split <;> rfl

theorem find_nested (L : Level) {target : Value} (hasks : m.AsksFor c name target)
    (hmember : m.heap.member? c name = some (.type n)) :
    ∃ receiver, find L target name m = ofClass L c name receiver m := by
  have hfirst (receiver : Option Value) (next : Option Value → Eval (Option Value))
      (hnext : ∀ v, next (some v) = pure (some v)) :
      (ofClass L c name receiver >>= next) m = ofClass L c name receiver m := by
    rw [Eval.bind_apply, ofClass_nested L receiver hmember]
    cases m.heap.canAccess m.registers.scope (m.heap.classAt n).access (some c) with
    | true => exact congrFun (hnext (.type n)) m
    | false => rfl
  cases hasks with
  | type => exact ⟨none, hfirst none _ fun _ => rfl⟩
  | «instance» hplain hclass hfield =>
    subst hclass
    refine ⟨some target, ?_⟩
    rw [find_plain L hplain, hfield]
    exact hfirst (some target) _ fun _ => rfl

theorem get_nested (L : Level) (span : Span) {target : Value} (hasks : m.AsksFor c name target)
    (hmember : m.heap.member? c name = some (.type n)) :
    get L target name span m =
      if m.heap.canAccess m.registers.scope (m.heap.classAt n).access (some c) then
        .done (.type n) m
      else .failed (.fault (.nestedClassAccess name (m.heap.classAt n).access.name
        (m.heap.className c)) none []) m := by
  obtain ⟨receiver, hfind⟩ := find_nested L hasks hmember
  unfold get
  rw [Eval.bind_apply, hfind, ofClass_nested L receiver hmember]
  cases m.heap.canAccess m.registers.scope (m.heap.classAt n).access (some c) <;> rfl

theorem getName_type (L : Level) {s : ScopeId}
    (hfound : m.heap.lookup m.registers.scope name = some (.type n, s)) :
    getName L name m = .done (.type n) m := by
  unfold getName
  rw [Eval.scope_bind, Eval.ask_bind, hfound]
  rfl

end Member

/-- As a member, a private class is given to code inside the body of the class that has it, and
    refused to all other code. By its name alone it is given to all code that finds it: code inside
    the body of the class, or in view of a call on an instance from whose class its members are in
    view. -/
theorem InSession.private_class_given {m₀ m : Machine} (hm : InSession m₀) (hrun : m₀.Runs m)
    (L : Level) {c n : ClassId} {name : String} (hc : c < m.heap.classes.size)
    (hmember : m.heap.member? c name = some (.type n))
    (hprivate : (m.heap.classAt n).access = .private) :
    (∀ target span, m.AsksFor c name target →
      (m.heap.InBody m.registers.scope c → Member.get L target name span m = .done (.type n) m) ∧
      (¬ m.heap.InBody m.registers.scope c → (Member.get L target name span m).Refuses m)) ∧
    (∀ before after, m.heap.chain m.registers.scope = before ++ (m.heap.classAt c).scope :: after →
      (∀ s ∈ before, m.heap.Lacks name s) → Member.getName L name m = .done (.type n) m) ∧
    (m.heap.lookup m.registers.scope name = some (.type n, (m.heap.classAt c).scope) →
      Member.getName L name m = .done (.type n) m ∧
        (m.heap.InBody m.registers.scope c ∨
          m.heap.Displaced (m.heap.classAt c).scope m.registers.scope)) := by
  have hsteady := hrun.steady hm.steady
  have hl := hsteady.linked.heap
  have hiff : _ ↔ m.heap.InBody m.registers.scope c :=
    hm.canAccess_iff hrun m.registers.scope c .private
  refine ⟨fun target span hasks => ?_, fun before after hchain hbefore => ?_, fun hfound => ?_⟩
  · rw [Member.get_nested L span hasks hmember, hprivate, ← hiff]
    refine ⟨fun hin => if_pos hin, fun hout => ?_⟩
    rw [if_neg hout]
    exact ⟨_, rfl, rfl⟩
  · have hlocal : (m.heap.scopeAt (m.heap.classAt c).scope).local? name = some (.type n) := hmember
    exact Member.getName_type L (hl.lookup_along hchain hbefore hlocal)
  · refine ⟨Member.getName_type L hfound, ?_⟩
    exact hl.liesAround_or_displaced (hl.classes c hc).kind
      (hl.inView_of_lookup (hl.ordered hsteady.owned.heap) _ hfound)

def Request.nesting : Request :=
  .source "class C \x7b private class N \x7b \x7d \x7d
    class D : C \x7b fn f() \x7b return N; \x7d \x7d
    D().f()"

def Machine.inNesting : Machine :=
  (Request.nesting.perform (watchedLevel Machine.inMethod 40)
    (Machine.initial Config.standard default [])).machine

theorem Machine.nesting_members :
    (54 < Machine.inNesting.heap.classes.size ∧
      Machine.inNesting.heap.member? 50 "N" = some (.type 51) ∧
      Machine.inNesting.heap.member? 54 "N" = some (.type 51) ∧
      (Machine.inNesting.heap.classAt 51).access = .private ∧
      (Machine.inNesting.heap.scopeAt (Machine.inNesting.heap.classAt 51).scope).parent =
        some (Machine.inNesting.heap.classAt 50).scope) ∧
    Machine.inNesting.heap.lookup Machine.inNesting.registers.scope "N" =
      some (.type 51, (Machine.inNesting.heap.classAt 54).scope) ∧
    Machine.inNesting.heap.canAccess Machine.inNesting.registers.scope .private (some 50) = false ∧
    Machine.inNesting.heap.canAccess Machine.inNesting.registers.scope .private (some 54) =
      true := by
  decide +kernel

theorem InSession.inNesting : InSession Machine.inNesting :=
  .running (.initial Config.standard default []) Machine.inMethod 40 Request.nesting

theorem InSession.private_class_given_nesting :
    Member.getName (level 40) "N" Machine.inNesting = .done (.type 51) Machine.inNesting ∧
      Member.get (level 40) (.type 54) "N" default Machine.inNesting =
        .done (.type 51) Machine.inNesting ∧
      (Member.get (level 40) (.type 50) "N" default Machine.inNesting).Refuses
        Machine.inNesting := by
  have hm := InSession.inNesting
  obtain ⟨⟨hsize, hdeclared, htaken, hprivate, -⟩, hfound, hout, hin⟩ := nesting_members
  generalize Machine.inNesting = m at *
  have hinside : m.heap.InBody m.registers.scope 54 :=
    (hm.canAccess_iff .refl _ 54 .private).mp hin
  have houtside : ¬ m.heap.InBody m.registers.scope 50 :=
    (hm.canAccess_iff .refl _ 50 .private).not.mp (Bool.eq_false_iff.mp hout)
  obtain ⟨hofHeir, -, hbyName⟩ :=
    InSession.private_class_given hm .refl (level 40) hsize htaken hprivate
  have hearlier : 50 < m.heap.classes.size := by omega
  obtain ⟨hofOwner, -, -⟩ :=
    InSession.private_class_given hm .refl (level 40) hearlier hdeclared hprivate
  exact ⟨(hbyName hfound).1, (hofHeir _ default .type).1 hinside,
    (hofOwner _ default .type).2 houtside⟩

theorem private_class_not_hidden :
    ∃ (m : Machine) (c d n : ClassId) (name : String), InSession m ∧
      m.heap.member? c name = some (.type n) ∧ (m.heap.classAt n).access = .private ∧
      (m.heap.scopeAt (m.heap.classAt n).scope).parent = some (m.heap.classAt c).scope ∧
      ¬ m.heap.InBody m.registers.scope c ∧
      Member.getName (level 40) name m = .done (.type n) m ∧
      Member.get (level 40) (.type d) name default m = .done (.type n) m := by
  have hm := InSession.inNesting
  obtain ⟨⟨-, hdeclared, htaken, hprivate, hparent⟩, hfound, hout, hin⟩ := nesting_members
  generalize Machine.inNesting = m at *
  have houtside : ¬ m.heap.InBody m.registers.scope 50 :=
    (hm.canAccess_iff .refl _ 50 .private).not.mp (Bool.eq_false_iff.mp hout)
  refine ⟨m, 50, 54, 51, "N", hm, hdeclared, hprivate, hparent, houtside,
    Member.getName_type _ hfound, ?_⟩
  rw [Member.get_nested _ _ .type htaken, hprivate, if_pos hin]

end ClassScript
