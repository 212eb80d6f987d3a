import ClassScript.Proofs.Inheritance.Declared

/-!
# Declarations That Fail

A declaration evaluates things before it puts a name into the current scope, so if one of them
fails, all names are as they were. A class is known by its name in its own body, so there the
name comes first, and nothing takes it away if the body fails: it then stands for a class that
has taken over nothing.
-/

namespace ClassScript

open List Machine Outcome
open Eval hiding pure

variable {α : Type}

namespace Eval

variable {α β : Type} {m m' : Machine} {e : Failure} {x : Eval α} {k : α → Eval β}

def AllOrNothing (x : Eval α) : Prop :=
  ∀ m e m', x m = .failed e m' → m' = m

theorem bind_failed (hfail : (x >>= k) m = .failed e m') :
    x m = .failed e m' ∨ ∃ a m₁, x m = .done a m₁ ∧ k a m₁ = .failed e m' := by
  rw [bind_apply] at hfail
  grind

theorem machine_of_failed (hk : ∀ a, (k a).AllOrNothing)
    (hfail : (x >>= k) m = .failed e m') : (x m).machine = m' := by
  rcases bind_failed hfail with hx | ⟨a, m₁, hx, hlast⟩
  · rw [hx]
    rfl
  · rw [hx]
    exact (hk a m₁ e m' hlast).symm

theorem failed_of_bind_pure {b : β} (hfail : (x >>= fun _ => pure b) m = .failed e m') :
    x m = .failed e m' := by
  rcases bind_failed hfail with hx | ⟨a, m₁, -, hpure⟩
  · exact hx
  · cases hpure

theorem failed_of_locate {span : Span} (hfail : locate span x m = .failed e m') :
    ∃ e', x m = .failed e' m' := by
  unfold locate at hfail
  grind

theorem allOrNothing_raise (e : Failure) : (raise e : Eval α).AllOrNothing := by
  rintro m _ _ ⟨⟩
  rfl

theorem allOrNothing_change (f : Heap → Heap) : (change f).AllOrNothing := by
  intro m e m' hfail
  cases hfail

theorem AllOrNothing.ask {f : Heap → α} (hk : ∀ a, (k a).AllOrNothing) :
    (Eval.ask f >>= k).AllOrNothing :=
  fun m => hk (f m.heap) m

theorem AllOrNothing.scope {k : ScopeId → Eval β} (hk : ∀ s, (k s).AllOrNothing) :
    (Eval.scope >>= k).AllOrNothing :=
  fun m => hk m.registers.scope m

theorem allOrNothing_create {f : Heap → α × Heap} {g : α → Heap → Heap} :
    (create f >>= fun a => change (g a)).AllOrNothing := by
  intro m e m' hfail
  cases hfail

end Eval

theorem Declaration.defineVariable_allOrNothing (scope : ScopeId) (name : String) (v : Variable) :
    (defineVariable scope name v).AllOrNothing := by
  refine .ask fun taken => ?_
  split
  · exact allOrNothing_raise _
  · exact allOrNothing_change _

structure Heap.KeepsAll (h h' : Heap) : Prop where
  grows : h.Grows h'
  names : ∀ s, s < h.scopes.size → h.SameNames h' s

theorem Heap.KeepsAll.refl (h : Heap) : h.KeepsAll h := ⟨.refl h, fun s _ => .refl h s⟩

theorem Heap.KeepsAll.keeps {h h' : Heap} {modules : List (String × ClassId)}
    (hall : h.KeepsAll h') (ho : h.Owned modules) :
    ∀ s, s < h.scopes.size → h.KeepsNames h' s :=
  fun s hs => (hall.names s hs).keeps ho hall.grows

def Machine.Plain (m : Machine) : Prop :=
  m.Fits (· < m.heap.scopes.size) []

theorem Reachable.plain {m : Machine} (hm : Reachable m) : m.Plain :=
  ⟨hm.linked, hm.owned, forall_mem_nil _, forall_mem_nil _, fun _ hs => hs,
    forall_mem_nil _⟩

section Kept

variable {watch : Machine → Bool} {n : Nat} {m m' : Machine} {e : Failure} {Γ : List Fact}
variable {x : Level → Eval α}

theorem Built.keepsAll (hx : Built False Γ x)
    (watch : Machine → Bool) (n : Nat) (hm : m.Fits (· < m.heap.scopes.size) Γ) :
    m.heap.KeepsAll (x (watchedLevel watch n) m).machine.heap :=
  ⟨(hx.keeps watch n hm).leads.grows, (hx.keeps watch n hm).names⟩

theorem Built.failed_registers
    (hx : Built False Γ x) (hfail : x (watchedLevel watch n) m = .failed e m') :
    m'.registers = m.registers := by
  have hrestores := hx.restores (watchedLevel_restoring watch n) m
  rw [hfail] at hrestores
  cases hrestores with
  | failed hregisters _ => exact hregisters

theorem Statement.variableDecl_failed (hm : m.Plain) {decl : VarDecl}
    (hfail : variableDecl (watchedLevel watch n) decl m = .failed e m') :
    m.heap.KeepsAll m'.heap := by
  rw [← machine_of_failed (fun v => .scope fun s =>
    Declaration.defineVariable_allOrNothing s decl.name _) hfail]
  exact (initialValue_built decl fun _ _ => False.elim).keepsAll watch n hm

namespace Declaration

variable {c : ClassId} {decl : FunctionDecl}

theorem build_keepsAll (hm : m.Plain) (decl : FunctionDecl) (owner : Option ClassId)
    (closure : ScopeId) :
    m.heap.KeepsAll (build (watchedLevel watch n) decl owner closure m).machine.heap := by
  have hbuilt : Built False [] fun L => build L decl owner closure >>= pure :=
    build_built decl owner closure (fun _ _ => False.elim) fun f _ _ => .pure f
  simp only [bind_pure] at hbuilt
  exact hbuilt.keepsAll watch n hm

theorem function_failed (hm : m.Plain)
    (hfail : function (watchedLevel watch n) decl m = .failed e m') : m.heap.KeepsAll m'.heap := by
  rw [← machine_of_failed (fun f => allOrNothing_create) hfail]
  exact build_keepsAll hm decl none m.registers.scope

theorem enumDecl_failed (hm : m.Plain) {decl : EnumDecl}
    (hfail : enumDecl (watchedLevel watch n) decl m = .failed e m') : m.heap.KeepsAll m'.heap := by
  let site := m.registers.scope
  -- All but the last step, which gives the enum its name and does not fail.
  let members (L : Level) : Eval ClassId := do
    let c ← Eval.create
      (·.newClass (Class.fresh decl.name [] true (access decl.modifiers)) (some site))
    let body ← Eval.ask fun h => (h.classAt c).scope
    variants L c body 0 decl.variants
    return c
  have hmembers : Built False [.scope site] members := by
    refine .newClass _ _ _ _ site mem_cons_self (by simp) (fun _ => rfl) fun c => ?_
    refine .find (.bodyScope c (by simp [newClassFacts]) (by simp [newClassFacts])) fun body _ => ?_
    refine .bind (variants_built c body ?_ ?_ decl.variants (fun _ _ _ _ => False.elim) 0)
      fun _ => .pure c
    all_goals simp [newClassFacts]
  have hlast : (members (watchedLevel watch n) >>= fun c => bindClass site decl.name c) m =
      .failed e m' := by
    rw [← hfail]
    simp only [members, bind_assoc]
    rfl
  rw [← machine_of_failed (fun c => allOrNothing_change _) hlast]
  exact hmembers.keepsAll watch n (hm.cons hm.linked.scope trivial trivial)

theorem superClasses_keepsAll (hm : m.Plain) (decl : ClassDecl) :
    m.heap.KeepsAll (Eval.mapList (superClass decl) decl.supers m).machine.heap := by
  have hbuilt : Built False [] fun _ => Eval.mapList (superClass decl) decl.supers >>= pure :=
    superClasses_known decl decl.supers fun _ found _ _ => .pure found
  simp only [bind_pure] at hbuilt
  exact hbuilt.keepsAll (fun _ => false) 0 hm

theorem accessor_keepsAll (c : ClassId) (info : Class) (decl : PropertyDecl) (span : Span)
    (params : List Parameter) (body : Option (List Stmt)) (m : Machine) :
    ∃ f m₁, accessor c info decl span params body m = .done f m₁ ∧ m.heap.Grows m₁.heap ∧
      m₁.heap.scopes = m.heap.scopes := by
  cases body with
  | none => exact ⟨_, _, rfl, .refl _, rfl⟩
  | some body => exact ⟨_, _, rfl, m.heap.newOverload_grows _, rfl⟩

theorem memberProperty_failed {decl : PropertyDecl} {span : Span}
    (hfail : memberProperty c decl span m = .failed e m') : m.heap.KeepsAll m'.heap := by
  unfold memberProperty at hfail
  rw [ask_bind] at hfail
  -- The accessors are made in any case, and are functions that no scope has.
  obtain ⟨getter, m₁, hgetter, hgrows, hfirst⟩ :=
    accessor_keepsAll c (m.heap.classAt c) decl span [] decl.getter m
  obtain ⟨setter, m₂, hsetter, hgrows', hsecond⟩ :=
    accessor_keepsAll c (m.heap.classAt c) decl span [⟨"value", none, none, false⟩] decl.setter m₁
  rw [bind_of_done hgetter, bind_of_done hsetter] at hfail
  rw [defineVariable_allOrNothing _ _ _ _ _ _ hfail]
  refine ⟨hgrows.trans hgrows', fun s _ => .of_eq ?_⟩
  unfold Heap.scopeAt
  rw [hsecond, hfirst]

theorem memberVariable_failed (hm : m.Plain) {decl : VarDecl}
    (hfail : memberVariable (watchedLevel watch n) c decl m = .failed e m') :
    m.heap.KeepsAll m'.heap := by
  unfold memberVariable at hfail
  rw [ask_bind] at hfail
  -- A static variable gets its value at once, and a field is only noted for instances.
  split at hfail
  · rw [← machine_of_failed (fun v => defineVariable_allOrNothing _ decl.name _) hfail]
    exact (initial_built decl.initializer fun _ _ => False.elim).keepsAll watch n hm
  · split at hfail
    · rw [allOrNothing_raise _ _ _ _ hfail]
      exact .refl _
    · rw [allOrNothing_change _ _ _ _ hfail]
      exact .refl _

theorem memberFunction_failed (hm : m.Plain)
    (hfail : memberFunction (watchedLevel watch n) c decl m = .failed e m') :
    m.heap.KeepsAll m'.heap := by
  rw [← machine_of_failed (fun f => allOrNothing_create) hfail]
  exact build_keepsAll hm decl (some c) (m.heap.classAt c).scope

end Declaration

end Kept

/-- All that is left of a failed declaration is an unfinished class under its name. -/
structure Machine.LeavesClass (m : Machine) (name : String) (m' : Machine) : Prop where
  others : ∀ s, s < m.heap.scopes.size → s ≠ m.registers.scope → m.heap.KeepsNames m'.heap s
  current : (m'.heap.scopeAt m.registers.scope).bindings =
    let before := (m.heap.scopeAt m.registers.scope).bindings
    { before with classes := before.classes.insert name m.heap.classes.size }
  new : m.heap.classes.size < m'.heap.classes.size
  unfinished : (m'.heap.classAt m.heap.classes.size).ancestors = none

namespace Declaration

variable {watch : Machine → Bool} {n : Nat} {m m' : Machine} {e : Failure} {supers : List ClassId}

theorem classMembers_site (watch : Machine → Bool) (n : Nat) (hm : m.Plain) (decl : ClassDecl)
    (hsupers : ∀ p ∈ supers, m.heap.Named p) :
    let made := m.heap.newClass (Class.fresh decl.name supers decl.modifiers.isStatic
      (access decl.modifiers)) (some m.registers.scope)
    let m₁ : Machine := { m with heap := made.2 }
    let m' := (classMembers (watchedLevel watch n) m.registers.scope decl made.1 m₁).machine
    m.heap.Grows m'.heap ∧ ∀ s, s < m.heap.scopes.size →
      (made.2.updateScope m.registers.scope fun sc =>
        { sc with classes := sc.classes.insert decl.name made.1 }).SameNames m'.heap s := by
  intro made m₁
  let site := m.registers.scope
  obtain ⟨hmade, hfits⟩ := (hm.cons (k := .scope site) hm.linked.scope trivial trivial).newClass
    mem_cons_self decl.name decl.modifiers.isStatic (access decl.modifiers) hsupers
  -- When the class has its name, the body knows of nowhere to put names but the class.
  let m₂ : Machine :=
    { m₁ with
      heap := made.2.updateScope site fun sc =>
        { sc with classes := sc.classes.insert decl.name made.1 } }
  have hlinked : m₁.Linked := hmade.leads.linked
  have howned : m₁.Owned := hmade.upholds.owned hm.owned
  have hfits : m₁.Fits (· < m.heap.scopes.size) (newClassFacts made.1 ++ [.scope site]) := hfits
  have hnamed : m₁.heap.Named made.1 := hfits.stands (.named made.1) (by simp [newClassFacts])
  have hsite := ((Machine.Fits.here hlinked howned).siteInside (by simp)).cons
    (k := .named made.1) trivial hnamed trivial
  have hbinds : m₁.Keeps (fun _ => False) m₂ :=
    (Write.class site decl.name made.1 (by simp) (by simp [site, m₁])).keeps hsite
  have hbound : m₂.Fits (· < m.heap.scopes.size) (newClassFacts made.1 ++ [.scope site]) :=
    ⟨hbinds.leads.linked, hbinds.upholds.owned howned,
      fun k hk => (hfits.stands k hk).extends (Heap.Upholds.extend hbinds.upholds),
      hfits.spares.later hlinked hbinds.leads.grows rfl
        (fun s hs => Nat.lt_of_lt_of_le (hfits.spares.old s hs) hbinds.leads.grows.scopes)
        fun _ _ => id⟩
  have hbody := (members_built (C := False) (Γ := newClassFacts made.1 ++ [.scope site]) decl.body
    made.1 (by simp [newClassFacts]) (by simp [newClassFacts]) fun _ _ => False.elim).keeps watch n
    hbound
  exact ⟨(hmade.leads.grows.trans hbinds.leads.grows).trans hbody.leads.grows, hbody.names⟩

theorem classMembers_leaves (hm : m.Plain) (decl : ClassDecl)
    (hsupers : ∀ p ∈ supers, m.heap.Named p) :
    let made := m.heap.newClass (Class.fresh decl.name supers decl.modifiers.isStatic
      (access decl.modifiers)) (some m.registers.scope)
    let m' := (classMembers (watchedLevel watch n) m.registers.scope decl made.1
      { m with heap := made.2 }).machine
    m.LeavesClass decl.name m' := by
  intro made m'
  have ho := hm.owned
  have hscope := hm.linked.scope
  obtain ⟨-, -, hdeclared, hnone⟩ := classMembers_ends watch n hm.linked ho decl hsupers
  obtain ⟨hgrows, hbody⟩ := classMembers_site watch n hm decl hsupers
  let bind (sc : Scope) : Scope := { sc with classes := sc.classes.insert decl.name made.1 }
  have hold {s : ScopeId} (hs : s < m.heap.scopes.size) : made.2.scopeAt s = m.heap.scopeAt s :=
    (Heap.scopeAt_newScope _ _ _ s).trans (if_neg (Nat.ne_of_lt hs))
  refine ⟨fun s hs hother => ?_, ?_, hdeclared.1.lt, hnone⟩
  · have hbound : made.2.SameNames (made.2.updateScope m.registers.scope bind) s :=
      Heap.updateScope_sameNames bind hother.symm
    exact ((Heap.SameNames.of_eq (hold hs)).trans (hbound.trans (hbody s hs))).keeps ho.heap hgrows
  · have hsize : m.registers.scope < made.2.scopes.size :=
      Nat.lt_trans hscope (Nat.lt_of_lt_of_eq (Nat.lt_succ_self _) (Array.size_push _).symm)
    refine Eq.trans (hbody _ hscope) ?_
    rw [Heap.scopeAt_updateScope, if_pos ⟨rfl, hsize⟩, hold hscope]
    rfl

theorem classDecl_failed (hm : m.Plain) {decl : ClassDecl}
    (hfail : classDecl (watchedLevel watch n) decl m = .failed e m') :
    (∀ e₀ m₀, Eval.mapList (superClass decl) decl.supers m = .failed e₀ m₀ →
      m.heap.KeepsAll m'.heap) ∧
    ∀ named m₀, Eval.mapList (superClass decl) decl.supers m = .done named m₀ →
      m.LeavesClass decl.name m' := by
  have ho := hm.owned
  unfold classDecl classBody at hfail
  simp only [bind_assoc] at hfail
  rw [scope_bind] at hfail
  constructor
  · intro e₀ m₀ hsupers
    have hkept := superClasses_keepsAll hm decl
    rw [Eval.bind_apply, hsupers] at hfail
    rw [hsupers] at hkept
    cases hfail
    exact hkept
  · intro named m₀ hsupers
    obtain ⟨rfl, hnamed⟩ := mapList_done (fun _ _ _ => superClass_done ho) hsupers
    rw [bind_of_done hsupers] at hfail
    -- Taking over members comes last and does not fail, so it was the body that did.
    have hends := machine_of_failed (x := classMembers _ m₀.registers.scope decl _)
      (fun _ => allOrNothing_change (·.flatten _)) hfail
    subst hends
    exact classMembers_leaves hm decl (supers_named ho hnamed decl.modifiers.isStatic)

end Declaration

def Stmt.FailsTo (m m' : Machine) : Stmt → Prop
  | .class decl =>
    (∀ e₀ m₀, Eval.mapList (Declaration.superClass decl) decl.supers m = .failed e₀ m₀ →
      ∀ s, s < m.heap.scopes.size → m.heap.KeepsNames m'.heap s) ∧
    ∀ named m₀, Eval.mapList (Declaration.superClass decl) decl.supers m = .done named m₀ →
      m.LeavesClass decl.name m'
  | _ => ∀ s, s < m.heap.scopes.size → m.heap.KeepsNames m'.heap s

section

variable {watch : Machine → Bool} {n : Nat} {m m' : Machine} {e : Failure} {stmt : Stmt}

theorem Statement.run_failed (hm : Reachable m)
    (hfail : run (watchedLevel watch n) stmt m = .failed e m')
    (himport : ∀ span path form, stmt ≠ .importModule span path form) :
    m'.registers = m.registers ∧ stmt.FailsTo m m' := by
  have hregisters := (run_built stmt False.elim
    (stmt.needs_subset (List.Subset.refl _))).failed_registers hfail
  have hkeeps (hall : m.heap.KeepsAll m'.heap) := hall.keeps hm.owned.heap
  -- What declares nothing knows of nowhere to put names, whether it fails or not.
  have hplain (hdeclares : stmt.isDeclaration = false) : m.heap.KeepsAll m'.heap := by
    have hneeds : ∀ k ∈ stmt.needs, k ∈ [] := by
      rw [stmt.needs_of_not_declaration hdeclares]
      exact fun _ hk => hk
    have hkept := (run_built stmt False.elim hneeds).keepsAll watch n hm.plain
    rw [hfail] at hkept
    exact hkept
  obtain ⟨e', hbody⟩ := failed_of_locate hfail
  refine ⟨hregisters, ?_⟩
  cases stmt with
  | «variable» => exact hkeeps (variableDecl_failed hm.plain (failed_of_bind_pure hbody))
  | function => exact hkeeps (Declaration.function_failed hm.plain (failed_of_bind_pure hbody))
  | «class» =>
    obtain ⟨hfound, hleft⟩ := Declaration.classDecl_failed hm.plain (failed_of_bind_pure hbody)
    exact ⟨fun e₀ m₀ hsupers => hkeeps (hfound e₀ m₀ hsupers), hleft⟩
  | enum => exact hkeeps (Declaration.enumDecl_failed hm.plain (failed_of_bind_pure hbody))
  | importModule span path form => exact absurd rfl (himport span path form)
  | _ => exact hkeeps (hplain rfl)

theorem watchedLevel_execute_failed (hfail : (watchedLevel watch n).execute stmt m = .failed e m') :
    ∃ k, Statement.run (watchedLevel watch k) stmt m = .failed e m' := by
  cases n with
  | zero => cases hfail
  | succ n =>
    change enter watch n (Statement.run (watchedLevel watch n) stmt) m = .failed e m' at hfail
    rw [enter_apply] at hfail
    grind

theorem Declaration.member_failed (hm : Reachable m) {c : ClassId}
    (hfail : member (watchedLevel watch n) c stmt m = .failed e m') :
    m'.registers = m.registers ∧ stmt.FailsTo m m' := by
  have hregisters := (member_built c stmt (Γ := [.type c, .declared c, .inside]) (by simp) (by simp)
    (by simp) False.elim).failed_registers hfail
  have hkeeps (hall : m.heap.KeepsAll m'.heap) := hall.keeps hm.owned.heap
  obtain ⟨e', hbody⟩ := failed_of_locate hfail
  refine ⟨hregisters, ?_⟩
  cases stmt with
  | «variable» => exact hkeeps (memberVariable_failed hm.plain hbody)
  | property => exact hkeeps (memberProperty_failed hbody)
  | function => exact hkeeps (memberFunction_failed hm.plain hbody)
  | «class» | enum =>
    obtain ⟨k, hrun⟩ := watchedLevel_execute_failed (failed_of_bind_pure hbody)
    exact (Statement.run_failed hm hrun fun _ _ _ h => nomatch h).2
  | _ =>
    cases hbody
    exact hkeeps (.refl _)

end

/-- A statement that fails leaves what all scopes stand for, except that a declaration of a class
    whose body fails leaves the name of the class. Imports are apart: they put names into the
    current scope one by one. -/
theorem Reachable.failed_declaration {m m' : Machine} (hm : Reachable m) (watch : Machine → Bool)
    (n : Nat) {stmt : Stmt} {e : Failure} :
    (Statement.run (watchedLevel watch n) stmt m = .failed e m' →
      (∀ span path form, stmt ≠ .importModule span path form) →
        m'.registers = m.registers ∧ stmt.FailsTo m m') ∧
    ∀ c, c < m.heap.classes.size →
      Declaration.member (watchedLevel watch n) c stmt m = .failed e m' →
        m'.registers = m.registers ∧ stmt.FailsTo m m' :=
  ⟨Statement.run_failed hm, fun _ _ => Declaration.member_failed hm⟩

def ClassDecl.tally (initializer : Expr) : ClassDecl :=
  ⟨"A", [], [.variable default ⟨"v", false, none, some initializer, ⟨none, true⟩⟩], .none, default⟩

def Machine.tally : Machine :=
  ((Request.module [.class (.tally (.literal default (.int 1)))]).perform (level 20)
    (Machine.initial Config.standard default [])).machine

def Stmt.retally : Stmt :=
  .class (.tally (.name default "missing"))

def Stmt.halfEnum : Stmt :=
  .enum ⟨"E", [("a", none), ("b", some (.name default "missing"))], .none, default⟩

def Outcome.failsIn {α : Type} (test : Machine → Bool) : Outcome α → Bool
  | .failed _ m => test m
  | _ => false

theorem Outcome.failed_of_failsIn {test : Machine → Bool} {o : Outcome α}
    (h : o.failsIn test = true) : ∃ e m, o = .failed e m ∧ test m = true := by
  cases o with
  | failed e m => exact ⟨e, m, rfl, h⟩
  | _ => cases h

def Machine.class? (m : Machine) (name : String) : Option ClassId :=
  (m.heap.scopeAt m.registers.scope).classes.find? name

theorem Machine.retally_fails : Machine.tally.class? "A" = some 50 ∧
      (Statement.run (level 20) .retally Machine.tally).failsIn
        (fun m' => m'.class? "A" == some 52) = true ∧
      (Statement.run (level 20) .halfEnum Machine.tally).failsIn
        (fun m' => m'.class? "E" == none) = true := by
  decide +kernel

theorem Reachable.tally : Reachable Machine.tally :=
  .request (.initial Config.standard default []) (fun _ => false) 20
    (.module [.class (.tally (.literal default (.int 1)))])

theorem Reachable.failed_declaration_tally :
    (∃ e m', Statement.run (level 20) .halfEnum Machine.tally = .failed e m' ∧
      Machine.tally.heap.KeepsNames m'.heap Machine.tally.registers.scope) ∧
    ∃ e m', Statement.run (level 20) .retally Machine.tally = .failed e m' ∧
      Machine.tally.LeavesClass "A" m' := by
  obtain ⟨-, hclass, henum⟩ := retally_fails
  have hm := Reachable.tally
  obtain ⟨e₁, m₁, hclass, -⟩ := failed_of_failsIn hclass
  obtain ⟨e₂, m₂, henum, -⟩ := failed_of_failsIn henum
  generalize Machine.tally = m at *
  obtain ⟨-, hkept⟩ := (Reachable.failed_declaration hm (fun _ => false) 20).1 henum
    fun _ _ _ h => nomatch h
  obtain ⟨-, -, hleft⟩ := (Reachable.failed_declaration hm (fun _ => false) 20).1 hclass
    fun _ _ _ h => nomatch h
  exact ⟨⟨e₂, m₂, henum, hkept _ hm.linked.scope⟩, e₁, m₁, hclass, hleft [] m rfl⟩

theorem failed_class_still_bound :
    ∃ (m m' : Machine) (e : Failure) (decl : ClassDecl), Reachable m ∧
      Statement.run (level 20) (.class decl) m = .failed e m' ∧
      m'.registers.scope = m.registers.scope ∧
      ∃ before after, m.class? decl.name = some before ∧ m'.class? decl.name = some after ∧
        after ≠ before := by
  obtain ⟨hbefore, hclass, -⟩ := retally_fails
  obtain ⟨e, m', hfail, hafter⟩ := failed_of_failsIn hclass
  have hregisters := (Statement.run_failed Reachable.tally hfail fun _ _ _ h => nomatch h).1
  exact ⟨_, m', e, _, Reachable.tally, hfail, congrArg Registers.scope hregisters, 50, 52, hbefore,
    eq_of_beq hafter, by decide⟩

end ClassScript
