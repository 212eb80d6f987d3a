import ClassScript.Proofs.Confinement

/-!
# What a Declared Class Has

The result about all classes that are ever declared: a declaration that is reached in any run
starts at a machine that occurs, and its class is new when its body begins.
-/

namespace ClassScript

open Eval hiding pure

theorem Eval.mapList_done {α β : Type} {f : α → Eval β} {P : β → Prop} {m : Machine}
    (hf : ∀ a b m', f a m = .done b m' → m' = m ∧ P b) {as : List α} {bs : List β} {m' : Machine}
    (hrun : Eval.mapList f as m = .done bs m') : m' = m ∧ ∀ b ∈ bs, P b := by
  have honto (as : List α) : ∀ found : List β, (∀ b ∈ found, P b) →
      Eval.mapOnto f as found m = .done bs m' → m' = m ∧ ∀ b ∈ bs, P b := by
    induction as with
    | nil =>
      intro found hfound hdone
      obtain ⟨rfl, rfl⟩ := Outcome.done.inj hdone
      simp_all
    | cons a as ih =>
      intro found hfound hdone
      obtain ⟨b, m₁, ha, hrest⟩ := bind_done hdone
      grind
  exact honto as [] (fun b hb => absurd hb List.not_mem_nil) hrun

namespace Declaration

variable {m m' : Machine} {c : ClassId} {name : String} {decl : ClassDecl}

theorem resolveType_done (ho : m.Owned) (hrun : resolveType name m = .done c m') :
    m' = m ∧ m.heap.Named c := by
  unfold resolveType at hrun
  split at hrun
  · obtain ⟨rfl, rfl⟩ := Outcome.done.inj hrun
    exact ⟨rfl, ho.null⟩
  · rw [Eval.bind_apply] at hrun
    dsimp only [Eval.scope, Eval.read] at hrun
    rw [Eval.bind_apply] at hrun
    dsimp only [Eval.ask] at hrun
    cases hfound : m.heap.lookup m.registers.scope name with
    | none =>
      rw [hfound] at hrun
      cases hrun
    | some found =>
      obtain ⟨binding, s⟩ := found
      rw [hfound] at hrun
      cases binding with
      | type p =>
        obtain ⟨rfl, rfl⟩ := Outcome.done.inj hrun
        exact ⟨rfl, Heap.lookup_named ho.heap hfound⟩
      | family _ | «variable» _ => cases hrun

theorem superClass_done (ho : m.Owned)
    (hrun : superClass decl name m = .done c m') : m' = m ∧ m.heap.Named c := by
  obtain ⟨p, m₁, hp, hrest⟩ := bind_done hrun
  obtain ⟨rfl, hnamed⟩ := resolveType_done ho hp
  change (if (m₁.heap.classAt p).isStatic && !decl.modifiers.isStatic then
    Eval.fail (.staticSuper decl.name name) else pure p : Eval ClassId) m₁ = .done c m' at hrest
  split at hrest
  · cases hrest
  · obtain ⟨rfl, rfl⟩ := Outcome.done.inj hrest
    exact ⟨rfl, hnamed⟩

theorem supers_named (ho : m.Owned) {named : List ClassId} (hnamed : ∀ p ∈ named, m.heap.Named p)
    (isStatic : Bool) :
    ∀ p ∈ (if named.isEmpty && !isStatic then [ClassId.object] else named), m.heap.Named p := by
  intro p hp
  split at hp
  · rw [List.mem_singleton.mp hp]
    exact ho.object
  · exact hnamed p hp

theorem classMembers_ends (watch : Machine → Bool) (n : Nat) (hm : m.Linked) (ho : m.Owned)
    (decl : ClassDecl) {supers : List ClassId} (hsupers : ∀ p ∈ supers, m.heap.Named p) :
    let made := m.heap.newClass (Class.fresh decl.name supers decl.modifiers.isStatic
      (access decl.modifiers)) (some m.registers.scope)
    let m' := (classMembers (watchedLevel watch n) m.registers.scope decl made.1
      { m with heap := made.2 }).machine
    m'.Linked ∧ m'.Owned ∧ (Fact.declared made.1).Stands m'.heap m'.modules ∧
      (m'.heap.classAt made.1).ancestors = none := by
  intro made m'
  let site : List Fact := [.scope m.registers.scope, .naming m.registers.scope]
  have hsite := ((Machine.Fits.here hm ho).siteInside (by simp)).mono (Δ := site) (by simp [site])
  obtain ⟨hmade, hfits⟩ := hsite.newClass List.mem_cons_self decl.name decl.modifiers.isStatic
    (access decl.modifiers) hsupers
  have hbody := (classMembers_built (C := False) (Γ := newClassFacts made.1 ++ site)
    m.registers.scope decl made.1 (by simp [newClassFacts]) (by simp [newClassFacts])
    (by simp [newClassFacts]) (by simp [site]) fun _ _ => False.elim).keeps watch n hfits
  have hdeclared := hfits.stands _ (declared_mem made.1 site)
  have hfirst := Heap.newClass_ancestors m.heap (some m.registers.scope)
    (c := Class.fresh decl.name supers decl.modifiers.isStatic (access decl.modifiers)) rfl
  refine ⟨hbody.leads.linked, hbody.upholds.owned (hmade.upholds.owned ho),
    hdeclared.extends (Heap.Upholds.extend hbody.upholds), ?_⟩
  exact (Heap.Upholds.settled hbody.upholds made.1 hdeclared.1.lt).trans hfirst

theorem classBody_done {watch : Machine → Bool} {n : Nat} (hm : m.Linked) (ho : m.Owned)
    (hrun : classBody (watchedLevel watch n) decl m = .done c m') :
    m'.Linked ∧ m'.Owned ∧ (Fact.declared c).Stands m'.heap m'.modules ∧
      (m'.heap.classAt c).ancestors = none := by
  change (Eval.mapList (superClass decl) decl.supers >>= _) m = .done c m' at hrun
  obtain ⟨named, m₀, hfound, hrest⟩ := bind_done hrun
  obtain ⟨rfl, hnamed⟩ := mapList_done (fun _ _ _ => superClass_done ho) hfound
  generalize hlist : (if named.isEmpty && !decl.modifiers.isStatic then [ClassId.object]
    else named) = supers at hrest
  have hsupers (p : ClassId) (hp : p ∈ supers) : m₀.heap.Named p :=
    supers_named ho hnamed decl.modifiers.isStatic p (hlist ▸ hp)
  let made := m₀.heap.newClass (Class.fresh decl.name supers decl.modifiers.isStatic
    (access decl.modifiers)) (some m₀.registers.scope)
  change (classMembers _ m₀.registers.scope decl made.1 >>= fun _ => pure made.1)
    { m₀ with heap := made.2 } = .done c m' at hrest
  obtain ⟨u, m₂, hmembers, hlast⟩ := bind_done hrest
  obtain ⟨rfl, rfl⟩ := Outcome.done.inj hlast
  have hends := classMembers_ends watch n hm ho decl hsupers
  dsimp only at hends
  rw [hmembers] at hends
  exact hends

end Declaration

open Declaration in
/-- A declaration of a class whose body can be run does nothing afterwards but let the class take
    over members, and what the class has then was declared by it and its ancestors, no more and no
    less. -/
theorem Reachable.classDecl_inherited {m m' : Machine} {c : ClassId} (hm : Reachable m)
    (watch : Machine → Bool) (n : Nat) (decl : ClassDecl)
    (hbody : classBody (watchedLevel watch n) decl m = .done c m') (hd : m'.heap.Distinct) :
    classDecl (watchedLevel watch n) decl m = .done () { m' with heap := m'.heap.flatten c } ∧
      m'.heap.Inherited c (m'.heap.flatten c) := by
  obtain ⟨hlinked, howned, ⟨hnamed, hmodules⟩, hnone⟩ :=
    classBody_done hm.linked hm.owned hbody
  constructor
  · unfold classDecl
    rw [Eval.bind_apply, hbody]
    rfl
  · exact Heap.flatten_inherited howned.heap hlinked.heap hnamed hnone hmodules hd

def Declaration.signature (name : String) (classes : List TypeNames) : Stmt :=
  .function ⟨name, classes.map fun names => ⟨"x", some names, none, false, default⟩, [], .none,
    default⟩

def Declaration.animals : List Stmt :=
  [.class ⟨"Animal", [], [signature "Animal" [], signature "feed" [["int", "str"]],
     .variable default ⟨"count", false, none, none, ⟨none, true⟩⟩], .none, default⟩,
   .class ⟨"Pet", ["Animal"], [signature "Pet" [], signature "feed" [["str"]],
     signature "call" [["str"]]], .none, default⟩]

def Declaration.dog : ClassDecl :=
  ⟨"Dog", ["Pet", "Animal"], [signature "Dog" [], signature "feed" [["str", "int"]]], .none,
    default⟩

def Machine.farm : Machine :=
  ((Request.module Declaration.animals).perform (level 20)
    (Machine.initial Config.standard default [])).machine

open Declaration in
theorem Reachable.dog_inherited :
    Reachable Machine.farm ∧ ∃ c m', classBody (level 20) dog Machine.farm = .done c m' ∧
      m'.heap.Distinct ∧
      classDecl (level 20) dog Machine.farm = .done () { m' with heap := m'.heap.flatten c } ∧
      m'.heap.Inherited c (m'.heap.flatten c) ∧
      ((m'.heap.family? c "feed").map (·.length) = some 1 ∧
        ((m'.heap.flatten c).family? c "feed").map (·.length) = some 2) ∧
      ((m'.heap.classVariable? c "count").isSome = false ∧
        ((m'.heap.flatten c).classVariable? c "count").isSome = true) ∧
      (m'.heap.flatten c).family? c "Pet" = none := by
  have hcheck : (classBody (level 20) dog Machine.farm).endsIn (fun c m' =>
      decide (m'.heap.Distinct ∧
        ((m'.heap.family? c "feed").map (·.length) = some 1 ∧
          ((m'.heap.flatten c).family? c "feed").map (·.length) = some 2) ∧
        ((m'.heap.classVariable? c "count").isSome = false ∧
          ((m'.heap.flatten c).classVariable? c "count").isSome = true) ∧
        (m'.heap.flatten c).family? c "Pet" = none)) = true := by
    decide +kernel
  have hfarm : Reachable Machine.farm :=
    .request (.initial Config.standard default []) (fun _ => false) 20 (.module animals)
  obtain ⟨c, m', hbody, htest⟩ := Outcome.done_of_endsIn hcheck
  obtain ⟨hdistinct, hrest⟩ := of_decide_eq_true htest
  obtain ⟨hdecl, hinherited⟩ := Reachable.classDecl_inherited hfarm (fun _ => false) 20 dog
    hbody hdistinct
  exact ⟨hfarm, c, m', hbody, hdistinct, hdecl, hinherited, hrest⟩

end ClassScript
