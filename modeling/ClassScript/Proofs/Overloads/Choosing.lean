import ClassScript.Proofs.Overloads.Binding
import Mathlib.Data.Fintype.Fin
import Mathlib.Data.List.Induction

/-!
# Which Overload Is Chosen

A call keeps the best function so far. In the end it splits the family into those in front of it,
which have more untyped parameters if they take the arguments, and those behind it, which do not
have fewer.
-/

namespace ClassScript

open List Heap

namespace Heap

variable {h : Heap} {widening : Bool} {a : Arguments} {family : List OverloadId}
  {r : OverloadId × Bound}
variable {f : OverloadId}

/-- Whether the arguments can be shared out among the parameters of a function. -/
def CanTake (h : Heap) (widening : Bool) (a : Arguments) (f : OverloadId) : Prop :=
  ∃ b, h.Binds widening (h.overloadAt f) a b

/-- The number of places in a parameter list for which no classes are given. -/
def untyped (h : Heap) (f : OverloadId) : Nat :=
  (Finset.univ.filter fun i => ((h.overloadAt f).params.get i).accepted = none).card

/-- The first function of a family with the fewest untyped parameters among those that take
    the arguments, and what it makes of them. -/
def Best (h : Heap) (widening : Bool) (a : Arguments) (family : List OverloadId)
    (r : OverloadId × Bound) : Prop :=
  h.Binds widening (h.overloadAt r.1) a r.2 ∧
    ∃ before after, family = before ++ r.1 :: after ∧
      (∀ g ∈ before, h.CanTake widening a g → h.untyped r.1 < h.untyped g) ∧
      ∀ g ∈ after, h.CanTake widening a g → h.untyped r.1 ≤ h.untyped g

theorem untypedCount_eq (h : Heap) (f : OverloadId) :
    (h.overloadAt f).untypedCount = h.untyped f := by
  unfold Overload.untypedCount untyped
  induction (h.overloadAt f).params with
  | nil => rfl
  | cons p params ih =>
    have hsucc := Fin.card_filter_univ_succ fun i : Fin (params.length + 1) =>
      ((p :: params).get i).accepted = none
    rw [countP_cons, ih]
    refine Eq.trans ?_ hsucc.symm
    cases hp : p.accepted <;> simp [hp]

theorem CanTake.allowing (hf : h.CanTake false a f) : h.CanTake true a f := by
  obtain ⟨b, hb⟩ := hf
  exact ⟨b, hb.allowing⟩

theorem Best.canTake (hr : h.Best widening a family r) : h.CanTake widening a r.1 :=
  ⟨r.2, hr.1⟩

theorem Best.mem (hr : h.Best widening a family r) : r.1 ∈ family := by
  obtain ⟨_, before, after, rfl, _, _⟩ := hr
  simp

theorem Best.le (hr : h.Best widening a family r) {g : OverloadId} (hg : g ∈ family)
    (htake : h.CanTake widening a g) : h.untyped r.1 ≤ h.untyped g := by
  obtain ⟨_, before, after, rfl, hbefore, hafter⟩ := hr
  grind

theorem better_of_not_canTake (hf : ¬ h.CanTake widening a f)
    (best : Option (OverloadId × Bound)) : h.better widening a best f = best := by
  have hnone : h.bindArguments widening (h.overloadAt f) a = none :=
    Option.eq_none_iff_forall_ne_some.mpr fun b hb => hf ⟨b, bindArguments_iff.mp hb⟩
  rw [better, hnone]

theorem bestOverload_append (f : OverloadId) : h.bestOverload widening (family ++ [f]) a =
    h.better widening a (h.bestOverload widening family a) f :=
  foldl_concat ..

theorem bestOverload_none_iff :
    h.bestOverload widening family a = none ↔ ∀ f ∈ family, ¬ h.CanTake widening a f := by
  induction family using reverseRecOn with
  | nil => simp [bestOverload]
  | append_singleton family f ih =>
    rw [bestOverload_append]
    by_cases hf : h.CanTake widening a f
    · -- Whatever was there before, a function that takes the arguments leaves something.
      obtain ⟨b, hb⟩ := hf
      have hsome : h.better widening a (h.bestOverload widening family a) f ≠ none := by
        rw [better, bindArguments_iff.mpr hb]
        cases h.bestOverload widening family a with
        | none => simp
        | some old => dsimp only; split <;> simp
      exact iff_of_false hsome fun hnone => hnone f (by simp) ⟨b, hb⟩
    · rw [better_of_not_canTake hf]
      constructor
      · grind
      · simp_all

theorem best_append_iff : h.Best widening a (family ++ [f]) r ↔
    (h.Best widening a family r ∧ (h.CanTake widening a f → h.untyped r.1 ≤ h.untyped f)) ∨
      (r.1 = f ∧ h.Binds widening (h.overloadAt f) a r.2 ∧
        ∀ g ∈ family, h.CanTake widening a g → h.untyped f < h.untyped g) := by
  constructor
  · rintro ⟨hr, before, after, hsplit, hbefore, hafter⟩
    rcases eq_nil_or_concat after with rfl | ⟨after, g, rfl⟩
    · simp_all
    · rw [concat_eq_append, ← cons_append, ← append_assoc] at hsplit
      obtain ⟨rfl, hlast⟩ := append_inj' hsplit rfl
      obtain rfl : f = g := singleton_inj.mp hlast
      refine .inl ⟨⟨hr, before, after, rfl, hbefore, fun g hg => hafter g (by simp [hg])⟩, ?_⟩
      exact hafter f (by simp)
  · rintro (⟨⟨hr, before, after, rfl, hbefore, hafter⟩, hf⟩ | ⟨rfl, hr, hbefore⟩)
    · refine ⟨hr, before, after ++ [f], by simp, hbefore, fun g hg => ?_⟩
      rcases mem_append.mp hg with hg | hg
      · exact hafter g hg
      · rwa [mem_singleton.mp hg]
    · exact ⟨hr, family, [], rfl, hbefore, by simp⟩

theorem bestOverload_iff :
    h.bestOverload widening family a = some r ↔ h.Best widening a family r := by
  induction family using reverseRecOn generalizing r with
  | nil => simp [bestOverload, Best]
  | append_singleton family f ih =>
    rw [bestOverload_append, best_append_iff, ← ih, ← bindArguments_iff]
    by_cases hf : h.CanTake widening a f
    · obtain ⟨b, hb⟩ := hf
      rw [better, bindArguments_iff.mpr hb]
      cases hold : h.bestOverload widening family a with
      | none =>
        have hnone := bestOverload_none_iff.mp hold
        grind
      | some old =>
        have hbest := ih.mp hold
        -- The new one has fewer than all others if it has fewer than the best of them.
        have hfewer : (∀ g ∈ family, h.CanTake widening a g → h.untyped f < h.untyped g) ↔
            h.untyped f < h.untyped old.1 :=
          ⟨fun hall => hall old.1 hbest.mem hbest.canTake,
            fun hlt g hg htake => Nat.lt_of_lt_of_le hlt (hbest.le hg htake)⟩
        rw [hfewer]
        simp only [Option.some.injEq, untypedCount_eq]
        split
        · next hlt =>
          constructor
          · rintro ⟨⟩
            exact .inr ⟨rfl, rfl, hlt⟩
          · rintro (⟨rfl, hle⟩ | ⟨rfl, rfl, _⟩)
            · exact absurd hlt (Nat.not_lt.mpr (hle ⟨b, hb⟩))
            · rfl
        · next hlt =>
          constructor
          · rintro ⟨⟩
            exact .inl ⟨rfl, fun _ => Nat.not_lt.mp hlt⟩
          · rintro (⟨rfl, _⟩ | ⟨rfl, rfl, hlt'⟩)
            · rfl
            · exact absurd hlt' hlt
    · rw [better_of_not_canTake hf]
      constructor
      · simp_all
      · rintro (⟨hr, _⟩ | ⟨rfl, hr, _⟩)
        · exact hr
        · exact absurd ⟨r.2, bindArguments_iff.mp hr⟩ hf

theorem best_iff_of_distinct (hdistinct : ∀ f ∈ family, ∀ g ∈ family, h.CanTake widening a f →
    h.CanTake widening a g → h.untyped f = h.untyped g → f = g) :
    h.Best widening a family r ↔ h.Binds widening (h.overloadAt r.1) a r.2 ∧
      r.1 ∈ family ∧ ∀ g ∈ family, h.CanTake widening a g → h.untyped r.1 ≤ h.untyped g := by
  constructor
  · exact fun hr => ⟨hr.1, hr.mem, fun g hg htake => hr.le hg htake⟩
  · rintro ⟨hr, hmem, hleast⟩
    have htake : h.CanTake widening a r.1 := ⟨r.2, hr⟩
    obtain ⟨before, after, rfl, hfirst⟩ := eq_append_cons_of_mem hmem
    refine ⟨hr, before, after, rfl, fun g hg hg' => ?_, fun g hg => hleast g (by simp [hg])⟩
    grind

theorem bestOverload_perm {family' : List OverloadId} (hperm : family'.Perm family)
    (hdistinct : ∀ f ∈ family, ∀ g ∈ family, h.CanTake widening a f → h.CanTake widening a g →
      h.untyped f = h.untyped g → f = g) :
    h.bestOverload widening family' a = h.bestOverload widening family a := by
  have hdistinct' : ∀ f ∈ family', ∀ g ∈ family', h.CanTake widening a f →
      h.CanTake widening a g → h.untyped f = h.untyped g → f = g :=
    fun f hf g hg => hdistinct f (hperm.mem_iff.mp hf) g (hperm.mem_iff.mp hg)
  refine Option.ext fun r => ?_
  rw [bestOverload_iff, bestOverload_iff, best_iff_of_distinct hdistinct,
    best_iff_of_distinct hdistinct']
  simp [hperm.mem_iff]

theorem bestOverload_insert {before after : List OverloadId}
    (hf : ¬ h.CanTake widening a f) : h.bestOverload widening (before ++ f :: after) a =
      h.bestOverload widening (before ++ after) a := by
  rw [bestOverload, foldl_append, foldl_cons, better_of_not_canTake hf, bestOverload,
    foldl_append]

theorem resolve_iff : h.resolve family a = some r ↔ h.Best false a family r ∨
    (∀ f ∈ family, ¬ h.CanTake false a f) ∧ h.Best true a family r := by
  rw [resolve, ← bestOverload_none_iff, ← bestOverload_iff, ← bestOverload_iff]
  cases h.bestOverload false family a <;> simp

theorem resolve_none_iff : h.resolve family a = none ↔ ∀ f ∈ family, ¬ h.CanTake true a f := by
  rw [← bestOverload_none_iff, resolve]
  cases hexact : h.bestOverload false family a with
  | none => simp
  | some r =>
    -- What takes the arguments as they are takes them with widening allowed.
    have hbest := bestOverload_iff.mp hexact
    have hsome : h.bestOverload true family a ≠ none := fun hnone =>
      bestOverload_none_iff.mp hnone r.1 hbest.mem hbest.canTake.allowing
    simp [hsome]

end Heap

/-- A call chooses the first function with the fewest untyped parameters among those that take the
    arguments as they are, or else widened, and fails only if there are none. -/
theorem Calling.family_chooses_best (m : Machine) (overloads : List OverloadId) (a : Arguments) :
    (∀ r, m.heap.resolve overloads a = some r ↔ m.heap.Best false a overloads r ∨
      (∀ f ∈ overloads, ¬ m.heap.CanTake false a f) ∧ m.heap.Best true a overloads r) ∧
    (m.heap.resolve overloads a = none ↔ ∀ f ∈ overloads, ¬ m.heap.CanTake true a f) ∧
    (∀ L name receiver span,
      (∀ f bound, m.heap.resolve overloads a = some (f, bound) →
        family L name overloads receiver a span m =
          (parameterValues bound >>= fun values => L.invoke f receiver values span) m) ∧
      (m.heap.resolve overloads a = none → ∃ fault : Fault, fault.kind = .noMatchingOverload ∧
        family L name overloads receiver a span m = .failed (.fault fault none []) m)) ∧
    (∀ overloads', overloads'.Perm overloads →
      (∀ f ∈ overloads, ∀ g ∈ overloads, m.heap.CanTake true a f → m.heap.CanTake true a g →
        m.heap.untyped f = m.heap.untyped g → f = g) →
      m.heap.resolve overloads' a = m.heap.resolve overloads a) ∧
    ∀ before after f, overloads = before ++ after → ¬ m.heap.CanTake true a f →
      m.heap.resolve (before ++ f :: after) a = m.heap.resolve overloads a := by
  refine ⟨fun r => resolve_iff, resolve_none_iff, fun L name receiver span => ⟨?_, ?_⟩,
    fun overloads' hperm hdistinct => ?_, ?_⟩
  · intro f bound hchosen
    simp only [family, Eval.bind_apply, Eval.ask, hchosen]
  · intro hnone
    refine ⟨.noOverload name (m.heap.argumentsText a) (m.heap.signatures overloads), rfl, ?_⟩
    simp only [family, Eval.bind_apply, Eval.ask, hnone]
    rfl
  · have hexact := fun f hf g hg hf' hg' =>
      hdistinct f hf g hg (Heap.CanTake.allowing hf') (Heap.CanTake.allowing hg')
    rw [Heap.resolve, Heap.resolve, bestOverload_perm hperm hdistinct,
      bestOverload_perm hperm hexact]
  · rintro before after f rfl hf
    rw [Heap.resolve, Heap.resolve, bestOverload_insert hf,
      bestOverload_insert fun htake => hf htake.allowing]

/-- Four functions `M(a: int, b)`, `M(a, b)`, `M(a: int, b: int)` and `M(a: float, b: str)`. -/
def Machine.overloaded : Machine :=
  let typed (classes : List (Option (List ClassId))) : Overload :=
    { (default : Overload) with
      name := "M", params := ["a", "b"].zipWith (fun x c => ⟨x, c, none, false⟩) classes }
  { (default : Machine) with
    heap := { Heap.empty with
      overloads := #[typed [some [ClassId.int], none], typed [none, none],
        typed [some [ClassId.int], some [ClassId.int]],
        typed [some [ClassId.float], some [ClassId.str]]] } }

/-- Two integers are taken by the three functions that have 1, 2 and 0 untyped parameters, in any
    order and whatever stands between them; an integer and a text by the last one, widened. -/
theorem Calling.family_chooses_best_overloaded :
    let h := Machine.overloaded.heap
    let a : Arguments := ⟨[.int 1, .int 2], []⟩
    (h.Best false a [0, 1, 2] (2, ⟨[.int 1, .int 2], none⟩) ∧
      [0, 1, 2].map h.untyped = [1, 2, 0]) ∧
    h.resolve [2, 1, 0] a = h.resolve [0, 1, 2] a ∧
    h.resolve [0, 3, 1, 2] a = h.resolve [0, 1, 2] a ∧
    h.Best true ⟨[.int 1, .str "x"], []⟩ [2, 3]
      (3, ⟨[.float (Binary64.ofInt 1), .str "x"], none⟩) := by
  intro h a
  have hchosen : h.resolve [0, 1, 2] a = some (2, ⟨[.int 1, .int 2], none⟩) := by decide
  have huntyped : [0, 1, 2].map h.untyped = [1, 2, 0] := by decide
  have hexact : h.bestOverload false [2, 3] ⟨[.int 1, .str "x"], []⟩ = none := by decide
  have hwidened : h.resolve [2, 3] ⟨[.int 1, .str "x"], []⟩ =
      some (3, ⟨[.float (Binary64.ofInt 1), .str "x"], none⟩) := by decide
  have htakes : h.CanTake false a 2 :=
    ⟨⟨[.int 1, .int 2], none⟩, bindArguments_iff.mp (by decide)⟩
  have hcannot : ¬ h.CanTake true a 3 := by
    rintro ⟨b, hb⟩
    have hnone : h.bindArguments true (h.overloadAt 3) a = none := by decide
    rw [bindArguments_iff.mpr hb] at hnone
    cases hnone
  have hdistinct : ∀ f ∈ [0, 1, 2], ∀ g ∈ [0, 1, 2], h.untyped f = h.untyped g → f = g := by
    decide
  obtain ⟨hbest, -, -, hperm, hinsert⟩ := family_chooses_best Machine.overloaded [0, 1, 2] a
  refine ⟨⟨?_, huntyped⟩, ?_, hinsert [0] [1, 2] 3 rfl hcannot, ?_⟩
  · exact ((hbest _).mp hchosen).resolve_right fun hnone => hnone.1 2 (by decide) htakes
  · exact hperm [2, 1, 0] (by decide) fun f hf g hg _ _ => hdistinct f hf g hg
  · refine (((family_chooses_best Machine.overloaded [2, 3] _).1 _).mp hwidened).elim ?_ And.right
    intro hbest
    rw [bestOverload_iff.mpr hbest] at hexact
    cases hexact

end ClassScript
