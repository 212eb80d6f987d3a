import ClassScript.Proofs.Equality.Negation

/-!
# What Is Built In Stays

A class that has taken over members is settled: no step changes its operators or the functions
of its scope. The classes of values that no script class makes are settled before a program
runs, so these values have the operators of a new world at any time of a session.
-/

namespace ClassScript

open Eval hiding pure

variable {m₀ m : Machine} {v : Value}

def Heap.Freezes (h h' : Heap) : Prop :=
  ∀ c g, (h.classAt c).ancestors = some g → (h'.classAt c).ancestors = some g ∧
    (h'.classAt c).operators = (h.classAt c).operators ∧
    (h'.scopeAt (h'.classAt c).scope).functions = (h.scopeAt (h.classAt c).scope).functions

namespace Heap

variable {h h' h'' : Heap}

theorem Freezes.refl (h : Heap) : h.Freezes h := fun _ _ hg => ⟨hg, rfl, rfl⟩

theorem Freezes.trans (hfirst : h.Freezes h') (hrest : h'.Freezes h'') : h.Freezes h'' := by
  intro c g hg
  obtain ⟨hg', hops, hfns⟩ := hfirst c g hg
  obtain ⟨hg'', hops', hfns'⟩ := hrest c g hg'
  exact ⟨hg'', hops'.trans hops, hfns'.trans hfns⟩

theorem Freezes.of_matures {modules modules' : List (String × ClassId)}
    (hstep : h.Matures modules h' modules') : h.Freezes h' := by
  intro c g hg
  refine ⟨hstep.extend.kept c g hg, ?_, ?_⟩
  · have hbecomes := hstep.classes c
    generalize h'.classAt c = k at hbecomes ⊢
    cases hbecomes with
    | same => rfl
    | new _ hc => exact absurd (lt_of_ancestors hg) (hc ▸ Nat.lt_irrefl _)
    | field _ _ _ _ hnone | taken _ hnone => exact absurd (hnone.symm.trans hg) nofun
  · rw [hstep.extend.grows.classScope c (lt_of_ancestors hg)]
    exact hstep.functions _ ⟨c, g, hg, .inl rfl⟩

end Heap

theorem InSession.freezes (hm : InSession m₀) (hrun : m₀.Runs m) : World.heap.2.Freezes m.heap :=
  InSession.keeps (.refl _) (fun _ _ _ _ hstep hf => hf.trans (.of_matures hstep)) hm hrun

def ClassId.IsPlain (c : ClassId) : Prop :=
  ClassId.object < c ∧ c ≤ ClassId.type

theorem Heap.typeOf_isPlain (h : Heap) (hv : ∀ id, v ≠ .object id) :
    ClassId.IsPlain (h.typeOf v) := by
  cases v with
  | object id => exact absurd rfl (hv id)
  | _ => exact ⟨Nat.zero_lt_succ _, Nat.le_of_ble_eq_true rfl⟩

def Operator.all : List Operator :=
  [.add, .sub, .mul, .div, .mod, .eq, .ne, .lt, .le, .gt, .ge, .and, .or, .not, .neg, .pos,
    .index, .indexSet]

theorem Operator.mem_all (op : Operator) : op ∈ Operator.all := by cases op <;> decide

theorem World.plain_settled : ∀ c, c ≤ ClassId.type → ClassId.object < c →
    (heap.2.classAt c).ancestors.isSome ∧
      ∀ op ∈ Operator.all, heap.2.family? c op.symbol = none := by
  decide +kernel

theorem World.int_operators : ∀ op ∈ World.numberOperators,
    (heap.2.classAt ClassId.int).operators.find? op = some .number := by
  decide +kernel

namespace InSession

variable {m₀ m : Machine} {c : ClassId}

theorem operators_plain (hm : InSession m₀) (hrun : m₀.Runs m) (hc : ClassId.IsPlain c) :
    (m.heap.classAt c).operators = (World.heap.2.classAt c).operators := by
  obtain ⟨g, hg⟩ := Option.isSome_iff_exists.mp (World.plain_settled c hc.2 hc.1).1
  exact (hm.freezes hrun c g hg).2.1

theorem scripted_plain (hm : InSession m₀) (hrun : m₀.Runs m)
    (hv : ClassId.IsPlain (m.heap.typeOf v)) (op : Operator) (count : Nat) :
    m.heap.scripted v op count = [] := by
  obtain ⟨hsome, hnone⟩ := World.plain_settled _ hv.2 hv.1
  obtain ⟨g, hg⟩ := Option.isSome_iff_exists.mp hsome
  have hfamily := hnone op op.mem_all
  unfold Heap.family? at hfamily
  rw [← (hm.freezes hrun _ g hg).2.2] at hfamily
  unfold Heap.scripted Heap.family?
  rw [hfamily]
  rfl

end InSession

namespace Operation

variable {L : Level} {op : Operator} {left : Value} {rest : List Value} {span : Span} {m : Machine}
variable {family : OperatorFamily}

theorem builtin_of_family
    (hfamily : (m.heap.classAt (m.heap.typeOf left)).operators.find? op = some family) :
    builtin L op left rest m = native L family op left rest m := by
  unfold builtin Eval.typeOf
  rw [ask_bind, ask_bind, hfamily]

theorem apply_of_family (hnull : nullEquality op left rest = none)
    (hscript : m.heap.scripted left op rest.length = [])
    (hequal : op = .ne → m.heap.scripted left .eq rest.length = [])
    (htext : op = .add → ∀ v ∈ left :: rest, v.str? = none)
    (hfamily : (m.heap.classAt (m.heap.typeOf left)).operators.find? op = some family) :
    apply L op left rest span m = native L family op left rest m := by
  unfold apply dispatch
  rw [hnull]
  dsimp only
  rw [bind_of_done (script_of_nil hscript)]
  dsimp only
  split
  · unfold scriptUnequal
    rw [bind_assoc, bind_of_done (script_of_nil (hequal rfl))]
    exact builtin_of_family hfamily
  · rename_i right more
    have hnone : concatenation L left right = pure none := by
      unfold concatenation
      rw [htext rfl left (by simp), htext rfl right (by simp)]
      rfl
    rw [hnone]
    exact builtin_of_family hfamily
  · exact builtin_of_family hfamily

end Operation

/-- At any time of a session, operators on values that no script class makes are those that
    are built in. -/
theorem InSession.operate_plain (hm : InSession m₀) (hrun : m₀.Runs m)
    {watch : Machine → Bool} (hwatch : watch m = false) (n : Nat) {op : Operator} {left : Value}
    {rest : List Value} {family : OperatorFamily} (hleft : ClassId.IsPlain (m.heap.typeOf left))
    (hnull : Operation.nullEquality op left rest = none)
    (htext : op = .add → ∀ v ∈ left :: rest, v.str? = none)
    (hfamily : (World.heap.2.classAt (m.heap.typeOf left)).operators.find? op = some family)
    (span : Span) :
    (watchedLevel watch (n + 1)).operate op left rest span m =
      Operation.native (watchedLevel watch n) family op left rest m := by
  change enter watch n (Operation.apply _ op left rest span) m = _
  rw [enter_apply, hwatch, if_neg Bool.false_ne_true]
  refine Operation.apply_of_family hnull (hm.scripted_plain hrun hleft op _)
    (fun _ => hm.scripted_plain hrun hleft .eq _) htext ?_
  rw [hm.operators_plain hrun hleft]
  exact hfamily

end ClassScript
