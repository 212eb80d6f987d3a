import ClassScript.Proofs.Equality.Tables

/-!
# Inequality Is Negated Equality

Unless the class of the first operand says how to be unequal, inequality does what equality does,
ends in the same machine, and turns the answer around.
-/

namespace ClassScript

open Eval

def Heap.scripted (h : Heap) (v : Value) (op : Operator) (count : Nat) : List OverloadId :=
  ((h.family? (h.typeOf v) op.symbol).map (h.withOperands count)).getD []

/-- One outcome is the negation of the other, in the same machine. -/
inductive Outcome.Negates : Outcome Value → Outcome Value → Prop
  | done (v : Value) (m : Machine) : Negates (.done (.bool !m.heap.isTruthy v) m) (.done v m)
  | failed (e e' : Failure) (m : Machine) : Negates (.failed e m) (.failed e' m)
  | stopped (m : Machine) : Negates (.stopped m) (.stopped m)

namespace Operation

variable {L : Level} {op : Operator} {left right : Value} {rest : List Value} {span : Span}
    {m : Machine}

theorem script_of_nil (hnone : m.heap.scripted left op rest.length = []) :
    script L op.symbol left rest span m = .done none m := by
  unfold Heap.scripted at hnone
  unfold script Eval.typeOf
  rw [ask_bind, ask_bind]
  generalize (m.heap.family? (m.heap.typeOf left) op.symbol).map _ = found at hnone ⊢
  cases found with
  | none => rfl
  | some family =>
    cases family with
    | nil => rfl
    | cons f fs => cases hnone

theorem script_of_cons {f : OverloadId} {fs : List OverloadId}
    (hsome : m.heap.scripted left op rest.length = f :: fs) :
    script L op.symbol left rest span m =
      (some <$> Calling.family L op.symbol (f :: fs) (some left) ⟨rest, []⟩ span) m := by
  unfold Heap.scripted at hsome
  unfold script Eval.typeOf
  rw [ask_bind, ask_bind]
  generalize (m.heap.family? (m.heap.typeOf left) op.symbol).map _ = found at hsome ⊢
  cases found with
  | none => cases hsome
  | some family =>
    rw [show family = f :: fs from hsome]
    exact (congrFun (map_eq_pure_bind some _) m).symm

theorem negates_bool (x : Eval Bool) (m : Machine) :
    Outcome.Negates ((do return Value.bool !(← x) : Eval Value) m)
      ((do return Value.bool (← x) : Eval Value) m) := by
  rw [Eval.bind_apply, Eval.bind_apply]
  cases x m with
  | done b m => exact .done (.bool b) m
  | failed e m => exact .failed e e m
  | stopped m => exact .stopped m

theorem native_negates {family : OperatorFamily} (hfamily : family ≠ .null) :
    (native L family .ne left [right] m).Negates (native L family .eq left [right] m) := by
  cases family with
  | object => exact .done (.bool (left == right)) m
  | number => exact negates_bool (numberEqual left right) m
  | bool => exact .done (.bool (left.bool? == right.bool?)) m
  | null => exact absurd rfl hfamily
  | str => exact .done (.bool (left.str? == right.str?)) m
  | list => exact negates_bool (listsEqual L left right) m
  | dict => exact negates_bool (dictsEqual L left right) m
  | range => exact .done (.bool (m.heap.range? left == m.heap.range? right)) m
  | function => exact .done (.bool (sameFunction m.heap left right)) m

theorem builtin_negates (ht : (m.heap.classAt (m.heap.typeOf left)).operators.Paired) :
    (builtin L .ne left [right] m).Negates (builtin L .eq left [right] m) := by
  unfold builtin Eval.typeOf
  rw [ask_bind, ask_bind, ask_bind, ask_bind, ht.same]
  cases hfamily : (m.heap.classAt (m.heap.typeOf left)).operators.find? .eq with
  | none => exact .failed _ _ m
  | some family => exact native_negates fun hnull => ht.apart (hfamily.trans (hnull ▸ rfl))

theorem dispatch_negates (ht : (m.heap.classAt (m.heap.typeOf left)).operators.Paired)
    (hnone : m.heap.scripted left .ne 1 = []) :
    (dispatch L .ne left [right] span m).Negates (dispatch L .eq left [right] span m) := by
  unfold dispatch
  rw [bind_of_done (script_of_nil hnone)]
  dsimp only
  unfold scriptUnequal
  cases heq : m.heap.scripted left .eq 1 with
  | nil =>
    rw [bind_assoc, bind_of_done (script_of_nil heq), bind_of_done (script_of_nil heq)]
    exact builtin_negates ht
  | cons f fs =>
    rw [bind_assoc, Eval.bind_apply, Eval.bind_apply (script L Operator.eq.symbol _ _ _),
      script_of_cons heq, map_eq_pure_bind, Eval.bind_apply]
    cases Calling.family L Operator.eq.symbol (f :: fs) (some left) ⟨[right], []⟩ span m with
    | done v m => exact .done v m
    | failed e m => exact .failed e e m
    | stopped m => exact .stopped m

end Operation

/-- Inequality does what equality does and turns the answer around, if the class of the first
    operand has no function for inequality. -/
theorem InSession.unequal_negates {m₀ m : Machine} (hm : InSession m₀) (hrun : m₀.Runs m)
    (watch : Machine → Bool) (n : Nat) (left right : Value) (span : Span)
    (hnone : m.heap.scripted left .ne 1 = []) :
    Outcome.Negates ((watchedLevel watch n).operate .ne left [right] span m)
      ((watchedLevel watch n).operate .eq left [right] span m) := by
  cases n with
  | zero => exact .stopped m
  | succ n =>
    change Outcome.Negates (enter watch n (Operation.apply _ .ne left [right] span) m)
      (enter watch n (Operation.apply _ .eq left [right] span) m)
    rw [enter_apply, enter_apply]
    by_cases hwatch : watch m = true
    · rw [if_pos hwatch, if_pos hwatch]
      exact .stopped m
    rw [if_neg hwatch, if_neg hwatch]
    unfold Operation.apply Operation.nullEquality
    dsimp only
    by_cases hnull : (left.isNull || right.isNull) = true
    · rw [if_pos hnull, if_pos hnull]
      exact .done (.bool (left == right)) m
    · rw [if_neg hnull, if_neg hnull]
      exact Operation.dispatch_negates (hm.tabled hrun _) hnone

def Declaration.box : List Stmt :=
  [.class ⟨"Box", [], [.function ⟨"==", [⟨"x", none, none, false, default⟩],
      [.return default (some (.name default "x"))], .none, default⟩], .none, default⟩,
    .expr (.call default (.name default "Box") [])]

theorem InSession.unequal_negates_box :
    let m := Machine.declaring Declaration.box
    m.heap.scripted (.object 0) .ne 1 = [] ∧ m.heap.scripted (.object 0) .eq 1 ≠ [] ∧
      Outcome.Negates ((level 20).operate .ne (.object 0) [.int 3] default m)
        ((level 20).operate .eq (.object 0) [.int 3] default m) := by
  intro m
  have hnone : m.heap.scripted (.object 0) .ne 1 = [] := by decide +kernel
  exact ⟨hnone, by decide +kernel, InSession.unequal_negates (.declaring _) .refl _ 20 _ _ _ hnone⟩

end ClassScript
