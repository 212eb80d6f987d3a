import ClassScript.Library.Sorting
import ClassScript.Run.Level

/-!
# Laws of Computations

Computations are a lawful monad, and each way of repeating one is the sequence of its rounds. The
definitions pass the machine along by hand, to run in constant stack; proofs go along `>>=`.
-/

namespace ClassScript

namespace Eval

variable {α β : Type} {x : Eval α} {f : α → Eval β} {m m' : Machine} {a : α}

theorem bind_apply (x : Eval α) (f : α → Eval β) (m : Machine) :
    (x >>= f) m = match x m with
      | .done a m => f a m
      | .failed e m => .failed e m
      | .stopped m => .stopped m := rfl

theorem bind_done {b : β}
    (hrun : (x >>= f) m = .done b m') : ∃ a m₁, x m = .done a m₁ ∧ f a m₁ = .done b m' := by
  rw [bind_apply] at hrun
  grind

theorem bind_of_done (hx : x m = .done a m') : (x >>= f) m = f a m' := by
  rw [bind_apply, hx]

theorem ask_bind (f : Heap → α) (k : α → Eval β) (m : Machine) :
    (Eval.ask f >>= k) m = k (f m.heap) m := rfl

theorem read_bind (f : Machine → α) (k : α → Eval β) (m : Machine) :
    (Eval.read f >>= k) m = k (f m) m := rfl

theorem scope_bind (k : ScopeId → Eval β) (m : Machine) :
    (Eval.scope >>= k) m = k m.registers.scope m := rfl

section Bracket

variable {enter leave : Registers → Registers} {x : Eval α} {m m' : Machine}

theorem bracket_of_done (h : x { m with registers := enter m.registers } = .done a m') :
    bracket enter leave x m = .done a { m' with registers := leave m'.registers } := by
  unfold bracket
  rw [h]

theorem bracket_of_failed {e : Failure}
    (h : x { m with registers := enter m.registers } = .failed e m') :
    bracket enter leave x m = .failed e { m' with registers := leave m'.registers } := by
  unfold bracket
  rw [h]

theorem bracket_of_stopped (h : x { m with registers := enter m.registers } = .stopped m') :
    bracket enter leave x m = .stopped m' := by
  unfold bracket
  rw [h]

end Bracket

instance : LawfulMonad Eval := LawfulMonad.mk' Eval
  (by
    intro α x
    funext m
    change Eval.bind x (fun a => Eval.pure a) m = x m
    unfold Eval.bind
    cases x m <;> rfl)
  (by intro α β a f; rfl)
  (by
    intro α β γ x f g
    funext m
    rw [bind_apply, bind_apply, bind_apply]
    cases x m <;> rfl)

theorem firstSome_cons (f : α → Eval (Option β)) (a : α) (rest : List α) :
    firstSome f (a :: rest) =
      (f a >>= fun
        | some b => pure (some b)
        | none => firstSome f rest : Eval (Option β)) := by
  funext m
  rw [bind_apply, firstSome]
  cases f a m with
  | done answer m => cases answer <;> rfl
  | failed | stopped => rfl

theorem forList_cons (f : α → Eval Unit) (a : α) (rest : List α) :
    forList f (a :: rest) = (f a >>= fun _ => forList f rest : Eval Unit) := by
  funext m
  change _ = Eval.bind (f a) (fun _ => forList f rest) m
  unfold Eval.bind
  rw [forList]
  cases f a m <;> rfl

theorem loop_succ (step : Eval (Option α)) (n : Nat) :
    loop step (n + 1) =
      (step >>= fun
        | some a => pure a
        | none => loop step n : Eval α) := by
  funext m
  rw [bind_apply, loop]
  cases step m with
  | done answer m => cases answer <;> rfl
  | failed | stopped => rfl

end Eval

namespace Sorting

variable {α : Type}

theorem mergeHead_cons (order : α → α → Eval Ordering) (x : α) (xs : List α)
    (mergeTail : List α → List α → Machine → Outcome (List α)) (y : α) (ys merged : List α) :
    mergeHead order x xs mergeTail (y :: ys) merged =
      (order x y >>= fun
        | .gt => mergeHead order x xs mergeTail ys (y :: merged)
        | _ => mergeTail (y :: ys) (x :: merged) : Eval (List α)) := by
  funext m
  change _ = Eval.bind (order x y) _ m
  unfold Eval.bind
  rw [mergeHead.eq_def]
  dsimp only
  cases order x y m with
  | done found m => cases found <;> rfl
  | failed | stopped => rfl

end Sorting

end ClassScript
