import ClassScript.Run.Eval

/-!
# Sorting

The halves are sorted, the left one first, and then merged. The order is a computation, which
may fail or contradict itself. An element of the right half goes first only if the order says
so, which keeps equal elements in their order.
-/

namespace ClassScript

namespace Sorting

variable {α : Type}

def mergeHead (order : α → α → Eval Ordering) (x : α) (xs : List α)
    (mergeTail : List α → List α → Machine → Outcome (List α)) :
    List α → (merged : List α) → Machine → Outcome (List α)
  | [], merged, m => .done (merged.reverse ++ x :: xs) m
  | y :: ys, merged, m =>
    match order x y m with
    | .done .gt m => mergeHead order x xs mergeTail ys (y :: merged) m
    | .done _ m => mergeTail (y :: ys) (x :: merged) m
    | .failed e m => .failed e m
    | .stopped m => .stopped m

def mergeOnto (order : α → α → Eval Ordering) :
    List α → List α → (merged : List α) → Machine → Outcome (List α)
  | [], ys, merged, m => .done (merged.reverse ++ ys) m
  | x :: xs, ys, merged, m => mergeHead order x xs (mergeOnto order xs) ys merged m

def merge (order : α → α → Eval Ordering) (xs ys : List α) : Eval (List α) :=
  mergeOnto order xs ys []

def sortWithin (order : α → α → Eval Ordering) : (n : Nat) → List α → Eval (List α)
  | 0, xs => return xs
  | n + 1, xs =>
    if xs.length < 2 then return xs
    else do
      let left ← sortWithin order n (xs.take (xs.length / 2))
      let right ← sortWithin order n (xs.drop (xs.length / 2))
      merge order left right

def sort (order : α → α → Eval Ordering) (xs : List α) : Eval (List α) :=
  sortWithin order xs.length xs

end Sorting

end ClassScript
