import ClassScript.Run.Invocation
import ClassScript.Run.Statement

/-!
# Closing the Circle

The entries of a level are the pieces of the evaluator over the level below; at the bottom is the
level that answers nothing.

Someone can watch a run and stop it at an entry. The machine at which a watched run stops is a point
that the run passes when it is not watched.
-/

namespace ClassScript

def stackStride : Nat :=
  2000

/-- Runs a computation, at some levels with a stack of its own. The stack makes no
    difference to the result. -/
def deepen {α : Type} (n : Nat) (x : Eval α) (m : Machine) : Outcome α :=
  if n % stackStride = 0 then (Task.spawn (fun _ => x m) .dedicated).get else x m

def enter {α : Type} (watch : Machine → Bool) (n : Nat) (x : Eval α) (m : Machine) : Outcome α :=
  if watch m then .stopped m else deepen n x m

def watchedLevel (watch : Machine → Bool) : Nat → Level
  | 0 => Level.none
  | n + 1 =>
    { rounds := n
      evaluate := fun e m => enter watch n (Expression.run (watchedLevel watch n) e) m
      execute := fun s m => enter watch n (Statement.run (watchedLevel watch n) s) m
      invoke := fun f receiver arguments span m =>
        enter watch n (Invocation.invoke (watchedLevel watch n) f receiver arguments span) m
      body := fun f receiver arguments m =>
        enter watch n (Invocation.body (watchedLevel watch n) f receiver arguments) m
      stringify := fun v m => enter watch n (Printing.stringify (watchedLevel watch n) v) m
      operate := fun op left rest span m =>
        enter watch n (Operation.apply (watchedLevel watch n) op left rest span) m
      serialize := fun outer v m => enter watch n (Writing.write (watchedLevel watch n) outer v) m
      deserialize := fun j c m => enter watch n (Filling.fill (watchedLevel watch n) j c) m }

def level (n : Nat) : Level :=
  watchedLevel (fun _ => false) n

def topNumber : Nat :=
  Nat.pow 2 40

def topLevel : Level :=
  level topNumber

end ClassScript
