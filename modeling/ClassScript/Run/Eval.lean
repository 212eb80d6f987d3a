import ClassScript.Run.Machine

/-!
# Computations

A computation ends with a value, with a failure, or stopped on the way, because a bound on its steps
was reached or because someone who watches it wanted that.

Registers are changed by `Eval.bracket` alone: something is entered, and left again however the
computation inside it ends.
-/

namespace ClassScript

/-- How a computation ends, and the machine that it leaves. -/
inductive Outcome (α : Type) where
  | done (value : α) (machine : Machine)
  | failed (why : Failure) (machine : Machine)
  | stopped (machine : Machine)

def Eval (α : Type) : Type :=
  Machine → Outcome α

namespace Eval

variable {α β : Type}

@[inline]
def pure (a : α) : Eval α :=
  fun m => .done a m

@[inline]
def bind (x : Eval α) (f : α → Eval β) : Eval β :=
  fun m =>
    match x m with
    | .done a m => f a m
    | .failed e m => .failed e m
    | .stopped m => .stopped m

instance : Monad Eval where
  pure := Eval.pure
  bind := Eval.bind

instance : Inhabited (Eval α) := ⟨fun m => .stopped m⟩

def stop : Eval α :=
  fun m => .stopped m

@[inline]
def raise (e : Failure) : Eval α :=
  fun m => .failed e m

@[inline]
def fail (f : Fault) : Eval α :=
  raise (.fault f none [])

@[inline]
def locate (span : Span) (x : Eval α) : Eval α :=
  fun m =>
    match x m with
    | .done a m => .done a m
    | .failed e m => .failed (e.locate span) m
    | .stopped m => .stopped m

def mapFailure (f : Failure → Failure) (x : Eval α) : Eval α :=
  fun m =>
    match x m with
    | .done a m => .done a m
    | .failed e m => .failed (f e) m
    | .stopped m => .stopped m

@[inline]
def attempt (x : Eval α) : Eval (Except Failure α) :=
  fun m =>
    match x m with
    | .done a m => .done (.ok a) m
    | .failed e m => .done (.error e) m
    | .stopped m => .stopped m

def resume : Except Failure α → Eval α
  | .ok a => Eval.pure a
  | .error e => raise e

def orFail (o : Option α) (f : Fault) : Eval α :=
  match o with
  | some a => Eval.pure a
  | none => fail f

@[inline]
def read (f : Machine → α) : Eval α :=
  fun m => .done (f m) m

@[inline]
def ask (f : Heap → α) : Eval α :=
  fun m => .done (f m.heap) m

@[inline]
def change (f : Heap → Heap) : Eval Unit :=
  fun m => .done () { m with heap := f m.heap }

@[inline]
def create (f : Heap → α × Heap) : Eval α :=
  fun m =>
    let (a, heap) := f m.heap
    .done a { m with heap := heap }

def scope : Eval ScopeId :=
  read (·.registers.scope)

@[inline]
def bracket (enter leave : Registers → Registers) (x : Eval α) : Eval α :=
  fun m =>
    match x { m with registers := enter m.registers } with
    | .done a m => .done a { m with registers := leave m.registers }
    | .failed e m => .failed e { m with registers := leave m.registers }
    | .stopped m => .stopped m

@[inline]
def inScope (scope : ScopeId) (x : Eval α) : Eval α :=
  fun m => bracket (·.goTo scope) (·.goTo m.registers.scope) x m

def print (text : String) : Eval Unit :=
  fun m => .done () { m with output := m.output ++ text }

def mapOnto (f : α → Eval β) : List α → List β → Machine → Outcome (List β)
  | [], found, m => .done found.reverse m
  | a :: rest, found, m =>
    match f a m with
    | .done b m => mapOnto f rest (b :: found) m
    | .failed e m => .failed e m
    | .stopped m => .stopped m

def mapList (f : α → Eval β) (as : List α) : Eval (List β) :=
  fun m => mapOnto f as [] m

def firstSome (f : α → Eval (Option β)) : List α → Machine → Outcome (Option β)
  | [], m => .done none m
  | a :: rest, m =>
    match f a m with
    | .done (some b) m => .done (some b) m
    | .done none m => firstSome f rest m
    | .failed e m => .failed e m
    | .stopped m => .stopped m

def forList (f : α → Eval Unit) : List α → Machine → Outcome Unit
  | [], m => .done () m
  | a :: rest, m =>
    match f a m with
    | .done _ m => forList f rest m
    | .failed e m => .failed e m
    | .stopped m => .stopped m

def loop (step : Eval (Option α)) : Nat → Machine → Outcome α
  | 0, m => .stopped m
  | n + 1, m =>
    match step m with
    | .done (some a) m => .done a m
    | .done none m => loop step n m
    | .failed e m => .failed e m
    | .stopped m => .stopped m

end Eval

end ClassScript
