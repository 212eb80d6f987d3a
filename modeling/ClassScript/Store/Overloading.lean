import ClassScript.Number.Convert
import ClassScript.Store.Display

/-!
# Choosing an Overload

A function takes the arguments of a call if each named one belongs to a parameter of its own,
the positional ones fill the parameters left over from the left, what remains goes to a variadic
last parameter, and parameters without an argument have defaults.

Of the functions that take the arguments as they are, the first with the fewest untyped
parameters is chosen. Only if there is none may numbers be widened.
-/

namespace ClassScript

structure Arguments where
  positional : List Value
  named : List (String × Value)
deriving Inhabited, Repr

namespace Arguments

def none : Arguments :=
  ⟨[], []⟩

def isEmpty (a : Arguments) : Bool :=
  a.positional.isEmpty && a.named.isEmpty

end Arguments

structure Bound where
  fixed : List Value
  rest : Option (List Value)
deriving DecidableEq, Repr

namespace Overload

def isVariadic (f : Overload) : Bool :=
  f.params.getLast?.any (·.variadic)

def fixedParams (f : Overload) : List Parameter :=
  if f.isVariadic then f.params.dropLast else f.params

def untypedCount (f : Overload) : Nat :=
  f.params.countP (·.accepted.isNone)

end Overload

namespace Heap

def widen (classes : List ClassId) : Value → Option Value
  | .int n =>
    if classes.contains ClassId.float then some (.float (Binary64.ofInt n.toInt))
    else if classes.contains ClassId.decimal then some (.decimal (Decimal.ofInt n.toInt))
    else none
  | .float x =>
    if classes.contains ClassId.decimal then (Decimal.ofBinary64? x).map .decimal else none
  | _ => none

def fitsParameter (h : Heap) (widening : Bool) (p : Parameter) (v : Value) : Option Value :=
  match p.accepted with
  | none => some v
  | some classes =>
    if classes.contains (h.typeOf v) then some v
    else if widening then widen classes v
    else none

def placeNamed (h : Heap) (widening : Bool) (name : String) (v : Value) :
    List Parameter → List (Option Value) → Option (List (Option Value))
  | p :: ps, slot :: slots =>
    if p.name = name then
      match slot with
      | some _ => none
      | none => (h.fitsParameter widening p v).map fun w => some w :: slots
    else (placeNamed h widening name v ps slots).map (slot :: ·)
  | _, _ => none

def placeAllNamed (h : Heap) (widening : Bool) (params : List Parameter) :
    List (String × Value) → List (Option Value) → Option (List (Option Value))
  | [], slots => some slots
  | (name, v) :: rest, slots =>
    match h.placeNamed widening name v params slots with
    | some slots => placeAllNamed h widening params rest slots
    | none => none

def placePositional (h : Heap) (widening : Bool) :
    List Parameter → List (Option Value) → List Value →
      Option (List (Option Value) × List Value)
  | p :: ps, none :: slots, v :: vs =>
    match h.fitsParameter widening p v with
    | some w => (placePositional h widening ps slots vs).map fun (slots, left) =>
        (some w :: slots, left)
    | none => none
  | _ :: ps, some w :: slots, vs =>
    (placePositional h widening ps slots vs).map fun (slots, left) => (some w :: slots, left)
  | _, slots, vs => some (slots, vs)

def collectRest (h : Heap) (widening : Bool) (f : Overload) (left : List Value) :
    Option (Option (List Value)) :=
  match f.params.getLast? with
  | some p =>
    if p.variadic then (left.mapM (h.fitsParameter widening p)).map some
    else if left.isEmpty then some none else none
  | none => if left.isEmpty then some none else none

def fillDefaults : List Parameter → List (Option Value) → Option (List Value)
  | p :: ps, slot :: slots =>
    match slot.orElse fun _ => p.default with
    | some v => (fillDefaults ps slots).map (v :: ·)
    | none => none
  | _, _ => some []

def bindArguments (h : Heap) (widening : Bool) (f : Overload) (a : Arguments) : Option Bound := do
  let params := f.fixedParams
  let empty : List (Option Value) := params.map fun _ => none
  let named ← h.placeAllNamed widening params a.named empty
  let (slots, left) ← h.placePositional widening params named a.positional
  let rest ← h.collectRest widening f left
  let fixed ← fillDefaults params slots
  return ⟨fixed, rest⟩

def better (h : Heap) (widening : Bool) (a : Arguments) (best : Option (OverloadId × Bound))
    (id : OverloadId) : Option (OverloadId × Bound) :=
  match h.bindArguments widening (h.overloadAt id) a with
  | none => best
  | some bound =>
    match best with
    | none => some (id, bound)
    | some (old, oldBound) =>
      if (h.overloadAt id).untypedCount < (h.overloadAt old).untypedCount then some (id, bound)
      else some (old, oldBound)

def bestOverload (h : Heap) (widening : Bool) (family : List OverloadId) (a : Arguments) :
    Option (OverloadId × Bound) :=
  family.foldl (h.better widening a) none

def resolve (h : Heap) (family : List OverloadId) (a : Arguments) : Option (OverloadId × Bound) :=
  (h.bestOverload false family a).orElse fun _ => h.bestOverload true family a

def argumentsText (h : Heap) (a : Arguments) : String :=
  joinWith ", " (a.positional.map h.typeName
    ++ a.named.map fun (name, v) => name ++ ": " ++ h.typeName v)

def signatures (h : Heap) (family : List OverloadId) : String :=
  joinWith ", " (family.map h.signature)

/-- The functions for an operator with a number of operands besides the first:
    those without parameters for none, and the others for some. -/
def withOperands (h : Heap) (count : Nat) (family : List OverloadId) : List OverloadId :=
  family.filter fun id => (count == 0) == (h.overloadAt id).params.isEmpty

end Heap

end ClassScript
