import ClassScript.Number.Word

/-!
# Ranges

The integers from a start up to, and without, a stop, moving by a step. A step of zero makes the
range empty. The length is computed from the difference of the ends, which is held to the
largest integer.
-/

namespace ClassScript

structure Range where
  start : Int64
  stop : Int64
  step : Int64
deriving DecidableEq, Inhabited, Repr

namespace Range

def isBefore (r : Range) (v : Int64) : Bool :=
  if 0 < r.step then v < r.stop else r.stop < v

/-- At most `n` elements from a value on. The value is missing where the next one
    would not be a 64-bit integer. -/
def elementsFrom (r : Range) : (n : Nat) → Option Int64 → List Int64
  | 0, _ => []
  | _ + 1, none => []
  | n + 1, some v =>
    if r.step ≠ 0 ∧ r.isBefore v then v :: elementsFrom r n (Word.add? v r.step) else []

def take (r : Range) (n : Nat) : List Int64 :=
  elementsFrom r n (some r.start)

def elements (r : Range) : List Int64 :=
  r.take (Nat.pow 2 64)

def reach (r : Range) : Int :=
  let d := if 0 < r.step then r.stop.toInt - r.start.toInt else r.start.toInt - r.stop.toInt
  max (-(Nat.pow 2 63 : Nat)) (min d ((Nat.pow 2 63 : Nat) - 1))

def length (r : Range) : Nat :=
  if r.step = 0 then 0
  else
    let size := r.step.toInt.natAbs
    (r.reach.toNat + size - 1) / size

def isEmpty (r : Range) : Bool :=
  r.length == 0

def contains (r : Range) (v : Int64) : Bool :=
  if r.step = 0 then false
  else
    let within :=
      if 0 < r.step then r.start ≤ v && v < r.stop else v ≤ r.start && r.stop < v
    within && (v.toInt - r.start.toInt).tmod r.step.toInt == 0

def text (r : Range) : String :=
  let ends := Word.text r.start ++ ".." ++ Word.text r.stop
  if r.step = 1 then ends else ends ++ " step " ++ Word.text r.step

structure Walk where
  range : Range
  current : Option Int64
  done : Bool
deriving DecidableEq, Inhabited, Repr

namespace Walk

def start (r : Range) : Walk :=
  ⟨r, none, false⟩

def value? (w : Walk) : Option Int64 :=
  if w.done then none else w.current

def next? (w : Walk) : Option Int64 :=
  match w.current with
  | none => some w.range.start
  | some v => Word.add? v w.range.step

def move (w : Walk) : Bool × Walk :=
  if w.done then (false, w)
  else
    match w.next? with
    | some v =>
      if w.range.contains v then (true, { w with current := some v })
      else (false, { w with done := true })
    | none => (false, { w with done := true })

def reset (w : Walk) : Walk :=
  start w.range

end Walk

end Range

end ClassScript
