import ClassScript.Number.Binary64
import ClassScript.Number.ReadDecimal

/-!
# JSON5 Documents

A number with a point or an exponent keeps its spelling, because a decimal can hold digits that
a float cannot.
-/

namespace ClassScript

inductive Json where
  | null
  | bool (value : Bool)
  | int (value : Int64)
  | float (value : Binary64) (spelling : String)
  | string (value : String)
  | array (items : List Json)
  | object (entries : List (String × Json))
deriving Inhabited, Repr

namespace Json

mutual

def depth : Json → Nat
  | .array items => depthOfItems items + 1
  | .object entries => depthOfEntries entries + 1
  | _ => 0

def depthOfItems : List Json → Nat
  | [] => 0
  | j :: rest => max j.depth (depthOfItems rest)

def depthOfEntries : List (String × Json) → Nat
  | [] => 0
  | (_, j) :: rest => max j.depth (depthOfEntries rest)

end

def decimal? : Json → Option Decimal
  | .int n => some (Decimal.ofInt n.toInt)
  | .float _ spelling => Decimal.read? spelling.toList
  | _ => none

def isObject : Json → Bool
  | .object _ => true
  | _ => false

end Json

end ClassScript
