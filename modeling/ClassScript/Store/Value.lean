import ClassScript.Data.OrderedMap
import ClassScript.Data.Range
import ClassScript.Store.Native

/-!
# Values

Everything with an identity is a number that the heap resolves. Two values are the same thing
exactly when they are equal here, which is what the keys of a dict are compared by: a key is a
value in the normal form `Value.key`.
-/

namespace ClassScript

abbrev ObjectId := Nat

abbrev ClassId := Nat

abbrev ScopeId := Nat

abbrev OverloadId := Nat

abbrev CallableId := Nat

inductive Value where
  | null
  | bool (value : Bool)
  | int (value : Int64)
  | float (value : Binary64)
  | decimal (value : Decimal)
  | str (value : String)
  | object (id : ObjectId)
  | function (id : CallableId)
  | type (id : ClassId)
deriving DecidableEq, Inhabited, Repr

namespace Value

def ofLiteral : Literal → Value
  | .int n => .int n
  | .float x => .float x
  | .decimal d => .decimal d
  | .bool b => .bool b
  | .str s => .str s
  | .null => .null

def ofNat (n : Nat) : Value :=
  .int (Int64.ofNat n)

/-- The form in which a value is a key. Decimals that are equal as numbers are
    the same key; everything else is a key as it is. -/
def key : Value → Value
  | .decimal d => .decimal d.normalize
  | v => v

def int? : Value → Option Int64
  | .int n => some n
  | _ => none

def str? : Value → Option String
  | .str s => some s
  | _ => none

def bool? : Value → Option Bool
  | .bool b => some b
  | _ => none

def isNull : Value → Bool
  | .null => true
  | _ => false

def isFirstClass : Value → Bool
  | .function _ | .type _ => true
  | _ => false

end Value

abbrev Entries := OrderedMap Value Value

/-- A position in something that can be enumerated. A list is enumerated as it
    is at each step, a dict and a text as they were at the start. -/
inductive Enumerator where
  | list (source : ObjectId) (position : Option Nat)
  | dict (entries : Array (Value × Value)) (position : Option Nat)
  | text (chars : Array Char) (position : Option Nat)
  | range (walk : Range.Walk)
deriving Repr

/-- What an object is made of. Instances of script classes keep their fields in a
    scope of their own. -/
inductive Payload where
  | fields (scope : ScopeId)
  | list (items : Array Value)
  | dict (entries : Entries)
  | range (range : Range)
  | enumerator (state : Enumerator)
  | host (state : HostObject)
deriving Repr

instance : Inhabited Payload := ⟨.host .blank⟩

/-- The values that an object holds other than in fields. -/
def Payload.values : Payload → List Value
  | .list items => items.toList
  | .dict entries => entries.keys ++ entries.values
  | .enumerator (.dict entries _) => entries.toList.flatMap fun (k, v) => [k, v]
  | _ => []

/-- Other contents for an object. What it is made of stays. -/
def Payload.change (f : Payload → Payload) (p : Payload) : Payload :=
  match p, f p with
  | .list _, .list items => .list items
  | .dict _, .dict entries => .dict entries
  | .enumerator _, .enumerator state => .enumerator state
  | .host _, .host state => .host state
  | p, _ => p

structure Object where
  type : ClassId
  payload : Payload
deriving Inhabited, Repr

end ClassScript
