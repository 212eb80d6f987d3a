import ClassScript.Syntax.Tree

/-!
# The Names of What Is Built In

Everything here is only named; what the functions do is said in `ClassScript.Library` and
`ClassScript.Run`.
-/

namespace ClassScript

inductive Operator where
  | add | sub | mul | div | mod | eq | ne | lt | le | gt | ge | and | or | not | neg | pos
  | index | indexSet
deriving DecidableEq, Inhabited, Repr

namespace Operator

/-- The name of the functions that overload an operator. Signs share theirs with
    the binary operator. -/
def symbol : Operator → String
  | .add | .pos => "+"
  | .sub | .neg => "-"
  | .mul => "*"
  | .div => "/"
  | .mod => "%"
  | .eq => "=="
  | .ne => "!="
  | .lt => "<"
  | .le => "<="
  | .gt => ">"
  | .ge => ">="
  | .and => "&&"
  | .or => "||"
  | .not => "!"
  | .index => "[]"
  | .indexSet => "[]="

def ofBinary : BinaryOp → Operator
  | .add => .add
  | .sub => .sub
  | .mul => .mul
  | .div => .div
  | .mod => .mod
  | .equal => .eq
  | .notEqual => .ne
  | .less => .lt
  | .lessEqual => .le
  | .greater => .gt
  | .greaterEqual => .ge
  | .and => .and
  | .or => .or

def ofUnary : UnaryOp → Operator
  | .negate => .neg
  | .plus => .pos
  | .not => .not

end Operator

inductive OperatorFamily where
  | object | number | bool | null | str | list | dict | range | function
deriving DecidableEq, Repr

inductive ObjectNative where
  | toString | equals | getType
deriving DecidableEq, Repr

inductive NumberNative where
  | int | intParse | intAbs
  | float | floatParse | floor | ceiling | round | floatAbs | sqrt | isNaN
  | decimal | decimalRound | decimalAbs
  | bool
deriving DecidableEq, Repr

inductive TextNative where
  | str | length | toUpper | toLower | trim | split | contains | startsWith | endsWith
  | replace | substring | indexOf | getEnumerator
deriving DecidableEq, Repr

inductive ReflectionNative where
  | typeName | functionName | isSubclassOf
deriving DecidableEq, Repr

inductive ListNative where
  | list | count | add | insert | removeAt | remove | contains | indexOf | clear | copy
  | reverse | sort | join | getEnumerator
deriving DecidableEq, Repr

inductive DictNative where
  | dict | count | keys | values | containsKey | remove | get | clear | copy | getEnumerator
deriving DecidableEq, Repr

inductive SequenceNative where
  | range | start | stop | step | count | contains | getEnumerator
  | current | moveNext | reset | itself
deriving DecidableEq, Repr

inductive ExceptionNative where
  | construct | toString
deriving DecidableEq, Repr

inductive JsonNative where
  | serialize | parse | deserialize
deriving DecidableEq, Repr

inductive GlobalNative where
  | print | println | typeof | len
deriving DecidableEq, Repr

inductive Native where
  | object (f : ObjectNative)
  | number (f : NumberNative)
  | text (f : TextNative)
  | reflection (f : ReflectionNative)
  | list (f : ListNative)
  | dict (f : DictNative)
  | sequence (f : SequenceNative)
  | exception (f : ExceptionNative)
  | json (f : JsonNative)
  | global (f : GlobalNative)
  | host (object : Nat) (method : String)
deriving DecidableEq, Repr

inductive HostClass where
  | tally | blank
deriving DecidableEq, Repr

inductive HostObject where
  | tally (count : Int64)
  | blank
deriving DecidableEq, Repr

def HostObject.typeName : HostObject → String
  | .tally _ => "Tally"
  | .blank => "blank-thing"

inductive BuiltinKind where
  | object | null | int | float | decimal | bool | str | list | dict | range | enumerator
  | function | type
deriving DecidableEq, Repr

end ClassScript
