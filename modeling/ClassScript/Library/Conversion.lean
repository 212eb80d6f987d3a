import ClassScript.Number.ReadFloat
import ClassScript.Run.Level
import ClassScript.Run.Number
import ClassScript.Text.Blank

/-!
# Converting Values to Numbers

Texts may have blanks around the number. A float or a decimal becomes an integer by dropping its
fraction, if what is left fits.
-/

namespace ClassScript

namespace Conversion

def refuse {α : Type} (v : Value) (target : String) : Eval α := do
  let text ← Eval.ask (·.display v)
  Eval.fail (.cannotConvert (← Eval.typeName v) text target)

def orRefuse {α : Type} (v : Value) (target : String) : Option α → Eval α
  | some a => return a
  | none => refuse v target

def trimmed (s : String) : List Char :=
  (Text.trim s).toList

/-- A float without its fraction. The least integer is out of reach, like
    everything of its size and above. -/
def truncated? (x : Binary64) : Option Int64 :=
  if x.isFinite && x.truncate.natAbs < Nat.pow 2 63 then some (Int64.ofInt x.truncate) else none

def int? : Value → Option Int64
  | .int n => some n
  | .bool b => some (if b then 1 else 0)
  | .float x => truncated? x
  | .decimal d => Word.ofInt? d.truncate
  | .str s => Word.parse? (trimmed s)
  | _ => none

def nearest? : Value → Option Binary64
  | .int n => some (Binary64.ofInt n.toInt)
  | .float x => some x
  | .decimal d => some d.toBinary64
  | _ => none

def float? : Value → Option Binary64
  | .str s => Binary64.parse? (trimmed s)
  | v => nearest? v

def decimal? : Value → Option Decimal
  | .int n => some (Decimal.ofInt n.toInt)
  | .float x => Decimal.ofBinary64? x
  | .decimal d => some d
  | .str s => Decimal.read? (trimmed s)
  | _ => none

def toInt (v : Value) : Eval Int64 :=
  orRefuse v "int" (int? v)

def toFloat (v : Value) : Eval Binary64 :=
  orRefuse v "float" (float? v)

def toDecimal (v : Value) : Eval Decimal :=
  orRefuse v "decimal" (decimal? v)

end Conversion

end ClassScript
