import ClassScript.Library.Dict
import ClassScript.Library.Exception
import ClassScript.Library.Global
import ClassScript.Library.Json
import ClassScript.Library.List
import ClassScript.Library.Scalar
import ClassScript.Library.Sequence
import ClassScript.Library.Text

/-!
# Built-in Functions
-/

namespace ClassScript

namespace Library

def run (L : Level) (f : Native) (c : Call) : Eval Value :=
  match f with
  | .object f => object L f c
  | .number f => number f c
  | .text f => text L f c
  | .reflection f => reflection f c
  | .list f => list L f c
  | .dict f => dict f c
  | .sequence f => sequence f c
  | .exception f => exception L f c
  | .json f => json L f c
  | .global f => global L f c
  | .host object method => host L object method c

end Library

end ClassScript
