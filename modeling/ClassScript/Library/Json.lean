import ClassScript.Json5.Filler

/-!
# Members of the JSON5 Class
-/

namespace ClassScript

namespace Library

def isFillable (c : Class) : Bool :=
  !c.isStatic && c.builtin.isNone && c.host.isNone

def deserialize (L : Level) (c : Call) : Eval Value := do
  let text ← Eval.expectStr (c.arg 0)
  let type ← Eval.expectType (c.arg 1)
  let info ← Eval.ask (·.classAt type)
  if isFillable info then L.deserialize (← Eval.ofExcept (Json.parse text)) type
  else Eval.fail (.cannotDeserialize info.name)

def json (L : Level) (f : JsonNative) (c : Call) : Eval Value := do
  match f with
  | .serialize => return .str (← L.serialize [] (c.arg 0))
  | .parse =>
    let text ← Eval.expectStr (c.arg 0)
    Filling.build (← Eval.ofExcept (Json.parse text))
  | .deserialize => deserialize L c

end Library

end ClassScript
