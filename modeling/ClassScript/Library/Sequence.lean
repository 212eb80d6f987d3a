import ClassScript.Run.Enumeration

/-!
# Members of Ranges and Enumerators
-/

namespace ClassScript

namespace Library

def expectRange (v : Value) : Eval Range := do
  match ← Eval.ask (·.range? v) with
  | some r => return r
  | none => Eval.mismatch "range" v

def expectEnumerator (v : Value) : Eval (ObjectId × Enumerator) := do
  match ← Eval.ask (Enumeration.state? · v) with
  | some state => return state
  | none => Eval.mismatch "enumerator" v

def newRange (c : Call) : Eval Value := do
  let first ← Eval.expectInt (c.arg 0)
  let last ← Eval.expectInt (c.arg 1)
  let step ← Eval.expectInt (c.arg 2)
  if step = 0 then Eval.fail .zeroStep else Eval.newRange ⟨first, last, step⟩

def sequence (f : SequenceNative) (c : Call) : Eval Value := do
  match f with
  | .range => newRange c
  | .start => return .int (← expectRange c.self).start
  | .stop => return .int (← expectRange c.self).stop
  | .step => return .int (← expectRange c.self).step
  | .count => return .ofNat (← expectRange c.self).length
  | .contains =>
    let r ← expectRange c.self
    return .bool ((c.arg 0).int?.any r.contains)
  | .getEnumerator => Eval.newEnumerator (.range (.start (← expectRange c.self)))
  | .current => Enumeration.current (← expectEnumerator c.self).2
  | .moveNext =>
    let (id, e) ← expectEnumerator c.self
    return .bool (← Enumeration.move id e)
  | .reset =>
    let (id, e) ← expectEnumerator c.self
    Eval.change (·.setPayload id (.enumerator e.start))
    return .null
  | .itself => return c.self

end Library

end ClassScript
