import ClassScript.Run.Member

/-!
# Members of Exceptions

An exception has a message and the line where it was thrown.
-/

namespace ClassScript

namespace Library

def messageField : String :=
  "Message"

def setMessage (v message : Value) : Eval Unit := do
  match ← Eval.ask (·.fieldScope? v) with
  | some scope => Member.assignSlot scope messageField message
  | none => return ()

def messageText (L : Level) (v : Value) : Eval String := do
  match ← Eval.ask (·.field? v messageField) with
  | some message => L.stringify message
  | none => return ""

def exception (L : Level) (f : ExceptionNative) (c : Call) : Eval Value := do
  match f with
  | .construct =>
    setMessage c.self (c.arg 0)
    return .null
  | .toString =>
    let message ← messageText L c.self
    return .str ((← Eval.typeName c.self) ++ ": " ++ message)

end Library

end ClassScript
