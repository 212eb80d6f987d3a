import ClassScript.Run.Level
import ClassScript.Text.Case
import ClassScript.Text.Search
import ClassScript.Text.Blank

/-!
# Members of Texts

Places and lengths in a text count characters.
-/

namespace ClassScript

namespace Library

def substring (cs : List Char) (start length : Int64) : Except Fault (List Char) :=
  let size := cs.length
  if start.toInt < 0 ∨ (size : Int) < start.toInt then .error (.substringStart start size)
  else if length.toInt < 0 then .ok (cs.drop start.toInt.toNat)
  else if (size : Int) < start.toInt + length.toInt then
    .error (.substringLength length start size)
  else .ok ((cs.drop start.toInt.toNat).take length.toInt.toNat)

def indexOf (part cs : List Char) : Int64 :=
  match Search.find? part cs with
  | some i => Int64.ofNat i
  | none => -1

def text (L : Level) (f : TextNative) (c : Call) : Eval Value := do
  match f with
  | .str => return .str (← L.stringify (c.arg 0))
  | .length => return .ofNat (← Eval.expectStr c.self).length
  | .toUpper => return .str (Text.upper (← Eval.expectStr c.self))
  | .toLower => return .str (Text.lower (← Eval.expectStr c.self))
  | .trim => return .str (Text.trim (← Eval.expectStr c.self))
  | .split =>
    let s ← Eval.expectStr c.self
    let separator ← Eval.expectStr (c.arg 0)
    let parts := Search.split separator.toList s.toList
    Eval.newList (parts.map fun part => Value.str (String.ofList part)).toArray
  | .contains =>
    let part ← Eval.expectStr (c.arg 0)
    let s ← Eval.expectStr c.self
    return .bool (Search.contains part.toList s.toList)
  | .startsWith =>
    let part ← Eval.expectStr (c.arg 0)
    let s ← Eval.expectStr c.self
    return .bool (part.toList.isPrefixOf s.toList)
  | .endsWith =>
    let part ← Eval.expectStr (c.arg 0)
    let s ← Eval.expectStr c.self
    return .bool (part.toList.isSuffixOf s.toList)
  | .replace =>
    let part ← Eval.expectStr (c.arg 0)
    let new ← Eval.expectStr (c.arg 1)
    if part.isEmpty then Eval.fail .replaceEmpty
    else
      let s ← Eval.expectStr c.self
      return .str (String.ofList (Search.replace part.toList new.toList s.toList))
  | .substring =>
    let s ← Eval.expectStr c.self
    let start ← Eval.expectInt (c.arg 0)
    let length ← Eval.expectInt (c.arg 1)
    return .str (String.ofList (← Eval.ofExcept (substring s.toList start length)))
  | .indexOf =>
    let s ← Eval.expectStr c.self
    let part ← Eval.expectStr (c.arg 0)
    return .int (indexOf part.toList s.toList)
  | .getEnumerator =>
    let s ← Eval.expectStr c.self
    Eval.newEnumerator (.text s.toList.toArray none)

end Library

end ClassScript
