import ClassScript.Run.Level

/-!
# Members of Dicts

A dict keeps its entries in the order in which their keys were first added.
-/

namespace ClassScript

namespace Library

def expectDict (v : Value) : Eval (ObjectId × Entries) := do
  match v, ← Eval.ask (·.entries? v) with
  | .object id, some entries => return (id, entries)
  | v, _ => Eval.mismatch "dict" v

def setEntries (id : ObjectId) (entries : Entries) : Eval Unit :=
  Eval.change (·.setPayload id (.dict entries))

def dict (f : DictNative) (c : Call) : Eval Value := do
  match f with
  | .dict => Eval.newDict .empty
  | .count => return .ofNat (← expectDict c.self).2.size
  | .keys => Eval.newList (← expectDict c.self).2.keys.toArray
  | .values => Eval.newList (← expectDict c.self).2.values.toArray
  | .containsKey => return .bool ((← expectDict c.self).2.contains (c.arg 0).key)
  | .remove =>
    let (id, entries) ← expectDict c.self
    let key := (c.arg 0).key
    setEntries id (entries.erase key)
    return .bool (entries.contains key)
  | .get => return ((← expectDict c.self).2.find? (c.arg 0).key).getD (c.arg 1)
  | .clear =>
    let (id, _) ← expectDict c.self
    setEntries id .empty
    return .null
  | .copy => Eval.newDict (← expectDict c.self).2
  | .getEnumerator => Eval.newEnumerator (.dict (← expectDict c.self).2.entries.toArray none)

end Library

end ClassScript
