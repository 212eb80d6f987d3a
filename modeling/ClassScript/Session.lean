import ClassScript.Library.World
import ClassScript.Run.Hosting
import ClassScript.Run.Knot

/-!
# Sessions

What a host can ask of a machine. Definitions stay, also those of a source that failed later on.
-/

namespace ClassScript

namespace Session

def evalSource (source : String) : Eval Value :=
  Hosting.evalSource topLevel source

def evalFile (path : String) : Eval Value :=
  Hosting.evalFile topLevel path

def call (name : String) (arguments : List Value) : Eval Value :=
  Hosting.call topLevel name arguments

def operate (op : Operator) (left : Value) (rest : List Value) : Eval Value :=
  topLevel.operate op left rest Span.nowhere

def compare (a b : Value) : Eval Ordering :=
  Operation.compare topLevel a b

def stringify (v : Value) : Eval String :=
  topLevel.stringify v

def display (v : Value) : Eval String :=
  Printing.plain topLevel v

def serialize (v : Value) : Eval String :=
  topLevel.serialize [] v

def readJson (text : String) : Eval Value := do
  let parse ← Member.get topLevel (.type ClassId.json5) "Parse" Span.nowhere
  Calling.value topLevel parse ⟨[.str text], []⟩ Span.nowhere

end Session

end ClassScript
