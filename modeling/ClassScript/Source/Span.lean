/-!
# Places in a Source Text

A `Span` counts bytes of the UTF-8 form of the text, and lines from one. A `Mark` is the reading
position from which spans are made.
-/

namespace ClassScript

structure Span where
  start : Nat
  stop : Nat
  line : Nat
deriving DecidableEq, Inhabited, Repr

def Span.to (a b : Span) : Span :=
  ⟨a.start, b.stop, a.line⟩

structure Mark where
  offset : Nat
  line : Nat
deriving DecidableEq, Inhabited, Repr

namespace Mark

def next (m : Mark) (c : Char) : Mark :=
  ⟨m.offset + c.utf8Size, if c = '\n' then m.line + 1 else m.line⟩

def past (m : Mark) (cs : List Char) : Mark :=
  cs.foldl next m

def upTo (m n : Mark) : Span :=
  ⟨m.offset, n.offset, m.line⟩

end Mark

end ClassScript
