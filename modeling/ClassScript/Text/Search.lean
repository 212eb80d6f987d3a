/-!
# Searching in Texts

Occurrences of a part are found from the left, and the search goes on behind the last one, so
they do not overlap.
-/

namespace ClassScript

namespace Search

def find? (part : List Char) : List Char → Option Nat
  | [] => if part.isEmpty then some 0 else none
  | c :: cs => if part.isPrefixOf (c :: cs) then some 0 else (find? part cs).map (· + 1)

def contains (part cs : List Char) : Bool :=
  (find? part cs).isSome

def splitFrom (separator : List Char) : (skip : Nat) → (read : List Char) → List Char →
    List (List Char)
  | _, read, [] => [read.reverse]
  | skip + 1, read, _ :: cs => splitFrom separator skip read cs
  | 0, read, c :: cs =>
    if separator.isPrefixOf (c :: cs) then
      read.reverse :: splitFrom separator (separator.length - 1) [] cs
    else splitFrom separator 0 (c :: read) cs

def split (separator cs : List Char) : List (List Char) :=
  if separator.isEmpty then cs.map ([·]) else splitFrom separator 0 [] cs

def replaceFrom (part new : List Char) : (skip : Nat) → List Char → List Char
  | _, [] => []
  | skip + 1, _ :: cs => replaceFrom part new skip cs
  | 0, c :: cs =>
    if part.isPrefixOf (c :: cs) then new ++ replaceFrom part new (part.length - 1) cs
    else c :: replaceFrom part new 0 cs

def replace (part new cs : List Char) : List Char :=
  replaceFrom part new 0 cs

end Search

end ClassScript
