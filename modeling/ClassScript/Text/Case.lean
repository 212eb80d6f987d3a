import ClassScript.Text.CaseTable

/-!
# Upper and Lower Case of a Text

Case is taken character by character, with one exception: a capital sigma that ends a word has a
lower case of its own. It ends a word when, skipping the characters that case ignores, a cased
character stands before it and none stands after it.
-/

namespace ClassScript

namespace Text

def startsCased (cs : List Char) : Bool :=
  match cs.dropWhile caseIgnorable.contains with
  | c :: _ => cased.contains c
  | [] => false

def upper (s : String) : String :=
  String.ofList (s.toList.flatMap upperChar)

def lowerAfter : (before : List Char) → List Char → List Char
  | _, [] => []
  | before, c :: rest =>
    let here :=
      if c == 'Σ' then
        if startsCased before && !startsCased rest then ['ς'] else ['σ']
      else lowerChar c
    here ++ lowerAfter (c :: before) rest

def lower (s : String) : String :=
  String.ofList (lowerAfter [] s.toList)

end Text

end ClassScript
