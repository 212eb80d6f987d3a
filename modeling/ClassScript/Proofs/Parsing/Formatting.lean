import ClassScript.Proofs.Parsing.Statements

/-!
# Formatting Does Not Change a Program

Texts that differ in layout only are the same program, or are refused with the same problem.
The two grammars are bounded by the lengths of their texts, which differ, but the tokens have
the same weight.
-/

namespace ClassScript

/-- Texts whose tokens differ in places only give the same statements up to places, or are both
    refused with the same problem. -/
theorem parseProgram_unplaced {source source' : String} {tokens tokens' : List Token}
    (htokens : tokenize source 1 = .ok tokens) (htokens' : tokenize source' 1 = .ok tokens')
    (hwords : SameWords tokens tokens') :
    SameOutcome (fun program program' => program.map Stmt.unplaced = program'.map Stmt.unplaced)
      (parseProgram source) (parseProgram source') := by
  have hc := Lexer.tokensFrom_covers htokens
  have hc' := Lexer.tokensFrom_covers htokens'
  -- The tokens have the same weight, so both texts allow for enough nesting.
  have hweight : (Cursor.start tokens).weight ≤ source.toList.length := hc.weight_le
  have hweight' : (Cursor.start tokens').weight ≤ source'.toList.length := hc'.weight_le
  have hsame : (Cursor.start tokens).weight = (Cursor.start tokens').weight := hwords.weight_eq
  have hg : Grammar.Agree False ((Cursor.start tokens).weight + 1)
      (Grammar.nested (Grammar.depthFor source.toList))
      (Grammar.nested (Grammar.depthFor source'.toList)) := by
    apply Grammar.nested_agree
    · rw [Grammar.depthFor]
      omega
    · rw [Grammar.depthFor]
      omega
  have hprogram {source : String} {tokens : List Token} (h : tokenize source 1 = .ok tokens) :
      parseProgram source = ((Grammar.nested (Grammar.depthFor source.toList)).program
        (Cursor.start tokens)).map (·.1) := by
    rw [tokenize] at h
    rw [parseProgram, h]
  rw [hprogram htokens, hprogram htokens']
  have hread := hg.program.runs (d := 0) _ _ (.start hc hwords False.elim) trivial trivial
    (Nat.lt_succ_self _)
  exact (hread.map fun _ _ hr => hr.1).outcome.mono fun _ _ hr => hr.view

def compactText : String :=
  "f($\"\x7bg(x)\x7d!\")\n[2]"

def spaciousText : String :=
  "// f\nf( /* a\n */ $\"\x7bg(x)\x7d!\"\n )\n\n[ 2\n] /* "

def tokensAt (spans : List Span) : List Token :=
  List.zipWith (fun word span => ⟨word.1, word.2, span⟩)
    [(.identifier, "f"), (.lParen, "("), (.interpolatedString, "\x7bg(x)\x7d!"), (.rParen, ")"),
     (.lBracket, "["), (.number, "2"), (.rBracket, "]"), (.eof, "")] spans

theorem parseProgram_unplaced_sample : ∃ tokens tokens', tokenize compactText 1 = .ok tokens ∧
    tokenize spaciousText 1 = .ok tokens' ∧ SameWords tokens tokens' ∧
    SameOutcome (fun program program' => program.map Stmt.unplaced = program'.map Stmt.unplaced)
      (parseProgram compactText) (parseProgram spaciousText) := by
  have hcompact : tokenize compactText 1 = .ok (tokensAt
      [⟨0, 1, 1⟩, ⟨1, 2, 1⟩, ⟨2, 12, 1⟩, ⟨12, 13, 1⟩, ⟨14, 15, 2⟩, ⟨15, 16, 2⟩, ⟨16, 17, 2⟩,
       ⟨17, 17, 2⟩]) := by
    cbv
  have hspacious : tokenize spaciousText 1 = .ok (tokensAt
      [⟨5, 6, 2⟩, ⟨6, 7, 2⟩, ⟨17, 27, 3⟩, ⟨29, 30, 4⟩, ⟨32, 33, 6⟩, ⟨34, 35, 6⟩, ⟨36, 37, 7⟩,
       ⟨41, 41, 7⟩]) := by
    cbv
  refine ⟨_, _, hcompact, hspacious, ?_⟩
  exact ⟨by decide, parseProgram_unplaced hcompact hspacious (by decide)⟩

-- A bracket on the next line begins another statement, so that lines are compared is needed.
example : (parseProgram "f (1)").toOption.map List.length = some 1 ∧
    (parseProgram "f\n(1)").toOption.map List.length = some 2 := by
  decide +kernel

end ClassScript
