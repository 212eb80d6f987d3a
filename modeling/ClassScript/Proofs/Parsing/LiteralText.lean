import ClassScript.Proofs.Parsing.Interpolated

/-!
# Plain Text in a Literal

In the body of an interpolated literal a brace that is text is written twice. What finds the closing
quote counts every brace, so a brace of the text that is not closed again hides the quote.
-/

namespace ClassScript

open List Interpolation Lexer

namespace Interpolation

variable {text : List Char}

def writtenChar (c : Char) : List Char :=
  if c = '\x7b' ∨ c = '\x7d' then [c, c] else if c = '"' ∨ c = '\\' then ['\\', c] else [c]

def written (text : List Char) : List Char :=
  text.flatMap writtenChar

theorem written_cons (c : Char) (text : List Char) :
    written (c :: text) = writtenChar c ++ written text :=
  flatMap_cons ..

/-- The braces that are open behind a text. A closing brace that has no opening one counts for
    nothing. -/
def openBraces : (depth : Nat) → List Char → Nat
  | d, [] => d
  | d, c :: cs => openBraces (if c = '\x7b' then d + 1 else if c = '\x7d' then d - 1 else d) cs

def BracesClose (text : List Char) : Prop :=
  ∀ s, s <:+ text → s.count '\x7b' ≤ s.count '\x7d'

theorem openBraces_eq_zero_iff {d : Nat} : openBraces d text = 0 ↔
    d + text.count '\x7b' ≤ text.count '\x7d' ∧ BracesClose text := by
  induction text generalizing d with
  | nil => simp [openBraces, BracesClose]
  | cons c cs ih =>
    have hclose : BracesClose (c :: cs) ↔
        (c :: cs).count '\x7b' ≤ (c :: cs).count '\x7d' ∧ BracesClose cs := by
      simp only [BracesClose, suffix_cons_iff, forall_eq_or_imp]
    have hself (h : BracesClose cs) := h cs suffix_rfl
    rw [openBraces]
    grind

theorem bracesClose_iff : BracesClose text ↔ openBraces 0 text = 0 := by
  rw [openBraces_eq_zero_iff, Nat.zero_add]
  exact (and_iff_right_of_imp fun h => h text suffix_rfl).symm

instance (text : List Char) : Decidable (BracesClose text) :=
  decidable_of_iff _ bracesClose_iff.symm

theorem interpolatedBody_written (d : Nat) (text rest : List Char) :
    Lexer.interpolatedBody (2 * d) false (written text ++ rest) =
      (Lexer.interpolatedBody (2 * openBraces d text) false rest).map
        (Lexer.taking (written text)) := by
  induction text generalizing d with
  | nil =>
    have hnone : Lexer.taking [] = id := rfl
    simp [written, openBraces, hnone]
  | cons c cs ih =>
    rw [written_cons, openBraces, append_assoc, writtenChar]
    by_cases hopen : c = '\x7b'
    · subst hopen
      have hdepth : 2 * d + 1 + 1 = 2 * (d + 1) := by omega
      rw [if_pos (.inl rfl), cons_append, singleton_append,
        interpolatedBody_plain (by decide) (by decide), if_pos rfl,
          interpolatedBody_plain (by decide) (by decide), if_pos rfl, hdepth, ih,
            map_taking_taking, map_taking_taking]
      rfl
    by_cases hshut : c = '\x7d'
    · subst hshut
      have hdepth : 2 * d - 1 - 1 = 2 * (d - 1) := by omega
      rw [if_pos (.inr rfl), cons_append, singleton_append,
        interpolatedBody_plain (by decide) (by decide), if_neg hopen, if_pos rfl,
          interpolatedBody_plain (by decide) (by decide), if_neg hopen, if_pos rfl, hdepth,
            ih, map_taking_taking, map_taking_taking]
      rfl
    rw [if_neg (not_or.mpr ⟨hopen, hshut⟩), if_neg hopen, if_neg hshut]
    by_cases hescape : c = '"' ∨ c = '\\'
    · rw [if_pos hescape, cons_append, singleton_append,
        interpolatedBody_escape, ih, map_taking_taking]
    · obtain ⟨hquote, hback⟩ := not_or.mp hescape
      rw [if_neg hescape, singleton_append, interpolatedBody_plain hquote hback,
        if_neg hopen, if_neg hshut, ih, map_taking_taking]

theorem interpolatedBody_of_close (h : BracesClose text) :
    Lexer.interpolatedBody 0 false (written text ++ ['"']) = some (written text, []) := by
  have hbody := interpolatedBody_written 0 text ['"']
  rw [bracesClose_iff.mp h, interpolatedBody_end] at hbody
  simpa [Lexer.taking] using hbody

theorem interpolatedBody_of_not_close (h : ¬ BracesClose text) :
    Lexer.interpolatedBody 0 false (written text ++ ['"']) = none := by
  rw [bracesClose_iff] at h
  obtain ⟨d, hd⟩ : ∃ d, 2 * openBraces 0 text = d + 1 := ⟨2 * openBraces 0 text - 1, by omega⟩
  have hbody := interpolatedBody_written 0 text ['"']
  rw [hd] at hbody
  simpa [Lexer.interpolatedBody] using hbody

theorem split_written {n : Nat} (hn : (written text).length < n) :
    split n (written text) = text.map .char := by
  induction text generalizing n with
  | nil =>
    obtain ⟨n, rfl⟩ : ∃ m, n = m + 1 := ⟨n - 1, by omega⟩
    simp [written, split]
  | cons c cs ih =>
    obtain ⟨n, rfl⟩ : ∃ m, n = m + 1 := ⟨n - 1, by omega⟩
    rw [written_cons] at hn
    rw [written_cons, map_cons]
    unfold writtenChar at hn ⊢
    by_cases hbrace : c = '\x7b' ∨ c = '\x7d'
    · rw [if_pos hbrace] at hn ⊢
      rcases hbrace with rfl | rfl
      all_goals
        simp only [cons_append, split, List.cons.injEq, true_and]
        exact ih (by simp at hn; omega)
    rw [if_neg hbrace] at hn ⊢
    by_cases hescape : c = '"' ∨ c = '\\'
    · rw [if_pos hescape] at hn ⊢
      have hvalue : Lexer.unescape c = c := by rcases hescape with rfl | rfl <;> rfl
      simp only [cons_append, split, List.cons.injEq, hvalue, true_and]
      exact ih (by simp at hn; omega)
    · rw [if_neg hescape] at hn ⊢
      push Not at hbrace hescape
      rw [singleton_append, split]
      · rw [ih (by simp at hn; omega)]
      all_goals simp_all

theorem join_chars (readHole : List Char → Except SyntaxError Expr) (span : Span)
    (run text : List Char) :
    join readHole span run (text.map .char) = .ok (textPart (text.reverse ++ run)) := by
  induction text generalizing run with
  | nil => rfl
  | cons c cs ih => simp [join, ih]

theorem parts_written (readHole : List Char → Except SyntaxError Expr) (text : String)
    (span : Span) :
    parts readHole (String.ofList (written text.toList)) span =
      .ok (if text = "" then [] else [.text text]) := by
  rw [parts, String.toList_ofList, split_written (Nat.lt_succ_self _), join_chars, textPart]
  by_cases hempty : text = "" <;> simp

end Interpolation

def literalBody (text : String) : String :=
  String.ofList (Interpolation.written text.toList)

/-- If every opening brace of a text has a closing one behind it, the literal that it is written in
    is one token, and an expression with the text as its only part. If not, the closing quote is not
    found. -/
theorem literal_written (text : String) (line : Nat) :
    (Interpolation.BracesClose text.toList →
      tokenize (literal (literalBody text)) line =
        .ok [literalToken (literalBody text) line, literalEnd (literalBody text) line] ∧
      parseExpression (literal (literalBody text)) line =
        .ok (.interpolated (literalSpan (literalBody text) line)
          (if text = "" then [] else [.text text])) ∧
      parseProgram (literal (literalBody text)) =
        .ok [.expr (.interpolated (literalSpan (literalBody text) 1)
          (if text = "" then [] else [.text text]))]) ∧
    (¬ Interpolation.BracesClose text.toList →
      tokenize (literal (literalBody text)) line =
        .error ⟨.unterminatedInterpolation, literalSpan (literalBody text) line⟩ ∧
      parseExpression (literal (literalBody text)) line =
        .error ⟨.unterminatedInterpolation, literalSpan (literalBody text) line⟩ ∧
      parseProgram (literal (literalBody text)) =
        .error ⟨.unterminatedInterpolation, literalSpan (literalBody text) 1⟩) := by
  have hbody : (literalBody text).toList = Interpolation.written text.toList :=
    String.toList_ofList
  refine ⟨fun h => ?_, fun h => ?_⟩
  · have hends := interpolatedBody_of_close h
    rw [← hbody] at hends
    have hparts (line : Nat) : literalParts (literalBody text) line =
        .ok (if text = "" then [] else [.text text]) :=
      parts_written _ text _
    refine ⟨tokenize_literal hends line, ?_, ?_⟩
    · rw [parseExpression_literal hends, hparts]
      rfl
    · rw [parseProgram_literal hends, hparts]
      rfl
  · have hends := interpolatedBody_of_not_close h
    rw [← hbody] at hends
    have hopen := tokenize_literal_open hends
    exact ⟨hopen line, parseExpression_of_error (hopen line), parseProgram_of_error (hopen 1)⟩

theorem literal_written_sample :
    Interpolation.BracesClose "a\\\"\x7d\x7bb\x7d\n".toList ∧
      parseExpression "$\"a\\\\\\\"\x7d\x7d\x7b\x7bb\x7d\x7d\n\"" 7 =
        .ok (.interpolated ⟨0, 16, 7⟩ [.text "a\\\"\x7d\x7bb\x7d\n"]) := by
  have hclose : Interpolation.BracesClose "a\\\"\x7d\x7bb\x7d\n".toList := by decide
  have hsource : literal (literalBody "a\\\"\x7d\x7bb\x7d\n") =
      "$\"a\\\\\\\"\x7d\x7d\x7b\x7bb\x7d\x7d\n\"" := by decide
  refine ⟨hclose, ?_⟩
  have hread := ((literal_written "a\\\"\x7d\x7bb\x7d\n" 7).1 hclose).2.1
  rw [literalSpan, hsource] at hread
  exact hread

theorem opening_brace_not_written :
    literal (literalBody "\x7b") = "$\"\x7b\x7b\"" ∧
      tokenize "$\"\x7b\x7b\"" 1 = .error ⟨.unterminatedInterpolation, ⟨0, 5, 1⟩⟩ ∧
      parseExpression "$\"\x7b\x7b\"" 1 = .error ⟨.unterminatedInterpolation, ⟨0, 5, 1⟩⟩ := by
  have htokens : tokenize "$\"\x7b\x7b\"" 1 = .error ⟨.unterminatedInterpolation, ⟨0, 5, 1⟩⟩ := by
    decide +kernel
  exact ⟨by decide, htokens, parseExpression_of_error htokens⟩

end ClassScript
