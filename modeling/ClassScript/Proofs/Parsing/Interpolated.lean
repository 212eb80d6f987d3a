import ClassScript.Proofs.Lexing.Literals
import ClassScript.Proofs.Parsing.Statements

/-!
# A Text That Is One Literal

An expression that ends with the text is not continued at any level, so a text that is one
interpolated literal is read as the literal alone. Its holes are read as texts of their own,
whatever the bound on nesting is.
-/

namespace ClassScript

open List Grammar

variable {k : Nat} {source : String} {e : SyntaxError}

namespace Grammar

open Parse

variable {g : Grammar} {before t eof : Token}

section Ends

variable {g : Grammar} {c : Cursor} {x : Parse Expr}

def EndsAt (x : Parse Expr) (c : Cursor) : Prop :=
  ∀ value c', x c = .ok (value, c') → c'.next.kind = .eof

theorem EndsAt.bind_eq (h : EndsAt x c) {f : Expr → Parse Expr}
    (hf : ∀ value c', c'.next.kind = .eof → f value c' = .ok (value, c')) : (x >>= f) c = x c := by
  rw [bind_apply]
  cases hx : x c with
  | error e => rfl
  | ok r => exact hf r.1 r.2 (h r.1 r.2 hx)

theorem postfixed_eq (h : EndsAt g.primary c) : g.postfixed c = g.primary c := by
  refine h.bind_eq fun value c' hend => ?_
  have hat (k : TokenKind) (hk : k ≠ .eof) : c'.at? k = false := by
    rw [Cursor.at?, hend]
    exact beq_eq_false_iff_ne.mpr hk.symm
  have hsuffix : g.suffix? value c' = .ok (none, c') := by
    rw [Grammar.suffix?, peek_bind_apply, last_bind_apply, check_bind_apply]
    simp only [hat .lParen (by simp), Bool.and_false, Bool.false_eq_true, if_false]
    rw [check_bind_apply]
    simp only [hat .lBracket (by simp), Bool.and_false, Bool.false_eq_true, if_false]
    rw [bind_apply, accept]
    simp only [hat .dot (by simp)]
    rfl
  rw [extending, bind_of_ok hsuffix]
  rfl

theorem unary_eq (hsign : unaryOp? c.next.kind = none) (h : EndsAt g.primary c) :
    g.unary c = g.primary c := by
  have hsigns : signs c = .ok ([], c) := by
    rw [signs, extending, bind_of_ok (d := c) (a := none)]
    · rfl
    · rw [peek_bind_apply, hsign]
      rfl
  rw [Grammar.unary, bind_of_ok hsigns, bind_apply, postfixed_eq h]
  cases hx : g.primary c with
  | error | ok => rfl

theorem leftLevel_eq {op? : TokenKind → Option BinaryOp} (hop : op? .eof = none)
    {operand : Parse Expr} (h : EndsAt operand c) : leftLevel op? operand c = operand c := by
  refine h.bind_eq fun value c' hend => ?_
  rw [extending, bind_of_ok (d := c') (a := none)]
  · rfl
  · rw [peek_bind_apply, hend, hop]
    rfl

theorem EndsAt.of_eq {y : Parse Expr} (h : EndsAt x c) (heq : y c = x c) : EndsAt y c :=
  fun value c' hy => h value c' (heq ▸ hy)

theorem assignment_eq_primary (hsign : unaryOp? c.next.kind = none) (h : EndsAt g.primary c) :
    g.assignment c = g.primary c := by
  have hunary := unary_eq hsign h
  have hfactor : g.factor c = g.primary c := (leftLevel_eq rfl (h.of_eq hunary)).trans hunary
  have hterm : g.term c = g.primary c := (leftLevel_eq rfl (h.of_eq hfactor)).trans hfactor
  have hrange : g.range c = g.primary c := by
    refine ((h.of_eq hterm).bind_eq fun value c' hend => ?_).trans hterm
    rw [bind_apply, accept, Cursor.at?, hend]
    rfl
  have hcomparison : g.comparison c = g.primary c :=
    (leftLevel_eq rfl (h.of_eq hrange)).trans hrange
  have hequality : g.equality c = g.primary c :=
    (leftLevel_eq rfl (h.of_eq hcomparison)).trans hcomparison
  have hconjunction : g.conjunction c = g.primary c :=
    (leftLevel_eq rfl (h.of_eq hequality)).trans hequality
  have hdisjunction : g.disjunction c = g.primary c :=
    (leftLevel_eq rfl (h.of_eq hconjunction)).trans hconjunction
  refine ((h.of_eq hdisjunction).bind_eq fun value c' hend => ?_).trans hdisjunction
  rw [peek_bind_apply, hend]
  rfl

end Ends

theorem hole_parallel {source : List Char} (hk : 2 * (source.length + 1) ≤ k)
    (line : Nat) : Parallel True (Alike True Expr.WellFormed Expr.unplaced)
      ((nested k).hole source line) (parseExpression (String.ofList source) line) := by
  rw [parseExpression, String.toList_ofList]
  exact (nested_agree hk (Nat.le_add_right (2 * (source.length + 1)) 3)).hole source line line
    (fun _ => rfl) (Nat.lt_succ_self _)

theorem parts_nested {body : String} (hk : 2 * (body.length + 1) ≤ k) (span : Span)
    (line : Nat) : Interpolation.parts ((nested k).hole · line) body span =
      Interpolation.parts (fun source => parseExpression (String.ofList source) line)
        body span := by
  refine ((Interpolation.join_parallel (fun _ => rfl) [] fun source hs =>
    hole_parallel ?_ line).mono fun _ _ hps => hps.same trivial).eq.1
  have hlength := (Interpolation.hole_infix hs).length_le
  rw [length_cons, length_append, String.length_toList] at hlength
  omega

theorem primary_literal (ht : t.kind = .interpolatedString) :
    g.primary ⟨before, [t, eof]⟩ = (Interpolation.parts (g.hole · t.span.line) t.text t.span).map
      fun parts => (.interpolated t.span parts, ⟨t, [eof]⟩) := by
  obtain ⟨kind, text, span⟩ := t
  cases ht
  rw [Grammar.primary, peek_bind_apply]
  cases hparts : Interpolation.parts (g.hole · span.line) text span with
  | error | ok => simp only [Cursor.next, headD_cons, hparts]; rfl

theorem assignment_literal (ht : t.kind = .interpolatedString)
    (heof : eof.kind = .eof) : g.assignment ⟨before, [t, eof]⟩ =
      (Interpolation.parts (g.hole · t.span.line) t.text t.span).map
        fun parts => (.interpolated t.span parts, ⟨t, [eof]⟩) := by
  rw [← primary_literal ht]
  refine assignment_eq_primary ?_ fun value c' hvalue => ?_
  · rw [Cursor.next, headD_cons, ht]
    rfl
  · rw [primary_literal ht] at hvalue
    cases hparts : Interpolation.parts (g.hole · t.span.line) t.text t.span with
    | error e => rw [hparts] at hvalue; cases hvalue
    | ok parts =>
      rw [hparts] at hvalue
      cases hvalue
      exact heof

theorem depthFor_literal (body : String) :
    depthFor (literal body).toList = 2 * body.length + 10 := by
  rw [depthFor, toList_literal]
  simp only [length_cons, length_append, String.length_toList, length_nil]
  omega

end Grammar

theorem parseExpression_of_error {line : Nat}
    (h : tokenize source line = .error e) : parseExpression source line = .error e := by
  rw [tokenize] at h
  rw [parseExpression, Grammar.expressionText, h]

theorem parseProgram_of_error
    (h : tokenize source 1 = .error e) : parseProgram source = .error e := by
  rw [tokenize] at h
  rw [parseProgram, h]

def literalParts (body : String) (line : Nat) : Except SyntaxError (List Piece) :=
  Interpolation.parts (fun source => parseExpression (String.ofList source) line) body
    (literalSpan body line)

theorem Grammar.assignment_nested_literal (body : String) (hk : 2 * (body.length + 1) ≤ k)
    (before : Token) (line : Nat) :
    (nested k).assignment ⟨before, [literalToken body line, literalEnd body line]⟩ =
      (literalParts body line).map fun parts =>
        (.interpolated (literalSpan body line) parts,
          ⟨literalToken body line, [literalEnd body line]⟩) := by
  rw [assignment_literal rfl rfl]
  exact congrArg (Except.map _) (parts_nested hk _ line)

section

variable {body : String}
  (hbody : Lexer.interpolatedBody 0 false (body.toList ++ ['"']) = some (body.toList, []))
include hbody

theorem parseExpression_literal (line : Nat) : parseExpression (literal body) line =
      (literalParts body line).map (.interpolated (literalSpan body line)) := by
  have hread := assignment_nested_literal body (k := 2 * body.length + 9)
    (by omega) (literalToken body line) line
  have htokens := tokenize_literal hbody line
  rw [tokenize] at htokens
  have hexpression : (Grammar.nested (2 * body.length + 10)).expression
      (Cursor.start [literalToken body line, literalEnd body line]) = _ := hread
  rw [parseExpression, depthFor_literal, Grammar.expressionText, htokens]
  dsimp only
  rw [Grammar.wholeExpression, Parse.bind_apply, hexpression]
  cases literalParts body line with
  | error | ok => rfl

theorem parseProgram_literal :
    parseProgram (literal body) = (literalParts body 1).map
      fun parts => [.expr (.interpolated (literalSpan body 1) parts)] := by
  have hread := assignment_nested_literal body (k := 2 * body.length + 8)
    (by omega) (literalToken body 1) 1
  have hexpression : (Grammar.nested (2 * body.length + 9)).expression
      (Cursor.start [literalToken body 1, literalEnd body 1]) = _ := hread
  -- No modifier and no keyword is in front, so the statement is an expression.
  have hstatement : (Grammar.nested (2 * body.length + 10)).statement .block
      (Cursor.start [literalToken body 1, literalEnd body 1]) = (literalParts body 1).map
        fun parts => (.expr (.interpolated (literalSpan body 1) parts),
          ⟨literalToken body 1, [literalEnd body 1]⟩) := by
    have hcontrol : (Grammar.nested (2 * body.length + 10)).statement .block
      (Cursor.start [literalToken body 1, literalEnd body 1]) =
        (Grammar.nested (2 * body.length + 9)).expressionStatement
          (Cursor.start [literalToken body 1, literalEnd body 1]) := rfl
    rw [hcontrol, Grammar.expressionStatement, Parse.bind_apply, hexpression]
    cases literalParts body 1 with
    | error | ok => rfl
  have htokens := tokenize_literal hbody 1
  rw [tokenize] at htokens
  have hitems (item : Parse Stmt) : Parse.itemsUntil .eof item
      (Cursor.start [literalToken body 1, literalEnd body 1]) =
        (item >>= fun first => Parse.itemsLoop .eof item 2 [first])
          (Cursor.start [literalToken body 1, literalEnd body 1]) := rfl
  rw [parseProgram, htokens]
  dsimp only
  rw [depthFor_literal, Grammar.program, hitems, Parse.bind_apply, hstatement]
  cases literalParts body 1 with
  | error | ok => rfl

end

end ClassScript
