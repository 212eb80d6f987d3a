import ClassScript.Proofs.Parsing.Readers

/-!
# Levels of Binding Strength

A reader of some level reads every expression that binds at least as strongly, if the word after it
does not hold on to it. This does not induct: the left operand of an operator is followed by that
very operator. So what is shown of the levels that loop is that the loop gets to the expression and
goes on from there.
-/

namespace ClassScript

open List Parse

namespace Grammar

variable {l : Nat} {k : TokenKind} {before next : Token}

def atLevel (g : Grammar) : Nat → Parse Expr
  | 0 => g.assignment
  | 1 => g.disjunction
  | 2 => g.conjunction
  | 3 => g.equality
  | 4 => g.comparison
  | 5 => g.range
  | 6 => g.term
  | 7 => g.factor
  | 8 => g.unary
  | _ => g.postfixed

def opsAt : Nat → TokenKind → Option BinaryOp
  | 1 => disjunctionOp?
  | 2 => conjunctionOp?
  | 3 => equalityOp?
  | 4 => comparisonOp?
  | 6 => termOp?
  | 7 => factorOp?
  | _ => fun _ => none

def binaryLevels : List Nat :=
  [1, 2, 3, 4, 6, 7]

def binaryStep (op? : TokenKind → Option BinaryOp) (operand : Parse Expr) (left : Expr) :
    Parse (Option Expr) := do
  match op? (← Parse.peek).kind with
  | some op =>
    let _ ← Parse.advance
    let right ← operand
    return some (.binary (left.span.to right.span) op left right)
  | none => return none

def extension (g : Grammar) : Nat → Expr → Parse (Option Expr)
  | 9 => g.suffix?
  | l => binaryStep (opsAt l) (g.atLevel (l + 1))

theorem mem_binaryLevels (hl : l ∈ binaryLevels) :
    l = 1 ∨ l = 2 ∨ l = 3 ∨ l = 4 ∨ l = 6 ∨ l = 7 := by
  simpa [binaryLevels] using hl

theorem atLevel_eq (g : Grammar) (hl : l ∈ binaryLevels) :
    g.atLevel l = g.atLevel (l + 1) >>= fun left => Parse.extending left (g.extension l) := by
  rcases mem_binaryLevels hl with rfl | rfl | rfl | rfl | rfl | rfl
  all_goals rfl

theorem extension_eq (g : Grammar) (hl : l ∈ binaryLevels) :
    g.extension l = binaryStep (opsAt l) (g.atLevel (l + 1)) := by
  rcases mem_binaryLevels hl with rfl | rfl | rfl | rfl | rfl | rfl
  all_goals rfl

theorem opsAt_kind (op : BinaryOp) : opsAt op.strength op.kind = some op := by cases op <;> rfl

theorem strength_mem_binaryLevels (op : BinaryOp) : op.strength ∈ binaryLevels := by
  cases op <;> decide

theorem strength?_of_opsAt {op : BinaryOp} (h : opsAt l k = some op) : k.strength? = some l := by
  unfold opsAt at h
  split at h
  case h_7 => cases h
  -- Of each level: a word is one of its operators, or not an operator there.
  all_goals cases k <;> first | rfl | cases h

theorem opsAt_of_stops (h : k.Stops l) : opsAt l k = none := by
  rcases hop : opsAt l k with _ | op
  · rfl
  · exact absurd (h l (strength?_of_opsAt hop)) (Nat.lt_irrefl l)

theorem assignOp?_of_stops (h : k.Stops 0) : assignOp? k = none := by
  rcases hop : assignOp? k with _ | op
  · rfl
  · have hk : k.strength? = some 0 := by
      unfold assignOp? at hop
      split at hop
      case h_7 => cases hop
      all_goals rfl
    exact absurd (h 0 hk) (Nat.lt_irrefl 0)

theorem ne_of_stops {k' : TokenKind} (h : k.Stops l) (h' : k'.strength? = some l) : k ≠ k' := by
  rintro rfl
  exact absurd (h l h') (Nat.lt_irrefl l)

variable {g : Grammar} {line : Nat} {p : Phrase}

def ReadsAt (g : Grammar) (line l : Nat) (p : Phrase) : Prop :=
  Parse.Reads line (g.atLevel l) p.render (TokenKind.Stops l) p.Describes

def Continues (g : Grammar) (line l : Nat) (p : Phrase) : Prop :=
  ∀ (tokens : List Token) (before next : Token) (rest : List Token),
    Spells line tokens p.render → before.span.line = line → next.kind.Stops (l + 1) →
      ∃ e last, p.Describes e ∧ last.span.line = line ∧
        Parse.Loops (g.extension l) e ⟨last, next :: rest⟩
          (g.atLevel l ⟨before, tokens ++ next :: rest⟩)

def signStep (signs : List (UnaryOp × Span)) : Parse (Option (List (UnaryOp × Span))) := do
  let token ← Parse.peek
  match unaryOp? token.kind with
  | some op =>
    let _ ← Parse.advance
    return some ((op, token.span) :: signs)
  | none => return none

def signed (signs : List (UnaryOp × Span)) (operand : Expr) : Expr :=
  signs.foldl (fun e (op, span) => .unary (span.to e.span) op e) operand

/-- The reader of prefix operators reads an expression as the operand of those it has
    collected. -/
def Signed (g : Grammar) (line : Nat) (p : Phrase) : Prop :=
  ∀ (tokens : List Token) (before next : Token) (rest : List Token),
    Spells line tokens p.render → before.span.line = line → next.kind.Stops 8 →
      ∀ signs r, Parse.Loops signStep signs ⟨before, tokens ++ next :: rest⟩ r →
        ∃ e last, p.Describes e ∧ last.span.line = line ∧
          (r >>= fun s => (g.postfixed >>= fun operand => pure (signed s.1 operand)) s.2) =
            .ok (signed signs e, ⟨last, next :: rest⟩)

theorem suffix?_of_stops (h : next.kind.Stops 9) (rest : List Token) (e : Expr) :
    g.suffix? e ⟨before, next :: rest⟩ = .ok (none, ⟨before, next :: rest⟩) := by
  have hparen : (next.kind == .lParen) = false := beq_false_of_ne (ne_of_stops h rfl)
  have hbracket : (next.kind == .lBracket) = false := beq_false_of_ne (ne_of_stops h rfl)
  have hdot : next.kind ≠ .dot := ne_of_stops h rfl
  unfold suffix?
  rw [bind_of_ok peek_cons, bind_of_ok last_cons,
    bind_of_ok check_cons, hparen, Bool.and_false, if_neg Bool.false_ne_true,
    bind_of_ok check_cons, hbracket, Bool.and_false, if_neg Bool.false_ne_true,
    bind_of_ok (accept_of_ne hdot)]
  rfl

theorem binaryStep_of_none {op? : TokenKind → Option BinaryOp} {operand : Parse Expr}
    (h : op? next.kind = none) (rest : List Token) (e : Expr) :
    binaryStep op? operand e ⟨before, next :: rest⟩ = .ok (none, ⟨before, next :: rest⟩) := by
  unfold binaryStep
  rw [bind_of_ok peek_cons, h]
  rfl

theorem Continues.readsAt (hl : l ∈ binaryLevels ∨ l = 9) (h : g.Continues line l p) :
    g.ReadsAt line l p := by
  intro tokens before next rest hspells hbefore hnext
  obtain ⟨e, last, he, hlast, hloop⟩ := h tokens before next rest hspells hbefore
    (hnext.mono (Nat.le_succ l))
  refine ⟨e, last, he, hlast, hloop.stop ?_⟩
  rcases hl with hl | rfl
  · rw [extension_eq g hl]
    exact binaryStep_of_none (opsAt_of_stops hnext) rest e
  · exact suffix?_of_stops hnext rest e

theorem ReadsAt.continues (hl : l ∈ binaryLevels) (h : g.ReadsAt line (l + 1) p) :
    g.Continues line l p := by
  intro tokens before next rest hspells hbefore hnext
  obtain ⟨e, last, he, hlast, hread⟩ := h tokens before next rest hspells hbefore hnext
  refine ⟨e, last, he, hlast, ?_⟩
  rw [atLevel_eq g hl, bind_of_ok hread]
  exact .start

theorem ReadsAt.range (h : g.ReadsAt line 6 p) : g.ReadsAt line 5 p := by
  intro tokens before next rest hspells hbefore hnext
  obtain ⟨e, last, he, hlast, hread⟩ := h tokens before next rest hspells hbefore
    (hnext.mono (by omega))
  refine ⟨e, last, he, hlast, ?_⟩
  have hne : next.kind ≠ .dotDot := ne_of_stops hnext rfl
  change g.term _ = _ at hread
  change g.range _ = _
  unfold Grammar.range
  rw [bind_of_ok hread, bind_of_ok (accept_of_ne hne)]
  rfl

theorem ReadsAt.assignment (h : g.ReadsAt line 1 p) : g.ReadsAt line 0 p := by
  intro tokens before next rest hspells hbefore hnext
  obtain ⟨e, last, he, hlast, hread⟩ := h tokens before next rest hspells hbefore
    (hnext.mono (by omega))
  refine ⟨e, last, he, hlast, ?_⟩
  change g.disjunction _ = _ at hread
  change g.assignment _ = _
  unfold Grammar.assignment
  rw [bind_of_ok hread, bind_of_ok peek_cons, assignOp?_of_stops hnext]
  rfl

theorem ReadsAt.lower (hl : l ≤ 7) (h : g.ReadsAt line (l + 1) p) : g.ReadsAt line l p := by
  by_cases hbinary : l ∈ binaryLevels
  · exact (h.continues hbinary).readsAt (.inl hbinary)
  -- The two levels that do not loop look for one word of their own.
  · have hcases : l = 0 ∨ l = 5 := by
      simp only [binaryLevels, mem_cons] at hbinary
      omega
    rcases hcases with rfl | rfl
    · exact h.assignment
    · exact h.range

theorem ReadsAt.down {m : Nat} (hm : m ≤ 8) (h : g.ReadsAt line m p) :
    ∀ l ≤ m, g.ReadsAt line l p := by
  induction m with
  | zero => simp_all
  | succ m ih =>
    intro l hl
    rcases Nat.lt_or_eq_of_le hl with hlt | rfl
    · exact ih (by omega) (h.lower (by omega)) l (by omega)
    · exact h

theorem ReadsAt.signed (h : g.ReadsAt line 9 p)
    (hhead : ∃ l rest, p.render = l :: rest ∧ unaryOp? l.kind = none) : g.Signed line p := by
  intro tokens before next rest hspells hbefore hnext signs r hloop
  obtain ⟨e, last, he, hlast, hread⟩ := h tokens before next rest hspells hbefore
    (hnext.mono (by omega))
  refine ⟨e, last, he, hlast, ?_⟩
  obtain ⟨l, more, hrender, hl⟩ := hhead
  rw [hrender] at hspells
  obtain ⟨t, ts, rfl, rfl, -, -⟩ := hspells.cons_inv
  rw [t.lexeme_kind] at hl
  have hstop : signStep signs ⟨before, t :: ts ++ next :: rest⟩ =
      .ok (none, ⟨before, t :: ts ++ next :: rest⟩) := by
    unfold signStep
    rw [cons_append, bind_of_ok peek_cons, hl]
    rfl
  change g.postfixed _ = _ at hread
  rw [hloop.stop hstop]
  change (g.postfixed >>= fun operand => pure (Grammar.signed signs operand)) _ = _
  rw [bind_of_ok hread]
  rfl

theorem Signed.readsAt (h : g.Signed line p) : g.ReadsAt line 8 p := by
  intro tokens before next rest hspells hbefore hnext
  exact h tokens before next rest hspells hbefore hnext [] _ .start

theorem Signed.unary {op : UnaryOp} (h : g.Signed line p) : g.Signed line (.unary op p) := by
  intro tokens before next rest hspells hbefore hnext signs r hloop
  obtain ⟨t, ts, rfl, ht, hline, hts⟩ := hspells.cons_inv
  have hkind : t.kind = op.kind := by rw [← t.lexeme_kind, ht]; rfl
  have hop : unaryOp? t.kind = some op := by rw [hkind, op.unaryOp?_kind]
  have hstep : signStep signs ⟨before, t :: ts ++ next :: rest⟩ =
      .ok (some ((op, t.span) :: signs), ⟨t, ts ++ next :: rest⟩) := by
    have heof : t.kind ≠ .eof := by rw [hkind]; cases op <;> decide
    unfold signStep
    rw [cons_append, bind_of_ok peek_cons, hop]
    simp only
    rw [bind_of_ok (advance_cons heof)]
    rfl
  -- The operator is collected, and the operand comes with one more in front of it.
  have hloop' := hloop.next hstep (by simp only [cons_append, length_cons]; omega)
  obtain ⟨e, last, he, hlast, hread⟩ := h ts t next rest hts hline hnext _ r hloop'
  exact ⟨.unary (t.span.to e.span) op e, last, .unary _ he, hlast, hread⟩

/-- An expression is read at all levels that it can stand at, and the loops of these
    levels get to it. -/
structure Knows (g : Grammar) (line : Nat) (p : Phrase) : Prop where
  reads : ∀ l ≤ p.strength, g.ReadsAt line l p
  continues : ∀ l ≤ p.strength, l ∈ binaryLevels ∨ l = 9 → g.Continues line l p
  signed : 8 ≤ p.strength → g.Signed line p

theorem Knows.of_strength (hreads : g.ReadsAt line p.strength p)
    (hcontinues : p.strength ∈ binaryLevels ∨ p.strength = 9 → g.Continues line p.strength p)
    (hsigned : 8 ≤ p.strength → g.Signed line p) : g.Knows line p := by
  have hall : ∀ l ≤ p.strength, g.ReadsAt line l p := by
    intro l hl
    have hle := p.strength_le
    by_cases h8 : 8 ≤ p.strength
    · rcases Nat.lt_or_eq_of_le hl with hlt | rfl
      -- Between calls and operators there is only the level of prefix operators.
      · exact (hsigned h8).readsAt.down (Nat.le_refl 8) l (by omega)
      · exact hreads
    · exact hreads.down (by omega) l hl
  refine ⟨hall, ?_, hsigned⟩
  intro l hl hloop
  rcases Nat.lt_or_eq_of_le hl with hlt | rfl
  · have hbinary : l ∈ binaryLevels := by
      have hle := p.strength_le
      exact hloop.resolve_right (by omega)
    exact (hall (l + 1) (by omega)).continues hbinary
  · exact hcontinues hloop

theorem Continues.extend {q : Phrase} {sign : Lexeme} {words : List Lexeme}
    (h : g.Continues line l p) (hrender : q.render = p.render ++ sign :: words)
    (hsign : sign.kind.Stops (l + 1))
    (hstep : ∀ e, p.Describes e → Parse.Reads line (g.extension l e) (sign :: words)
      (TokenKind.Stops (l + 1)) (fun r => ∃ f, r = some f ∧ q.Describes f)) :
    g.Continues line l q := by
  intro tokens before next rest hspells hbefore hnext
  rw [hrender] at hspells
  obtain ⟨ts, us, rfl, hts, hus⟩ := hspells.append_inv
  obtain ⟨t, vs, rfl, ht, -, -⟩ := hus.cons_inv
  -- For the shorter expression, the word that goes on with it is the next one.
  have hcut : ts ++ t :: vs ++ next :: rest = ts ++ t :: (vs ++ next :: rest) := by simp
  rw [hcut]
  obtain ⟨e, last, he, hlast, hloop⟩ := h ts before t (vs ++ next :: rest) hts hbefore
    (by rw [← t.lexeme_kind, ht]; exact hsign)
  obtain ⟨_, last', ⟨f, rfl, hf⟩, hlast', hread⟩ :=
    hstep e he (t :: vs) last next rest hus hlast hnext
  refine ⟨f, last', hf, hlast', hloop.next hread ?_⟩
  grind

end Grammar

end ClassScript
