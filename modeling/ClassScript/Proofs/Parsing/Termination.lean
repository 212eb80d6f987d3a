import ClassScript.Proofs.Parsing.Interpolated

/-!
# Reading a Text Comes to an End

Every reader takes a token when it succeeds, every loop takes a token in each of its rounds, and a
hole is shorter than the literal it is in. So the bounds that the readers have been given are never
reached.
-/

namespace ClassScript

open List Grammar

namespace Interpolation

theorem split_eq {k j : Nat} {cs : List Char} (hk : cs.length < k) (hj : cs.length < j) :
    split k cs = split j cs := by
  fun_induction split k cs generalizing j with
  | case1 => exact absurd hk (Nat.not_lt_zero _)
  | case2 | case4 =>
    obtain ⟨m, rfl⟩ : ∃ m, j = m + 1 := ⟨j - 1, by omega⟩
    rfl
  | case3 n e cs ih | case5 n cs ih | case6 n cs ih =>
    obtain ⟨m, rfl⟩ : ∃ m, j = m + 1 := ⟨j - 1, by omega⟩
    simp only [length_cons] at hk hj
    rw [split, ih (j := m) (by omega) (by omega)]
  | case7 n cs hbrace first rest hfirst ih =>
    obtain ⟨m, rfl⟩ : ∃ m, j = m + 1 := ⟨j - 1, by omega⟩
    have hlength := length_holeSource hfirst
    rw [split]
    · grind
    · exact hbrace
  | case8 n cs hbrace hnone =>
    obtain ⟨m, rfl⟩ : ∃ m, j = m + 1 := ⟨j - 1, by omega⟩
    rw [split, hnone]
    exact hbrace
  | case9 n c cs h1 h2 h3 h4 h5 ih =>
    obtain ⟨m, rfl⟩ : ∃ m, j = m + 1 := ⟨j - 1, by omega⟩
    simp only [length_cons] at hk hj
    rw [split, ih (j := m) (by omega) (by omega)]
    all_goals assumption

end Interpolation

/-- A reader that takes at least one token when it succeeds, and never the end of the text. -/
def Parse.Takes {α : Type} (x : Parse α) : Prop :=
  ∀ c a c', c.Ends → x c = .ok (a, c') →
    ∃ taken, taken ≠ [] ∧ c.rest = taken ++ c'.rest ∧ ∀ t ∈ taken, t.kind ≠ .eof

/-- A round of a loop that takes at least one token and never the end of the text, or is the
    last round. -/
def Parse.TakesOrStops {α : Type} (x : Parse (Option α)) : Prop :=
  ∀ c a c', c.Ends → x c = .ok (some a, c') →
    ∃ taken, taken ≠ [] ∧ c.rest = taken ++ c'.rest ∧ ∀ t ∈ taken, t.kind ≠ .eof

namespace Parse

variable {α γ : Type} {E : Prop} {n : Nat} {P : α → Prop} {v : α → γ}

theorem AgreeFrom.takes {x y : Parse α} (h : Advances E n 0 P v x y) : Takes x := by
  intro c a c' hc hx
  obtain ⟨taken, htook, _, hmoves⟩ := (h.gets c a c' hc trivial hx).1
  exact ⟨taken, hmoves trivial, htook.rest, htook.words⟩

theorem AgreeFrom.takesOrStops {x y : Parse (Option α)} (h : Extends E n 0 P v x y) :
    TakesOrStops x := by
  intro c a c' hc hx
  obtain ⟨taken, htook, _, hmoves⟩ := (h.gets c (some a) c' hc trivial hx).1
  exact ⟨taken, hmoves rfl, htook.rest, htook.words⟩

end Parse

namespace Grammar

def expressionReaders (g : Grammar) : List (Parse Expr) :=
  [g.expression, g.assignment, g.disjunction, g.conjunction, g.equality, g.comparison, g.range,
    g.term, g.factor, g.unary, g.postfixed, g.primary]

def statementReaders (g : Grammar) (start : Span) (name : String) (modifiers : Modifiers)
    (place : Place) : List (Parse Stmt) :=
  [g.statement place, g.anyStatement place, g.control, g.expressionStatement,
    g.variableStatement start modifiers place, g.propertyStatement start name modifiers,
    g.constantStatement start modifiers, g.functionStatement start modifiers,
    g.classStatement start modifiers, g.enumStatement start modifiers, importStatement,
    g.ifStatement, g.whileStatement, g.forStatement, g.switchStatement, g.tryStatement,
    g.throwStatement, g.returnStatement]

/-- Each round of a loop of the grammar takes a token or ends the loop. -/
structure LoopsTake (g : Grammar) : Prop where
  statements : ∀ place, Parse.Takes (g.statement place)
  params : ∀ before, Parse.Takes (g.param before)
  arguments : ∀ before, Parse.Takes (g.argument before)
  items : Parse.Takes g.expression
  entries : Parse.Takes g.entry
  variants : Parse.Takes g.variant
  names : ∀ what, Parse.Takes (do return (← Parse.expectName what).text)
  suffixes : ∀ target, Parse.TakesOrStops (g.suffix? target)
  handlers : ∀ found, Parse.TakesOrStops (g.handler? found)
  signs : Grammar.signs = Parse.extending [] signStep ∧
    ∀ signs, Parse.TakesOrStops (signStep signs)
  operators : ∀ l ∈ binaryLevels,
    (g.atLevel l = g.atLevel (l + 1) >>= fun left => Parse.extending left (g.extension l)) ∧
      ∀ left, Parse.TakesOrStops (g.extension l left)
  modifiers : Grammar.modifiers = Parse.extending Modifiers.none modifierStep ∧
    ∀ modifiers, Parse.TakesOrStops (modifierStep modifiers)
  types : (typeNames = do
      let names ← Parse.extending [← typeName] typeStep
      return names.reverse) ∧
    ∀ names, Parse.TakesOrStops (typeStep names)
  accessors : (∀ start name modifiers, g.propertyStatement start name modifiers = do
      let _ ← Parse.expect .lBrace "`\x7b` to start property"
      let found ← Parse.extending ⟨none, none⟩ g.accessorStep
      let closing ← Parse.expect .rBrace "`\x7d` after property"
      return .property (start.to closing.span) ⟨name, found.getter, found.setter, modifiers⟩) ∧
    ∀ found, Parse.TakesOrStops (g.accessorStep found)
  branches : (g.switchStatement = do
      let start ← Parse.expectKeyword .switch
      let subject ← g.expression
      let _ ← Parse.expect .lBrace "`\x7b` after switch subject"
      let found ← Parse.extending ⟨[], none⟩ g.branchStep
      let closing ← Parse.expect .rBrace "`\x7d` after switch"
      return .switch (start.span.to closing.span) subject found.cases.reverse found.defaultBody) ∧
    ∀ found, Parse.TakesOrStops (g.branchStep found)

theorem expressionReaders_take (depth : Nat) : ∀ x ∈ (nested depth).expressionReaders, x.Takes := by
  have hg := nested_steady True depth
  have hlevel {l : Nat} (hl : 0 < l) (hl9 : l ≤ 9) : ((nested depth).atLevel l).Takes :=
    (hg.atLevel hl hl9).takes
  simp only [expressionReaders, forall_mem_cons, not_mem_nil, false_imp_iff,
    implies_true, and_true]
  exact ⟨(hg.expression 0).takes, hg.assignment.takes, hlevel (l := 1) (by decide) (by decide),
    hlevel (l := 2) (by decide) (by decide), hlevel (l := 3) (by decide) (by decide),
    hlevel (l := 4) (by decide) (by decide), hlevel (l := 5) (by decide) (by decide),
    hlevel (l := 6) (by decide) (by decide), hlevel (l := 7) (by decide) (by decide),
    hg.unary.takes, hg.postfixed.takes, hg.primary.takes⟩

theorem statementReaders_take (depth : Nat) (start : Span) (name : String) (modifiers : Modifiers)
    (place : Place) :
    ∀ x ∈ (nested depth).statementReaders start name modifiers place, x.Takes := by
  have hg := nested_steady True depth
  have he := hg.expression 0
  have hstart (_ : True) : start = start := rfl
  simp only [statementReaders, forall_mem_cons, not_mem_nil, false_imp_iff,
    implies_true, and_true]
  exact ⟨(hg.statement place 0).takes, (hg.anyStatement (Nat.zero_le 1) he place).takes,
    (hg.control (Nat.zero_le 1) he).takes, (Agree.expressionStatement he).takes,
    (hg.variableStatement hstart modifiers place).takes,
    (hg.propertyStatement hstart name modifiers).takes,
    (hg.constantStatement hstart modifiers place).takes,
    (hg.functionStatement hstart modifiers place).takes,
    (hg.classStatement hstart modifiers place).takes,
    (hg.enumStatement hstart modifiers place).takes,
    (Agree.importStatement (E := True) (n := 0)).takes, hg.ifStatement.takes,
    hg.whileStatement.takes,
    hg.forStatement.takes, hg.switchStatement.takes, hg.tryStatement.takes, hg.throwStatement.takes,
    hg.returnStatement.takes⟩

theorem extension_takes (depth : Nat) {l : Nat} (hl : l ∈ binaryLevels) (left : Expr) :
    ((nested depth).extension l left).TakesOrStops := by
  have hright := (nested_steady True depth).atLevel (d := 0) (Nat.succ_pos l) (by
    have hcases := mem_binaryLevels hl
    omega)
  rw [extension_eq _ hl]
  exact (Agree.binaryStep hright (.refl trivial)).takesOrStops

theorem loops_take (depth : Nat) : (nested depth).LoopsTake where
  statements place := ((nested_steady True depth).statement place 0).takes
  params _ := ((nested_steady True depth).param (.refl trivial)).takes
  arguments _ := ((nested_steady True depth).argument (.refl trivial)).takes
  items := ((nested_steady True depth).expression 0).takes
  entries := (nested_steady True depth).entry.takes
  variants := (nested_steady True depth).variant.takes
  names what := (nameText_agree (E := True) (n := 0) what).takes
  suffixes _ := ((nested_steady True depth).suffix? (.refl trivial)).takesOrStops
  handlers _ := ((nested_steady True depth).handler? (.refl trivial)).takesOrStops
  signs := ⟨rfl, fun _ => (Agree.signStep (E := True) (n := 0) (.refl trivial)).takesOrStops⟩
  operators _ hl := ⟨atLevel_eq _ hl, extension_takes depth hl⟩
  modifiers := ⟨rfl, fun modifiers =>
    (Agree.modifierStep (E := True) (n := 0) modifiers).takesOrStops⟩
  types := ⟨rfl, fun names => (typeStep_agree (E := True) (n := 0) names).takesOrStops⟩
  accessors := ⟨fun _ _ _ => rfl,
    fun _ => ((nested_steady True depth).accessorStep (.refl trivial)).takesOrStops⟩
  branches := ⟨rfl,
    fun _ => ((nested_steady True depth).branchStep (.refl trivial)).takesOrStops⟩

end Grammar

def parseWithin (depth : Nat) (source : String) : Except SyntaxError (List Stmt) := do
  let tokens ← tokenizeChars source.toList 1
  return (← (Grammar.nested depth).program (Cursor.start tokens)).1

theorem parseWithin_eq {source : String} {depth : Nat}
    (hdepth : Grammar.depthFor source.toList ≤ depth) :
    parseWithin depth source = parseProgram source ∧
      ∀ e, parseProgram source = .error e → e.problem ≠ .exhausted := by
  rw [parseWithin, parseProgram]
  cases htokens : tokenizeChars source.toList 1 with
  | error e =>
    refine ⟨rfl, ?_⟩
    rintro _ ⟨⟩
    exact Lexer.tokensFrom_ne_exhausted (Nat.lt_succ_self _) htokens
  | ok tokens =>
    have hc := Lexer.tokensFrom_covers htokens
    have hg : Grammar.Agree True (source.toList.length + 1) (Grammar.nested depth)
        (Grammar.nested (Grammar.depthFor source.toList)) := by
      rw [Grammar.depthFor] at hdepth ⊢
      exact nested_agree (by omega) (by omega)
    have hwords : SameWords tokens tokens :=
      .of_shift (a := 0) (b := 0) (forall₂_same.mpr fun _ _ => ⟨rfl, rfl⟩)
    have hread := hg.program.runs (d := 0) (Cursor.start tokens) _ (.start hc hwords fun _ => rfl)
      trivial trivial (Nat.lt_succ_of_le hc.weight_le)
    have hsame := (hread.map (f := (·.1)) (g := (·.1)) fun _ _ hr => hr.1.same trivial).eq
    dsimp only [bind, Except.bind]
    rw [← hsame.1]
    refine ⟨?_, hsame.2⟩
    cases (Grammar.nested depth).program (Cursor.start tokens) with
    | ok | error => rfl

/-- A text is a program or it has a problem, and the bounds that readers are given are not reached.
    Each reader that succeeds has taken a token, each loop takes a token in every round or stops,
    and each hole is shorter than its literal. -/
theorem parseProgram_terminates (source : String) :
    ((∃ program, parseProgram source = .ok program) ∨
      ∃ e, parseProgram source = .error e ∧ e.problem ≠ .exhausted) ∧
    (∀ depth, Grammar.depthFor source.toList ≤ depth →
      parseWithin depth source = parseProgram source) ∧
    (∀ depth, (∀ x ∈ (Grammar.nested depth).expressionReaders, x.Takes) ∧
      (∀ start name modifiers place,
        ∀ x ∈ (Grammar.nested depth).statementReaders start name modifiers place, x.Takes) ∧
      (Grammar.nested depth).LoopsTake) ∧
    (∀ line tokens, tokenize source line = .ok tokens →
      ∀ t ∈ tokens, t.kind = .interpolatedString →
        (∃ before after, t.StandsAt source line before (literal t.text) after) ∧
        (∀ steps hole, .hole hole ∈ Interpolation.split steps t.text.toList →
          hole.length < (literal t.text).length) ∧
        ∀ steps, t.text.length < steps → Interpolation.split steps t.text.toList =
          Interpolation.split (t.text.length + 1) t.text.toList) := by
  refine ⟨?_, fun depth hdepth => (parseWithin_eq hdepth).1, fun depth => ?_, ?_⟩
  · cases hread : parseProgram source with
    | ok program => exact .inl ⟨program, rfl⟩
    | error e => exact .inr ⟨e, rfl, (parseWithin_eq (Nat.le_refl _)).2 e hread⟩
  · exact ⟨expressionReaders_take depth, statementReaders_take depth,
      loops_take depth⟩
  · intro line tokens htokens t ht hkind
    refine ⟨?_, fun steps hole hmem => ?_, fun steps hsteps => ?_⟩
    · have hstands := Lexer.tokensFrom_interpolated [] htokens t ht hkind
      rwa [nil_append, String.ofList_toList] at hstands
    · have hlength := (Interpolation.hole_infix hmem).length_le
      simp only [length_cons, length_append, length_nil] at hlength
      rw [← String.length_toList, toList_literal]
      simp only [length_cons, length_append, length_nil]
      omega
    · exact Interpolation.split_eq (by rwa [String.length_toList])
        (by rw [String.length_toList]; exact Nat.lt_succ_self _)

theorem parseProgram_terminates_sample : ∃ e t, parseProgram "$\"\x7ba +\x7d\"" = .error e ∧
    e.problem ≠ .exhausted ∧ tokenize "$\"\x7ba +\x7d\"" 1 = .ok [t, literalEnd "\x7ba +\x7d" 1] ∧
    .hole ['a', ' ', '+'] ∈ Interpolation.split 6 t.text.toList ∧ 3 < (literal t.text).length := by
  obtain ⟨hprogram, _, _, hholes⟩ := parseProgram_terminates "$\"\x7ba +\x7d\""
  have htokens : tokenize "$\"\x7ba +\x7d\"" 1 =
      .ok [literalToken "\x7ba +\x7d" 1, literalEnd "\x7ba +\x7d" 1] := by
    decide +kernel
  have hhole : Interpolation.Cut.hole ['a', ' ', '+'] ∈
      Interpolation.split 6 (literalToken "\x7ba +\x7d" 1).text.toList :=
    mem_cons_self
  have hshort := (hholes 1 _ htokens _ mem_cons_self rfl).2.1 6 _ hhole
  have hnone : (parseProgram "$\"\x7ba +\x7d\"").toOption.isSome = false := by decide +kernel
  rcases hprogram with ⟨program, hok⟩ | ⟨e, he, hproblem⟩
  · rw [hok] at hnone
    cases hnone
  · exact ⟨e, _, he, hproblem, htokens, hhole, hshort⟩

end ClassScript
