import ClassScript.Proofs.Parsing.Productions

/-!
# Statements Side by Side

The bound on nesting counts entries and each unit of weight allows two of them: a statement may
begin with an expression, without a token in front.
-/

namespace ClassScript

open List

variable {source : String}

namespace Grammar

open Parse (Advances AgreeFrom Extends)

variable {m : Nat}

/-! ### Rounds

The rounds of loops that are written in place, under names of their own. -/

def modifierStep (modifiers : Modifiers) : Parse (Option Modifiers) := do
  let token ← Parse.peek
  if token.kind = .keyword .static then
    let _ ← Parse.advance
    return some { modifiers with isStatic := true }
  else
    match access? token.kind with
    | none => return none
    | some access =>
      if modifiers.access.isSome then Parse.fail .duplicateAccessibility token.span
      let _ ← Parse.advance
      return some { modifiers with access := some access }

def accessorStep (g : Grammar) (found : Accessors) : Parse (Option Accessors) := do
  if (← Parse.check .rBrace) || (← Parse.check .eof) then return none
  else return some (← g.accessor found)

def branchStep (g : Grammar) (found : Branches) : Parse (Option Branches) := do
  if (← Parse.check .rBrace) || (← Parse.check .eof) then return none
  else return some (← g.branch found)

def Accessors.unplaced (found : Accessors) : Accessors :=
  ⟨found.getter.map (List.map Stmt.unplaced), found.setter.map (List.map Stmt.unplaced)⟩

def Accessors.WellFormed (found : Accessors) : Prop :=
  ∀ body, found.getter = some body ∨ found.setter = some body → ∀ s ∈ body, s.WellFormed .block

def Branches.unplaced (found : Branches) : Branches :=
  ⟨found.cases.map SwitchCase.unplaced, found.defaultBody.map (List.map Stmt.unplaced)⟩

structure Branches.WellFormed (found : Branches) : Prop where
  values : ∀ c ∈ found.cases, ∀ value ∈ c.values, value.WellFormed
  bodies : ∀ c ∈ found.cases, ∀ s ∈ c.body, s.WellFormed .block
  default : ∀ body, found.defaultBody = some body → ∀ s ∈ body, s.WellFormed .block

abbrev SameStmts (E : Prop) (n d : Nat) (place : Place) (x y : Parse Stmt) : Prop :=
  Advances E n d (Stmt.WellFormed · place) Stmt.unplaced x y

namespace Agree

open Parse.AgreeFrom

variable {E : Prop} {n : Nat} {g g' : Grammar} (hg : g.Agree E n g') {d : Nat}
variable {start start' : Span}
variable {found found' : Accessors}

include hg

theorem blockWithin : Advances E n d (fun r => ∀ s ∈ r.1, s.WellFormed .block)
    (fun r => r.1.map Stmt.unplaced) g.block g'.block :=
  hg.block.mono (Nat.le_succ n)

/-! ### Declarations -/

theorem accessor (h : Same E Accessors.unplaced found found') :
    Advances E n d (fun later => found.WellFormed → later.WellFormed) Accessors.unplaced
      (g.accessor found) (g'.accessor found') := by
  obtain ⟨hgetter, hsetter⟩ := Accessors.mk.inj h.view
  have hget : found.getter.isSome = found'.getter.isSome := by
    simpa using congrArg Option.isSome hgetter
  have hset : found.setter.isSome = found'.setter.isSome := by
    simpa using congrArg Option.isSome hsetter
  refine (expect_word rfl _).bind_moved fun name name' hname =>
    hg.blockWithin.bind fun r r' hbody => ?_
  have hfail {problem : SyntaxProblem} (hproblem : problem ≠ .exhausted)
      {f f' : Unit → Parse Accessors} :
      Parse.Agree E n d (fun later => found.WellFormed → later.WellFormed) Accessors.unplaced
        (Parse.fail problem name.span >>= f) (Parse.fail problem name'.span >>= f') :=
    .fail_bind hproblem fun e => by rw [hname.same e]
  rw [← hname.text, ← hget, ← hset]
  refine .ite (fun _ => .ite (fun _ => hfail (by simp)) fun _ => .pure id ⟨?_, ?_, fun e => ?_⟩)
    fun _ => .ite (fun _ => .ite (fun _ => hfail (by simp)) fun _ => .pure id ⟨?_, ?_, fun e => ?_⟩)
      fun _ => .fail (by simp) fun e => by rw [hname.same e]
  · rintro hfound body (hnew | hold)
    · cases hnew
      exact hbody.fine
    · exact hfound body (.inr hold)
  · simp [Accessors.unplaced, hbody.view, hsetter]
  · rw [hbody.same e, h.same e]
  · rintro hfound body (hold | hnew)
    · exact hfound body (.inl hold)
    · cases hnew
      exact hbody.fine
  · simp [Accessors.unplaced, hbody.view, hgetter]
  · rw [hbody.same e, h.same e]

omit hg in
theorem untilBrace {α γ : Type} {P : α → Prop} {v : α → γ} {x y : Parse α}
    (h : Advances E n d P v x y) : Extends E n d P v
      (do
        if (← Parse.check .rBrace) || (← Parse.check .eof) then return none
        else return some (← x))
      (do
        if (← Parse.check .rBrace) || (← Parse.check .eof) then return none
        else return some (← y)) :=
  (check _).bind_same fun _ => (check _).bind_same fun _ => .ite
    (fun _ => .pure (by simp) (.refl (by simp)))
    fun _ => h.bind_moved fun _ _ ha => .pure id
      ⟨by simpa using ha.fine, congrArg some ha.view, fun e => congrArg some (ha.same e)⟩

theorem accessorStep (h : Same E Accessors.unplaced found found') :
    Extends E n d (fun later => found.WellFormed → later.WellFormed) Accessors.unplaced
      (g.accessorStep found) (g'.accessorStep found') :=
  untilBrace (hg.accessor h)

theorem propertyStatement (hstart : E → start = start') (name : String)
    (modifiers : Modifiers) : SameStmts E n d .classBody (g.propertyStatement start name modifiers)
      (g'.propertyStatement start' name modifiers) := by
  refine (expect_opening _).bind_moved fun _ _ _ => .bind
    (.extending (P := Accessors.WellFormed) (.refl (by simp [Accessors.WellFormed]))
      fun _ _ => hg.accessorStep)
    fun found found' hfound =>
      (expect_closing _).bind fun _ _ hclosing => .pure id ⟨?_, ?_, fun e => ?_⟩
  · exact .property _ _ (fun body h => hfound.fine body (.inl h)) fun body h =>
      hfound.fine body (.inr h)
  · obtain ⟨hgetter, hsetter⟩ := Accessors.mk.inj hfound.view
    simp [hgetter, hsetter]
  · rw [hstart e, hfound.same e, hclosing.same e]

theorem variableStatement (hstart : E → start = start') (modifiers : Modifiers) (place : Place) :
    SameStmts E (n + 1) d place (g.variableStatement start modifiers place)
      (g'.variableStatement start' modifiers place) := by
  refine (expect_word rfl _).bind_less fun _ _ _ => (expect_word rfl _).bind fun name name' hname =>
    types?_agree.bind_same fun types => (check _).bind_same fun _ => ?_
  rw [← hname.text]
  refine .ite (fun hproperty => ?_) fun _ => hg.initializer?.bind fun _ _ hi =>
    endStatement.bind fun _ _ _ => last.bind fun _ _ hlast => .pure id
      ⟨.variable _ _ place hi.fine, by simp [hi.view],
        fun e => by rw [hstart e, hi.same e, hlast.same e]⟩
  cases place with
  | block => cases hproperty
  | classBody => exact (hg.propertyStatement hstart _ _).weaken fun _ => False.elim

theorem constantStatement (hstart : E → start = start') (modifiers : Modifiers) (place : Place) :
    SameStmts E (n + 1) d place (g.constantStatement start modifiers)
      (g'.constantStatement start' modifiers) := by
  refine (expect_word rfl _).bind_less fun _ _ _ => (expect_word rfl _).bind fun _ _ hname =>
    types?_agree.bind_same fun _ => (expect_word rfl _).bind fun _ _ _ =>
      (hg.expression d).bind fun _ _ hvalue => endStatement.bind fun _ _ _ => .pure id
        ⟨.variable _ _ place ?_, by simp [hname.text, hvalue.view],
          fun e => by rw [hstart e, hname.same e, hvalue.same e]⟩
  rintro _ ⟨⟩
  exact hvalue.fine

omit hg in
theorem functionName :
    Parse.Agree E n d (fun _ => True) id Grammar.functionName Grammar.functionName := by
  refine advance_any (.expected "function name") (by simp) (fun t hword => ?_)
    fun t t' ht => ?_
  · generalize t.kind = k at hword
    cases k <;> first | rfl | cases hword
  · rw [← ht.kind, ← ht.text]
    refine .ite (fun _ => .pure id (.refl trivial)) fun _ => .ite (fun _ => ?_) fun _ =>
      .fail (by simp) fun e => by rw [ht.same e]
    exact (expect_word rfl _).bind fun _ _ _ => (accept rfl).bind_same fun _ => .ite
      (fun _ => .pure id (.refl trivial)) fun _ => .pure id (.refl trivial)

theorem functionStatement (hstart : E → start = start') (modifiers : Modifiers) (place : Place) :
    SameStmts E (n + 1) d place (g.functionStatement start modifiers)
      (g'.functionStatement start' modifiers) :=
  (expect_word rfl _).bind_less fun _ _ _ => functionName.bind_same fun _ =>
    (hg.function hstart _ _).bind fun _ _ hdecl => .pure id
      ⟨.function _ place hdecl.fine, by simp [hdecl.view], fun e => by rw [hdecl.same e]⟩

theorem classStatement (hstart : E → start = start') (modifiers : Modifiers) (place : Place) :
    SameStmts E (n + 1) d place (g.classStatement start modifiers)
      (g'.classStatement start' modifiers) := by
  have hnone : Parse.Agree E n d (fun _ => True) (List.map id) (pure ([] : List String))
      (pure []) :=
    .pure id (.refl trivial)
  refine (expect_word rfl _).bind_less fun _ _ _ => (expect_word rfl _).bind fun name name' hname =>
    (accept rfl).bind_same fun _ => .ite
      (fun _ => (separated_all fun _ _ => nameText_agree _).bind ?_) fun _ => hnone.bind ?_
  all_goals
    intro supers supers' hsupers
    refine (expect_opening _).bind fun _ _ _ =>
      (itemsUntil (hg.statement _ _)).bind fun _ _ hbody =>
      (expect_closing _).bind fun _ _ hclosing =>
        .pure id ⟨.class _ place hbody.fine, ?_, fun e => ?_⟩
    · have hsame : supers = supers' := by simpa using hsupers.view
      simp [hsame, hname.text, hbody.view]
    · rw [hstart e, hname.same e, hsupers.same e, hbody.same e, hclosing.same e]

theorem variant : Advances E n d (fun v => ∀ value, v.2 = some value → value.WellFormed)
    (fun v => (v.1, v.2.map Expr.unplaced)) g.variant g'.variant :=
  (expect_word rfl _).bind_moved fun _ _ hname => hg.initializer?.bind fun _ _ hi => .pure id
    ⟨hi.fine, by simp [hname.text, hi.view], fun e => by rw [hname.same e, hi.same e]⟩

theorem enumStatement (hstart : E → start = start') (modifiers : Modifiers) (place : Place) :
    SameStmts E (n + 1) d place (g.enumStatement start modifiers)
      (g'.enumStatement start' modifiers) :=
  (expect_word rfl _).bind_less fun _ _ _ => (expect_word rfl _).bind fun _ _ hname =>
    (expect_opening _).bind fun _ _ _ => (trailing hg.variant).bind fun _ _ hvariants =>
      (expect_closing _).bind fun _ _ hclosing => .pure id
        ⟨.enum _ place hvariants.fine, by simp [hname.text, hvariants.view],
          fun e => by rw [hstart e, hname.same e, hvariants.same e, hclosing.same e]⟩

/-! ### Other statements -/

theorem ifStatement : SameStmts E (n + 1) d .block g.ifStatement g'.ifStatement := by
  refine (expect_word rfl _).bind_less fun _ _ hstart => (hg.expression d).bind fun _ _ hc =>
    hg.blockWithin.bind fun _ _ hthen => (accept rfl).bind_same fun _ => .ite
      (fun _ => (check _).bind_same fun _ => .ite (fun _ => ?_) fun _ => ?_) fun _ => ?_
  · refine (hg.statement _ d).bind fun _ _ hnext => .pure id
      ⟨.if _ _ _ _ hc.fine hthen.fine ?_, by simp [hc.view, hthen.view, hnext.view],
        fun e => by rw [hstart.same e, hc.same e, hthen.same e, hnext.same e]⟩
    rintro _ ⟨⟩
    exact forall_mem_singleton.mpr hnext.fine
  · refine hg.blockWithin.bind fun _ _ helse => .pure id
      ⟨.if _ _ _ _ hc.fine hthen.fine ?_, by simp [hc.view, hthen.view, helse.view],
        fun e => by rw [hstart.same e, hc.same e, hthen.same e, helse.same e]⟩
    rintro _ ⟨⟩
    exact helse.fine
  · exact .pure id ⟨.if _ _ _ none hc.fine hthen.fine (by simp), by simp [hc.view, hthen.view],
      fun e => by rw [hstart.same e, hc.same e, hthen.same e]⟩

theorem whileStatement : SameStmts E (n + 1) d .block g.whileStatement g'.whileStatement :=
  (expect_word rfl _).bind_less fun _ _ hstart => (hg.expression d).bind fun _ _ hc =>
    hg.blockWithin.bind fun _ _ hbody => .pure id ⟨.while _ _ _ hc.fine hbody.fine,
      by simp [hc.view, hbody.view], fun e => by rw [hstart.same e, hc.same e, hbody.same e]⟩

theorem forStatement : SameStmts E (n + 1) d .block g.forStatement g'.forStatement := by
  refine (expect_word rfl _).bind_less fun _ _ hstart => (accept rfl).bind_same fun _ =>
    (accept rfl).bind_same fun _ => (expect_word rfl _).bind fun _ _ hbinding =>
      (expect_word rfl _).bind fun _ _ _ => (hg.expression d).bind fun _ _ hi =>
        .ite (fun _ => (expect_word rfl _).bind fun _ _ _ => ?_) fun _ => ?_
  all_goals
    exact hg.blockWithin.bind fun _ _ hbody => .pure id ⟨.for _ _ _ _ hi.fine hbody.fine,
      by simp [hbinding.text, hi.view, hbody.view],
      fun e => by rw [hstart.same e, hbinding.same e, hi.same e, hbody.same e]⟩

theorem branch {found found' : Branches} (h : Same E Branches.unplaced found found') :
    Advances E (n + 1) d (fun later => found.WellFormed → later.WellFormed) Branches.unplaced
      (g.branch found) (g'.branch found') := by
  obtain ⟨hcases, hdefault⟩ := Branches.mk.inj h.view
  have hsome : found.defaultBody.isSome = found'.defaultBody.isSome := by
    simpa using congrArg Option.isSome hdefault
  refine peek_bind fun t t' ht => ?_
  have hspan (e : E) : t.span = t'.span := by rw [ht.same e]
  rw [← ht.kind]
  generalize hk : t.kind = k
  have hword (h : k.isWord = true) : Nests d [t] d := .word (hk ▸ h) (.nil d)
  cases k
  case keyword k =>
    cases k
    case case =>
      refine .advance (fun _ h => h.1) (fun _ h => h.1) (hword rfl)
        ((separated_all fun _ _ => hg.expression d).bind fun _ _ hvalues =>
          (accept rfl).bind_same fun _ => hg.blockWithin.bind fun _ _ hbody => .pure id
            ⟨fun hfound => ⟨?_, ?_, hfound.default⟩, ?_, fun e => ?_⟩)
      · exact forall_mem_cons.mpr ⟨hvalues.fine, hfound.values⟩
      · exact forall_mem_cons.mpr ⟨hbody.fine, hfound.bodies⟩
      · simp [Branches.unplaced, hvalues.view, hbody.view, hcases, hdefault]
      · rw [hspan e, hvalues.same e, hbody.same e, h.same e]
    case default =>
      refine .advance (fun _ h => h.1) (fun _ h => h.1) (hword rfl) ?_
      rw [← hsome]
      refine .ite (fun _ => .fail_bind (by simp) hspan) fun _ => (accept rfl).bind_same fun _ =>
        hg.blockWithin.bind fun _ _ hbody => .pure id
          ⟨fun hfound => ⟨hfound.values, hfound.bodies, ?_⟩, ?_, fun e => ?_⟩
      · rintro _ ⟨⟩
        exact hbody.fine
      · simp [Branches.unplaced, hbody.view, hcases]
      · rw [hbody.same e, h.same e]
    all_goals exact .fail (by simp) hspan
  all_goals exact .fail (by simp) hspan

theorem branchStep {found found' : Branches} (h : Same E Branches.unplaced found found') :
    Extends E n d (fun later => found.WellFormed → later.WellFormed) Branches.unplaced
      (g.branchStep found) (g'.branchStep found') :=
  untilBrace ((hg.branch h).mono (Nat.le_succ n))

theorem switchStatement : SameStmts E (n + 1) d .block g.switchStatement g'.switchStatement := by
  refine (expect_word rfl _).bind_less fun _ _ hstart => (hg.expression d).bind fun _ _ hsubject =>
    (expect_opening _).bind fun _ _ _ => .bind
      (.extending (P := Branches.WellFormed) (.refl ⟨by simp, by simp, by simp⟩)
        fun _ _ => hg.branchStep)
      fun found found' hfound => (expect_closing _).bind fun _ _ hclosing => .pure id
        ⟨.switch _ _ _ _ hsubject.fine ?_ ?_ hfound.fine.default, ?_, fun e => ?_⟩
  · exact fun c hc => hfound.fine.values c (mem_reverse.mp hc)
  · exact fun c hc => hfound.fine.bodies c (mem_reverse.mp hc)
  · obtain ⟨hcases, hdefault⟩ := Branches.mk.inj hfound.view
    simp [hsubject.view, hcases, hdefault]
  · rw [hstart.same e, hsubject.same e, hfound.same e, hclosing.same e]

omit hg in
theorem caught : Parse.Agree E n d (fun _ => True) id Grammar.caught Grammar.caught :=
  (accept rfl).bind_same fun _ => .ite (fun _ => (expect_word rfl _).bind fun _ _ hname =>
    types?_agree.bind_same fun _ => (expect_word rfl _).bind fun _ _ _ =>
      .pure id (.of_eq (by rw [hname.text]) trivial)) fun _ => .pure id (.refl trivial)

theorem handler? {found found' : List CatchClause × Span}
    (h : Same E (fun r => r.1.map CatchClause.unplaced) found found') :
    Extends E n d (fun later => (∀ c ∈ found.1, ∀ s ∈ c.body, s.WellFormed .block) →
      ∀ c ∈ later.1, ∀ s ∈ c.body, s.WellFormed .block) (fun r => r.1.map CatchClause.unplaced)
      (g.handler? found) (g'.handler? found') := by
  refine check_ite (fun t t' ht hk => ?_) (.pure (by simp) (.refl (by simp)))
  refine advance_same (fun _ => id) (fun _ => id) (.word (hk ▸ rfl) (.nil d))
    (caught.bind_same fun _ => hg.blockWithin.bind fun _ _ hbody => .pure id ⟨?_, ?_, fun e => ?_⟩)
  · rintro _ ⟨⟩ hfound
    exact forall_mem_cons.mpr ⟨hbody.fine, hfound⟩
  · simp [h.view, hbody.view]
  · rw [ht.same e, hbody.same e, h.same e]

theorem tryStatement : SameStmts E (n + 1) d .block g.tryStatement g'.tryStatement := by
  refine (expect_word rfl _).bind_less fun _ _ hstart => hg.blockWithin.bind fun _ _ hbody => .bind
    (.extending (P := fun found => ∀ c ∈ found.1, ∀ s ∈ c.body, s.WellFormed .block)
      ⟨by simp, rfl, fun e => by rw [hbody.same e]⟩ fun _ _ => hg.handler?)
    fun found found' hfound => ?_
  have hhandlers : ∀ c ∈ found.1.reverse, ∀ s ∈ c.body, s.WellFormed .block :=
    fun c hc => hfound.fine c (mem_reverse.mp hc)
  refine (accept rfl).bind_same fun _ => .ite (fun _ => ?_) fun _ => ?_
  · refine hg.blockWithin.bind fun finally_ _ hfinally => .pure id
      ⟨.try _ _ _ _ hbody.fine hhandlers ?_ (.inr (Option.some_ne_none finally_.1)),
        by simp [hbody.view, hfound.view, hfinally.view],
        fun e => by rw [hstart.same e, hbody.same e, hfound.same e, hfinally.same e]⟩
    rintro _ ⟨⟩
    exact hfinally.fine
  · have hempty : found.1.isEmpty = found'.1.isEmpty := by
      simpa using congrArg List.isEmpty hfound.view
    rw [← hempty]
    refine .ite (fun _ => peek.bind fun _ _ ht => .fail (by simp) fun e => by rw [ht.same e])
      fun hsome => .pure id
        ⟨.try _ _ _ none hbody.fine hhandlers (by simp) (.inl fun hnil => hsome ?_),
        by simp [hbody.view, hfound.view],
        fun e => by rw [hstart.same e, hbody.same e, hfound.same e]⟩
    rw [reverse_eq_nil_iff.mp hnil]
    rfl

theorem throwStatement : SameStmts E (n + 1) d .block g.throwStatement g'.throwStatement :=
  (expect_word rfl _).bind_less fun _ _ hstart => (hg.expression d).bind fun _ _ hvalue =>
    endStatement.bind fun _ _ _ => .pure id ⟨.throw _ _ hvalue.fine, by simp [hvalue.view],
      fun e => by rw [hstart.same e, hvalue.same e]⟩

theorem returnStatement : SameStmts E (n + 1) d .block g.returnStatement g'.returnStatement := by
  refine (expect_word rfl _).bind_less fun _ _ hstart => (check _).bind_same fun _ =>
    (check _).bind_same fun _ => (check _).bind_same fun _ => .ite (fun _ => ?_) fun _ => ?_
  · exact endStatement.bind fun _ _ _ => .pure id ⟨.return _ none (by simp), by simp,
      fun e => by rw [hstart.same e]⟩
  · exact (hg.expression d).bind fun _ _ hvalue => endStatement.bind fun _ _ _ => .pure id
      ⟨.return _ _ (by simpa using hvalue.fine), by simp [hvalue.view],
        fun e => by rw [hstart.same e, hvalue.same e]⟩

omit hg in
theorem importStatement :
    SameStmts E (n + 1) d .block Grammar.importStatement Grammar.importStatement := by
  have hwhole : Parse.Agree E n d (fun _ => True) id importWhole importWhole :=
    (expect_word rfl _).bind fun _ _ hpath => (accept rfl).bind_same fun _ => .ite
      (fun _ => (expect_word rfl _).bind fun _ _ hname =>
        .pure id (.of_eq (by rw [hpath.text, hname.text]) trivial))
      fun _ => .pure id (.of_eq (by rw [hpath.text]) trivial)
  have hnames : Parse.AgreeTo E n (d + 1) d (fun _ => False) (fun _ => True) id importNames
      importNames :=
    (separated_all fun _ _ => nameText_agree _).bind fun names names' hnames =>
      (expect_closing _).bind fun _ _ _ => (expect_word rfl _).bind fun _ _ _ =>
        (expect_word rfl _).bind fun _ _ hpath => .pure id (.of_eq (by
          have hsame : names = names' := by simpa using hnames.view
          rw [hpath.text, hsame]) trivial)
  refine (expect_word rfl _).bind_less fun _ _ hstart =>
    accept_bind (fun _ ht => .opening ht (.nil _)) (hnames.bind_same ?_) (hwhole.bind_same ?_)
  all_goals
    intro r
    exact endStatement.bind fun _ _ _ => last.bind fun _ _ hlast => .pure id
      ⟨.importModule _ _ _, by simp, fun e => by rw [hstart.same e, hlast.same e]⟩

omit hg in
theorem expressionStatement
    (he : Advances E n d Expr.WellFormed Expr.unplaced g.expression g'.expression) :
    SameStmts E n d .block g.expressionStatement g'.expressionStatement :=
  he.bind_moved fun _ _ hvalue => endStatement.bind fun _ _ _ => .pure id
    ⟨.expr _ hvalue.fine, by simp [hvalue.view], fun e => by rw [hvalue.same e]⟩

theorem control (hm : m ≤ n + 1)
    (he : Advances E m d Expr.WellFormed Expr.unplaced g.expression g'.expression) :
    SameStmts E m d .block g.control g'.control := by
  have hexpression := expressionStatement he
  refine peek_bind fun t t' ht => ?_
  rw [← ht.kind]
  generalize hk : t.kind = k
  have hany {x y : Parse Stmt} (h : SameStmts E (n + 1) d .block x y) :
      AgreeFrom E (fun c => c.next = t ∧ True) (fun c => c.next = t' ∧ True) m d d (fun _ => True)
        (Stmt.WellFormed · .block) Stmt.unplaced x y :=
    (h.mono hm).here
  -- A keyword that is the whole statement.
  have hone (f : Span → Stmt) (hf : ∀ span, (f span).WellFormed .block)
      (hv : ∀ span, (f span).unplaced = f default) (hword : k.isWord = true) :
      AgreeFrom E (fun c => c.next = t ∧ True) (fun c => c.next = t' ∧ True) m d d (fun _ => True)
        (Stmt.WellFormed · .block) Stmt.unplaced
        (do let token ← Parse.advance; Parse.endStatement; return f token.span)
        (do let token ← Parse.advance; Parse.endStatement; return f token.span) :=
    advance_same (fun _ h => h.1) (fun _ h => h.1) (.word (hk ▸ hword) (.nil d))
      (endStatement.bind fun _ _ _ => .pure id
        ⟨hf _, (hv _).trans (hv _).symm, fun e => by rw [ht.same e]⟩)
  cases k
  case keyword k =>
    cases k
    case «import» => exact hany importStatement
    case «if» => exact hany hg.ifStatement
    case «while» => exact hany hg.whileStatement
    case «for» => exact hany hg.forStatement
    case switch => exact hany hg.switchStatement
    case «try» => exact hany hg.tryStatement
    case throw => exact hany hg.throwStatement
    case «return» => exact hany hg.returnStatement
    case «break» => exact hone .break .break (by simp) rfl
    case «continue» => exact hone .continue .continue (by simp) rfl
    all_goals exact hexpression.here
  case lBrace =>
    exact hany (hg.block.bind_moved fun _ _ hbody => .pure id
      ⟨.block _ _ hbody.fine, by simp [hbody.view], fun e => by rw [hbody.same e]⟩)
  all_goals exact hexpression.here

theorem declaration? (hstart : E → start = start') (modifiers : Modifiers)
    (place : Place) : Extends E (n + 1) d (Stmt.WellFormed · place) Stmt.unplaced
      (g.declaration? start modifiers place) (g'.declaration? start' modifiers place) := by
  have hsome {x y : Parse Stmt} (h : SameStmts E (n + 1) d place x y) :
      Extends E (n + 1) d (Stmt.WellFormed · place) Stmt.unplaced (do return some (← x))
        (do return some (← y)) :=
    h.bind_moved fun _ _ hs => .pure id
      ⟨by simpa using hs.fine, congrArg some hs.view, fun e => by rw [hs.same e]⟩
  have hnone : Extends E (n + 1) d (Stmt.WellFormed · place) Stmt.unplaced
      (pure (none : Option Stmt)) (pure none) :=
    .pure (by simp) (.refl (by simp))
  refine peek.bind fun t t' ht => ?_
  rw [← ht.kind]
  generalize t.kind = k
  cases k
  case keyword k =>
    cases k
    case var => exact hsome (hg.variableStatement hstart _ _)
    case const => exact hsome (hg.constantStatement hstart _ _)
    case fn =>
      exact checkSecond_bind fun _ => .ite (fun _ => hnone) fun _ =>
        hsome (hg.functionStatement hstart _ _)
    case «class» => exact hsome (hg.classStatement hstart _ _)
    case enum => exact hsome (hg.enumStatement hstart _ _)
    all_goals exact hnone
  all_goals exact hnone

omit hg in
theorem modifierStep (modifiers : Modifiers) : Extends E n d (fun _ => True) id
    (Grammar.modifierStep modifiers) (Grammar.modifierStep modifiers) := by
  refine peek_bind fun t t' ht => ?_
  have hdone (modifiers : Modifiers) : Parse.AgreeTo E n d d (fun _ => False)
      (fun r => ∀ a, r = some a → True) (Option.map id) (pure (some modifiers))
      (pure (some modifiers)) :=
    .pure id (.refl fun _ _ => trivial)
  rw [← ht.kind]
  by_cases hstatic : t.kind = .keyword .static
  · rw [if_pos hstatic, if_pos hstatic]
    exact advance_same (fun _ h => h.1) (fun _ h => h.1) (.word (hstatic ▸ rfl) (.nil d)) (hdone _)
  rw [if_neg hstatic, if_neg hstatic]
  cases haccess : access? t.kind with
  | none => exact .pure (by simp) (.refl fun _ _ => trivial)
  | some access =>
    have hword := TokenKind.isWord_of_eq_some (by decide) haccess
    exact .ite (fun _ => .fail_bind (by simp) fun e => by rw [ht.same e]) fun _ =>
      advance_same (fun _ h => h.1) (fun _ h => h.1) (.word hword (.nil d)) (hdone _)

omit hg in
theorem modifiers : Parse.Agree E n d (fun _ => True) id Grammar.modifiers Grammar.modifiers := by
  refine .extending (.refl trivial) ?_
  rintro modifiers _ ⟨-, rfl, -⟩
  exact (modifierStep modifiers).coarsen fun _ _ _ _ _ => trivial

theorem anyStatement (hm : m ≤ n + 1)
    (he : Advances E m d Expr.WellFormed Expr.unplaced g.expression g'.expression) (place : Place) :
    SameStmts E m d place (g.anyStatement place) (g'.anyStatement place) := by
  refine peek.bind fun _ _ hstart => modifiers.bind_same fun modifiers =>
    ((hg.declaration? (fun e => by rw [hstart.same e]) modifiers place).mono hm).bind_option ?_
      fun _ _ hs => .pure id hs
  refine peek.bind fun _ _ ht => ?_
  have hspan (e : E) : _ := congrArg Token.span (ht.same e)
  refine .ite (fun _ => .fail (by simp) hspan) fun _ => .ite (fun _ => .fail (by simp) hspan)
    fun hblock => ?_
  cases place with
  | block => exact hg.control hm he
  | classBody => exact (hblock rfl).elim

theorem program : Parse.Agree E n d (fun program => ∀ s ∈ program, s.WellFormed .block)
    (List.map Stmt.unplaced) g.program g'.program :=
  itemsUntil (hg.statement .block d)

end Agree

/-! ### Texts -/

/-- Each unit of weight allows for two entries: a statement, and the expression that it begins with.
    -/
theorem nested_agree {E : Prop} {n m' : Nat} (hm : 2 * n ≤ m) (hm' : 2 * n ≤ m') :
    Agree E n (nested m) (nested m') := by
  induction n generalizing m m' with
  | zero =>
    -- Whatever the bound is, an entry that succeeds has taken something.
    clear hm hm'
    induction m generalizing m' with
    | zero =>
      have hnone {α γ : Type} {d : Nat} {P : α → Prop} {v : α → γ} (x : Parse α) :
          Advances E 0 d P v Parse.exhausted x := by
        refine ⟨?_, fun _ _ _ _ _ hlt => absurd hlt (Nat.not_lt_zero _)⟩
        rintro c _ _ _ _ ⟨⟩
      exact ⟨fun _ => hnone _, fun _ _ => hnone _, nofun,
        fun _ _ _ _ hlt => absurd hlt (Nat.not_lt_zero _)⟩
    | succ m ih =>
      have hinner : Agree E 0 (nested m) (nested m) := ih
      exact ⟨fun d => hinner.assignment.zero _,
        fun place d => (hinner.anyStatement (Nat.zero_le 1) (hinner.expression d) place).zero _,
        fun _ _ _ => Agree.expressionText_wellFormed (hinner.expression 0),
        fun _ _ _ _ hlt => absurd hlt (Nat.not_lt_zero _)⟩
  | succ n ih =>
    obtain ⟨e, rfl⟩ : ∃ e, m = e + 2 := ⟨m - 2, by omega⟩
    obtain ⟨e', rfl⟩ : ∃ e', m' = e' + 2 := ⟨m' - 2, by omega⟩
    have hinner : Agree E n (nested e) (nested e') := ih (by omega) (by omega)
    have houter : Agree E n (nested (e + 1)) (nested (e' + 1)) := ih (by omega) (by omega)
    have he (d : Nat) : Advances E (n + 1) d Expr.WellFormed Expr.unplaced
      (nested (e + 1)).expression (nested (e' + 1)).expression := hinner.assignment
    exact ⟨fun d => houter.assignment,
      fun place d => houter.anyStatement (Nat.le_refl _) (he d) place,
      fun _ _ _ => Agree.expressionText_wellFormed (he 0),
      fun _ _ _ hline hs => Agree.expressionText (he 0) hs hline⟩

theorem nested_steady (E : Prop) (depth : Nat) : Agree E 0 (nested depth) (nested depth) :=
  nested_agree (Nat.zero_le _) (Nat.zero_le _)

end Grammar

theorem program_of_parseProgram {program : List Stmt}
    (h : parseProgram source = .ok program) :
    ∃ tokens c, tokenizeChars source.toList 1 = .ok tokens ∧
      (Grammar.nested (Grammar.depthFor source.toList)).program (.start tokens) =
        .ok (program, c) := by
  unfold parseProgram at h
  cases htokens : tokenizeChars source.toList 1 with
  | error e => simp only [htokens] at h; cases h
  | ok tokens =>
    simp only [htokens] at h
    cases hread : (Grammar.nested (Grammar.depthFor source.toList)).program (.start tokens) with
    | error e => rw [hread] at h; cases h
    | ok r =>
      rw [hread] at h
      cases h
      exact ⟨tokens, r.2, rfl, hread⟩

theorem parseProgram_wellFormed {program : List Stmt}
    (h : parseProgram source = .ok program) (s : Stmt) (hs : s ∈ program) :
    s.WellFormed .block := by
  obtain ⟨tokens, c, htokens, hread⟩ := program_of_parseProgram h
  exact ((Grammar.nested_steady True _).program.gets (d := 0) _ program c
    (.start (Lexer.tokensFrom_covers htokens)) trivial hread).2 s hs

end ClassScript
