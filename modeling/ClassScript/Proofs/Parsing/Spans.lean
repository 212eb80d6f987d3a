import ClassScript.Proofs.Parsing.Stretches

/-!
# Spans Are Exact and Nested

Every node of a program stands over a stretch of the token list, and all that is to be known about
spans follows from where the tokens are. The span of a declaration begins with its modifiers, so a
declaration is described together with what may have been read in front of it.
-/

namespace ClassScript

open List

variable {us ts tail : List Token} {span start : Span} {first : Token} {s : Stmt} {k : Keyword}
variable {node : Node}

/-! ### Statements over tokens -/

def EndsSpan (ts : List Token) (span : Span) : Prop :=
  ∃ last, ts.getLast? = some last ∧ span.stop = last.span.stop

theorem EndsSpan.behind (ts : List Token) (h : EndsSpan us span) : EndsSpan (ts ++ us) span := by
  obtain ⟨last, hlast, hstop⟩ := h
  exact ⟨last, by simp [hlast], hstop⟩

theorem Extent.endsSpan (h : Extent ts span) : EndsSpan ts span := by
  obtain ⟨_, last, _, hlast, rfl⟩ := h
  exact ⟨last, hlast, rfl⟩

theorem EndsSpan.concat (ts : List Token) (t : Token) : EndsSpan (ts ++ [t]) t.span :=
  ⟨t, getLast?_concat, rfl⟩

theorem EndsSpan.extent (h : EndsSpan ts span)
    (hfirst : ts.head? = some first) : Extent ts (first.span.to span) := by
  obtain ⟨last, hlast, hstop⟩ := h
  exact ⟨first, last, hfirst, hlast, by rw [Span.to, Span.to, hstop]⟩

theorem StartsStmt.intro
    (hfirst : ts.head? = some first) (hend : EndsSpan ts span) (hspan : s.span = first.span.to span)
    (hwords : s.Written ts) (hparts : ∀ group ∈ s.groups, Holds ts group) :
    StartsStmt (ts ++ tail) s := by
  refine ⟨ts, tail, rfl, .intro ?_ hwords hparts⟩
  rw [Node.span, hspan]
  exact hend.extent hfirst

theorem StartsStmt.whole
    (hfirst : ts.head? = some first) (hend : EndsSpan ts span) (hspan : s.span = first.span.to span)
    (hwords : s.Written ts) (hparts : ∀ group ∈ s.groups, Holds ts group) : StartsStmt ts s := by
  have hs : StartsStmt (ts ++ []) s := .intro hfirst hend hspan hwords hparts
  rwa [append_nil] at hs

def DeclaredFrom (start : Span) (ts : List Token) (s : Stmt) : Prop :=
  ts ≠ [] ∧ ∀ before first, (∀ t ∈ before, t.kind.isModifier = true) →
    (before ++ ts).head? = some first → first.span = start → StartsStmt (before ++ ts) s

theorem DeclaredFrom.intro (hk : StartsWith ts (.keyword k)) (hend : EndsSpan ts span)
    (hspan : s.span = start.to span) (hwords : ∀ us, StartsDeclaration us k → s.Written us)
    (hparts : ∀ group ∈ s.groups, Holds ts group) : DeclaredFrom start (ts ++ tail) s := by
  obtain ⟨t, ht, hkind⟩ := hk
  obtain ⟨more, rfl⟩ := head?_eq_some_iff.mp ht
  refine ⟨by simp, ?_⟩
  rintro before first hbefore hfirst rfl
  rw [← append_assoc]
  have hhead : (before ++ t :: more).head? = some first := by
    rw [← hfirst]
    cases before <;> rfl
  refine .intro hhead (hend.behind before) hspan (hwords _ ⟨first, hhead, ?_⟩)
    fun group hgroup => (hparts group hgroup).behind before
  cases before with
  | nil =>
    cases hhead
    exact .inl hkind
  | cons m before => grind

theorem DeclaredFrom.whole
    (hk : StartsWith ts (.keyword k)) (hend : EndsSpan ts span) (hspan : s.span = start.to span)
    (hwords : ∀ us, StartsDeclaration us k → s.Written us)
    (hparts : ∀ group ∈ s.groups, Holds ts group) : DeclaredFrom start ts s := by
  have hs : DeclaredFrom start (ts ++ []) s := .intro hk hend hspan hwords hparts
  rwa [append_nil] at hs

namespace Grammar

open Parse (AgreeFrom Gives Leads)

namespace Exact

variable {g : Grammar}

theorem modifiers : Grammar.modifiers.Gives fun ts found =>
    (∀ t ∈ ts, t.kind.isModifier = true) ∧ (found = Modifiers.none → ts = []) := by
  refine Leads.gives (.extending ?_ ⟨nofun, fun _ => rfl⟩)
  rintro ts found ⟨hts, hnone⟩
  have hmore (t : Token) (more : Modifiers) (ht : t.kind.isModifier = true)
      (hsome : more ≠ Modifiers.none) : t.kind ≠ .eof ∧
        (∀ u ∈ ts ++ [t], u.kind.isModifier = true) ∧ (more = Modifiers.none → ts ++ [t] = []) := by
    refine ⟨fun heof => ?_, forall_mem_append.mpr ⟨hts, forall_mem_singleton.mpr ht⟩,
      fun h => absurd h hsome⟩
    rw [heof] at ht
    cases ht
  refine .peek_bind fun t => .ite (fun ht => ?_) fun _ => ?_
  · obtain ⟨heof, hall⟩ := hmore t { found with isStatic := true }
      (by simp [TokenKind.isModifier, ht]) (by simp [Modifiers.none])
    exact .advance_bind (fun _ hc => hc.2) heof (.pure hall)
  · split
    · exact .pure ⟨hts, hnone⟩
    · next access haccess =>
      obtain ⟨heof, hall⟩ := hmore t { found with access := some access }
        (by simp [TokenKind.isModifier, haccess]) (by simp [Modifiers.none])
      exact .ite (fun _ => .fail_bind) fun _ => .advance_bind (fun _ hc => hc.2) heof (.pure hall)

variable (hg : g.Exact)
include hg

/-! ### Declarations -/

def HoldsAccessors (ts : List Token) (found : Accessors) : Prop :=
  Holds ts (optionalBody found.getter) ∧ Holds ts (optionalBody found.setter)

theorem accessor (found : Accessors) : (g.accessor found).Gives fun us more =>
    ∀ ts, HoldsAccessors ts found → HoldsAccessors (ts ++ us) more := by
  refine Leads.gives (.expect_bind (by decide) fun name _ => .gives_bind hg.block ?_)
  rintro vs ⟨body, span⟩ ⟨_, _, _, hbody⟩
  have hnew : Holds ([name] ++ vs) (optionalBody (some body)) := hbody.behind [name]
  refine .ite (fun _ => .ite (fun _ => .fail_bind) fun _ => .pure ?_) fun _ =>
    .ite (fun _ => .ite (fun _ => .fail_bind) fun _ => .pure ?_) fun _ => .fail _ _
  · exact fun ts h => ⟨hnew.behind ts, h.2.skip _⟩
  · exact fun ts h => ⟨h.1.skip _, hnew.behind ts⟩

theorem propertyStatement {before : List Token} {p : Cursor → Prop} (name : String)
    (modifiers : Modifiers) (hvar : StartsWith before (.keyword .var)) :
    Leads before p (g.propertyStatement start name modifiers) (DeclaredFrom start) := by
  obtain ⟨t, ht, hkind⟩ := hvar
  refine .expect_bind (by decide) fun _ _ => ?_
  refine .bind (.extending (R := fun ts found => ts.head? = some t ∧ HoldsAccessors ts found) ?_
    ⟨by simp [ht], .none _, .none _⟩) ?_
  · rintro ts found ⟨hhead, hfound⟩
    refine .look_bind (fun _ => rfl) fun _ => .look_bind (fun _ => rfl) fun _ =>
      .ite (fun _ => .pure ⟨hhead, hfound⟩) fun _ =>
        .gives_bind (hg.accessor found) fun us more hmore =>
          .pure ⟨by simp [hhead], hmore ts hfound⟩
  · rintro ts found ⟨hhead, hget, hset⟩
    refine .expect_bind (by decide) fun closing _ => ?_
    refine .pure (.whole ⟨t, by simp [hhead], hkind⟩ (.concat ts closing) rfl (fun _ h => h) ?_)
    simpa [Stmt.groups] using ⟨hget.skip [closing], hset.skip [closing]⟩

theorem variableStatement (start : Span) (modifiers : Modifiers) (place : Place) :
    (g.variableStatement start modifiers place).Gives (DeclaredFrom start) := by
  refine Leads.gives (.expect_bind (by decide) fun keyword hkeyword => ?_)
  refine .expect_bind (by decide) fun name _ => .gives_bind types?_agree.gives fun us _ _ => ?_
  refine .look_bind (fun _ => rfl) fun _ => .ite (fun _ => ?_) fun _ => ?_
  · exact hg.propertyStatement name.text modifiers ⟨keyword, rfl, hkeyword⟩
  · refine .gives_bind hg.initializer? fun vs value hvalue =>
      .gives_bind AgreeFrom.endStatement.gives fun es _ _ => ?_
    obtain ⟨last, hlast⟩ : ∃ last, ([keyword] ++ [name] ++ us ++ vs ++ es).getLast? = some last :=
      Option.ne_none_iff_exists'.mp (by simp)
    exact .last_bind hlast (.pure (.whole ⟨keyword, rfl, hkeyword⟩ ⟨last, hlast, rfl⟩ rfl
      (fun _ h => h) (forall_mem_singleton.mpr ((hvalue.behind _).skip es))))

theorem constantStatement (start : Span) (modifiers : Modifiers) :
    (g.constantStatement start modifiers).Gives (DeclaredFrom start) := by
  refine Leads.gives (.expect_bind (by decide) fun keyword hkeyword => ?_)
  refine .expect_bind (by decide) fun name _ => .gives_bind types?_agree.gives fun us _ _ =>
    .expect_bind (by decide) fun _ _ => .gives_bind hg.expression fun vs value hvalue =>
      .gives_bind AgreeFrom.endStatement.gives fun es _ _ => .pure ?_
  exact .intro ⟨keyword, rfl, hkeyword⟩ (hvalue.extent.endsSpan.behind _) rfl (fun _ h => h)
    (forall_mem_singleton.mpr ((Holds.one hvalue).behind _))

theorem functionStatement (start : Span) (modifiers : Modifiers) :
    (g.functionStatement start modifiers).Gives (DeclaredFrom start) := by
  refine Leads.gives (.expect_bind (by decide) fun keyword hkeyword => ?_)
  refine .gives_bind Agree.functionName.gives fun ns name _ =>
    .gives_bind (hg.function start name modifiers) ?_
  rintro us decl ⟨hparts, last, hlast, _, hspan⟩
  exact .pure (.whole ⟨keyword, rfl, hkeyword⟩ (EndsSpan.behind _ ⟨last, hlast, rfl⟩) hspan
    (fun _ h => h) (forall_mem_singleton.mpr (hparts.behind _)))

omit hg in
theorem names (what : String) :
    (Parse.separated fun _ => do return (← Parse.expectName what).text).Gives fun _ _ => True :=
  (AgreeFrom.separated_all fun _ _ => nameText_agree what).gives

theorem classStatement (start : Span) (modifiers : Modifiers) :
    (g.classStatement start modifiers).Gives (DeclaredFrom start) := by
  refine Leads.gives (.expect_bind (by decide) fun keyword hkeyword => ?_)
  refine .expect_bind (by decide) fun name _ => .gives_bind (.accept (by decide))
    fun cs found _ => ?_
  have hbody {before : List Token} {supers : List String}
      (hbefore : StartsWith before (.keyword .class)) : Leads before (fun _ => True) (do
        let _ ← Parse.expect .lBrace "`\x7b` to start class body"
        let body ← Parse.itemsUntil .rBrace (g.statement .classBody)
        let closing ← Parse.expect .rBrace "`\x7d` after class body"
        return .class ⟨name.text, supers, body, modifiers, start.to closing.span⟩)
      (DeclaredFrom start) := by
    obtain ⟨t, ht, hkind⟩ := hbefore
    refine .expect_bind (by decide) fun _ _ => .gives_bind
      (.itemsUntil (Holds.grows_map .stmt) .rBrace (hg.holds_statement .classBody))
      fun us body hbody =>
        .expect_bind (by decide) fun closing _ => ?_
    exact .pure (.whole ⟨t, by simp [ht], hkind⟩ (.concat _ closing) rfl (fun _ h => h)
      (forall_mem_singleton.mpr ((hbody.behind _).skip _)))
  exact .ite (fun _ => .gives_bind (names _) fun _ _ _ => hbody ⟨keyword, rfl, hkeyword⟩)
    fun _ => hbody ⟨keyword, rfl, hkeyword⟩

theorem variant : g.variant.Gives fun ts v => Holds ts (optional v.2) :=
  Leads.gives (.expect_bind (by decide) fun _ _ =>
    .gives_bind hg.initializer? fun _ _ hvalue => .pure (hvalue.behind _))

theorem enumStatement (start : Span) (modifiers : Modifiers) :
    (g.enumStatement start modifiers).Gives (DeclaredFrom start) := by
  refine Leads.gives (.expect_bind (by decide) fun keyword hkeyword => ?_)
  refine .expect_bind (by decide) fun name _ => .expect_bind (by decide)
    fun _ _ => .gives_bind (.trailing (Holds.grows fun v => optional v.2) .rBrace hg.variant)
      fun us variants hvariants => .expect_bind (by decide) fun closing _ => ?_
  exact .pure (.whole ⟨keyword, rfl, hkeyword⟩ (.concat _ closing) rfl (fun _ h => h)
    (forall_mem_singleton.mpr ((hvariants.behind _).skip _)))

/-! ### Other statements -/

omit hg in
theorem importWhole : importWhole.Gives fun _ _ => True :=
  Leads.gives (.expect_bind (by decide) fun _ _ => .gives_bind (.accept (by decide))
    fun _ _ _ => .ite (fun _ => .expect_bind (by decide) fun _ _ => .pure trivial)
      fun _ => .pure trivial)

omit hg in
theorem importNames : importNames.Gives fun _ _ => True :=
  Leads.gives (.gives_bind (names _) fun _ _ _ => .expect_bind (by decide) fun _ _ =>
    .expect_bind (by decide) fun _ _ => .expect_bind (by decide)
      fun _ _ => .pure trivial)

omit hg in
theorem importStatement : ReadsStmt importStatement := by
  refine Leads.gives (.expect_bind (by decide) fun keyword hkeyword => ?_)
  refine .gives_bind (.accept (by decide)) fun os found _ => ?_
  have hrest {us : List Token} {r : String × ImportForm} :
      Leads ([keyword] ++ os ++ us) (fun _ => True) (do
        Parse.endStatement
        return .importModule (keyword.span.to (← Parse.last).span) r.1 r.2) StartsStmt := by
    refine .gives_bind AgreeFrom.endStatement.gives fun es _ _ => ?_
    obtain ⟨last, hlast⟩ : ∃ last, ([keyword] ++ os ++ us ++ es).getLast? = some last :=
      Option.ne_none_iff_exists'.mp (by simp)
    exact .last_bind hlast
      (.pure (.whole rfl ⟨last, hlast, rfl⟩ rfl ⟨keyword, rfl, hkeyword⟩ nofun))
  exact .ite (fun _ => .gives_bind importNames fun _ _ _ => hrest)
    fun _ => .gives_bind importWhole fun _ _ _ => hrest

theorem ifStatement : ReadsStmt g.ifStatement := by
  refine Leads.gives (.expect_bind (by decide) fun keyword hkeyword => ?_)
  refine .gives_bind hg.expression fun cs condition hcondition => .gives_bind hg.block ?_
  rintro ts ⟨thenBody, thenSpan⟩ ⟨hthenSpan, _, _, hthen⟩
  have hfront : Holds ([keyword] ++ cs ++ ts) (.expr condition :: thenBody.map .stmt) :=
    ((Holds.one hcondition).behind [keyword]).append hthen
  refine .gives_bind (.accept (by decide)) fun os found hfound => .ite (fun _ => ?_) fun _ => ?_
  · refine .look_bind (fun _ => rfl) fun _ => .ite (fun _ => ?_) fun _ => ?_
    · refine .gives_bind (hg.statement .block) ?_
      rintro _ next ⟨us, tail, rfl, hnext⟩
      rw [← append_assoc]
      refine .pure (.intro rfl (hnext.extent.endsSpan.behind _) rfl ⟨keyword, rfl, hkeyword⟩ ?_)
      exact forall_mem_singleton.mpr ((hfront.skip os).append (.one hnext))
    · refine .gives_bind hg.block ?_
      rintro us ⟨elseBody, elseSpan⟩ ⟨helseSpan, _, _, helse⟩
      refine .pure (.whole rfl (helseSpan.endsSpan.behind _) rfl ⟨keyword, rfl, hkeyword⟩ ?_)
      exact forall_mem_singleton.mpr ((hfront.skip os).append helse)
  · refine .pure (.intro rfl (hthenSpan.endsSpan.behind _) rfl ⟨keyword, rfl, hkeyword⟩ ?_)
    refine forall_mem_singleton.mpr ?_
    simpa [optionalBody] using hfront

theorem whileStatement : ReadsStmt g.whileStatement := by
  refine Leads.gives (.expect_bind (by decide) fun keyword hkeyword => ?_)
  refine .gives_bind hg.expression fun cs condition hcondition => .gives_bind hg.block ?_
  rintro ts ⟨body, span⟩ ⟨hspan, _, _, hbody⟩
  refine .pure (.whole rfl (hspan.endsSpan.behind _) rfl ⟨keyword, rfl, hkeyword⟩ ?_)
  exact forall_mem_singleton.mpr (((Holds.one hcondition).behind [keyword]).append hbody)

theorem forStatement : ReadsStmt g.forStatement := by
  refine Leads.gives (.expect_bind (by decide) fun keyword hkeyword => ?_)
  refine .gives_bind (.accept (by decide)) fun ps parenthesized _ =>
    .gives_bind (.accept (by decide))
    fun vs _ _ => .expect_bind (by decide) fun binding _ =>
      .expect_bind (by decide) fun _ _ => .gives_bind hg.holds_expression
        fun cs iterable hiterable => ?_
  have hrest {before : List Token} (hhead : before.head? = some keyword)
      (hbefore : Holds before [.expr iterable]) : Leads before (fun _ => True) (do
        let block ← g.block
        return .for (keyword.span.to block.2) binding.text iterable block.1) StartsStmt := by
    refine .gives_bind hg.block ?_
    rintro ts ⟨body, span⟩ ⟨hspan, _, _, hbody⟩
    have hfirst : (before ++ ts).head? = some keyword := by simp [hhead]
    exact .pure (.whole hfirst (hspan.endsSpan.behind _) rfl ⟨keyword, hfirst, hkeyword⟩
      (forall_mem_singleton.mpr (hbefore.append hbody)))
  refine .ite (fun _ => .expect_bind (by decide) fun _ _ => ?_) fun _ => ?_
  · exact hrest rfl ((hiterable.behind _).skip _)
  · exact hrest rfl (hiterable.behind _)

def HoldsBranches (subject : Expr) (ts : List Token) (found : Branches) : Prop :=
  Holds ts (.expr subject :: found.cases.reverse.flatMap SwitchCase.nodes) ∧
    Holds ts (.expr subject :: optionalBody found.defaultBody)

theorem branch (subject : Expr) (found : Branches) : (g.branch found).Gives fun us more =>
    ∀ ts, Holds ts [.expr subject] → HoldsBranches subject ts found →
      HoldsBranches subject (ts ++ us) more := by
  refine Leads.gives (.peek_bind fun t => ?_)
  split
  · next hkind =>
    refine .advance_bind (fun _ hc => hc.2) (by simp [hkind]) ?_
    refine .gives_bind (.separated (Holds.grows_map .expr) fun _ => hg.holds_expression)
      fun vs values hvalues => .gives_bind (.accept (by decide)) fun cs _ _ =>
        .gives_bind hg.block ?_
    rintro us ⟨body, span⟩ ⟨_, _, _, hbody⟩
    refine .pure fun ts _ h => ⟨?_, h.2.skip _⟩
    have hcase : Holds ([t] ++ vs ++ cs ++ us) (values.map .expr ++ body.map .stmt) :=
      ((hvalues.behind [t]).skip cs).append hbody
    simpa [SwitchCase.nodes] using h.1.append hcase
  · next hkind =>
    refine .advance_bind (fun _ hc => hc.2) (by simp [hkind])
      (.ite (fun _ => .fail_bind) fun _ => ?_)
    refine .gives_bind (.accept (by decide)) fun cs _ _ => .gives_bind hg.block ?_
    rintro us ⟨body, span⟩ ⟨_, _, _, hbody⟩
    refine .pure fun ts hsubject h => ⟨h.1.skip _, ?_⟩
    exact hsubject.append (hbody.behind ([t] ++ cs))
  · exact .fail _ _

theorem switchStatement : ReadsStmt g.switchStatement := by
  refine Leads.gives (.expect_bind (by decide) fun keyword hkeyword => ?_)
  refine .gives_bind hg.holds_expression fun ss subject hsubject =>
    .expect_bind (by decide) fun opening _ => ?_
  have hstart : Holds ([keyword] ++ ss ++ [opening]) [.expr subject] :=
    (hsubject.behind [keyword]).skip _
  refine .bind (.extending (R := fun ts found => ts.head? = some keyword ∧
    Holds ts [.expr subject] ∧ HoldsBranches subject ts found) ?_ ⟨rfl, hstart, hstart, hstart⟩) ?_
  · rintro ts found ⟨hhead, hsubject, hfound⟩
    refine .look_bind (fun _ => rfl) fun _ => .look_bind (fun _ => rfl) fun _ =>
      .ite (fun _ => .pure ⟨hhead, hsubject, hfound⟩) fun _ =>
        .gives_bind (hg.branch subject found) fun us more hmore => .pure ⟨?_, ?_, ?_⟩
    · simp [hhead]
    · exact hsubject.skip us
    · exact hmore ts hsubject hfound
  · rintro ts found ⟨hhead, _, hcases, hdefault⟩
    refine .expect_bind (by decide) fun closing _ => ?_
    have hfirst : (ts ++ [closing]).head? = some keyword := by simp [hhead]
    refine .pure (.whole hfirst (.concat _ closing) rfl ⟨keyword, hfirst, hkeyword⟩ ?_)
    simpa [Stmt.groups] using ⟨hcases.skip [closing], hdefault.skip [closing]⟩

theorem handler? (found : List CatchClause × Span) : (g.handler? found).Gives fun us more =>
    (more = none ∧ us = []) ∨ ∃ handler span, more = some (handler :: found.1, span) ∧
      EndsSpan us span ∧ Holds us (handler.body.map .stmt) := by
  refine Leads.gives (.check_bind (.ite (fun _ => ?_) fun h => absurd rfl h)
    (.ite (fun h => nomatch h) fun _ => .pure (.inl ⟨rfl, rfl⟩)))
  refine .gives_bind .advance fun ks start _ => .gives_bind Agree.caught.gives fun cs _ _ =>
    .gives_bind hg.block ?_
  rintro us ⟨body, span⟩ ⟨hspan, _, _, hbody⟩
  exact .pure (.inr ⟨_, span, rfl, hspan.endsSpan.behind _, hbody.behind _⟩)

theorem tryStatement : ReadsStmt g.tryStatement := by
  refine Leads.gives (.expect_bind (by decide) fun keyword hkeyword => ?_)
  refine .gives_bind hg.block ?_
  rintro bs ⟨body, span⟩ ⟨hspan, _, _, hbody⟩
  refine .bind (.extending (R := fun ts (found : List CatchClause × Span) =>
    ts.head? = some keyword ∧ EndsSpan ts found.2 ∧
      Holds ts (body.map .stmt ++ found.1.reverse.flatMap fun h => h.body.map .stmt)) ?_
    ⟨rfl, hspan.endsSpan.behind _, by simpa using hbody.behind [keyword]⟩) ?_
  · rintro ts found ⟨hhead, hend, hfound⟩
    refine (Leads.of_gives (hg.handler? found)).mono ?_
    rintro _ _ ⟨us, rfl, ⟨rfl, rfl⟩ | ⟨handler, span, rfl, hspan, hbody⟩⟩
    · simp_all
    · refine ⟨by simp [hhead], hspan.behind ts, ?_⟩
      simpa using hfound.append hbody
  · rintro ts ⟨handlers, span⟩ ⟨hhead, hend, hhandlers⟩
    refine .gives_bind (.accept (by decide)) fun fs _ _ => .ite (fun _ => .gives_bind hg.block ?_)
      fun _ => .ite (fun _ => .peek_bind fun _ => .fail _ _) fun _ => .pure ?_
    · rintro us ⟨finallyBody, finallySpan⟩ ⟨hfinallySpan, _, _, hfinally⟩
      have hfirst : (ts ++ fs ++ us).head? = some keyword := by simp [hhead]
      exact .pure (.whole hfirst (hfinallySpan.endsSpan.behind _) rfl ⟨keyword, hfirst, hkeyword⟩
        (forall_mem_singleton.mpr ((hhandlers.skip fs).append hfinally)))
    · refine .intro hhead hend rfl ⟨keyword, hhead, hkeyword⟩ (forall_mem_singleton.mpr ?_)
      simpa [optionalBody] using hhandlers

theorem throwStatement : ReadsStmt g.throwStatement := by
  refine Leads.gives (.expect_bind (by decide) fun keyword hkeyword => ?_)
  refine .gives_bind hg.expression fun vs value hvalue =>
    .gives_bind AgreeFrom.endStatement.gives fun es _ _ => ?_
  exact .pure (.intro rfl (hvalue.extent.endsSpan.behind _) rfl ⟨keyword, rfl, hkeyword⟩
    (forall_mem_singleton.mpr ((Holds.one hvalue).behind _)))

theorem returnStatement : ReadsStmt g.returnStatement := by
  refine Leads.gives (.expect_bind (by decide) fun keyword hkeyword => ?_)
  refine .look_bind (fun _ => rfl) fun _ => .look_bind (fun _ => rfl) fun _ =>
    .look_bind (fun _ => rfl) fun _ => .ite (fun _ => ?_) fun _ => ?_
  · refine .gives_bind AgreeFrom.endStatement.gives fun es _ _ => .pure ?_
    exact .intro rfl (.concat [] keyword) rfl ⟨keyword, rfl, hkeyword⟩
      (forall_mem_singleton.mpr (.none _))
  · refine .gives_bind hg.expression fun vs value hvalue =>
      .gives_bind AgreeFrom.endStatement.gives fun es _ _ => ?_
    exact .pure (.intro rfl (hvalue.extent.endsSpan.behind _) rfl ⟨keyword, rfl, hkeyword⟩
      (forall_mem_singleton.mpr ((Holds.one hvalue).behind _)))

theorem expressionStatement : ReadsStmt g.expressionStatement :=
  Leads.gives (.gives_bind hg.expression fun vs _ hvalue => .gives_bind AgreeFrom.endStatement.gives
    fun es _ _ => .pure ⟨vs, es, rfl, .intro hvalue.extent trivial
      (forall_mem_singleton.mpr (.one hvalue))⟩)

theorem control : ReadsStmt g.control := by
  refine Leads.gives (.peek_bind fun t => ?_)
  have hword {f : Token → Parse Stmt} {R : List Token → Stmt → Prop} (ht : t.kind ≠ .eof)
      (hf : Leads [t] (fun _ => True) (f t) R) :
      Leads [] (fun c => True ∧ c.next = t) (Parse.advance >>= f) R :=
    .advance_bind (fun _ hc => hc.2) ht hf
  split
  · exact .exact importStatement
  · exact .exact hg.ifStatement
  · exact .exact hg.whileStatement
  · exact .exact hg.forStatement
  · exact .exact hg.switchStatement
  · exact .exact hg.tryStatement
  · exact .exact hg.throwStatement
  · exact .exact hg.returnStatement
  · next hkind =>
    exact hword (by simp [hkind]) (.gives_bind AgreeFrom.endStatement.gives fun es _ _ =>
      .pure (.intro rfl (.concat [] t) rfl ⟨t, rfl, hkind⟩ nofun))
  · next hkind =>
    exact hword (by simp [hkind]) (.gives_bind AgreeFrom.endStatement.gives fun es _ _ =>
      .pure (.intro rfl (.concat [] t) rfl ⟨t, rfl, hkind⟩ nofun))
  · refine .gives_bind hg.block ?_
    rintro ts ⟨body, span⟩ ⟨hspan, hopening, hclosing, hbody⟩
    exact .pure ⟨ts, [], by simp, .intro hspan ⟨hopening, hclosing⟩
      (forall_mem_singleton.mpr hbody)⟩
  · exact .exact hg.expressionStatement

theorem declaration? (start : Span) (modifiers : Modifiers) (place : Place) :
    (g.declaration? start modifiers place).Gives fun ts s =>
      (s = none ∧ ts = []) ∨ ∃ decl, s = some decl ∧ DeclaredFrom start ts decl := by
  have hsome {x : Parse Stmt} {p : Cursor → Prop} (hx : x.Gives (DeclaredFrom start)) :
      Leads [] p (do return some (← x)) fun ts s =>
        (s = none ∧ ts = []) ∨ ∃ decl, s = some decl ∧ DeclaredFrom start ts decl :=
    .gives_bind hx fun ts decl hdecl => .pure (.inr ⟨decl, rfl, hdecl⟩)
  refine Leads.gives (.peek_bind fun t => ?_)
  split
  · exact hsome (hg.variableStatement start modifiers place)
  · exact hsome (hg.constantStatement start modifiers)
  · exact .checkSecond_bind fun _ => .ite (fun _ => .pure (.inl ⟨rfl, rfl⟩))
      fun _ => hsome (hg.functionStatement start modifiers)
  · exact hsome (hg.classStatement start modifiers)
  · exact hsome (hg.enumStatement start modifiers)
  · exact .pure (.inl ⟨rfl, rfl⟩)

theorem anyStatement (place : Place) : ReadsStmt (g.anyStatement place) := by
  refine .first_bind fun first => Leads.gives (.gives_bind modifiers ?_)
  rintro ms found ⟨hmodifiers, hnone⟩
  refine .gives_bind (hg.declaration? first.span found place) ?_
  rintro _ _ (⟨rfl, rfl⟩ | ⟨decl, rfl, hne, hdecl⟩)
  · refine .peek_bind fun _ => .ite (fun _ => .fail _ _) fun hfound =>
      .ite (fun _ => .fail _ _) fun _ => ?_
    obtain rfl := hnone (not_not.mp hfound)
    refine (Leads.of_gives hg.control).mono ?_
    rintro _ s ⟨ts, rfl, us, tail, rfl, hs⟩
    obtain ⟨t, _, ht, _⟩ := hs.extent
    refine ⟨fun hnil => ?_, fun _ => ⟨us, tail, by simp, hs⟩⟩
    simp_all
  · refine .pure ⟨by simp [hne], fun hfirst => ?_⟩
    exact hdecl ms first hmodifiers hfirst rfl

end Exact

theorem nested_exact (depth : Nat) : (nested depth).Exact := by
  induction depth with
  | zero =>
    have hnothing {α : Type} {R : List Token → α → Prop} : Gives Parse.exhausted R :=
      Leads.gives (.peek_bind fun _ => .fail _ _)
    exact ⟨hnothing, fun _ => hnothing⟩
  | succ n ih => exact ⟨ih.assignment, fun place => ih.anyStatement place⟩

theorem program_holds (depth : Nat) :
    (nested depth).program.Gives fun ts program => Holds ts (program.map .stmt) :=
  .itemsUntil (Holds.grows_map .stmt) .eof ((nested_exact depth).holds_statement .block)

end Grammar

/-! ### Spans from tokens -/

structure InOrder (ts : List Token) : Prop where
  ordered : ts.Pairwise fun t u => t.span.stop ≤ u.span.start
  nonempty : ∀ t ∈ ts, t.span.start < t.span.stop

theorem InOrder.part (h : InOrder ts) (hus : us <:+: ts) : InOrder us :=
  ⟨h.ordered.sublist hus.sublist, fun t ht => h.nonempty t (hus.subset ht)⟩

theorem Extent.bounds (h : Extent ts span) (hts : InOrder ts) :
    ∀ t ∈ ts, span.start ≤ t.span.start ∧ t.span.stop ≤ span.stop := by
  obtain ⟨first, last, hfirst, hlast, rfl⟩ := h
  obtain ⟨ms, rfl⟩ := getLast?_eq_some_iff.mp hlast
  intro t ht
  constructor
  · obtain ⟨more, hmore⟩ := head?_eq_some_iff.mp hfirst
    rw [hmore] at ht hts
    rcases mem_cons.mp ht with rfl | ht
    · exact Nat.le_refl _
    · have hlt := hts.nonempty first mem_cons_self
      have hle := rel_of_pairwise_cons hts.ordered ht
      exact Nat.le_trans (Nat.le_of_lt hlt) hle
  · rcases mem_append.mp ht with ht | ht
    · have hle := (pairwise_append.mp hts.ordered).2.2 t ht last mem_cons_self
      have hlt := hts.nonempty last (by simp)
      exact Nat.le_trans hle (Nat.le_of_lt hlt)
    · cases mem_singleton.mp ht
      exact Nat.le_refl _

theorem Extent.ends (h : Extent ts span) :
    ∃ first ∈ ts, ∃ last ∈ ts, span = first.span.to last.span := by
  obtain ⟨first, last, hfirst, hlast, rfl⟩ := h
  exact ⟨first, mem_of_head? hfirst, last, mem_of_getLast? hlast, rfl⟩

namespace Holds

variable {ts : List Token} {nodes : List Node}

theorem infix_of_mem (h : Holds ts nodes) (hnode : node ∈ nodes) :
    ∃ us, us <:+: ts ∧ ReadFrom us node := by
  induction nodes generalizing ts with
  | nil => cases hnode
  | cons =>
    cases h with
    | @node gap us rest _ _ hfirst hrest => grind

theorem pairwise (h : Holds ts nodes) (hts : InOrder ts) :
    nodes.Pairwise fun a b => a.span.stop ≤ b.span.start := by
  induction nodes generalizing ts with
  | nil => exact .nil
  | cons node nodes ih =>
    cases h with
    | @node gap us rest _ _ hnode hrest =>
      refine .cons (fun b hb => ?_) (ih hrest (hts.part ⟨gap ++ us, [], by simp⟩))
      obtain ⟨vs, hvs, hread⟩ := hrest.infix_of_mem hb
      obtain ⟨_, _, last, hlast, hspan⟩ := hnode.extent.ends
      obtain ⟨first, hfirst, _, _, hspan'⟩ := hread.extent.ends
      have hstretch : us ++ rest <:+: gap ++ (us ++ rest) := ⟨gap, [], by simp⟩
      have horder := (hts.part hstretch).ordered
      rw [hspan, hspan']
      exact (pairwise_append.mp horder).2.2 last hlast first (hvs.subset hfirst)

end Holds

/-! ### Programs -/

inductive Within (program : List Stmt) : Node → Prop
  | top {s : Stmt} (hs : s ∈ program) : Within program (.stmt s)
  | part {node part : Node} {group : List Node} (hnode : Within program node)
      (hgroup : group ∈ node.groups) (hpart : part ∈ group) : Within program part

/-- The span of a node is that of its tokens, with its parts inside and in order. -/
structure Node.Spanned (source : String) (tokens : List Token) (node : Node) : Prop where
  ends : ∃ ts, ts <:+: tokens ∧ ReadFrom ts node ∧ ∃ first ∈ ts, ∃ last ∈ ts,
    node.span.start = first.span.start ∧ node.span.stop = last.span.stop
  nonempty : node.span.start < node.span.stop
  line : ∃ before after, source = before ++ after ∧ node.span.start = before.utf8ByteSize ∧
    node.span.line = 1 + before.toList.count '\n'
  parts : ∀ group ∈ node.groups, ∀ part ∈ group,
    node.span.start ≤ part.span.start ∧ part.span.stop ≤ node.span.stop
  ordered : ∀ group ∈ node.groups, group.Pairwise fun a b => a.span.stop ≤ b.span.start

theorem ReadFrom.spanned {source : String} {tokens : List Token}
    (h : ReadFrom ts node) (hts : ts <:+: tokens) (horder : InOrder ts)
    (hstands : ∀ t ∈ ts, ∃ before taken after, t.StandsAt source 1 before taken after) :
    node.Spanned source tokens := by
  obtain ⟨first, hfirst, last, hlast, hspan⟩ := h.extent.ends
  have hbounds := h.extent.bounds horder
  refine ⟨⟨ts, hts, h, first, hfirst, last, hlast, by rw [hspan]; rfl, by rw [hspan]; rfl⟩,
    ?_, ?_, fun group hgroup part hpart => ?_,
    fun group hgroup => (h.parts group hgroup).pairwise horder⟩
  · have hnonempty := horder.nonempty first hfirst
    grind
  · obtain ⟨before, taken, after, hat⟩ := hstands first hfirst
    refine ⟨before, taken ++ after, by rw [hat.split, String.append_assoc], ?_, ?_⟩
    · rw [hspan, ← hat.start]
      rfl
    · rw [hspan, ← hat.line]
      rfl
  · obtain ⟨us, hus, hpart⟩ := (h.parts group hgroup).infix_of_mem hpart
    obtain ⟨f, hf, l, hl, hpartSpan⟩ := hpart.extent.ends
    rw [hpartSpan]
    exact ⟨(hbounds f (hus.subset hf)).1, (hbounds l (hus.subset hl)).2⟩

theorem Within.readFrom {program : List Stmt}
    (h : Within program node) (hts : Holds ts (program.map .stmt)) :
    ∃ us, us <:+: ts ∧ ReadFrom us node := by
  induction h with
  | top hs => exact hts.infix_of_mem (mem_map_of_mem hs)
  | part _ hgroup hpart ih =>
    obtain ⟨us, hus, hnode⟩ := ih
    obtain ⟨vs, hvs, hread⟩ := (hnode.parts _ hgroup).infix_of_mem hpart
    exact ⟨vs, hvs.trans hus, hread⟩

/-- Every node of a program has a span that begins and ends with one of its tokens, names the line
    it starts on and has the spans of all its parts in it; and the parts of each group, and the
    statements of the program, have spans one behind the other. -/
theorem parseProgram_spans {source : String} {program : List Stmt}
    (hprogram : parseProgram source = .ok program) :
    ∃ tokens, tokenize source 1 = .ok tokens ∧
      program.Pairwise (fun s s' => s.span.stop ≤ s'.span.start) ∧
      ∀ node, Within program node → node.Spanned source tokens := by
  obtain ⟨tokens, c, htokens, hread⟩ := program_of_parseProgram hprogram
  have hc : Lexer.Covers ((⟨0, 1⟩ : Mark).past []) source.toList tokens :=
    Lexer.tokensFrom_covers htokens
  have hstands := hc.standsAt
  rw [nil_append, String.ofList_toList] at hstands
  obtain ⟨ts, htook, hholds⟩ := Grammar.program_holds _ _ _ _ (.start hc) hread
  have hts : ts <:+: tokens := ⟨[], c.rest, htook.rest.symm⟩
  have horder : InOrder ts := by
    refine ⟨hc.ordered.sublist hts.sublist, fun t ht => ?_⟩
    obtain ⟨_, _, _, hat⟩ := hstands t (hts.subset ht)
    exact hat.start_lt_stop (htook.words t ht)
  refine ⟨tokens, htokens, pairwise_map.mp (hholds.pairwise horder), fun node hnode => ?_⟩
  obtain ⟨us, hus, hnode⟩ := hnode.readFrom hholds
  exact hnode.spanned (hus.trans hts) (horder.part hus)
    fun t ht => hstands t (hts.subset (hus.subset ht))

def nestedText : String :=
  "static fn f(a = 1) \x7b\n  if a \x7b b; \x7d else \x7b -c \x7d\n\x7d\nf();"

theorem nestedText_parts : (parseProgram nestedText).toOption.map
    (fun program => (program.flatMap fun s => s.groups.flatten).map Node.span) =
      some [⟨16, 17, 1⟩, ⟨23, 46, 2⟩, ⟨49, 52, 4⟩] := by
  decide +kernel

theorem parseProgram_spans_nested : ∃ program, parseProgram nestedText = .ok program ∧
    ∃ node, Within program node ∧ node.span = ⟨23, 46, 2⟩ ∧
      ∃ tokens, tokenize nestedText 1 = .ok tokens ∧ node.Spanned nestedText tokens := by
  have hparts := nestedText_parts
  cases hprogram : parseProgram nestedText with
  | error e =>
    rw [hprogram] at hparts
    cases hparts
  | ok program =>
    rw [hprogram] at hparts
    have hspans : (program.flatMap fun s => s.groups.flatten).map Node.span =
        [⟨16, 17, 1⟩, ⟨23, 46, 2⟩, ⟨49, 52, 4⟩] := Option.some.inj hparts
    have hmem : (⟨23, 46, 2⟩ : Span) ∈
        (program.flatMap fun s => s.groups.flatten).map Node.span := by
      rw [hspans]
      decide
    obtain ⟨node, hnode, hspan⟩ := mem_map.mp hmem
    obtain ⟨s, hs, hflat⟩ := mem_flatMap.mp hnode
    obtain ⟨group, hgroup, hpart⟩ := mem_flatten.mp hflat
    have hwithin : Within program node := .part (.top hs) hgroup hpart
    obtain ⟨tokens, htokens, _, hspanned⟩ := parseProgram_spans hprogram
    exact ⟨program, rfl, node, hwithin, hspan, tokens, htokens, hspanned node hwithin⟩

end ClassScript
