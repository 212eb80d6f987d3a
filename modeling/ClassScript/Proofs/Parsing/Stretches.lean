import ClassScript.Proofs.Parsing.Statements
import ClassScript.Proofs.Parsing.Taking

/-!
# The Tokens of a Node

Every node is read from a stretch of the tokens of its text, in which the stretches of its parts lie
one behind the other. This is said once, by `ReadFrom`; what differs from kind to kind is which
parts a node has and which words it is known by. Parts that come in any order are in groups of their
own.
-/

namespace ClassScript

open List

variable {t : Token}

inductive Node where
  | expr (value : Expr)
  | stmt (value : Stmt)

def Node.span : Node → Span
  | .expr value => value.span
  | .stmt value => value.span

def optional (value : Option Expr) : List Node :=
  value.toList.map .expr

def optionalBody (body : Option (List Stmt)) : List Node :=
  (body.getD []).map .stmt

def Param.nodes (p : Param) : List Node :=
  optional p.default

def FunctionDecl.nodes (decl : FunctionDecl) : List Node :=
  decl.params.flatMap Param.nodes ++ decl.body.map .stmt

def SwitchCase.nodes (branch : SwitchCase) : List Node :=
  branch.values.map .expr ++ branch.body.map .stmt

def Expr.nodes : Expr → List Node
  | .literal _ _ | .interpolated _ _ | .name _ _ | .this _ | .super _ _ => []
  | .binary _ _ left right => [.expr left, .expr right]
  | .unary _ _ operand => [.expr operand]
  | .assign _ target _ value => [.expr target, .expr value]
  | .call _ callee arguments => .expr callee :: arguments.map fun a => .expr a.value
  | .list _ items => items.map .expr
  | .dict _ entries => entries.flatMap fun e => [.expr e.1, .expr e.2]
  | .range _ first last => [.expr first, .expr last]
  | .group _ inner => [.expr inner]
  | .index _ target place => [.expr target, .expr place]
  | .member _ target _ => [.expr target]
  | .lambda decl => decl.nodes

/-- The parts of a statement, in groups that are each in the order of the source. -/
def Stmt.groups : Stmt → List (List Node)
  | .variable _ decl => [optional decl.initializer]
  | .function decl => [decl.nodes]
  | .class decl => [decl.body.map .stmt]
  | .enum decl => [decl.variants.flatMap fun v => optional v.2]
  | .property _ decl => [optionalBody decl.getter, optionalBody decl.setter]
  | .importModule _ _ _ | .break _ | .continue _ => []
  | .expr value => [[.expr value]]
  | .block _ body => [body.map .stmt]
  | .if _ condition thenBody elseBody =>
    [.expr condition :: (thenBody.map .stmt ++ optionalBody elseBody)]
  | .while _ condition body => [.expr condition :: body.map .stmt]
  | .for _ _ iterable body => [.expr iterable :: body.map .stmt]
  | .switch _ subject cases defaultBody =>
    [.expr subject :: cases.flatMap SwitchCase.nodes, .expr subject :: optionalBody defaultBody]
  | .try _ body handlers finallyBody =>
    [body.map .stmt ++ handlers.flatMap (fun h => h.body.map .stmt) ++ optionalBody finallyBody]
  | .throw _ value => [[.expr value]]
  | .return _ value => [optional value]

def Node.groups : Node → List (List Node)
  | .expr value => [value.nodes]
  | .stmt value => value.groups

inductive Token.Denotes (t : Token) : Literal → Prop
  | true (ht : t.kind = .keyword .true) : Denotes t (.bool Bool.true)
  | false (ht : t.kind = .keyword .false) : Denotes t (.bool Bool.false)
  | null (ht : t.kind = .keyword .null) : Denotes t .null
  | number {value : Literal} (ht : t.kind = .number) (hvalue : numeral? t.text = some value) :
      Denotes t value
  | string (ht : t.kind = .string) : Denotes t (.str t.text)

def TokenKind.isModifier (k : TokenKind) : Bool :=
  k = .keyword .static || (Grammar.access? k).isSome

def StartsWith (ts : List Token) (k : TokenKind) : Prop :=
  ∃ t, ts.head? = some t ∧ t.kind = k

def EndsWith (ts : List Token) (k : TokenKind) : Prop :=
  ∃ t, ts.getLast? = some t ∧ t.kind = k

def StartsDeclaration (ts : List Token) (k : Keyword) : Prop :=
  ∃ t, ts.head? = some t ∧ (t.kind = .keyword k ∨ t.kind.isModifier = true)

def Expr.Written : Expr → List Token → Prop
  | .literal _ value, ts => ∃ t, ts = [t] ∧ t.Denotes value
  | .interpolated _ _, ts => ∃ t, ts = [t] ∧ t.kind = .interpolatedString
  | .name _ word, ts => ∃ t, ts = [t] ∧ t.kind = .identifier ∧ t.text = word
  | .this _, ts => ∃ t, ts = [t] ∧ t.kind = .keyword .this
  | .super _ word, ts => ∃ t dot member, ts = [t, dot, member] ∧ t.kind = .keyword .super ∧
      member.kind = .identifier ∧ member.text = word
  | .unary _ op _, ts => ∃ t, ts.head? = some t ∧ Grammar.unaryOp? t.kind = some op
  | .call _ _ _, ts => EndsWith ts .rParen
  | .list _ _, ts => StartsWith ts .lBracket ∧ EndsWith ts .rBracket
  | .dict _ _, ts => StartsWith ts .lBrace ∧ EndsWith ts .rBrace
  | .group _ _, ts => StartsWith ts .lParen ∧ EndsWith ts .rParen
  | .index _ _ _, ts => EndsWith ts .rBracket
  | .member _ _ word, ts => ∃ t, ts.getLast? = some t ∧ t.kind = .identifier ∧ t.text = word
  | .lambda _, ts => StartsWith ts (.keyword .fn) ∧ EndsWith ts .rBrace
  | .binary _ _ _ _, _ | .assign _ _ _ _, _ | .range _ _ _, _ => True

def Stmt.Written : Stmt → List Token → Prop
  | .variable _ decl, ts => StartsDeclaration ts (if decl.isConst then .const else .var)
  | .function _, ts => StartsDeclaration ts .fn
  | .class _, ts => StartsDeclaration ts .class
  | .enum _, ts => StartsDeclaration ts .enum
  | .property _ _, ts => StartsDeclaration ts .var
  | .importModule _ _ _, ts => StartsWith ts (.keyword .import)
  | .expr _, _ => True
  | .block _ _, ts => StartsWith ts .lBrace ∧ EndsWith ts .rBrace
  | .if _ _ _ _, ts => StartsWith ts (.keyword .if)
  | .while _ _ _, ts => StartsWith ts (.keyword .while)
  | .for _ _ _ _, ts => StartsWith ts (.keyword .for)
  | .switch _ _ _ _, ts => StartsWith ts (.keyword .switch)
  | .try _ _ _ _, ts => StartsWith ts (.keyword .try)
  | .throw _ _, ts => StartsWith ts (.keyword .throw)
  | .return _ _, ts => StartsWith ts (.keyword .return)
  | .break _, ts => ∃ t, ts = [t] ∧ t.kind = .keyword .break
  | .continue _, ts => ∃ t, ts = [t] ∧ t.kind = .keyword .continue

def Node.Written : Node → List Token → Prop
  | .expr value => value.Written
  | .stmt value => value.Written

/-- A span goes from the start of the first of some tokens to the end of the last one. -/
def Extent (ts : List Token) (span : Span) : Prop :=
  ∃ first last, ts.head? = some first ∧ ts.getLast? = some last ∧ span = first.span.to last.span

mutual

/-- A node is read from some tokens: they are those of its span, it is known by its words,
    and they hold its parts. -/
inductive ReadFrom : List Token → Node → Prop
  | intro {ts : List Token} {node : Node} (hspan : Extent ts node.span) (hwords : node.Written ts)
      (hparts : ∀ group ∈ node.groups, Holds ts group) : ReadFrom ts node

inductive Holds : List Token → List Node → Prop
  | none (ts : List Token) : Holds ts []
  | node {gap ts rest : List Token} {node : Node} {nodes : List Node} (hnode : ReadFrom ts node)
      (hrest : Holds rest nodes) : Holds (gap ++ (ts ++ rest)) (node :: nodes)

end

theorem EndsWith.concat {k : TokenKind} (ts : List Token) (ht : t.kind = k) :
    EndsWith (ts ++ [t]) k :=
  ⟨t, getLast?_concat, ht⟩

namespace Extent

variable {ts us gap : List Token} {a b : Span}

theorem single (t : Token) : Extent [t] t.span := ⟨t, t, rfl, rfl, rfl⟩

theorem join (ha : Extent ts a) (gap : List Token) (hb : Extent us b) :
    Extent (ts ++ gap ++ us) (a.to b) := by
  obtain ⟨first, _, hfirst, _, rfl⟩ := ha
  obtain ⟨_, last, _, hlast, rfl⟩ := hb
  exact ⟨first, last, by simp [hfirst], by simp [hlast], rfl⟩

end Extent

namespace Holds

variable {ts us : List Token} {nodes others : List Node} {α : Type}

theorem behind (gap : List Token) (h : Holds ts nodes) : Holds (gap ++ ts) nodes := by
  cases h with
  | none => exact .none _
  | node hnode hrest =>
    rw [← append_assoc]
    exact .node hnode hrest

theorem append (h : Holds ts nodes) (h' : Holds us others) :
    Holds (ts ++ us) (nodes ++ others) := by
  induction nodes generalizing ts with
  | nil => exact h'.behind ts
  | cons node nodes ih =>
    cases h with
    | node hnode hrest =>
      rw [append_assoc, append_assoc]
      exact .node hnode (ih hrest)

theorem skip (us : List Token) (h : Holds ts nodes) : Holds (ts ++ us) nodes := by
  simpa using h.append (.none us)

theorem one {node : Node} (h : ReadFrom ts node) : Holds ts [node] := by
  have hnode : Holds ([] ++ (ts ++ [])) [node] := .node h (.none [])
  rwa [append_nil] at hnode

theorem grows (nodes : α → List Node) :
    Parse.Grows (fun ts a => Holds ts (nodes a)) fun ts as => Holds ts (as.flatMap nodes) where
  nil := .none []
  push hts hus := by
    rw [flatMap_append, flatMap_singleton]
    exact hts.append hus
  skip us hts := hts.skip us

theorem grows_map (node : α → Node) :
    Parse.Grows (fun ts a => Holds ts [node a]) fun ts as => Holds ts (as.map node) where
  nil := .none []
  push hts hus := by
    rw [map_append]
    exact hts.append hus
  skip us hts := hts.skip us

end Holds

namespace ReadFrom

variable {ts : List Token} {node : Node} {e : Expr}

theorem extent (h : ReadFrom ts node) : Extent ts node.span := by
  cases h with
  | intro hspan _ _ => exact hspan

theorem parts (h : ReadFrom ts node) : ∀ group ∈ node.groups, Holds ts group := by
  cases h with
  | intro _ _ hparts => exact hparts

theorem expr (hspan : Extent ts e.span) (hwords : e.Written ts)
    (hparts : Holds ts e.nodes) : ReadFrom ts (.expr e) :=
  .intro hspan hwords (forall_mem_singleton.mpr hparts)

theorem word (hspan : e.span = t.span) (hwords : e.Written [t])
    (hparts : e.nodes = []) : ReadFrom [t] (.expr e) :=
  .expr (hspan ▸ .single t) hwords (hparts ▸ .none _)

end ReadFrom

abbrev ReadsExpr (x : Parse Expr) : Prop :=
  x.Gives fun ts e => ReadFrom ts (.expr e)

def StartsStmt (ts : List Token) (s : Stmt) : Prop :=
  ∃ us tail, ts = us ++ tail ∧ ReadFrom us (.stmt s)

abbrev ReadsStmt (x : Parse Stmt) : Prop :=
  x.Gives StartsStmt

namespace Grammar

open Parse (Gives Leads)

structure Exact (g : Grammar) : Prop where
  expression : ReadsExpr g.expression
  statement : ∀ place, ReadsStmt (g.statement place)

namespace Exact

variable {g : Grammar} (hg : g.Exact)
include hg

theorem holds_expression : g.expression.Gives fun ts e => Holds ts [.expr e] :=
  hg.expression.mono fun _ _ h => .one h

theorem holds_statement (place : Place) :
    (g.statement place).Gives fun ts s => Holds ts [.stmt s] := by
  refine (hg.statement place).mono ?_
  rintro _ s ⟨us, tail, rfl, h⟩
  exact (Holds.one h).skip tail

theorem block : g.block.Gives fun ts r =>
    Extent ts r.2 ∧ StartsWith ts .lBrace ∧ EndsWith ts .rBrace ∧ Holds ts (r.1.map .stmt) := by
  refine Leads.gives (.expect_bind (by decide) fun opening ho => ?_)
  refine .gives_bind (.itemsUntil (Holds.grows_map .stmt) .rBrace (hg.holds_statement .block))
    fun us body hbody => .expect_bind (by decide) fun closing hc => ?_
  refine .pure ⟨?_, ⟨opening, rfl, ho⟩, .concat _ hc, (hbody.behind _).skip _⟩
  exact (Extent.single opening).join us (.single closing)

theorem initializer? : g.initializer?.Gives fun ts e => Holds ts (optional e) := by
  refine Leads.gives (.gives_bind (.accept (by decide)) fun us found _ => ?_)
  cases found with
  | true => exact .gives_bind hg.holds_expression fun _ _ he => .pure (he.behind us)
  | false => exact .pure (.none _)

theorem param (before : List Param) : (g.param before).Gives fun ts p => Holds ts p.nodes := by
  refine Leads.gives (.gives_bind (.accept (by decide)) fun _ _ _ =>
    .expect_bind (by decide) fun name _ => ?_)
  exact .ite (fun _ => .fail_bind) fun _ => .gives_bind types?_agree.gives fun _ _ _ =>
    .gives_bind hg.initializer? fun _ _ h => .pure (h.behind _)

theorem function (start : Span) (name : String) (modifiers : Modifiers) :
    (g.function start name modifiers).Gives fun ts decl => Holds ts decl.nodes ∧
      ∃ last, ts.getLast? = some last ∧ last.kind = .rBrace ∧ decl.span = start.to last.span := by
  refine Leads.gives (.expect_bind (by decide) fun _ _ => ?_)
  have hrest {before : List Token} {p : Cursor → Prop} {params : List Param}
      (hparams : Holds before (params.flatMap Param.nodes)) : Leads before p (do
        let _ ← Parse.expect .rParen "`)` after parameters"
        let block ← g.block
        return (⟨name, params, block.1, modifiers, start.to block.2⟩ : FunctionDecl))
      fun ts decl => Holds ts decl.nodes ∧ ∃ last, ts.getLast? = some last ∧
        last.kind = .rBrace ∧ decl.span = start.to last.span := by
    refine .expect_bind (by decide) fun _ _ => .gives_bind hg.block ?_
    rintro us ⟨body, span⟩ ⟨⟨first, last, _, hlast, rfl⟩, _, ⟨last', hlast', hkind⟩, hbody⟩
    cases hlast.symm.trans hlast'
    refine .pure ⟨(hparams.skip _).append hbody, last, ?_, hkind, rfl⟩
    rw [getLast?_append, hlast]
    rfl
  refine .check_bind ?_ ?_
  · exact hrest (.none _ : Holds _ (([] : List Param).flatMap Param.nodes))
  · exact .gives_bind (.separated (Holds.grows Param.nodes) hg.param) fun us params hparams =>
      hrest (hparams.behind _)

theorem entry : g.entry.Gives fun ts e => Holds ts [.expr e.1, .expr e.2] :=
  Leads.gives (.gives_bind hg.holds_expression fun _ _ hk =>
    .expect_bind (by decide) fun _ _ =>
      .gives_bind hg.holds_expression fun _ _ hv => .pure ((hk.skip _).append hv))

omit hg in
theorem bracketed {α : Type} {inside : Parse α} {close : TokenKind} (hc : close ≠ .eof)
    (what : String) {nodes : α → List Node} (hinside : inside.Gives fun ts a => Holds ts (nodes a))
    {b : Span → α → Expr} (hspan : ∀ span a, (b span a).span = span)
    (hparts : ∀ span a, (b span a).nodes = nodes a)
    (hwords : ∀ span a ts, ts.head? = some t → EndsWith ts close → (b span a).Written ts) :
    Leads [t] (fun _ => True) (do
      let a ← inside
      let closing ← Parse.expect close what
      return b (t.span.to closing.span) a) fun ts e => ReadFrom ts (.expr e) := by
  refine .gives_bind hinside fun us a ha => .expect_bind hc fun closing hclosing => ?_
  refine .pure (.expr ?_ (hwords _ a _ rfl (.concat _ hclosing)) ?_)
  · rw [hspan]
    exact (Extent.single t).join us (.single closing)
  · rw [hparts]
    exact (ha.behind _).skip _

theorem primary : ReadsExpr g.primary := by
  refine Leads.gives (.peek_bind fun t => ?_)
  -- Whatever is read, the token that was looked at is the first one.
  have hfirst {f : Token → Parse Expr} {R : List Token → Expr → Prop} (ht : t.kind ≠ .eof)
      (hf : Leads [t] (fun _ => True) (f t) R) :
      Leads [] (fun c => True ∧ c.next = t) (Parse.advance >>= f) R :=
    .advance_bind (fun _ hc => hc.2) ht hf
  split
  case h_1 ht => exact hfirst (by simp [ht]) (.pure (.word rfl ⟨t, rfl, .true ht⟩ rfl))
  case h_2 ht => exact hfirst (by simp [ht]) (.pure (.word rfl ⟨t, rfl, .false ht⟩ rfl))
  case h_3 ht => exact hfirst (by simp [ht]) (.pure (.word rfl ⟨t, rfl, .null ht⟩ rfl))
  case h_4 ht => exact hfirst (by simp [ht]) (.pure (.word rfl ⟨t, rfl, ht⟩ rfl))
  case h_5 ht =>
    refine hfirst (by simp [ht]) (.expect_bind (by decide) fun dot _ => ?_)
    refine .expect_bind (by decide) fun name hname => ?_
    exact .pure (.expr ((Extent.single t).join [dot] (.single name))
      ⟨t, dot, name, rfl, ht, hname, rfl⟩ (.none _))
  case h_6 ht =>
    refine hfirst (by simp [ht]) (.gives_bind (hg.function t.span "<lambda>" Modifiers.none) ?_)
    rintro us decl ⟨hparts, last, hlast, hkind, hspan⟩
    have hend : ([t] ++ us).getLast? = some last := by rw [getLast?_append, hlast]; rfl
    exact .pure (.expr ⟨t, last, rfl, hend, hspan⟩ ⟨⟨t, rfl, ht⟩, last, hend, hkind⟩
      (hparts.behind [t]))
  case h_7 ht =>
    refine hfirst (by simp [ht]) ?_
    split
    · next value hvalue => exact .pure (.word rfl ⟨t, rfl, .number ht hvalue⟩ rfl)
    · exact .fail _ _
  case h_8 ht => exact hfirst (by simp [ht]) (.pure (.word rfl ⟨t, rfl, .string ht⟩ rfl))
  case h_9 ht =>
    refine hfirst (by simp [ht]) ?_
    split
    · exact .pure (.word rfl ⟨t, rfl, ht⟩ rfl)
    · exact .throw _
  case h_10 ht => exact hfirst (by simp [ht]) (.pure (.word rfl ⟨t, rfl, ht, rfl⟩ rfl))
  case h_11 ht =>
    exact hfirst (by simp [ht]) (bracketed (b := .group) (by decide) _ hg.holds_expression
      (fun _ _ => rfl) (fun _ _ => rfl) fun _ _ _ hhead hend => ⟨⟨t, hhead, ht⟩, hend⟩)
  case h_12 ht =>
    exact hfirst (by simp [ht]) (bracketed (b := .list) (by decide) _
      (.trailing (Holds.grows_map .expr) .rBracket hg.holds_expression)
      (fun _ _ => rfl) (fun _ _ => rfl) fun _ _ _ hhead hend => ⟨⟨t, hhead, ht⟩, hend⟩)
  case h_13 ht =>
    exact hfirst (by simp [ht]) (bracketed (b := .dict) (by decide) _
      (.trailing (Holds.grows fun e => [.expr e.1, .expr e.2]) .rBrace hg.entry)
      (fun _ _ => rfl) (fun _ _ => rfl) fun _ _ _ hhead hend => ⟨⟨t, hhead, ht⟩, hend⟩)
  case h_14 => exact .fail _ _
  case h_15 => exact .fail _ _

theorem argument (before : List Argument) :
    (g.argument before).Gives fun ts a => Holds ts [.expr a.value] := by
  have hplain {before : List Token} {p : Cursor → Prop} {name : Option String} :
      Leads before p (do return (⟨name, ← g.expression⟩ : Argument))
        fun ts a => Holds ts [.expr a.value] :=
    .gives_bind hg.holds_expression fun _ _ he => .pure (he.behind _)
  refine Leads.gives (.look_bind (fun _ => rfl) fun _ => .checkSecond_bind fun _ =>
    .ite (fun _ => ?_) fun _ => ?_)
  · exact .gives_bind .advance fun _ _ _ => .gives_bind .advance fun _ _ _ =>
      .ite (fun _ => .fail_bind) fun _ => hplain
  · exact .ite (fun _ => .peek_bind fun _ => .fail_bind) fun _ => hplain

theorem arguments : g.arguments.Gives fun ts as => Holds ts (as.map fun a => .expr a.value) :=
  Leads.gives (.look_bind (fun _ => rfl) fun _ => .ite (fun _ => .pure (.none _)) fun _ =>
    .exact (.separated (Holds.grows_map fun a : Argument => .expr a.value) hg.argument))

theorem suffix? {ts : List Token} {target : Expr} (htarget : ReadFrom ts (.expr target)) :
    Leads ts (fun _ => True) (g.suffix? target) fun us e =>
      ReadFrom us (.expr (e.getD target)) := by
  -- What follows the opening bracket, up to the closing one.
  have hbracket {α : Type} {opening : Token} {inside : Parse α} {close : TokenKind}
      (hc : close ≠ .eof) (what : String) {nodes : α → List Node}
      (hinside : inside.Gives fun ts a => Holds ts (nodes a)) {b : Span → α → Expr}
      (hspan : ∀ span a, (b span a).span = span)
      (hparts : ∀ span a, (b span a).nodes = .expr target :: nodes a)
      (hwords : ∀ span a us, EndsWith us close → (b span a).Written us) :
      Leads (ts ++ [opening]) (fun _ => True) (do
        let a ← inside
        let closing ← Parse.expect close what
        return some (b (target.span.to closing.span) a))
        fun us e => ReadFrom us (.expr (e.getD target)) := by
    refine .gives_bind hinside fun us a ha => .expect_bind hc fun closing hclosing => ?_
    refine .pure (.expr ?_ (hwords _ a _ (.concat _ hclosing)) ?_)
    · rw [Option.getD_some, hspan, append_assoc ts]
      exact htarget.extent.join _ (.single closing)
    · rw [Option.getD_some, hparts]
      exact (((Holds.one htarget).skip _).append ha).skip _
  have hmember {p : Cursor → Prop} : Leads ts p (do
      if ← Parse.accept .dot then
        let name ← Parse.expectName "member name after `.`"
        return some (.member (target.span.to name.span) target name.text)
      else return none) fun us e => ReadFrom us (.expr (e.getD target)) := by
    refine .gives_bind (.accept (by decide)) ?_
    rintro _ _ (⟨rfl, dot, rfl, _⟩ | ⟨rfl, rfl⟩)
    · refine .expect_bind (by decide) fun name hname => ?_
      exact .pure (.expr (htarget.extent.join [dot] (.single name))
        ⟨name, getLast?_concat, hname, rfl⟩ (((Holds.one htarget).skip _).skip _))
    · exact .pure (by rwa [append_nil])
  have hindex {p : Cursor → Prop} {continues : Bool} : Leads ts p (do
      if continues && (← Parse.check .lBracket) then
        let _ ← Parse.advance
        let index ← g.expression
        let closing ← Parse.expect .rBracket "`]` after index"
        return some (.index (target.span.to closing.span) target index)
      else if ← Parse.accept .dot then
        let name ← Parse.expectName "member name after `.`"
        return some (.member (target.span.to name.span) target name.text)
      else return none) fun us e => ReadFrom us (.expr (e.getD target)) := by
    refine .check_bind (.ite (fun _ => ?_) fun _ => hmember) (.ite (fun h => ?_) fun _ => hmember)
    · refine .advance_kind_bind (by decide) (fun _ hc => hc.2) fun opening _ => ?_
      exact hbracket (b := fun span a => .index span target a) (by decide) _
        hg.holds_expression (fun _ _ => rfl) (fun _ _ => rfl) fun _ _ _ hend => hend
    · simp at h
  refine .peek_bind fun t => .look_bind (fun _ => rfl) fun l =>
    .check_bind (.ite (fun _ => ?_) fun _ => hindex) (.ite (fun h => ?_) fun _ => hindex)
  · refine .advance_kind_bind (by decide) (fun _ hc => hc.2) fun opening _ => ?_
    exact hbracket (b := fun span a => .call span target a) (by decide) _ hg.arguments
      (fun _ _ => rfl) (fun _ _ => rfl) fun _ _ _ hend => hend
  · simp at h

theorem postfixed : ReadsExpr g.postfixed :=
  Leads.gives (.gives_bind hg.primary fun _ _ he =>
    .extending (fun _ _ htarget => hg.suffix? htarget) he)

omit hg in
theorem signs : Grammar.signs.Gives fun ts signs => ∀ us e, ReadFrom us (.expr e) →
    ReadFrom (ts ++ us)
      (.expr (signs.foldl (fun e (op, span) => .unary (span.to e.span) op e) e)) := by
  refine Leads.gives (.extending ?_ fun us e he => he)
  intro ts signs hsigns
  refine .peek_bind fun t => ?_
  split
  · next op hop =>
    have ht : t.kind ≠ .eof := by
      intro heof
      rw [heof] at hop
      cases hop
    refine .advance_bind (fun _ hc => hc.2) ht (.pure fun us e he => ?_)
    rw [append_assoc]
    refine hsigns ([t] ++ us) _ (.expr ?_ ⟨t, rfl, hop⟩ ((Holds.one he).behind [t]))
    exact (Extent.single t).join [] he.extent
  · exact .pure hsigns

theorem unary : ReadsExpr g.unary :=
  Leads.gives (.gives_bind signs fun _ _ hsigns =>
    .gives_bind hg.postfixed fun _ _ he => .pure (hsigns _ _ he))

omit hg in
theorem leftLevel {op? : TokenKind → Option BinaryOp} (hop? : op? .eof = none)
    {operand : Parse Expr} (hoperand : ReadsExpr operand) :
    ReadsExpr (Grammar.leftLevel op? operand) := by
  refine Leads.gives (.gives_bind hoperand fun _ _ he => .extending ?_ he)
  intro ts left hleft
  refine .peek_bind fun t => ?_
  split
  · next op hop =>
    have ht : t.kind ≠ .eof := by grind
    refine .advance_bind (fun _ hc => hc.2) ht
      (.gives_bind hoperand fun us right hright => .pure ?_)
    exact .expr (hleft.extent.join [t] hright.extent) trivial
      (((Holds.one hleft).skip _).append (.one hright))
  · exact .pure hleft

theorem term : ReadsExpr g.term := leftLevel rfl (leftLevel rfl hg.unary)

theorem range : ReadsExpr g.range := by
  refine Leads.gives (.gives_bind hg.term fun ts first hfirst =>
    .gives_bind (.accept (by decide)) ?_)
  rintro _ _ (⟨rfl, dots, rfl, _⟩ | ⟨rfl, rfl⟩)
  · refine .gives_bind hg.term fun us last hlast => .pure ?_
    exact .expr (hfirst.extent.join [dots] hlast.extent) trivial
      (((Holds.one hfirst).skip _).append (.one hlast))
  · exact .pure (by rwa [append_nil])

theorem disjunction : ReadsExpr g.disjunction :=
  leftLevel rfl (leftLevel rfl (leftLevel rfl (leftLevel rfl hg.range)))

theorem assignment : ReadsExpr g.assignment := by
  refine Leads.gives (.gives_bind hg.disjunction fun ts target htarget => .peek_bind fun t => ?_)
  split
  · exact .pure htarget
  · next op hop =>
    have ht : t.kind ≠ .eof := by
      intro heof
      rw [heof] at hop
      cases hop
    refine .advance_bind (fun _ hc => hc.2) ht (.gives_bind hg.expression fun us value hvalue =>
      .ite (fun _ => .pure ?_) fun _ => .fail _ _)
    exact .expr (htarget.extent.join [t] hvalue.extent) trivial
      (((Holds.one htarget).skip _).append (.one hvalue))

end Exact

end Grammar

end ClassScript
