import ClassScript.Proofs.Parsing.Phrase

/-!
# Trees That a Text Can Give

What a tree has to be so that some text could have given it. The conditions are on every part of a
tree, down to the bodies of functions in expressions and the holes of interpolated texts.
-/

namespace ClassScript

variable {decl : FunctionDecl}

/-- How strongly a tree binds, from assignments, which bind loosest, to what can stand
    in front of a call. -/
def Expr.strength : Expr → Nat
  | .assign _ _ _ _ => 0
  | .binary _ op _ _ => op.strength
  | .range _ _ _ => 5
  | .unary _ _ _ => 8
  | _ => 9

def Argument.Ordered (arguments : List Argument) : Prop :=
  arguments.Pairwise fun a b => a.name = none ∨ (b.name ≠ none ∧ b.name ≠ a.name)

mutual

/-- Expressions as a text gives them. An operand that binds looser than its place
    allows is in a group. -/
inductive Expr.WellFormed : Expr → Prop
  | literal (span : Span) (value : Literal) : Expr.WellFormed (.literal span value)
  | interpolated (span : Span) (parts : List Piece)
      (hholes : ∀ value, Piece.hole value ∈ parts → value.WellFormed) :
      Expr.WellFormed (.interpolated span parts)
  | name (span : Span) (name : String) : Expr.WellFormed (.name span name)
  | this (span : Span) : Expr.WellFormed (.this span)
  | super (span : Span) (name : String) : Expr.WellFormed (.super span name)
  | binary (span : Span) (op : BinaryOp) (left right : Expr) (hl : left.WellFormed)
      (hr : right.WellFormed) (hleft : op.strength ≤ left.strength)
      (hright : op.strength < right.strength) : Expr.WellFormed (.binary span op left right)
  | unary (span : Span) (op : UnaryOp) (operand : Expr) (ho : operand.WellFormed)
      (hoperand : 8 ≤ operand.strength) : Expr.WellFormed (.unary span op operand)
  | assign (span : Span) (target : Expr) (op : Option BinaryOp) (value : Expr)
      (ht : target.WellFormed) (hv : value.WellFormed) (htarget : target.isTarget = true) :
      Expr.WellFormed (.assign span target op value)
  | call (span : Span) (callee : Expr) (arguments : List Argument) (hc : callee.WellFormed)
      (ha : ∀ a ∈ arguments, a.value.WellFormed) (hcallee : 9 ≤ callee.strength)
      (hordered : Argument.Ordered arguments) : Expr.WellFormed (.call span callee arguments)
  | list (span : Span) (items : List Expr) (hi : ∀ e ∈ items, e.WellFormed) :
      Expr.WellFormed (.list span items)
  | dict (span : Span) (entries : List (Expr × Expr))
      (hk : ∀ e ∈ entries, e.1.WellFormed) (hv : ∀ e ∈ entries, e.2.WellFormed) :
      Expr.WellFormed (.dict span entries)
  | range (span : Span) (first last : Expr) (hf : first.WellFormed) (hl : last.WellFormed)
      (hfirst : 5 < first.strength) (hlast : 5 < last.strength) :
      Expr.WellFormed (.range span first last)
  | group (span : Span) (inner : Expr) (hi : inner.WellFormed) : Expr.WellFormed (.group span inner)
  | index (span : Span) (target index : Expr) (ht : target.WellFormed) (hi : index.WellFormed)
      (htarget : 9 ≤ target.strength) : Expr.WellFormed (.index span target index)
  | member (span : Span) (target : Expr) (name : String) (ht : target.WellFormed)
      (htarget : 9 ≤ target.strength) : Expr.WellFormed (.member span target name)
  | lambda (decl : FunctionDecl) (hd : decl.WellFormed) : Expr.WellFormed (.lambda decl)

/-- Functions as a text gives them. Only the last parameter takes what is left over. -/
inductive FunctionDecl.WellFormed : FunctionDecl → Prop
  | intro (decl : FunctionDecl)
      (hd : ∀ p ∈ decl.params, ∀ value, p.default = some value → value.WellFormed)
      (hb : ∀ s ∈ decl.body, s.WellFormed .block)
      (hlast : ∀ p ∈ decl.params.dropLast, p.variadic = false) : FunctionDecl.WellFormed decl

inductive Stmt.WellFormed : Stmt → Place → Prop
  | variable (span : Span) (decl : VarDecl) (place : Place)
      (hi : ∀ value, decl.initializer = some value → value.WellFormed) :
      Stmt.WellFormed (.variable span decl) place
  | function (decl : FunctionDecl) (place : Place) (hd : decl.WellFormed) :
      Stmt.WellFormed (.function decl) place
  | «class» (decl : ClassDecl) (place : Place)
      (hb : ∀ s ∈ decl.body, s.WellFormed .classBody) :
      Stmt.WellFormed (.class decl) place
  | enum (decl : EnumDecl) (place : Place)
      (hv : ∀ v ∈ decl.variants, ∀ value, v.2 = some value → value.WellFormed) :
      Stmt.WellFormed (.enum decl) place
  | property (span : Span) (decl : PropertyDecl)
      (hg : ∀ body, decl.getter = some body → ∀ s ∈ body, s.WellFormed .block)
      (hs : ∀ body, decl.setter = some body → ∀ s ∈ body, s.WellFormed .block) :
      Stmt.WellFormed (.property span decl) .classBody
  | importModule (span : Span) (path : String) (form : ImportForm) :
      Stmt.WellFormed (.importModule span path form) .block
  | expr (value : Expr) (hv : value.WellFormed) : Stmt.WellFormed (.expr value) .block
  | block (span : Span) (body : List Stmt) (hb : ∀ s ∈ body, s.WellFormed .block) :
      Stmt.WellFormed (.block span body) .block
  | «if» (span : Span) (condition : Expr) (thenBody : List Stmt) (elseBody : Option (List Stmt))
      (hc : condition.WellFormed) (ht : ∀ s ∈ thenBody, s.WellFormed .block)
      (he : ∀ body, elseBody = some body → ∀ s ∈ body, s.WellFormed .block) :
      Stmt.WellFormed (.if span condition thenBody elseBody) .block
  | «while» (span : Span) (condition : Expr) (body : List Stmt) (hc : condition.WellFormed)
      (hb : ∀ s ∈ body, s.WellFormed .block) :
      Stmt.WellFormed (.while span condition body) .block
  | «for» (span : Span) (binding : String) (iterable : Expr) (body : List Stmt)
      (hi : iterable.WellFormed) (hb : ∀ s ∈ body, s.WellFormed .block) :
      Stmt.WellFormed (.for span binding iterable body) .block
  | switch (span : Span) (subject : Expr) (cases : List SwitchCase)
      (defaultBody : Option (List Stmt)) (hs : subject.WellFormed)
      (hv : ∀ c ∈ cases, ∀ value ∈ c.values, value.WellFormed)
      (hb : ∀ c ∈ cases, ∀ s ∈ c.body, s.WellFormed .block)
      (hd : ∀ body, defaultBody = some body → ∀ s ∈ body, s.WellFormed .block) :
      Stmt.WellFormed (.switch span subject cases defaultBody) .block
  | «try» (span : Span) (body : List Stmt) (handlers : List CatchClause)
      (finallyBody : Option (List Stmt)) (hb : ∀ s ∈ body, s.WellFormed .block)
      (hh : ∀ h ∈ handlers, ∀ s ∈ h.body, s.WellFormed .block)
      (hf : ∀ body, finallyBody = some body → ∀ s ∈ body, s.WellFormed .block)
      (hguarded : handlers ≠ [] ∨ finallyBody ≠ none) :
      Stmt.WellFormed (.try span body handlers finallyBody) .block
  | throw (span : Span) (value : Expr) (hv : value.WellFormed) :
      Stmt.WellFormed (.throw span value) .block
  | «return» (span : Span) (value : Option Expr) (hv : ∀ e, value = some e → e.WellFormed) :
      Stmt.WellFormed (.return span value) .block
  | «break» (span : Span) : Stmt.WellFormed (.break span) .block
  | «continue» (span : Span) : Stmt.WellFormed (.continue span) .block

end

def Param.WellFormed (p : Param) : Prop :=
  ∀ value, p.default = some value → value.WellFormed

theorem FunctionDecl.WellFormed.params (h : decl.WellFormed) : ∀ p ∈ decl.params, p.WellFormed := by
  cases h with
  | intro _ hd _ _ => exact hd

theorem FunctionDecl.WellFormed.body (h : decl.WellFormed) :
    ∀ s ∈ decl.body, s.WellFormed .block := by
  cases h with
  | intro _ _ hb _ => exact hb

end ClassScript
