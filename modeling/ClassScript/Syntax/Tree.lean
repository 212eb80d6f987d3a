import ClassScript.Number.Binary64
import ClassScript.Number.Decimal
import ClassScript.Source.Span

/-!
# Syntax Trees

Every node carries the span it was read from, because errors at run time name the line of the
node that failed.
-/

namespace ClassScript

inductive Literal where
  | int (value : Int64)
  | float (value : Binary64)
  | decimal (value : Decimal)
  | bool (value : Bool)
  | str (value : String)
  | null
deriving DecidableEq, Inhabited, Repr

inductive BinaryOp where
  | add | sub | mul | div | mod
  | equal | notEqual | less | lessEqual | greater | greaterEqual
  | and | or
deriving DecidableEq, Inhabited, Repr

inductive UnaryOp where
  | negate | plus | not
deriving DecidableEq, Inhabited, Repr

inductive Access where
  | «public» | internal | «protected» | «private»
deriving DecidableEq, Inhabited, Repr

def Access.name : Access → String
  | .public => "public"
  | .internal => "internal"
  | .protected => "protected"
  | .private => "private"

structure Modifiers where
  access : Option Access
  isStatic : Bool
deriving DecidableEq, Inhabited, Repr

def Modifiers.none : Modifiers :=
  ⟨Option.none, false⟩

abbrev TypeNames := List String

inductive ImportForm where
  | whole (given : Option String)
  | names (names : List String)
deriving DecidableEq, Inhabited, Repr

mutual

inductive Expr where
  | literal (span : Span) (value : Literal)
  | interpolated (span : Span) (parts : List Piece)
  | name (span : Span) (name : String)
  | this (span : Span)
  | super (span : Span) (name : String)
  | binary (span : Span) (op : BinaryOp) (left right : Expr)
  | unary (span : Span) (op : UnaryOp) (operand : Expr)
  | assign (span : Span) (target : Expr) (op : Option BinaryOp) (value : Expr)
  | call (span : Span) (callee : Expr) (arguments : List Argument)
  | list (span : Span) (items : List Expr)
  | dict (span : Span) (entries : List (Expr × Expr))
  | range (span : Span) (first last : Expr)
  | group (span : Span) (inner : Expr)
  | index (span : Span) (target index : Expr)
  | member (span : Span) (target : Expr) (name : String)
  | lambda (decl : FunctionDecl)

inductive Piece where
  | text (text : String)
  | hole (value : Expr)

structure Argument where
  name : Option String
  value : Expr

structure Param where
  name : String
  types : Option TypeNames
  default : Option Expr
  variadic : Bool
  span : Span

structure FunctionDecl where
  name : String
  params : List Param
  body : List Stmt
  modifiers : Modifiers
  span : Span

structure ClassDecl where
  name : String
  supers : List String
  body : List Stmt
  modifiers : Modifiers
  span : Span

structure EnumDecl where
  name : String
  variants : List (String × Option Expr)
  modifiers : Modifiers
  span : Span

structure VarDecl where
  name : String
  isConst : Bool
  types : Option TypeNames
  initializer : Option Expr
  modifiers : Modifiers

structure PropertyDecl where
  name : String
  getter : Option (List Stmt)
  setter : Option (List Stmt)
  modifiers : Modifiers

structure SwitchCase where
  values : List Expr
  body : List Stmt
  span : Span

structure CatchClause where
  binding : Option String
  classes : Option TypeNames
  body : List Stmt
  span : Span

inductive Stmt where
  | variable (span : Span) (decl : VarDecl)
  | function (decl : FunctionDecl)
  | «class» (decl : ClassDecl)
  | enum (decl : EnumDecl)
  | property (span : Span) (decl : PropertyDecl)
  | importModule (span : Span) (path : String) (form : ImportForm)
  | expr (value : Expr)
  | block (span : Span) (body : List Stmt)
  | «if» (span : Span) (condition : Expr) (thenBody : List Stmt) (elseBody : Option (List Stmt))
  | «while» (span : Span) (condition : Expr) (body : List Stmt)
  | «for» (span : Span) (binding : String) (iterable : Expr) (body : List Stmt)
  | switch (span : Span) (subject : Expr) (cases : List SwitchCase)
      (defaultBody : Option (List Stmt))
  | «try» (span : Span) (body : List Stmt) (handlers : List CatchClause)
      (finallyBody : Option (List Stmt))
  | throw (span : Span) (value : Expr)
  | «return» (span : Span) (value : Option Expr)
  | «break» (span : Span)
  | «continue» (span : Span)

end

instance : Inhabited Expr := ⟨.this default⟩

instance : Inhabited Stmt := ⟨.break default⟩

def Expr.span : Expr → Span
  | .literal s _ | .interpolated s _ | .name s _ | .this s | .super s _ | .binary s _ _ _
  | .unary s _ _ | .assign s _ _ _ | .call s _ _ | .list s _ | .dict s _ | .range s _ _
  | .group s _ | .index s _ _ | .member s _ _ => s
  | .lambda decl => decl.span

def Stmt.span : Stmt → Span
  | .variable s _ | .property s _ | .importModule s _ _ | .block s _ | .if s _ _ _ | .while s _ _
  | .for s _ _ _ | .switch s _ _ _ | .try s _ _ _ | .throw s _ | .return s _ | .break s
  | .continue s => s
  | .function decl => decl.span
  | .class decl => decl.span
  | .enum decl => decl.span
  | .expr value => value.span

def Expr.isTarget : Expr → Bool
  | .name _ _ | .index _ _ _ | .member _ _ _ => true
  | _ => false

end ClassScript
