import ClassScript.Syntax.Tree

/-!
# Trees Without Places

The same tree with every span set to the default one. Trees are nested in lists and options, so the
recursion has a function for each of these, which the `_eq` lemmas show to be `map`.
-/

namespace ClassScript

mutual

def Expr.unplaced : Expr → Expr
  | .literal _ value => .literal default value
  | .interpolated _ parts => .interpolated default (Piece.unplacedAll parts)
  | .name _ name => .name default name
  | .this _ => .this default
  | .super _ name => .super default name
  | .binary _ op left right => .binary default op left.unplaced right.unplaced
  | .unary _ op operand => .unary default op operand.unplaced
  | .assign _ target op value => .assign default target.unplaced op value.unplaced
  | .call _ callee arguments => .call default callee.unplaced (Argument.unplacedAll arguments)
  | .list _ items => .list default (Expr.unplacedAll items)
  | .dict _ entries => .dict default (Expr.unplacedEntries entries)
  | .range _ first last => .range default first.unplaced last.unplaced
  | .group _ inner => .group default inner.unplaced
  | .index _ target index => .index default target.unplaced index.unplaced
  | .member _ target name => .member default target.unplaced name
  | .lambda decl => .lambda decl.unplaced

def Expr.unplacedAll : List Expr → List Expr
  | [] => []
  | e :: es => e.unplaced :: Expr.unplacedAll es

def Expr.unplaced? : Option Expr → Option Expr
  | none => none
  | some e => some e.unplaced

def Expr.unplacedEntries : List (Expr × Expr) → List (Expr × Expr)
  | [] => []
  | (key, value) :: es => (key.unplaced, value.unplaced) :: Expr.unplacedEntries es

def Piece.unplaced : Piece → Piece
  | .text text => .text text
  | .hole value => .hole value.unplaced

def Piece.unplacedAll : List Piece → List Piece
  | [] => []
  | p :: ps => p.unplaced :: Piece.unplacedAll ps

def Argument.unplaced : Argument → Argument
  | ⟨name, value⟩ => ⟨name, value.unplaced⟩

def Argument.unplacedAll : List Argument → List Argument
  | [] => []
  | a :: as => a.unplaced :: Argument.unplacedAll as

def Param.unplaced : Param → Param
  | ⟨name, types, value, variadic, _⟩ => ⟨name, types, Expr.unplaced? value, variadic, default⟩

def Param.unplacedAll : List Param → List Param
  | [] => []
  | p :: ps => p.unplaced :: Param.unplacedAll ps

def FunctionDecl.unplaced : FunctionDecl → FunctionDecl
  | ⟨name, params, body, modifiers, _⟩ =>
    ⟨name, Param.unplacedAll params, Stmt.unplacedAll body, modifiers, default⟩

def ClassDecl.unplaced : ClassDecl → ClassDecl
  | ⟨name, supers, body, modifiers, _⟩ =>
    ⟨name, supers, Stmt.unplacedAll body, modifiers, default⟩

def EnumDecl.unplaced : EnumDecl → EnumDecl
  | ⟨name, variants, modifiers, _⟩ => ⟨name, Expr.unplacedVariants variants, modifiers, default⟩

def Expr.unplacedVariants : List (String × Option Expr) → List (String × Option Expr)
  | [] => []
  | (name, value) :: vs => (name, Expr.unplaced? value) :: Expr.unplacedVariants vs

def VarDecl.unplaced : VarDecl → VarDecl
  | ⟨name, isConst, types, value, modifiers⟩ =>
    ⟨name, isConst, types, Expr.unplaced? value, modifiers⟩

def PropertyDecl.unplaced : PropertyDecl → PropertyDecl
  | ⟨name, getter, setter, modifiers⟩ =>
    ⟨name, Stmt.unplacedBody? getter, Stmt.unplacedBody? setter, modifiers⟩

def SwitchCase.unplaced : SwitchCase → SwitchCase
  | ⟨values, body, _⟩ => ⟨Expr.unplacedAll values, Stmt.unplacedAll body, default⟩

def SwitchCase.unplacedAll : List SwitchCase → List SwitchCase
  | [] => []
  | c :: cs => c.unplaced :: SwitchCase.unplacedAll cs

def CatchClause.unplaced : CatchClause → CatchClause
  | ⟨binding, classes, body, _⟩ => ⟨binding, classes, Stmt.unplacedAll body, default⟩

def CatchClause.unplacedAll : List CatchClause → List CatchClause
  | [] => []
  | h :: hs => h.unplaced :: CatchClause.unplacedAll hs

def Stmt.unplaced : Stmt → Stmt
  | .variable _ decl => .variable default decl.unplaced
  | .function decl => .function decl.unplaced
  | .class decl => .class decl.unplaced
  | .enum decl => .enum decl.unplaced
  | .property _ decl => .property default decl.unplaced
  | .importModule _ path form => .importModule default path form
  | .expr value => .expr value.unplaced
  | .block _ body => .block default (Stmt.unplacedAll body)
  | .if _ condition thenBody elseBody =>
    .if default condition.unplaced (Stmt.unplacedAll thenBody) (Stmt.unplacedBody? elseBody)
  | .while _ condition body => .while default condition.unplaced (Stmt.unplacedAll body)
  | .for _ binding iterable body =>
    .for default binding iterable.unplaced (Stmt.unplacedAll body)
  | .switch _ subject cases defaultBody =>
    .switch default subject.unplaced (SwitchCase.unplacedAll cases)
      (Stmt.unplacedBody? defaultBody)
  | .try _ body handlers finallyBody =>
    .try default (Stmt.unplacedAll body) (CatchClause.unplacedAll handlers)
      (Stmt.unplacedBody? finallyBody)
  | .throw _ value => .throw default value.unplaced
  | .return _ value => .return default (Expr.unplaced? value)
  | .break _ => .break default
  | .continue _ => .continue default

def Stmt.unplacedAll : List Stmt → List Stmt
  | [] => []
  | s :: ss => s.unplaced :: Stmt.unplacedAll ss

def Stmt.unplacedBody? : Option (List Stmt) → Option (List Stmt)
  | none => none
  | some body => some (Stmt.unplacedAll body)

end

section Parts

theorem unplacedAll_eq_map {α : Type} {f : α → α} {all : List α → List α} (hnil : all [] = [])
    (hcons : ∀ a as, all (a :: as) = f a :: all as) (as : List α) : all as = as.map f := by
  induction as with
  | nil => exact hnil
  | cons a as ih => rw [hcons, ih, List.map_cons]

@[simp]
theorem Expr.unplacedAll_eq (es : List Expr) : Expr.unplacedAll es = es.map Expr.unplaced :=
  unplacedAll_eq_map rfl (fun _ _ => rfl) es

@[simp]
theorem Expr.unplaced?_eq (e : Option Expr) : Expr.unplaced? e = e.map Expr.unplaced := by
  cases e <;> rfl

@[simp]
theorem Expr.unplacedEntries_eq (es : List (Expr × Expr)) :
    Expr.unplacedEntries es = es.map fun e => (e.1.unplaced, e.2.unplaced) :=
  unplacedAll_eq_map rfl (fun _ _ => rfl) es

@[simp]
theorem Expr.unplacedVariants_eq (vs : List (String × Option Expr)) :
    Expr.unplacedVariants vs = vs.map fun v => (v.1, v.2.map Expr.unplaced) :=
  unplacedAll_eq_map rfl (fun _ _ => by rw [Expr.unplacedVariants, Expr.unplaced?_eq]) vs

@[simp]
theorem Piece.unplacedAll_eq (ps : List Piece) : Piece.unplacedAll ps = ps.map Piece.unplaced :=
  unplacedAll_eq_map rfl (fun _ _ => rfl) ps

@[simp]
theorem Argument.unplacedAll_eq (as : List Argument) :
    Argument.unplacedAll as = as.map Argument.unplaced :=
  unplacedAll_eq_map rfl (fun _ _ => rfl) as

@[simp]
theorem Param.unplacedAll_eq (ps : List Param) : Param.unplacedAll ps = ps.map Param.unplaced :=
  unplacedAll_eq_map rfl (fun _ _ => rfl) ps

@[simp]
theorem SwitchCase.unplacedAll_eq (cs : List SwitchCase) :
    SwitchCase.unplacedAll cs = cs.map SwitchCase.unplaced :=
  unplacedAll_eq_map rfl (fun _ _ => rfl) cs

@[simp]
theorem CatchClause.unplacedAll_eq (hs : List CatchClause) :
    CatchClause.unplacedAll hs = hs.map CatchClause.unplaced :=
  unplacedAll_eq_map rfl (fun _ _ => rfl) hs

@[simp]
theorem Stmt.unplacedAll_eq (ss : List Stmt) : Stmt.unplacedAll ss = ss.map Stmt.unplaced :=
  unplacedAll_eq_map rfl (fun _ _ => rfl) ss

@[simp]
theorem Stmt.unplacedBody?_eq (body : Option (List Stmt)) :
    Stmt.unplacedBody? body = body.map (List.map Stmt.unplaced) := by
  cases body with
  | none => rfl
  | some body => rw [Stmt.unplacedBody?, Stmt.unplacedAll_eq, Option.map_some]

end Parts

attribute [simp] Expr.unplaced Piece.unplaced Argument.unplaced Param.unplaced
  FunctionDecl.unplaced ClassDecl.unplaced EnumDecl.unplaced VarDecl.unplaced PropertyDecl.unplaced
  SwitchCase.unplaced CatchClause.unplaced Stmt.unplaced

@[simp]
theorem Expr.isTarget_unplaced (e : Expr) : e.unplaced.isTarget = e.isTarget := by
  cases e <;> simp [Expr.isTarget]

@[simp]
theorem Argument.name_unplaced (a : Argument) : a.unplaced.name = a.name := by
  cases a
  simp

@[simp]
theorem Param.variadic_unplaced (p : Param) : p.unplaced.variadic = p.variadic := by
  cases p
  simp

end ClassScript
