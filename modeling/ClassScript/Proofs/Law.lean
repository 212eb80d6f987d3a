import ClassScript.Proofs.Faults
import ClassScript.Proofs.Files
import ClassScript.Proofs.Parsing.Statements
import ClassScript.Run.Statement

/-!
# Rules for Code

Code is kept in the heap and run later, a part here and a part there. A `Law` is a rule whose parts
keep to it too, with the faults in which code that keeps to it may end and the ways in which a
statement may hand on control.
-/

namespace ClassScript

open List

inductive Code where
  | expr (e : Expr)
  | stmt (s : Stmt)
  | member (s : Stmt)
  | body (b : List Stmt)

def FunctionDecl.parts (d : FunctionDecl) : List Code :=
  .body d.body :: d.params.flatMap fun p => p.default.toList.map .expr

def Piece.parts : Piece → List Code
  | .text _ => []
  | .hole e => [.expr e]

def Expr.parts : Expr → List Code
  | .literal _ _ | .name _ _ | .this _ | .super _ _ => []
  | .interpolated _ parts => parts.flatMap Piece.parts
  | .binary _ _ left right => [.expr left, .expr right]
  | .unary _ _ operand => [.expr operand]
  | .assign _ target _ value => [.expr target, .expr value]
  | .call _ callee args => .expr callee :: args.map fun a => .expr a.value
  | .list _ items => items.map .expr
  | .dict _ entries => entries.flatMap fun e => [.expr e.1, .expr e.2]
  | .range _ first last => [.expr first, .expr last]
  | .group _ inner => [.expr inner]
  | .index _ target i => [.expr target, .expr i]
  | .member _ target _ => [.expr target]
  | .lambda decl => decl.parts

def SwitchCase.parts (c : SwitchCase) : List Code :=
  c.values.map .expr ++ c.body.map .stmt

def Stmt.parts : Stmt → List Code
  | .variable _ decl => decl.initializer.toList.map .expr
  | .function decl => decl.parts
  | .class decl => decl.body.map .member
  | .enum decl => decl.variants.flatMap fun v => v.2.toList.map .expr
  | .property _ _ | .importModule _ _ _ | .break _ | .continue _ => []
  | .expr e => [.expr e]
  | .block _ body => body.map .stmt
  | .if _ test thenBody elseBody => .expr test :: (thenBody ++ elseBody.getD []).map .stmt
  | .while _ test body => .expr test :: body.map .stmt
  | .for _ _ iterable body => .expr iterable :: body.map .stmt
  | .switch _ subject cases defaultBody =>
    .expr subject :: (cases.flatMap SwitchCase.parts ++ (defaultBody.getD []).map .stmt)
  | .try _ body handlers finallyBody =>
    (body ++ handlers.flatMap (·.body) ++ finallyBody.getD []).map .stmt
  | .throw _ e => [.expr e]
  | .return _ e => e.toList.map .expr

def Stmt.memberParts : Stmt → List Code
  | .variable _ decl => decl.initializer.toList.map .expr
  | .property _ decl => (decl.getter.toList ++ decl.setter.toList).map .body
  | .function decl => decl.parts
  | .class decl => [.stmt (.class decl)]
  | .enum decl => [.stmt (.enum decl)]
  | _ => []

def Code.parts : Code → List Code
  | .expr e => e.parts
  | .stmt s => s.parts
  | .member s => s.memberParts
  | .body b => b.map .stmt

def Stmt.isMember : Stmt → Bool
  | .variable _ _ | .property _ _ | .function _ | .class _ | .enum _ => true
  | _ => false

inductive Code.Raises : Code → Fault → Prop
  | target (span : Span) (target : Expr) (op : Option BinaryOp) (value : Expr)
      (ht : target.isTarget = false) : Raises (.expr (.assign span target op value)) .invalidTarget
  | superTarget (span : Span) (target : Expr) (op : Option BinaryOp) (value : Expr)
      (ht : target.isTarget = false) :
      Raises (.expr (.assign span target op value)) .assignThroughSuper
  | property (span : Span) (decl : PropertyDecl) :
      Raises (.stmt (.property span decl)) (.propertyOutsideClass decl.name)
  | member (stmt : Stmt) (hs : stmt.isMember = false) (className : String) :
      Raises (.member stmt) (.unexpectedMember className)

def Flow.leavesLoop : Flow → Bool
  | .break | .continue => true
  | _ => false

def Disk.Finds (d : Disk) (path file : String) : Prop :=
  ∃ place, d.canonical place = .ok file ∧
    (place = Path.withExtension path Import.sourceExtension ∨
      ∃ dir, place = Path.join dir (Path.withExtension path Import.sourceExtension))

theorem Disk.Finds.isCanonical {d : Disk} {path file : String} (h : d.Finds path file) :
    Path.IsCanonical file := by
  obtain ⟨place, hplace, _⟩ := h
  exact isCanonical_of_canonical hplace

/-- A rule for code. What keeps to it has parts that do. -/
structure Law where
  code : Code → Prop
  fault : Fault → Prop
  flow : Stmt → Flow → Prop
  disk : Disk → Prop
  parts : ∀ c, code c → ∀ d ∈ c.parts, code d
  raises : ∀ c, code c → ∀ f, c.Raises f → fault f
  loops : ∀ b, code (.body b) → ∀ s ∈ b, ∀ f, flow s f → f.leavesLoop = true →
    fault .loopControlAtTop ∧ fault .loopControlInFunction
  ordinary : ∀ f, f.isStructural = false → fault f
  flows : ∀ L : Level, (∀ s m f m', L.execute s m = .done f m' → flow s f) →
    ∀ s m f m', Statement.run L s m = .done f m' → flow s f
  literal : ∀ span value, code (.expr (.literal span value))
  imports : ∀ span path form, code (.stmt (.importModule span path form)) →
    ∀ d, disk d → ∀ file, d.Finds path file →
      ∀ d', disk d' → ∀ source items, d'.readText file = .ok source →
        parseProgram source = .ok items → code (.body items)

namespace Law

variable (C : Law) {e : Failure} {f : Overload}

def failure (e : Failure) : Prop :=
  ∀ f, e.fault? = some f → C.fault f

def overload (f : Overload) : Prop :=
  ∀ body closure, f.body = .script body closure → C.code (.body body)

def field (f : FieldInit) : Prop :=
  ∀ e, f.initializer = some e → C.code (.expr e)

def file (path : String) : Prop :=
  ∀ d, C.disk d → ∀ source items, d.readText path = .ok source →
    parseProgram source = .ok items → C.code (.body items)

variable {C}

theorem failure_fault {f : Fault} (hf : C.fault f) (span : Option Span) (notes : List String) :
    C.failure (.fault f span notes) := by
  rintro g ⟨⟩
  exact hf

theorem failure_of_none (he : e.fault? = none) : C.failure e := by
  intro f hf
  rw [he] at hf
  cases hf

theorem failure_congr {e' : Failure} (h : e'.fault? = e.fault?) (he : C.failure e) :
    C.failure e' := by
  intro f hf
  exact he f (h.symm.trans hf)

theorem part {c d : Code} (hc : C.code c) (hd : d ∈ c.parts) : C.code d := C.parts c hc d hd

theorem overload_native {native : Native} (hf : f.body = .native native) : C.overload f := by
  intro body closure hb
  rw [hf] at hb
  cases hb

theorem overload_script {body : List Stmt} {closure : ScopeId}
    (hf : f.body = .script body closure) (h : C.code (.body body)) : C.overload f := by
  intro body' closure' hb
  rw [hf] at hb
  cases hb
  exact h

end Law

def Code.WellFormed : Code → Prop
  | .expr e => e.WellFormed
  | .stmt s => s.WellFormed .block
  | .member s => s.WellFormed .classBody
  | .body b => ∀ s ∈ b, s.WellFormed .block

namespace Code.WellFormed

variable {c : Code} {s : Stmt}

theorem function_parts {decl : FunctionDecl} (hd : decl.WellFormed) :
    ∀ d ∈ decl.parts, d.WellFormed := by
  intro d h
  rcases mem_cons.mp h with rfl | h
  · exact hd.body
  · obtain ⟨p, hp, h⟩ := mem_flatMap.mp h
    obtain ⟨e, he, rfl⟩ := mem_map.mp h
    exact hd.params p hp e (Option.mem_toList.mp he)

theorem expr_parts {e : Expr} (he : e.WellFormed) : ∀ d ∈ e.parts, d.WellFormed := by
  cases he with
  | interpolated span parts hholes =>
    intro d h
    obtain ⟨p, hp, h⟩ := mem_flatMap.mp h
    cases p with
    | text s => exact absurd h not_mem_nil
    | hole e =>
      rw [mem_singleton.mp h]
      exact hholes e hp
  | dict span entries hk hv =>
    intro d h
    obtain ⟨entry, hentry, h⟩ := mem_flatMap.mp h
    rcases mem_cons.mp h with rfl | h
    · exact hk entry hentry
    · rw [mem_singleton.mp h]
      exact hv entry hentry
  | lambda decl hd => exact function_parts hd
  | _ => simp_all [Expr.parts, WellFormed]

theorem stmt_parts (hs : s.WellFormed .block) : ∀ d ∈ s.parts, d.WellFormed := by
  have hbody {body : List Stmt} (hb : ∀ s ∈ body, s.WellFormed .block) :
      ∀ d ∈ body.map Code.stmt, d.WellFormed := by
    simpa [WellFormed] using hb
  have hexprs {es : List Expr} (he : ∀ e ∈ es, e.WellFormed) :
      ∀ d ∈ es.map Code.expr, d.WellFormed := by
    simpa [WellFormed] using he
  have hoption {body : Option (List Stmt)}
      (hb : ∀ b, body = some b → ∀ s ∈ b, s.WellFormed .block) :
      ∀ s ∈ body.getD [], s.WellFormed .block := by
    cases body with
    | none => exact nofun
    | some b => exact hb b rfl
  cases hs with
  | «variable» span decl _ hi => exact hexprs fun e he => hi e (Option.mem_toList.mp he)
  | function decl _ hd => exact function_parts hd
  | «class» decl _ hb => simpa [Stmt.parts, WellFormed] using hb
  | enum =>
    intro d h
    obtain ⟨v, hvar, h⟩ := mem_flatMap.mp h
    grind
  | importModule | «break» | «continue» => exact nofun
  | expr value hv | throw span value hv => exact hexprs (forall_mem_singleton.mpr hv)
  | block span body hb => exact hbody hb
  | «if» span condition thenBody elseBody hc ht he =>
    refine forall_mem_cons.mpr ⟨hc, hbody fun s h => ?_⟩
    grind
  | «while» span condition body hc hb => exact forall_mem_cons.mpr ⟨hc, hbody hb⟩
  | «for» span binding iterable body hi hb => exact forall_mem_cons.mpr ⟨hi, hbody hb⟩
  | switch span subject cases defaultBody hs hv hb hd =>
    refine forall_mem_cons.mpr ⟨hs, fun d h => ?_⟩
    rcases mem_append.mp h with h | h
    · obtain ⟨c, hc, h⟩ := mem_flatMap.mp h
      rcases mem_append.mp h with h | h
      · exact hexprs (hv c hc) d h
      · exact hbody (hb c hc) d h
    · exact hbody (hoption hd) d h
  | «try» =>
    refine hbody fun s h => ?_
    grind
  | «return» span value hv => exact hexprs fun e he => hv e (Option.mem_toList.mp he)

theorem member_parts (hs : s.WellFormed .classBody) : ∀ d ∈ s.memberParts, d.WellFormed := by
  cases hs with
  | «variable» span decl _ hi =>
    intro d h
    obtain ⟨e, he, rfl⟩ := mem_map.mp h
    exact hi e (Option.mem_toList.mp he)
  | function decl _ hd => exact function_parts hd
  | «class» decl _ hb => exact forall_mem_singleton.mpr (.class decl .block hb)
  | enum decl _ hv => exact forall_mem_singleton.mpr (.enum decl .block hv)
  | property span decl hg hs =>
    intro d h
    obtain ⟨body, hb, rfl⟩ := mem_map.mp h
    rcases mem_append.mp hb with hb | hb
    · exact hg body (Option.mem_toList.mp hb)
    · exact hs body (Option.mem_toList.mp hb)

theorem parts (hc : c.WellFormed) : ∀ d ∈ c.parts, d.WellFormed := by
  cases c with
  | expr e => exact expr_parts hc
  | stmt s => exact stmt_parts hc
  | member s => exact member_parts hc
  | body b => simpa [Code.parts, WellFormed] using hc

theorem not_raises (hc : c.WellFormed) (f : Fault) : ¬ c.Raises f := by
  intro h
  cases h with
  | target span target op value ht | superTarget span target op value ht =>
    cases hc with
    | assign _ _ _ _ _ _ htarget => simp [ht] at htarget
  | property => nomatch hc
  | member stmt hs name => cases hc <;> cases hs

end Code.WellFormed

/-- The rule that a text can have given the code, if `C` holds. If not, it is no rule. -/
def Law.formed (C : Prop) : Law where
  code c := C → c.WellFormed
  fault f := C → f.isMalformed = false
  flow _ _ := True
  disk _ := True
  parts _ hc d hd h := (hc h).parts d hd
  raises _ hc f hf h := absurd hf ((hc h).not_raises f)
  loops _ _ _ _ _ _ _ := ⟨fun _ => rfl, fun _ => rfl⟩
  flows _ _ _ _ _ _ _ := trivial
  ordinary _ hf _ := (Bool.or_eq_false_iff.mp hf).1
  literal span value _ := .literal span value
  imports _ _ _ _ _ _ _ _ _ _ _ _ _ hparse _ := parseProgram_wellFormed hparse

instance : Coe Prop Law := ⟨Law.formed⟩

end ClassScript
