import ClassScript.Proofs.Pieces.Statement
import ClassScript.Run.Knot

/-!
# Requests to a Machine

Everything that a host can have a machine do, as data: running sources, modules and files, calling,
applying operators, comparing, finding texts, and importing.
-/

namespace ClassScript

variable {α : Type}

/-- What a host asks of a machine. -/
inductive Request where
  | source (text : String)
  | module (items : List Stmt)
  | file (path : String)
  | call (name : String) (arguments : List Value)
  | callValue (callee : Value) (arguments : Arguments) (span : Span)
  | operate (op : Operator) (left : Value) (rest : List Value) (span : Span)
  | compare (left right : Value)
  | stringify (v : Value)
  | display (v : Value)
  | serialize (v : Value)
  | importModule (path : String) (form : ImportForm)

inductive Reply where
  | value (v : Value)
  | order (order : Ordering)
  | text (text : String)
  | nothing

namespace Request

def perform (L : Level) : Request → Eval Reply
  | .source text => do return .value (← Hosting.evalSource L text)
  | .module items => do return .value (← Import.program L items)
  | .file path => do return .value (← Hosting.evalFile L path)
  | .call name arguments => do return .value (← Hosting.call L name arguments)
  | .callValue callee arguments span => do
    return .value (← Calling.value L callee arguments span)
  | .operate op left rest span => do return .value (← L.operate op left rest span)
  | .compare left right => do return .order (← Operation.compare L left right)
  | .stringify v => do return .text (← L.stringify v)
  | .display v => do return .text (← Printing.plain L v)
  | .serialize v => do return .text (← L.serialize [] v)
  | .importModule path form => do
    Import.run L path form
    return .nothing

def countdown : Request :=
  .source "fn f(n) \x7b if (n > 0) \x7b return f(n - 1); \x7d return n; \x7d f(2)"

def IsParsed : Request → Prop
  | .module items => ∃ text, parseProgram text = .ok items
  | _ => True

def Obeys (C : Law) : Request → Prop
  | .source text => ∀ items, parseProgram text = .ok items → C.code (.body items)
  | .module items => C.code (.body items)
  | .file path => C.file path
  | .importModule path form => C.code (.stmt (.importModule default path form))
  | _ => True

theorem perform_obeying {C : Law} (r : Request) (Γ : List Fact) (hr : r.Obeys C) :
    Built C (.here :: .inside :: Γ) fun L => r.perform L := by
  have hh : [.here, .inside] ⊆ .here :: .inside :: Γ := List.subset_append_left [_, _] Γ
  cases r with
  | source text => exact .bind (Hosting.evalSource_built text hh hr) fun _ => .pure _
  | module items => exact .bind (Import.program_built items hr hh) fun _ => .pure _
  | file path => exact .bind (Hosting.evalFile_built path hr hh) fun _ => .pure _
  | call name arguments => exact .bind (Hosting.call_built name arguments) fun _ => .pure _
  | callValue callee arguments span =>
    exact .bind (Calling.value_built callee arguments span) fun _ => .pure _
  | operate op left rest span => exact .bind (.operate op left rest span) fun _ => .pure _
  | compare left right => exact .bind (Operation.compare_built left right) fun _ => .pure _
  | stringify v => exact .bind (.stringify v) fun _ => .pure _
  | display v => exact .bind (Printing.plain_built v) fun _ => .pure _
  | serialize v => exact .bind (.serialize [] v) fun _ => .pure _
  | importModule path form =>
    exact .bind (Import.run_built path form hr List.mem_cons_self) fun _ => .pure _

theorem perform_checked {C : Prop} (r : Request) (Γ : List Fact) (hr : C → r.IsParsed) :
    Built C (.here :: .inside :: Γ) fun L => r.perform L := by
  refine r.perform_obeying Γ ?_
  cases r with
  | source => exact fun items hitems _ => parseProgram_wellFormed hitems
  | module =>
    intro h
    obtain ⟨text, htext⟩ := hr h
    exact parseProgram_wellFormed htext
  | file => exact fun _ _ _ _ _ hitems _ => parseProgram_wellFormed hitems
  | importModule path form => exact fun _ => .importModule default path form
  | _ => trivial

theorem perform_built (r : Request) (Γ : List Fact) :
    Built False (.here :: .inside :: Γ) fun L => r.perform L :=
  r.perform_checked Γ False.elim

end Request

theorem deepen_apply (n : Nat) (x : Eval α) (m : Machine) : deepen n x m = x m := by
  unfold deepen
  by_cases hn : n % stackStride = 0
  · rw [if_pos hn]; rfl
  · rw [if_neg hn]

theorem enter_apply (watch : Machine → Bool) (n : Nat) (x : Eval α) (m : Machine) :
    enter watch n x m = if watch m = true then .stopped m else x m := by
  unfold enter
  rw [deepen_apply]

theorem enter_done {watch : Machine → Bool} {n : Nat} {x : Eval α} {m m' : Machine}
    {a : α} (hrun : enter watch n x m = .done a m') : x m = .done a m' := by
  rw [enter_apply] at hrun
  split at hrun
  · cases hrun
  · exact hrun

theorem Invocation.checkDepth_apply (f : Overload) (span : Span) (m : Machine) :
    Invocation.checkDepth f span m =
      if m.registers.depth < m.config.maxDepth then .done () m
      else .failed (.fault (.depthExceeded m.config.maxDepth f.name) (some span) []) m := by
  change (if m.registers.depth < m.config.maxDepth then pure () else Eval.raise _ : Eval Unit) m = _
  by_cases h : m.registers.depth < m.config.maxDepth
  · rw [if_pos h, if_pos h]; rfl
  · rw [if_neg h, if_neg h]; rfl

end ClassScript
