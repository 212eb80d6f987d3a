import ClassScript.Proofs.Pieces.Member

/-!
# Printing and Operators Are Built From Steps

The pieces of the evaluator that find the text of a value, move enumerators, and apply operators.
-/

namespace ClassScript

open Eval

variable {C : Law} {Γ : List Fact}

namespace Printing

theorem guarded_built {α : Type} {x : Level → Eval α} (id : ObjectId) (hx : Built C Γ x) :
    Built C Γ fun L => guarded id (x L) := by
  refine .bind (.read _ fun _ _ => rfl) fun walking => ?_
  refine .ite _ (.pure _) ?_
  refine .bind (.bracket _ _ ?_ ?_ ?_ (.inl ?_) hx) fun _ => .pure _
  all_goals intro r; rfl

theorem listBody_built (items : List Value) : Built C Γ fun L => listBody L items :=
  .bind (.mapList items fun v _ => .stringify v) fun _ => .pure _

theorem entryText_built (entry : Value × Value) : Built C Γ fun L => entryText L entry :=
  .bind (.stringify _) fun _ => .bind (.stringify _) fun _ => .pure _

theorem dictBody_built (entries : List (Value × Value)) : Built C Γ fun L => dictBody L entries :=
  .bind (.mapList entries fun entry _ => entryText_built entry) fun _ => .pure _

theorem ownText_built (v : Value) : Built C Γ fun L => ownText L v := by
  refine .bind (Member.call_built v _ _) fun text => ?_
  cases text with
  | str s => exact .pure _
  | _ => exact .ask _

theorem objectText_built (id : ObjectId) : Built C Γ fun L => objectText L id := by
  refine .bind (.ask _) fun payload => ?_
  cases payload with
  | list => exact .bind (guarded_built id (listBody_built _)) fun _ => .pure _
  | dict => exact .bind (guarded_built id (dictBody_built _)) fun _ => .pure _
  | fields =>
    refine .bind (.ask _) fun builtin => ?_
    exact .ite _ (.ask _) (ownText_built _)
  | _ => exact .ask _

theorem stringify_built (v : Value) : Built C Γ fun L => stringify L v := by
  cases v with
  | object id => exact objectText_built id
  | _ => exact .ask fun h => h.display _

theorem plain_built (v : Value) : Built C Γ fun L => plain L v := by
  cases v with
  | object id =>
    refine .bind (.ask _) fun builtin => ?_
    exact .ite _ (.stringify _) (.ask _)
  | _ => exact .stringify _

end Printing

namespace Enumeration

theorem current_built (e : Enumerator) : Built C Γ fun _ => current e := by
  unfold current
  split
  · exact .ask _
  · split
    · exact newList_built _
    · exact .pure _
  · split <;> exact .pure _
  · split <;> exact .pure _
  · exact .pure _

theorem move_built (id : ObjectId) (e : Enumerator) : Built C Γ fun _ => move id e := by
  refine .bind (.ask _) fun moved => ?_
  exact .bind (.change (.contents id _)) fun _ => .pure _

end Enumeration

namespace Operation

theorem operand_built (rest : List Value) : Built C Γ fun _ => operand rest := by
  cases rest with
  | nil => exact .fail _ rfl
  | cons v more => exact .pure _

theorem operands_built (rest : List Value) : Built C Γ fun _ => operands rest := by
  unfold operands
  split
  · exact .pure _
  · exact .fail _ rfl

theorem equal_built (a b : Value) : Built C Γ fun L => equal L a b :=
  .bind (.operate _ _ _ _) fun _ => .ask _

theorem compare_built (a b : Value) : Built C Γ fun L => compare L a b := by
  unfold compare
  split
  · exact .pure _
  · refine .bind (.operate _ _ _ _) fun less => ?_
    refine .bind (.ask _) fun isLess => ?_
    refine .ite _ (.pure _) ?_
    refine .bind (.operate _ _ _ _) fun greater => ?_
    exact .bind (.ask _) fun isGreater => .ite _ (.pure _) (.pure _)

theorem numberOrder_built (a b : Value) : Built C Γ fun _ => numberOrder a b := by
  unfold numberOrder
  split
  · exact ofExcept_built (Numeral.order?_lawful _ _)
  · exact .bind (.ask _) fun _ => .bind (.ask _) fun _ => .fail _ rfl

theorem numberEqual_built (a b : Value) : Built C Γ fun _ => numberEqual a b :=
  .ite _ (.pure _) (.bind (numberOrder_built a b) fun _ => .pure _)

theorem arithmetic_built (op : Operator) (a b : Value) : Built C Γ fun _ => arithmetic op a b := by
  unfold arithmetic
  split
  · exact ofExcept_built (Numeral.arithmetic_lawful _ _ _)
  · exact .bind (.ask _) fun _ => .bind (.ask _) fun _ => .fail _ rfl

theorem number_built (op : Operator) (left : Value) (rest : List Value) :
    Built C Γ fun _ => number op left rest := by
  unfold number
  split
  · split
    · exact ofExcept_built (Numeral.negate_lawful _)
    · exact .bind (.ask _) fun _ => .fail _ rfl
  · exact .pure _
  · exact .bind (operand_built rest) fun v => .bind (numberEqual_built left v) fun _ => .pure _
  · exact .bind (operand_built rest) fun v => .bind (numberEqual_built left v) fun _ => .pure _
  · exact .bind (operand_built rest) fun v => .bind (numberOrder_built left v) fun _ => .pure _
  · exact .bind (operand_built rest) fun v => .bind (numberOrder_built left v) fun _ => .pure _
  · exact .bind (operand_built rest) fun v => .bind (numberOrder_built left v) fun _ => .pure _
  · exact .bind (operand_built rest) fun v => .bind (numberOrder_built left v) fun _ => .pure _
  · exact .bind (operand_built rest) fun v => arithmetic_built op left v

theorem expectBool_built (v : Value) : Built C Γ fun _ => expectBool v := by
  cases v with
  | bool b => exact .pure _
  | _ => exact mismatch_built _ _

theorem bool_built (op : Operator) (left : Value) (rest : List Value) :
    Built C Γ fun _ => bool op left rest := by
  have hsecond : Built C Γ fun _ => (do
      return .bool (← expectBool (← operand rest)) : Eval Value) :=
    .bind (operand_built rest) fun v => .bind (expectBool_built v) fun _ => .pure _
  unfold bool
  split
  · exact .bind (expectBool_built left) fun _ => .pure _
  · exact .bind (expectBool_built left) fun _ => .ite _ hsecond (.pure _)
  · exact .bind (expectBool_built left) fun _ => .ite _ (.pure _) hsecond
  all_goals exact .bind (operand_built rest) fun _ => .pure _

theorem repeatCount_built (count : Value) (size : Nat) :
    Built C Γ fun _ => repeatCount count size := by
  refine .bind (expectInt_built count) fun n => ?_
  exact .ite _ (.fail _ rfl) (.ite _ (.fail _ rfl) (.pure _))

theorem textOrder_built (left right : Value) : Built C Γ fun _ => textOrder left right := by
  refine .bind (expectStr_built left) fun a => ?_
  cases right with
  | str b => exact .pure _
  | _ => exact .bind (.ask _) fun _ => .fail _ rfl

theorem text_built (op : Operator) (left : Value) (rest : List Value) :
    Built C Γ fun _ => text op left rest := by
  unfold text
  split
  · exact .bind (operand_built rest) fun _ => .pure _
  · exact .bind (operand_built rest) fun _ => .pure _
  · refine .bind (expectStr_built left) fun s => ?_
    refine .bind (operand_built rest) fun count => ?_
    exact .bind (repeatCount_built count _) fun _ => .pure _
  · refine .bind (expectStr_built left) fun s => ?_
    refine .bind (operand_built rest) fun v => ?_
    refine .bind (expectInt_built v) fun index => ?_
    exact .bind (ofExcept_built (place_lawful _ _)) fun _ => .pure _
  · exact .bind (operand_built rest) fun v => .bind (textOrder_built left v) fun _ => .pure _

theorem allEqual_built (pairs : List (Value × Value)) : Built C Γ fun L => allEqual L pairs := by
  induction pairs with
  | nil => exact .pure _
  | cons pair rest ih => exact .bind (equal_built pair.1 pair.2) fun _ => .ite _ ih (.pure _)

theorem comparing_built {x : Level → Eval Bool} (left right : Value) (hx : Built C Γ x) :
    Built C Γ fun L => comparing left right (x L) := by
  cases left with
  | object id => exact .bind (Printing.guarded_built id hx) fun _ => .pure _
  | _ => exact .pure _

theorem listsEqual_built (left right : Value) : Built C Γ fun L => listsEqual L left right := by
  refine .bind (.ask _) fun xs => ?_
  refine .bind (.ask _) fun ys => ?_
  split
  · exact .ite _ (comparing_built left right (allEqual_built _)) (.pure _)
  · exact .pure _

theorem entriesEqual_built (others : Entries) (entries : List (Value × Value)) :
    Built C Γ fun L => entriesEqual L others entries := by
  induction entries with
  | nil => exact .pure _
  | cons entry rest ih =>
    simp only [entriesEqual]
    cases others.find? entry.1 with
    | none => exact .pure _
    | some w => exact .bind (equal_built _ _) fun _ => .ite _ ih (.pure _)

theorem dictsEqual_built (left right : Value) : Built C Γ fun L => dictsEqual L left right := by
  refine .bind (.ask _) fun xs => ?_
  refine .bind (.ask _) fun ys => ?_
  split
  · exact .ite _ (comparing_built left right (entriesEqual_built _ _)) (.pure _)
  · exact .pure _

theorem list_built (op : Operator) (left : Value) (rest : List Value) :
    Built C Γ fun L => list L op left rest := by
  unfold list
  split
  · refine .bind (operand_built rest) fun right => ?_
    refine .bind (.ask _) fun xs => ?_
    refine .bind (.ask _) fun ys => ?_
    split
    · exact newList_built _
    · exact .bind (.ask _) fun _ => .fail _ rfl
  · refine .bind (.ask _) fun xs => ?_
    refine .bind (operand_built rest) fun count => ?_
    exact .bind (repeatCount_built count _) fun _ => newList_built _
  · refine .bind (operand_built rest) fun v => ?_
    refine .bind (expectInt_built v) fun index => ?_
    refine .bind (.ask _) fun items => ?_
    split
    · exact .bind (ofExcept_built (place_lawful _ _)) fun _ => .pure _
    · exact .fail _ rfl
  · refine .bind (operands_built rest) fun pair => ?_
    refine .bind (expectInt_built pair.1) fun index => ?_
    refine .bind (.ask _) fun size => ?_
    split
    · refine .bind (ofExcept_built (place_lawful _ _)) fun i => ?_
      exact .bind (.change (.contents _ _)) fun _ => .pure _
    · exact .fail _ rfl
  all_goals
    exact .bind (operand_built rest) fun v => .bind (listsEqual_built left v) fun _ => .pure _

theorem dict_built (op : Operator) (left : Value) (rest : List Value) :
    Built C Γ fun L => dict L op left rest := by
  unfold dict
  split
  · refine .bind (operand_built rest) fun key => ?_
    refine .bind (.ask _) fun found => ?_
    split
    · exact .pure _
    · exact .bind (.stringify key) fun _ => .fail _ rfl
  · refine .bind (operands_built rest) fun pair => ?_
    refine .bind (.ask _) fun isDict => ?_
    split
    · exact .bind (.change (.contents _ _)) fun _ => .pure _
    · exact .fail _ rfl
  all_goals
    exact .bind (operand_built rest) fun v => .bind (dictsEqual_built left v) fun _ => .pure _

theorem native_built (family : OperatorFamily) (op : Operator) (left : Value)
    (rest : List Value) : Built C Γ fun L => native L family op left rest := by
  cases family with
  | object => exact .bind (operand_built rest) fun _ => .pure _
  | number => exact number_built op left rest
  | bool => exact bool_built op left rest
  | null => exact .pure _
  | str => exact text_built op left rest
  | list => exact list_built op left rest
  | dict => exact dict_built op left rest
  | range =>
    refine .bind (operand_built rest) fun right => ?_
    exact .bind (.ask _) fun _ => .bind (.ask _) fun _ => .pure _
  | function =>
    refine .bind (operand_built rest) fun right => ?_
    exact .bind (.ask _) fun _ => .pure _

theorem script_built (symbol : String) (left : Value) (rest : List Value) (span : Span) :
    Built C Γ fun L => script L symbol left rest span := by
  refine .bind (.ask _) fun c => ?_
  refine .bind (.ask _) fun found => ?_
  split
  · exact .pure _
  · exact .pure _
  · exact .bind (Calling.family_built _ _ _ _ _) fun _ => .pure _

theorem scriptUnequal_built (left : Value) (rest : List Value) (span : Span) :
    Built C Γ fun L => scriptUnequal L left rest span := by
  refine .bind (script_built _ left rest span) fun found => ?_
  cases found with
  | some result => exact .bind (.ask _) fun _ => .pure _
  | none => exact .pure _

theorem concatenation_built (left right : Value) : Built C Γ fun L => concatenation L left right :=
  .ite _ (.bind (.stringify _) fun _ => .bind (.stringify _) fun _ => .pure _) (.pure _)

theorem builtin_built (op : Operator) (left : Value) (rest : List Value) :
    Built C Γ fun L => builtin L op left rest := by
  refine .bind (.ask _) fun c => ?_
  refine .bind (.ask _) fun found => ?_
  cases found with
  | some family => exact native_built family op left rest
  | none => exact .bind (.ask _) fun _ => .fail _ rfl

theorem dispatch_built (op : Operator) (left : Value) (rest : List Value) (span : Span) :
    Built C Γ fun L => dispatch L op left rest span := by
  refine .bind (script_built _ left rest span) fun found => ?_
  cases found with
  | some result => exact .pure _
  | none =>
    dsimp only
    split
    · refine .bind (scriptUnequal_built left _ span) fun found => ?_
      cases found with
      | some result => exact .pure _
      | none => exact builtin_built _ _ _
    · refine .bind (concatenation_built left _) fun found => ?_
      cases found with
      | some result => exact .pure _
      | none => exact builtin_built _ _ _
    · exact builtin_built _ _ _

theorem apply_built (op : Operator) (left : Value) (rest : List Value) (span : Span) :
    Built C Γ fun L => apply L op left rest span := by
  unfold apply
  cases nullEquality op left rest with
  | some result => exact .pure _
  | none => exact dispatch_built op left rest span

end Operation

end ClassScript
