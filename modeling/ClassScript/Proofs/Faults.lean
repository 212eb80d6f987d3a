import ClassScript.Json5.Reader
import ClassScript.Library.Text
import ClassScript.Run.Operation

/-!
# Faults of the Shape of Trees

Four faults say that a tree has a shape that no text gives, and two that `break` or `continue`
stands where there is no loop to leave. No pure function of the library ends in one of them.
-/

namespace ClassScript

def Fault.isMalformed : Fault → Bool
  | .invalidTarget | .assignThroughSuper | .propertyOutsideClass _ | .unexpectedMember _ => true
  | _ => false

def Failure.isMalformed : Failure → Bool
  | .fault f _ _ => f.isMalformed
  | _ => false

def Fault.isLoopControl : Fault → Bool
  | .loopControlAtTop | .loopControlInFunction => true
  | _ => false

def Fault.isStructural (f : Fault) : Bool :=
  f.isMalformed || f.isLoopControl

def Failure.fault? : Failure → Option Fault
  | .fault f _ _ => some f
  | _ => none

def Lawful {α : Type} (x : Except Fault α) : Prop :=
  ∀ f, x = .error f → f.isStructural = false

namespace Lawful

variable {α β : Type} {x : Except Fault α}

theorem ok (a : α) : Lawful (.ok a) := fun _ h => nomatch h

theorem error {f : Fault} (hf : f.isStructural = false) : Lawful (.error f : Except Fault α) := by
  intro g hg
  cases hg
  exact hf

theorem bind {k : α → Except Fault β} (hx : Lawful x)
    (hk : ∀ a, Lawful (k a)) : Lawful (x >>= k) := by
  cases x with
  | ok a => exact hk a
  | error f => exact error (hx f rfl)

theorem ite {c : Prop} [Decidable c] {y : Except Fault α} (hx : Lawful x) (hy : Lawful y) :
    Lawful (if c then x else y) := by
  split
  · exact hx
  · exact hy

end Lawful

namespace Numeral

theorem raise_lawful (rank : Nat) (a : Numeral) : Lawful (a.raise rank) := by
  cases a with
  | int | decimal => exact .ok _
  | float =>
    refine .ite (.ok _) ?_
    split
    · exact .ok _
    · exact .error rfl

theorem promote_lawful (a b : Numeral) : Lawful (promote a b) :=
  .bind (raise_lawful _ a) fun _ => .bind (raise_lawful _ b) fun _ => .ok _

theorem fitting_lawful {α : Type} (op : Operator) (wrap : α → Value) (found : Option α) :
    Lawful (fitting op wrap found) := by
  cases found with
  | some a => exact .ok _
  | none => exact .error rfl

theorem sameKind_lawful (op : Operator) (a b : Numeral) : Lawful (sameKind op a b) := by
  unfold sameKind
  split
  · exact fitting_lawful _ _ _
  · exact .ok _
  · exact fitting_lawful _ _ _
  · exact .error rfl

theorem arithmetic_lawful (op : Operator) (a b : Numeral) : Lawful (arithmetic op a b) :=
  .bind (promote_lawful a b) fun _ => .ite (.error rfl) (sameKind_lawful op _ _)

theorem order?_lawful (a b : Numeral) : Lawful (order? a b) :=
  .bind (promote_lawful a b) fun _ => .ok _

theorem negate_lawful (a : Numeral) : Lawful a.negate := by
  cases a with
  | int => exact fitting_lawful _ _ _
  | float | decimal => exact .ok _

end Numeral

theorem Operation.place_lawful (length : Nat) (index : Int64) :
    Lawful (Operation.place length index) :=
  .ite (.error rfl) (.ok _)

theorem Library.substring_lawful (cs : List Char) (start length : Int64) :
    Lawful (Library.substring cs start length) :=
  .ite (.error rfl) (.ite (.ok _) (.ite (.error rfl) (.ok _)))

namespace Json

namespace Reader

variable {item : Reader → Result (Json × Reader)}

theorem refuse_lawful {α : Type} (r : Reader) (problem : JsonProblem) :
    Lawful (r.refuse problem : Result α) :=
  .error rfl

theorem expect_lawful (c : Char) (r : Reader) : Lawful (r.expect c) :=
  .ite (.ok _) (r.refuse_lawful _)

theorem skip_lawful (gap : Gap) (p : Place) (cs : List Char) : Lawful (skip gap p cs) := by
  fun_induction skip gap p cs <;> first | assumption | exact .ok _ | exact .error rfl

theorem trivia_lawful (r : Reader) : Lawful r.trivia := skip_lawful _ _ _

theorem code_lawful (r : Reader) : Lawful r.code := by
  unfold code
  split
  · exact r.refuse_lawful _
  · split
    · exact .ok _
    · exact r.refuse_lawful _

theorem pointed_lawful (n : Nat) (problem : JsonProblem) (r : Reader) :
    Lawful (pointed n problem r) := by
  unfold pointed
  split
  · exact .ok _
  · exact r.refuse_lawful _

theorem codeEscape_lawful (r : Reader) : Lawful r.codeEscape := by
  refine .bind r.code_lawful fun high => .ite ?_ (pointed_lawful _ _ _)
  exact .bind (code_lawful _) fun low => pointed_lawful _ _ _

theorem escape_lawful (r : Reader) : Lawful r.escape := by
  unfold escape
  split
  · exact r.refuse_lawful _
  · exact .bind (codeEscape_lawful _) fun _ => .ok _
  all_goals exact .ok _

theorem stringBody_lawful (quote : Char) (n : Nat) :
    ∀ read r, Lawful (stringBody quote n read r) := by
  induction n with
  | zero => exact fun _ r => r.refuse_lawful _
  | succ n ih =>
    intro read r
    unfold stringBody
    split
    · exact r.refuse_lawful _
    · refine .ite (.ok _) (.ite ?_ (.ite (refuse_lawful _ _) (ih _ _)))
      split
      · exact ih _ _
      · next hescape => exact .error (escape_lawful _ _ hescape)

theorem string_lawful (quote : Char) (r : Reader) : Lawful (r.string quote) :=
  .bind (expect_lawful quote r) fun _ => stringBody_lawful quote _ _ _

theorem exponent_lawful (r : Reader) : Lawful r.exponent := by
  unfold exponent
  split
  · exact .ite (.ite (refuse_lawful _ _) (.ok _)) (.ok _)
  · exact .ok _

theorem numeral_lawful (spelling : List Char) (isFloat : Bool) (r : Reader) :
    Lawful (numeral spelling isFloat r) := by
  unfold numeral
  split
  · exact .ok _
  · split
    · exact .ok _
    · exact r.refuse_lawful _

theorem number_lawful (r : Reader) : Lawful r.number := by
  have hhex (negative : Bool) (r : Reader) : Lawful (hexadecimal negative r) := by
    unfold hexadecimal
    dsimp only
    split
    · exact .ok _
    · exact refuse_lawful _ _
  have hdecimal (negative : Bool) (r : Reader) : Lawful (decimal negative r) :=
    .bind (exponent_lawful _) fun _ => .ite (refuse_lawful _ _) (numeral_lawful _ _ _)
  exact .ite (.ok _) (.ite (.ok _) (.ite (hhex _ _) (hdecimal _ _)))

theorem word_lawful (r : Reader) : Lawful r.word := by
  unfold word
  dsimp only
  split
  · exact .ok _
  · exact .ok _
  · exact .ok _
  · exact refuse_lawful _ _

theorem key_lawful (r : Reader) : Lawful r.key := by
  unfold key
  split
  · exact r.string_lawful _
  · exact r.string_lawful _
  · exact .ite (.ok _) (r.refuse_lawful _)
  · exact r.refuse_lawful _

theorem items_lawful (hitem : ∀ r, Lawful (item r))
    (n : Nat) : ∀ read r, Lawful (items item n read r) := by
  induction n with
  | zero => exact fun _ r => r.refuse_lawful _
  | succ n ih =>
    intro read r
    refine .bind r.trivia_lawful fun r => .ite (.ok _) (.bind (hitem r) fun found => ?_)
    refine .bind (trivia_lawful _) fun r => .ite (ih _ _) ?_
    exact .bind (expect_lawful _ r) fun _ => .ok _

theorem entries_lawful (hitem : ∀ r, Lawful (item r))
    (n : Nat) : ∀ read r, Lawful (entries item n read r) := by
  induction n with
  | zero => exact fun _ r => r.refuse_lawful _
  | succ n ih =>
    intro read r
    refine .bind r.trivia_lawful fun r => .ite (.ok _) (.bind r.key_lawful fun name => ?_)
    refine .bind (trivia_lawful _) fun r => .bind (expect_lawful _ r) fun r => ?_
    refine .bind (trivia_lawful _) fun r => .bind (hitem r) fun found => ?_
    refine .bind (trivia_lawful _) fun r => .ite (ih _ _) ?_
    exact .bind (expect_lawful _ r) fun _ => .ok _

theorem value_lawful (room : Nat) : ∀ r, Lawful (value room r) := by
  induction room with
  | zero =>
    intro r
    unfold value
    split
    · exact r.refuse_lawful _
    · exact r.refuse_lawful _
    · exact .bind (r.string_lawful _) fun _ => .ok _
    · exact .bind (r.string_lawful _) fun _ => .ok _
    · exact .ite r.number_lawful (.ite r.word_lawful (r.refuse_lawful _))
    · exact r.refuse_lawful _
  | succ room ih =>
    intro r
    unfold value
    split
    · exact items_lawful ih _ _ _
    · exact entries_lawful ih _ _ _
    · exact .bind (r.string_lawful _) fun _ => .ok _
    · exact .bind (r.string_lawful _) fun _ => .ok _
    · exact .ite r.number_lawful (.ite r.word_lawful (r.refuse_lawful _))
    · exact r.refuse_lawful _

end Reader

theorem parse_lawful (text : String) : Lawful (parse text) := by
  refine .bind (Reader.trivia_lawful _) fun r => .bind (Reader.value_lawful _ r) fun found => ?_
  exact .bind (Reader.trivia_lawful _) fun r => .ite (.ok _) (Reader.refuse_lawful r _)

end Json

end ClassScript
