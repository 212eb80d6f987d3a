import ClassScript.Proofs.Pieces.Operation

/-!
# Built-in Functions Are Built From Steps

What the members of the built-in classes do, the JSON5 writer and filler
included. Sorting takes its order as a computation, so it is built if the order
is.
-/

namespace ClassScript

open Eval

variable {C : Law} {Γ : List Fact}

namespace Sorting

variable {α : Type} {order : Level → α → α → Eval Ordering}

theorem mergeOnto_built (ho : ∀ x y, Built C Γ fun L => order L x y) (xs : List α) :
    ∀ ys merged, Built C Γ fun L => mergeOnto (order L) xs ys merged := by
  induction xs with
  | nil => intro ys merged; exact .pure _
  | cons x xs ih =>
    intro ys
    -- The second list is consumed while the first keeps its head.
    induction ys with
    | nil => intro merged; exact .pure _
    | cons y ys ihy =>
      intro merged
      simp only [mergeOnto, mergeHead_cons]
      refine .bind (ho x y) fun found => ?_
      cases found with
      | gt => exact ihy (y :: merged)
      | lt | eq => exact ih (y :: ys) (x :: merged)

theorem sortWithin_built (ho : ∀ x y, Built C Γ fun L => order L x y) (n : Nat) :
    ∀ xs, Built C Γ fun L => sortWithin (order L) n xs := by
  induction n with
  | zero => intro xs; exact .pure _
  | succ n ih =>
    intro xs
    refine .ite _ (.pure _) ?_
    refine .bind (ih _) fun left => ?_
    exact .bind (ih _) fun right => mergeOnto_built ho left right []

theorem sort_built (ho : ∀ x y, Built C Γ fun L => order L x y) (xs : List α) :
    Built C Γ fun L => sort (order L) xs :=
  sortWithin_built ho xs.length xs

end Sorting

namespace Writing

theorem members_built (id : ObjectId) (scope : ScopeId) :
    Built C Γ fun L => members L id scope := by
  refine .bind (.ask _) fun fields => ?_
  refine .bind (.ask _) fun names => ?_
  refine .bind (.mapList names fun name _ => ?_) fun _ => .pure _
  exact .bind (Member.get_built _ name _) fun _ => .pure _

theorem textEntries_built (entries : List (Value × Value)) :
    Built C Γ fun _ => textEntries entries := by
  induction entries with
  | nil => exact .pure _
  | cons entry rest ih =>
    rcases entry with ⟨key, v⟩
    cases key with
    | str key => exact .bind ih fun _ => .pure _
    | _ => exact .bind (.ask _) fun _ => .fail _ rfl

theorem object_built (outer : List ObjectId) (entries : List (String × Value)) :
    Built C Γ fun L => object L outer entries := by
  refine .bind (.mapList entries fun entry _ => ?_) fun _ => .pure _
  exact .bind (.serialize outer entry.2) fun _ => .pure _

theorem container_built {x : Level → List ObjectId → Eval String} (id : ObjectId)
    (outer : List ObjectId) (hx : ∀ outer, Built C Γ fun L => x L outer) :
    Built C Γ fun L => container id outer (x L) :=
  .ite _ (.bind (.ask _) fun _ => .fail _ rfl) (hx _)

theorem refuse_built (v : Value) : Built C Γ fun _ => refuse v :=
  .bind (.ask _) fun _ => .fail _ rfl

theorem writeObject_built (outer : List ObjectId) (id : ObjectId) :
    Built C Γ fun L => writeObject L outer id := by
  refine .bind (.ask _) fun payload => ?_
  cases payload with
  | range => exact .pure _
  | enumerator | host => exact refuse_built _
  | list =>
    refine container_built id outer fun outer => ?_
    exact .bind (.mapList _ fun v _ => .serialize outer v) fun _ => .pure _
  | dict =>
    refine container_built id outer fun outer => ?_
    exact .bind (textEntries_built _) fun found => object_built outer found
  | fields scope =>
    refine container_built id outer fun outer => ?_
    exact .bind (members_built id scope) fun found => object_built outer found

theorem write_built (outer : List ObjectId) (v : Value) : Built C Γ fun L => write L outer v := by
  cases v with
  | object id => exact writeObject_built outer id
  | function | type => exact refuse_built _
  | _ => exact .pure _

end Writing

namespace Filling

mutual

theorem build_built (j : Json) : Built C Γ fun _ => build j := by
  cases j with
  | array items => exact .bind (buildItems_built items) fun _ => newList_built _
  | object entries => exact .bind (buildEntries_built entries) fun _ => newDict_built _
  | _ => exact .pure _

theorem buildItems_built (items : List Json) : Built C Γ fun _ => buildItems items := by
  cases items with
  | nil => exact .pure _
  | cons j rest =>
    exact .bind (build_built j) fun _ => .bind (buildItems_built rest) fun _ => .pure _

theorem buildEntries_built (entries : List (String × Json)) :
    Built C Γ fun _ => buildEntries entries := by
  cases entries with
  | nil => exact .pure _
  | cons entry rest =>
    rcases entry with ⟨key, j⟩
    exact .bind (build_built j) fun _ => .bind (buildEntries_built rest) fun _ => .pure _

end

theorem convert_built (j : Json) (current : Value) : Built C Γ fun L => convert L j current := by
  unfold convert
  split
  · exact .pure _
  · exact .pure _
  · refine .bind (.ask _) fun found => ?_
    split
    · exact .deserialize _ _
    · exact build_built _

theorem fillMember_built (target : Value) (scope : ScopeId) (properties : List String)
    (entry : String × Json) (hs : .fieldsIn scope ∈ Γ) :
    Built C Γ fun L => fillMember L target scope properties entry := by
  refine .bind (.ask _) fun found => ?_
  cases found with
  | some v => exact .bind (convert_built _ _) fun _ => Member.assignSlot_built _ _ _ hs
  | none =>
    refine .ite _ ?_ (.pure _)
    refine .bind (Member.get_built _ _ _) fun current => ?_
    exact .bind (convert_built _ _) fun _ => Member.set_built _ _ _ _

theorem fill_built (j : Json) (c : ClassId) : Built C Γ fun L => fill L j c := by
  cases j with
  | object entries =>
    refine .bind (Calling.instantiate_built c) fun id => ?_
    refine .bind (.ask _) fun properties => ?_
    refine .find (.slots _) fun found _ => ?_
    cases found with
    | some scope =>
      refine .bind (.forList entries fun entry _ => ?_) fun _ => .pure _
      exact fillMember_built _ scope properties entry List.mem_cons_self
    | none => exact .pure _
  | _ => exact .bind (.ask _) fun _ => .fail _ rfl

end Filling

namespace Conversion

theorem orRefuse_built {α : Type} (v : Value) (target : String) (found : Option α) :
    Built C Γ fun _ => orRefuse v target found := by
  cases found with
  | some a => exact .pure _
  | none => exact .bind (.ask _) fun _ => .bind (.ask _) fun _ => .fail _ rfl

end Conversion

namespace Library

theorem object_built (f : ObjectNative) (c : Call) : Built C Γ fun L => object L f c := by
  cases f with
  | toString => exact .bind (Printing.plain_built _) fun _ => .pure _
  | equals => exact .bind (Operation.equal_built _ _) fun _ => .pure _
  | getType => exact .bind (.ask _) fun _ => .pure _

theorem onFloat_built (f : Binary64 → Binary64) (c : Call) : Built C Γ fun _ => onFloat f c :=
  .bind (Conversion.orRefuse_built _ _ _) fun _ => .pure _

theorem number_built (f : NumberNative) (c : Call) : Built C Γ fun _ => number f c := by
  cases f with
  | int | intParse | float | floatParse | isNaN | decimal | decimalAbs =>
    exact .bind (Conversion.orRefuse_built _ _ _) fun _ => .pure _
  | intAbs =>
    refine .bind (expectInt_built _) fun n => ?_
    exact .bind (orFail_built _ _ rfl) fun _ => .pure _
  | floor | ceiling | round | floatAbs | sqrt => exact onFloat_built _ c
  | decimalRound =>
    refine .bind (Conversion.orRefuse_built _ _ _) fun d => ?_
    exact .bind (expectInt_built _) fun _ => .pure _
  | bool => exact .bind (.ask _) fun _ => .pure _

theorem functionName_built (v : Value) : Built C Γ fun _ => functionName v := by
  cases v with
  | function id => exact .ask fun h => (h.callableAt id).name
  | _ => exact mismatch_built _ _

theorem reflection_built (f : ReflectionNative) (c : Call) : Built C Γ fun _ => reflection f c := by
  cases f with
  | typeName => exact .bind (expectType_built _) fun _ => .bind (.ask _) fun _ => .pure _
  | functionName => exact .bind (functionName_built _) fun _ => .pure _
  | isSubclassOf =>
    refine .bind (expectType_built _) fun id => ?_
    refine .bind (expectType_built _) fun other => ?_
    exact .bind (.ask _) fun _ => .pure _

theorem text_built (f : TextNative) (c : Call) : Built C Γ fun L => text L f c := by
  have hself {k : Level → String → Eval Value} (hk : ∀ s, Built C Γ fun L => k L s) :
      Built C Γ fun L => Eval.expectStr c.self >>= k L := .bind (expectStr_built _) hk
  have harg {k : Level → String → Eval Value} (i : Nat) (hk : ∀ s, Built C Γ fun L => k L s) :
      Built C Γ fun L => Eval.expectStr (c.arg i) >>= k L := .bind (expectStr_built _) hk
  cases f with
  | str => exact .bind (.stringify _) fun _ => .pure _
  | length | toUpper | toLower | trim => exact hself fun _ => .pure _
  | split => exact hself fun _ => harg 0 fun _ => newList_built _
  | contains | startsWith | endsWith => exact harg 0 fun _ => hself fun _ => .pure _
  | replace =>
    refine harg 0 fun part => harg 1 fun new => ?_
    exact .ite _ (.fail _ rfl) (hself fun _ => .pure _)
  | substring =>
    refine hself fun s => ?_
    refine .bind (expectInt_built _) fun start => ?_
    refine .bind (expectInt_built _) fun length => ?_
    exact .bind (ofExcept_built (substring_lawful _ _ _)) fun _ => .pure _
  | indexOf => exact hself fun _ => harg 0 fun _ => .pure _
  | getEnumerator => exact hself fun _ => newEnumerator_built _

theorem expectList_built (v : Value) : Built C Γ fun _ => expectList v := by
  refine .bind (.ask _) fun isList => ?_
  split
  · exact .pure _
  · exact mismatch_built _ _

theorem expectItems_built (v : Value) : Built C Γ fun _ => expectItems v := by
  refine .bind (.ask _) fun found => ?_
  cases found with
  | some items => exact .pure _
  | none => exact mismatch_built _ _

theorem expectSize_built (v : Value) : Built C Γ fun _ => expectSize v := by
  refine .bind (.ask _) fun found => ?_
  cases found with
  | some size => exact .pure _
  | none => exact mismatch_built _ _

theorem changeItems_built (id : ObjectId) (f : Array Value → Array Value) :
    Built C Γ fun _ => changeItems id f :=
  .change (.contents id _)

theorem changeSelf_built (v : Value) (f : Array Value → Array Value) (result : Value) :
    Built C Γ fun _ => (do
      changeItems (← expectList v) f
      return result : Eval Value) :=
  .bind (expectList_built v) fun id => .bind (changeItems_built id f) fun _ => .pure _

theorem position_built (c : Call) : Built C Γ fun L => position L c := by
  have hfrom (v : Value) (items : List Value) :
      ∀ i, Built C Γ fun L => positionFrom L v i items := by
    induction items with
    | nil => intro i; exact .pure _
    | cons item rest ih =>
      intro i
      exact .bind (Operation.equal_built item v) fun _ => .ite _ (.pure _) (ih (i + 1))
  exact .bind (expectItems_built _) fun items => hfrom _ _ 0

theorem list_built (f : ListNative) (c : Call) : Built C Γ fun L => list L f c := by
  cases f with
  | list => exact .bind (.ask _) fun _ => newList_built _
  | count => exact .bind (expectSize_built _) fun _ => .pure _
  | add | clear | reverse => exact changeSelf_built _ _ _
  | insert =>
    refine .bind (expectInt_built _) fun index => ?_
    refine .bind (expectSize_built _) fun size => ?_
    exact .bind (ofExcept_built (Operation.place_lawful _ _)) fun _ => changeSelf_built _ _ _
  | removeAt =>
    refine .bind (expectInt_built _) fun index => ?_
    refine .bind (expectSize_built _) fun size => ?_
    refine .bind (ofExcept_built (Operation.place_lawful _ _)) fun i => ?_
    exact .bind (.ask _) fun _ => changeSelf_built _ _ _
  | remove =>
    refine .bind (position_built c) fun found => ?_
    cases found with
    | some i => exact changeSelf_built _ _ _
    | none => exact .pure _
  | contains => exact .bind (position_built c) fun _ => .pure _
  | indexOf =>
    refine .bind (position_built c) fun found => ?_
    cases found <;> exact .pure _
  | copy => exact .bind (expectItems_built _) fun _ => newList_built _
  | sort =>
    refine .bind (expectItems_built _) fun items => ?_
    refine .bind (Sorting.sort_built Operation.compare_built _) fun sorted => ?_
    exact changeSelf_built _ _ _
  | join =>
    refine .bind (expectStr_built _) fun separator => ?_
    refine .bind (expectItems_built _) fun items => ?_
    exact .bind (.mapList _ fun v _ => .stringify v) fun _ => .pure _
  | getEnumerator =>
    simp only [list]
    split
    · exact newEnumerator_built _
    · exact mismatch_built _ _

theorem expectDict_built (v : Value) : Built C Γ fun _ => expectDict v := by
  refine .bind (.ask _) fun found => ?_
  split
  · exact .pure _
  · exact mismatch_built _ _

theorem setEntries_built (id : ObjectId) (entries : Entries) :
    Built C Γ fun _ => setEntries id entries :=
  .change (.contents id _)

theorem dict_built (f : DictNative) (c : Call) : Built C Γ fun _ => dict f c := by
  cases f with
  | dict => exact newDict_built _
  | count | containsKey | get => exact .bind (expectDict_built _) fun _ => .pure _
  | keys | values => exact .bind (expectDict_built _) fun _ => newList_built _
  | remove | clear =>
    refine .bind (expectDict_built _) fun found => ?_
    exact .bind (setEntries_built _ _) fun _ => .pure _
  | copy => exact .bind (expectDict_built _) fun _ => newDict_built _
  | getEnumerator => exact .bind (expectDict_built _) fun _ => newEnumerator_built _

theorem expectRange_built (v : Value) : Built C Γ fun _ => expectRange v := by
  refine .bind (.ask _) fun found => ?_
  cases found with
  | some r => exact .pure _
  | none => exact mismatch_built _ _

theorem expectEnumerator_built (v : Value) : Built C Γ fun _ => expectEnumerator v := by
  refine .bind (.ask _) fun found => ?_
  cases found with
  | some state => exact .pure _
  | none => exact mismatch_built _ _

theorem newRange_built (c : Call) : Built C Γ fun _ => newRange c := by
  refine .bind (expectInt_built _) fun first => ?_
  refine .bind (expectInt_built _) fun last => ?_
  refine .bind (expectInt_built _) fun step => ?_
  exact .ite _ (.fail _ rfl) (Eval.newRange_built _)

theorem sequence_built (f : SequenceNative) (c : Call) : Built C Γ fun _ => sequence f c := by
  cases f with
  | range => exact newRange_built c
  | start | stop | step | count | contains => exact .bind (expectRange_built _) fun _ => .pure _
  | getEnumerator => exact .bind (expectRange_built _) fun _ => newEnumerator_built _
  | current => exact .bind (expectEnumerator_built _) fun _ => Enumeration.current_built _
  | moveNext =>
    refine .bind (expectEnumerator_built _) fun state => ?_
    exact .bind (Enumeration.move_built _ _) fun _ => .pure _
  | reset =>
    refine .bind (expectEnumerator_built _) fun state => ?_
    exact .bind (.change (.contents _ _)) fun _ => .pure _
  | itself => exact .pure _

theorem exception_built (f : ExceptionNative) (c : Call) : Built C Γ fun L => exception L f c := by
  cases f with
  | construct =>
    refine .bind (.find (.slots _) fun found _ => ?_) fun _ => .pure _
    cases found with
    | some scope => exact Member.assignSlot_built _ _ _ List.mem_cons_self
    | none => exact .pure _
  | toString =>
    refine .bind (.bind (.ask _) fun found => ?_) fun _ => .bind (.ask _) fun _ => .pure _
    cases found with
    | some message => exact .stringify _
    | none => exact .pure _

theorem json_built (f : JsonNative) (c : Call) : Built C Γ fun L => json L f c := by
  cases f with
  | serialize => exact .bind (.serialize _ _) fun _ => .pure _
  | parse =>
    refine .bind (expectStr_built _) fun text => ?_
    exact .bind (ofExcept_built (Json.parse_lawful _)) fun _ => Filling.build_built _
  | deserialize =>
    refine .bind (expectStr_built _) fun text => ?_
    refine .bind (expectType_built _) fun type => ?_
    refine .bind (.ask _) fun info => ?_
    exact .ite _ (.bind (ofExcept_built (Json.parse_lawful _)) fun _ => .deserialize _ _)
      (.fail _ rfl)

theorem printValues_built (c : Call) (ending : String) :
    Built C Γ fun L => printValues L c ending := by
  refine .bind (.ask _) fun values => ?_
  refine .bind (.mapList _ fun v _ => .stringify v) fun parts => ?_
  exact .bind (.print _) fun _ => .pure _

theorem global_built (f : GlobalNative) (c : Call) : Built C Γ fun L => global L f c := by
  cases f with
  | print | println => exact printValues_built c _
  | typeof => exact .bind (.ask _) fun _ => .pure _
  | len =>
    refine .bind (.ask _) fun found => ?_
    cases found with
    | some n => exact .pure _
    | none => exact .bind (.ask _) fun _ => .fail _ rfl

theorem tally_built (id : ObjectId) (count : Int64) (method : String) (arguments : List Value) :
    Built C Γ fun L => tally L id count method arguments := by
  have hadd (amount : Int64) : Built C Γ fun _ => (do
      Eval.change (·.setPayload id (.host (.tally (count + amount))))
      return .int (count + amount) : Eval Value) :=
    .bind (.change (.contents _ _)) fun _ => .pure _
  unfold tally
  split
  · cases arguments.head? with
    | some v => exact .bind (expectInt_built v) hadd
    | none => exact .bind (.pure _) hadd
  · exact newList_built _
  · exact Calling.value_built _ _ _
  · exact .pure _
  · exact .fail _ rfl

theorem host_built (id : ObjectId) (method : String) (c : Call) :
    Built C Γ fun L => host L id method c := by
  refine .bind (.ask _) fun arguments => ?_
  refine .bind (.ask _) fun found => ?_
  split
  · exact tally_built _ _ _ _
  · exact .fail _ rfl
  · exact .pure _

theorem run_built (f : Native) (c : Call) : Built C Γ fun L => run L f c := by
  cases f with
  | object f => exact object_built f c
  | number f => exact number_built f c
  | text f => exact text_built f c
  | reflection f => exact reflection_built f c
  | list f => exact list_built f c
  | dict f => exact dict_built f c
  | sequence f => exact sequence_built f c
  | exception f => exact exception_built f c
  | json f => exact json_built f c
  | global f => exact global_built f c
  | host object method => exact host_built object method c

end Library

end ClassScript
