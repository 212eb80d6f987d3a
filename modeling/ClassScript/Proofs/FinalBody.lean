import ClassScript.Proofs.Linking

/-!
# The Final Body of a Guarded Body

`Ends` lists the ways through a guarded body and its handlers after which the final body is run
once, where they left the machine; it may replace the outcome that waits. `Escapes` lists the
other ways, on which the final body makes no difference.
-/

namespace ClassScript

def Failure.isCatchable : Failure → Bool
  | .thrown _ _ _ _ => true
  | .fault f _ _ => !f.kind.isFatal
  | .syntactic _ _ | .file _ => false

/-- The way out of a final body if it has one, and otherwise the outcome that waited. -/
def Outcome.replaced (pending : Except Failure Flow) : Outcome Flow → Outcome Flow
  | .done .next m => Eval.resume pending m
  | .done (.value _) m => Eval.resume pending m
  | o => o

namespace Statement

variable {e : Failure} {v : Value} {clause : CatchClause} {m₂ : Machine}

inductive Offers (L : Level) (body : List Stmt) (m : Machine) :
    Failure → Value → Machine → Prop
  | intro {e : Failure} {v : Value} {m₁ m₂ : Machine} (hb : block L body m = .failed e m₁)
      (hv : caughtValue L e m₁ = .done (some v) m₂) : Offers L body m e v m₂

/-- How a guarded body and its handlers end, and at which machine, before the final
    body. -/
inductive Ends (L : Level) (body : List Stmt) (handlers : List CatchClause) (m : Machine) :
    Except Failure Flow → Machine → Prop
  | body {flow : Flow} {m₁ : Machine} (hb : block L body m = .done flow m₁) :
      Ends L body handlers m (.ok flow) m₁
  | unhandled {e : Failure} {v : Value} {m₁ m₂ : Machine} (ho : Offers L body m e v m₁)
      (hs : handlerFor v handlers m₁ = .done none m₂) : Ends L body handlers m (.error e) m₂
  | handled {e : Failure} {v : Value} {clause : CatchClause} {flow : Flow} {m₁ m₂ m₃ : Machine}
      (ho : Offers L body m e v m₁) (hs : handlerFor v handlers m₁ = .done (some clause) m₂)
      (hh : blockWith L clause.binding v clause.body m₂ = .done flow m₃) :
      Ends L body handlers m (.ok flow) m₃
  | handlerFails {e e' : Failure} {v : Value} {clause : CatchClause} {m₁ m₂ m₃ : Machine}
      (ho : Offers L body m e v m₁) (hs : handlerFor v handlers m₁ = .done (some clause) m₂)
      (hh : blockWith L clause.binding v clause.body m₂ = .failed e' m₃)
      (he : e'.isFatal = false) : Ends L body handlers m (.error e') m₃

/-- How a guarded body or its handlers fail, and at which machine, if nothing waits for
    the final body. -/
inductive Escapes (L : Level) (body : List Stmt) (handlers : List CatchClause) (m : Machine) :
    Failure → Machine → Prop
  | uncaught {e : Failure} {m₁ : Machine} (hb : block L body m = .failed e m₁)
      (he : e.isCatchable = false) : Escapes L body handlers m e m₁
  | unmade {e e' : Failure} {m₁ m₂ : Machine} (hb : block L body m = .failed e m₁)
      (hv : caughtValue L e m₁ = .failed e' m₂) : Escapes L body handlers m e' m₂
  | unselected {e e' : Failure} {v : Value} {clause : CatchClause} {names : TypeNames}
      {m₁ : Machine} (ho : Offers L body m e v m₁) (hc : clause ∈ handlers)
      (hn : clause.classes = some names)
      (hr : Eval.locate clause.span (Declaration.resolveTypes names) m₁ = .failed e' m₁)
      (hs : handlerFor v handlers m₁ = .failed e' m₁) : Escapes L body handlers m e' m₁
  | overflows {e e' : Failure} {v : Value} {clause : CatchClause} {m₁ m₂ m₃ : Machine}
      (ho : Offers L body m e v m₁) (hs : handlerFor v handlers m₁ = .done (some clause) m₂)
      (hh : blockWith L clause.binding v clause.body m₂ = .failed e' m₃)
      (he : e'.isFatal = true) : Escapes L body handlers m e' m₃

variable {L : Level} {body : List Stmt} {handlers : List CatchClause} {m m₁ : Machine}

theorem guarded_of_done {flow : Flow} (hb : block L body m = .done flow m₁) :
    guarded L body handlers m = .done (.pending (.ok flow)) m₁ := by
  unfold guarded
  rw [Eval.bind_apply, Eval.attempt, hb]
  rfl

theorem guarded_of_failed (hb : block L body m = .failed e m₁) :
    guarded L body handlers m = handle L e handlers m₁ := by
  unfold guarded
  rw [Eval.bind_apply, Eval.attempt, hb]

theorem guarded_of_offers (ho : Offers L body m e v m₁) :
    ∃ next : Option CatchClause → Eval Guarded,
      guarded L body handlers m = (handlerFor v handlers >>= next) m₁ ∧
        next none = pure (.pending (.error e)) ∧
          ∀ clause, next (some clause) =
            (Eval.attempt (blockWith L clause.binding v clause.body) >>= fun outcome =>
              pure (.pending outcome)) := by
  cases ho with
  | intro hb hv =>
    rw [guarded_of_failed hb, handle, Eval.bind_apply, hv]
    exact ⟨_, rfl, rfl, fun _ => rfl⟩

theorem guarded_of_handler
    (ho : Offers L body m e v m₁) (hs : handlerFor v handlers m₁ = .done (some clause) m₂) :
    guarded L body handlers m =
      (Eval.attempt (blockWith L clause.binding v clause.body) >>= fun outcome =>
        pure (.pending outcome)) m₂ := by
  obtain ⟨next, hnext, _, hsome⟩ := guarded_of_offers ho
  rw [hnext, Eval.bind_apply, hs]
  exact congrFun (hsome clause) m₂

theorem caughtValue_of_uncatchable (he : e.isCatchable = false) : caughtValue L e = pure none := by
  cases e with
  | thrown => cases he
  | fault f span notes =>
    have hf : f.kind.isFatal = true := by simpa [Failure.isCatchable] using he
    exact if_pos hf
  | syntactic | file => rfl

theorem isCatchable_of_caughtValue
    (hv : caughtValue L e m₁ = .done none m₂) : e.isCatchable = false := by
  cases e with
  | thrown => cases hv
  | fault f span notes =>
    by_cases hf : f.kind.isFatal = true
    · simp [Failure.isCatchable, hf]
    · have hmakes : caughtValue L (.fault f span notes) =
          (faultObject L f span >>= fun object => pure (some object)) := if_neg hf
      rw [hmakes, Eval.bind_apply] at hv
      cases hmade : faultObject L f span m₁ <;> rw [hmade] at hv <;> cases hv
  | syntactic | file => rfl

def Looks {α : Type} (x : Eval α) : Prop :=
  ∀ m, (x m).machine = m

namespace Looks

variable {α β : Type} {x : Eval α}

theorem pure (a : α) : Looks (Pure.pure a : Eval α) := fun _ => rfl

theorem fail (f : Fault) : Looks (Eval.fail f : Eval α) := fun _ => rfl

theorem ask (f : Heap → α) : Looks (Eval.ask f) := fun _ => rfl

theorem scope : Looks Eval.scope := fun _ => rfl

theorem bind {k : α → Eval β} (hx : Looks x) (hk : ∀ a, Looks (k a)) : Looks (x >>= k) := by
  intro m
  have hm := hx m
  rw [Eval.bind_apply]
  generalize x m = o at hm ⊢
  cases o with
  | done a m' => exact (hk a m').trans hm
  | failed | stopped => exact hm

theorem locate (span : Span) (hx : Looks x) : Looks (Eval.locate span x) := by
  intro m
  have hm := hx m
  unfold Eval.locate
  cases hxm : x m <;> rw [hxm] at hm <;> exact hm

theorem mapOnto {f : α → Eval β} (hf : ∀ a, Looks (f a)) (as : List α) :
    ∀ found, Looks fun m => Eval.mapOnto f as found m := by
  induction as with
  | nil => exact fun _ _ => rfl
  | cons a rest ih => exact fun found => bind (hf a) fun b => ih (b :: found)

end Looks

variable {e : Failure} {outcome : Except Failure Flow}

theorem resolveType_looks (name : String) : Looks (Declaration.resolveType name) := by
  unfold Declaration.resolveType
  split
  · exact .pure _
  · refine .bind .scope fun site => .bind (.ask _) fun found => ?_
    rcases found with _ | ⟨binding, scope⟩
    · exact .fail _
    · cases binding with
      | type => exact .pure _
      | family | «variable» => exact .fail _

theorem catches_failed (hc : catches v clause m = .failed e m₁) :
    ∃ names, clause.classes = some names ∧
      Eval.locate clause.span (Declaration.resolveTypes names) m = .failed e m₁ := by
  unfold catches at hc
  generalize clause.classes = o at hc ⊢
  cases o with
  | none => cases hc
  | some names =>
    dsimp only at hc
    rw [Eval.bind_apply] at hc
    cases hr : Eval.locate clause.span (Declaration.resolveTypes names) m with
    | done | stopped =>
      rw [hr] at hc
      cases hc
    | failed => simp_all

theorem catches_looks (v : Value) (clause : CatchClause) : Looks (catches v clause) := by
  unfold catches
  cases clause.classes with
  | none => exact .pure _
  | some names =>
    refine .bind (.locate _ (.mapOnto resolveType_looks names [])) fun accepted => ?_
    exact .bind (.ask _) fun _ => .ask _

theorem handlerFor_failed (v : Value) (handlers : List CatchClause)
    (hs : handlerFor v handlers m = .failed e m₁) :
    m₁ = m ∧ ∃ clause names, clause ∈ handlers ∧ clause.classes = some names ∧
      Eval.locate clause.span (Declaration.resolveTypes names) m = .failed e m := by
  unfold handlerFor at hs
  induction handlers with
  | nil => cases hs
  | cons clause rest ih =>
    have hlooks := catches_looks v clause m
    rw [Eval.firstSome_cons, bind_assoc, Eval.bind_apply] at hs
    cases hc : catches v clause m with
    | failed e' m' =>
      rw [hc] at hs hlooks
      obtain rfl : m' = m := hlooks
      obtain ⟨names, hn, hr⟩ := catches_failed hc
      grind
    | stopped m' =>
      rw [hc] at hs
      cases hs
    | done answer m' =>
      rw [hc] at hs hlooks
      obtain rfl : m' = m := hlooks
      cases answer with
      | true => cases hs
      | false =>
        obtain ⟨rfl, other, names, hmem, hn, hr⟩ := ih hs
        exact ⟨rfl, other, names, List.mem_cons_of_mem _ hmem, hn, hr⟩

theorem guarded_of_ends (h : Ends L body handlers m outcome m₁) :
    guarded L body handlers m = .done (.pending outcome) m₁ := by
  cases h with
  | body hb => exact guarded_of_done hb
  | unhandled ho hs =>
    obtain ⟨next, hnext, hnone, _⟩ := guarded_of_offers ho
    rw [hnext, Eval.bind_apply, hs]
    exact congrFun hnone m₁
  | handled ho hs hh | handlerFails ho hs hh he =>
    rw [guarded_of_handler ho hs, Eval.bind_apply, Eval.attempt, hh]
    rfl

theorem Ends.not_fatal (h : Ends L body handlers m outcome m₁) :
    isFatalOutcome outcome = false := by
  cases h with
  | body | handled => rfl
  | handlerFails ho hs hh he => exact he
  | @unhandled e v _ _ ho hs =>
    cases ho with
    | intro hb hv =>
      by_contra hfatal
      have hnone := caughtValue_of_fatal L e (Bool.not_eq_false _ ▸ hfatal)
      rw [hnone] at hv
      cases hv

theorem settle_of_pending (ho : isFatalOutcome outcome = false) (final : List Stmt) (m : Machine) :
    settle L (some final) (.pending outcome) m = (block L final m).replaced outcome := by
  rw [settle, ho, if_neg Bool.false_ne_true, Eval.bind_apply]
  cases block L final m with
  | done flow m₂ => cases flow <;> rfl
  | failed | stopped => rfl

theorem tryStatement_of_ends (h : Ends L body handlers m outcome m₁) (final : List Stmt) :
    tryStatement L body handlers (some final) m = (block L final m₁).replaced outcome := by
  unfold tryStatement
  rw [Eval.bind_apply, guarded_of_ends h]
  exact settle_of_pending h.not_fatal final m₁

theorem tryStatement_of_escapes (h : Escapes L body handlers m e m₁)
    (finallyBody : Option (List Stmt)) :
    tryStatement L body handlers finallyBody m = .failed e m₁ := by
  unfold tryStatement
  rw [Eval.bind_apply]
  cases h with
  | uncaught hb he =>
    rw [guarded_of_failed hb, handle, caughtValue_of_uncatchable he]
    rfl
  | unmade hb hv => rw [guarded_of_failed hb, handle, Eval.bind_apply, hv]
  | unselected ho _ _ _ hs =>
    obtain ⟨next, hnext, _, _⟩ := guarded_of_offers ho
    rw [hnext, Eval.bind_apply, hs]
  | overflows ho hs hh he =>
    rw [guarded_of_handler ho hs, Eval.bind_apply, Eval.attempt, hh]
    change settle L finallyBody (.pending (.error e)) m₁ = _
    rw [settle_of_fatal L finallyBody e he]
    rfl

theorem guarded_cases (L : Level) (body : List Stmt) (handlers : List CatchClause) (m : Machine) :
    (∃ outcome m', Ends L body handlers m outcome m') ∨
      (∃ e m', Escapes L body handlers m e m') ∨
        ∃ m', guarded L body handlers m = .stopped m' := by
  cases hb : block L body m with
  | done => exact .inl ⟨_, _, .body hb⟩
  | stopped m₁ =>
    refine .inr (.inr ⟨m₁, ?_⟩)
    unfold guarded
    rw [Eval.bind_apply, Eval.attempt, hb]
  | failed e m₁ =>
    cases hv : caughtValue L e m₁ with
    | failed e' m₂ => exact .inr (.inl ⟨_, _, .unmade hb hv⟩)
    | stopped m₂ =>
      refine .inr (.inr ⟨m₂, ?_⟩)
      rw [guarded_of_failed hb, handle, Eval.bind_apply, hv]
    | done caught m₂ =>
      cases caught with
      | none => exact .inr (.inl ⟨_, _, .uncaught hb (isCatchable_of_caughtValue hv)⟩)
      | some v =>
        have ho : Offers L body m e v m₂ := .intro hb hv
        cases hs : handlerFor v handlers m₂ with
        | failed e' m₃ =>
          obtain ⟨rfl, clause, names, hc, hn, hr⟩ := handlerFor_failed v handlers hs
          exact .inr (.inl ⟨_, _, .unselected ho hc hn hr hs⟩)
        | stopped m₃ =>
          refine .inr (.inr ⟨m₃, ?_⟩)
          obtain ⟨next, hnext, _, _⟩ := guarded_of_offers ho
          rw [hnext, Eval.bind_apply, hs]
        | done found m₃ =>
          cases found with
          | none => exact .inl ⟨_, _, .unhandled ho hs⟩
          | some clause =>
            cases hh : blockWith L clause.binding v clause.body m₃ with
            | done => exact .inl ⟨_, _, .handled ho hs hh⟩
            | stopped m₄ =>
              refine .inr (.inr ⟨m₄, ?_⟩)
              rw [guarded_of_handler ho hs, Eval.bind_apply, Eval.attempt, hh]
            | failed e' m₄ =>
              cases hf : e'.isFatal with
              | false => exact .inl ⟨_, _, .handlerFails ho hs hh hf⟩
              | true => exact .inr (.inl ⟨_, _, .overflows ho hs hh hf⟩)

/-- If body and handlers end, the final body is run once, and its own way out replaces theirs; if
    they escape, the statement fails as they did; and there is no third way but a stop. -/
theorem tryStatement_final (L : Level) (body : List Stmt) (handlers : List CatchClause)
    (m : Machine) :
    (∀ outcome m', Ends L body handlers m outcome m' → ∀ final,
      tryStatement L body handlers (some final) m = (block L final m').replaced outcome) ∧
    (∀ e m', Escapes L body handlers m e m' → ∀ finallyBody,
      tryStatement L body handlers finallyBody m = .failed e m') ∧
    ((∃ outcome m', Ends L body handlers m outcome m') ∨
      (∃ e m', Escapes L body handlers m e m') ∨
        ∃ m', ∀ finallyBody, tryStatement L body handlers finallyBody m = .stopped m') := by
  refine ⟨fun _ _ h => tryStatement_of_ends h, fun _ _ h => tryStatement_of_escapes h, ?_⟩
  rcases guarded_cases L body handlers m with h | h | ⟨m', h⟩
  · exact .inl h
  · exact .inr (.inl h)
  · refine .inr (.inr ⟨m', fun finallyBody => ?_⟩)
    unfold tryStatement
    rw [Eval.bind_apply, h]

def fails {α : Type} : Outcome α → Bool
  | .failed _ _ => true
  | _ => false

def thrower : List Stmt :=
  [.throw default (.literal default (.int 1))]

def leaving (classes : Option TypeNames) : CatchClause :=
  ⟨some "e", classes, [.break default], default⟩

def printer : List Stmt :=
  [.expr (.call default (.name default "print") [⟨none, .literal default (.str "final")⟩])]

theorem tryStatement_final_sample :
    let m := Machine.initial Config.standard default []
    (∃ outcome m', Ends (level 30) thrower [leaving none] m outcome m' ∧
      tryStatement (level 30) thrower [leaving none] (some printer) m =
        (block (level 30) printer m').replaced outcome ∧
      ((block (level 30) printer m').replaced outcome).machine.output = "final") ∧
    ∃ e m', Escapes (level 30) thrower [leaving (some ["Missing"])] m e m' ∧
      tryStatement (level 30) thrower [leaving (some ["Missing"])] (some printer) m =
        .failed e m' ∧ m'.output = "" := by
  intro m
  obtain ⟨hends, _, hways⟩ := tryStatement_final (level 30) thrower [leaving none] m
  obtain ⟨_, hescapes, _⟩ := tryStatement_final (level 30) thrower [leaving (some ["Missing"])] m
  have hprints : (tryStatement (level 30) thrower [leaving none] (some printer) m).machine.output =
      "final" := by decide +kernel
  have hsilent : (tryStatement (level 30) thrower [leaving none] none m).machine.output = "" := by
    decide +kernel
  have hfails : fails (guarded (level 30) thrower [leaving (some ["Missing"])] m) = true := by
    decide +kernel
  have hpassed : (tryStatement (level 30) thrower [leaving (some ["Missing"])] (some printer)
      m).machine.output = "" := by decide +kernel
  constructor
  · rcases hways with ⟨outcome, m', h⟩ | ⟨e, m', h⟩ | ⟨m', h⟩
    · rw [hends outcome m' h printer] at hprints
      exact ⟨outcome, m', h, hends outcome m' h printer, hprints⟩
    · have hsame := (tryStatement_of_escapes h (some printer)).trans
        (tryStatement_of_escapes h none).symm
      rw [hsame, hsilent] at hprints
      simp at hprints
    · rw [(h (some printer)).trans (h none).symm, hsilent] at hprints
      simp at hprints
  · rcases guarded_cases (level 30) thrower [leaving (some ["Missing"])] m with
      ⟨outcome, m', h⟩ | ⟨e, m', h⟩ | ⟨m', h⟩
    · rw [guarded_of_ends h] at hfails
      cases hfails
    · rw [hescapes e m' h (some printer)] at hpassed
      exact ⟨e, m', h, hescapes e m' h (some printer), hpassed⟩
    · rw [h] at hfails
      cases hfails

theorem final_skipped :
    ((Request.source ("try \x7b try \x7b throw Exception(\"x\"); \x7d " ++
        "catch (e: Missing) \x7b \x7d " ++
        "finally \x7b print(\"f\"); \x7d \x7d catch (e) \x7b \x7d")).perform (level 60)
      (Machine.initial Config.standard default [])).machine.output = "" ∧
    ((Request.source ("try \x7b try \x7b throw Exception(\"x\"); \x7d " ++
        "catch (e: Exception) \x7b \x7d " ++
        "finally \x7b print(\"f\"); \x7d \x7d catch (e) \x7b \x7d")).perform (level 60)
      (Machine.initial Config.standard default [])).machine.output = "f" := by
  decide +kernel

end Statement

end ClassScript
