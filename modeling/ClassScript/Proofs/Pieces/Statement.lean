import ClassScript.Proofs.Inheritance.Ownership
import ClassScript.Proofs.Pieces.Library
import ClassScript.Run.Hosting

/-!
# Expressions, Statements and Calls Are Built From Steps

Here scopes are created and entered: a block stands in the current scope, a frame in the scope of
its function or in the fields of its receiver, a class body in the scope that declares it. Only a
guarded body looks at a failure, and hands the overflow of the call depth on unchanged.
-/

namespace ClassScript

open List Heap
open Eval hiding pure

variable {C : Law} {Γ : List Fact} {α β : Type}

/-! ### New scopes

A parameter and what a loop runs over are put into a scope that has just been created, so
there is no constant that they could displace. -/

def Heap.NoConstants (h : Heap) (s : ScopeId) : Prop :=
  ∀ name, (h.scopeAt s).hasConstant name = false

theorem Heap.newScope_noConstants (h : Heap) (kind : ScopeKind) (parent : Option ScopeId) :
    (h.newScope kind parent).2.NoConstants (h.newScope kind parent).1 := by
  intro name
  have hnew : (h.newScope kind parent).2.scopeAt h.scopes.size = .fresh kind parent := by
    unfold newScope scopeAt
    simp
  unfold newScope at hnew ⊢
  rw [hnew]
  rfl

namespace Calling

def bindName (scope : ScopeId) (name : String) (v : Value) : Eval Unit :=
  Eval.change (·.updateScope scope fun sc =>
    if sc.hasConstant name then sc else { sc with vars := sc.vars.insert name (.plain v) })

theorem bindName_built (scope : ScopeId) (name : String) (v : Value) (ho : .own scope ∈ Γ) :
    Built C Γ fun _ => bindName scope name v :=
  .change (.variable scope name _ _ (.free ho) (.bound v ho))

variable {m : Machine} {scope : ScopeId}

theorem setVariable_eq_bindName (hs : m.heap.NoConstants scope) (name : String) (v : Value) :
    setVariable scope name (.plain v) m = bindName scope name v m :=
  congrArg (fun h => Outcome.done () { m with heap := h })
    (updateScope_congr (if_neg (ne_true_of_eq_false (hs name))).symm)

theorem bindName_noConstants (hs : m.heap.NoConstants scope) (name : String) (v : Value) :
    ∃ m', bindName scope name v m = .done () m' ∧ m'.heap.NoConstants scope := by
  refine ⟨_, rfl, fun other => ?_⟩
  rw [scopeAt_updateScope]
  split
  · rw [if_neg (ne_true_of_eq_false (hs name)), Scope.hasConstant, OrderedMap.find?_insert]
    split
    · rfl
    · exact hs other
  · exact hs other

theorem forList_bindName (ps : List (Parameter × Value)) : ∀ m : Machine, m.heap.NoConstants scope →
      Eval.forList (fun p => setVariable scope p.1.name (.plain p.2)) ps m =
        Eval.forList (fun p => bindName scope p.1.name p.2) ps m := by
  induction ps with
  | nil => intro m _; rfl
  | cons p ps ih =>
    intro m hs
    obtain ⟨m', hbind, hfree⟩ := bindName_noConstants hs p.1.name p.2
    rw [Eval.forList, Eval.forList, setVariable_eq_bindName hs p.1.name p.2, hbind]
    exact ih m' hfree

end Calling

theorem Eval.bind_congr_at {x x' : Eval α} {m : Machine} (h : x m = x' m)
    (k : α → Eval β) : (x >>= k) m = (x' >>= k) m := by
  rw [bind_apply, bind_apply, h]

theorem Eval.bind_congr_noConstants {x : Eval ScopeId} {k k' : ScopeId → Eval β}
    (hx : ∀ m s m', x m = .done s m' → m'.heap.NoConstants s)
    (hk : ∀ s m, m.heap.NoConstants s → k s m = k' s m) : x >>= k = x >>= k' := by
  funext m
  rw [bind_apply, bind_apply]
  grind

namespace Declaration

variable {β : Type} {f : Overload} {closure : ScopeId} {body : List Stmt}
variable {k : Level → ClassId → Eval β}

theorem resolveType_built (name : String) : Built C Γ fun _ => resolveType name := by
  refine .ite _ (.pure _) ?_
  refine .scope fun site => ?_
  refine .bind (.ask _) fun found => ?_
  split
  · exact .pure _
  all_goals exact .fail _ rfl

theorem resolveTypes_built (names : TypeNames) : Built C Γ fun _ => resolveTypes names :=
  .mapList names fun name _ => resolveType_built name

theorem defineVariable_built (scope : ScopeId) (name : String) (v : Variable)
    (hv : Placing Γ scope v.owner) (hs : .own scope ∈ Γ ∨ ∃ c, .members c scope ∈ Γ) :
    Built C Γ fun _ => defineVariable scope name v := by
  refine .of_each fun m => .ask (.ite _ (fun _ => .of_built (.fail _ rfl)) fun hfree => ?_)
  refine ⟨_, .change (.variable scope name v _ hv (.declared v hs)), fun _ limit => ?_⟩
  exact congrArg (fun h => Outcome.done () { m.withLimit limit with heap := h })
    (updateScope_congr (if_neg hfree).symm)

theorem addOverload_built (scope : ScopeId) (id : OverloadId) (f : Overload)
    (hf : .overload id f ∈ Γ) (hs : Placing Γ scope f.owner) :
    Built C Γ fun _ => addOverload scope id :=
  .change (.overload scope id f hf hs)

theorem bindClass_built (scope : ScopeId) (name : String) (c : ClassId) (hc : .named c ∈ Γ)
    (ho : .naming scope ∈ Γ) : Built C Γ fun _ => bindClass scope name c :=
  .change (.class scope name c hc ho)

theorem defaultValue_built (e : Option Expr) (he : ∀ value, e = some value → C.code (.expr value)) :
    Built C Γ fun L => defaultValue L e := by
  cases e with
  | some e => exact .bind (.evaluate e (he e rfl)) fun _ => .pure _
  | none => exact .pure _

theorem parameter_built (p : Param) (hp : ∀ value, p.default = some value → C.code (.expr value)) :
    Built C Γ fun L => parameter L p := by
  have hdefault (accepted : Option (List ClassId)) : Built C Γ fun L => (do
      return ⟨p.name, accepted, ← defaultValue L p.default, p.variadic⟩ : Eval Parameter) :=
    .bind (defaultValue_built p.default hp) fun _ => .pure _
  unfold parameter
  cases p.types with
  | some names => exact .bind (.locate _ (resolveTypes_built names)) fun _ => hdefault _
  | none => exact hdefault _

theorem build_built {k : Level → Overload → Eval β} (decl : FunctionDecl)
    (owner : Option ClassId) (closure : ScopeId) (hd : ∀ d ∈ decl.parts, C.code d)
    (hk : ∀ f : Overload, f.body = .script decl.body closure → f.owner = owner →
      Built C Γ fun L => k L f) :
    Built C Γ fun L => build L decl owner closure >>= k L := by
  have hparam (p : Param) (hp : p ∈ decl.params) : Built C Γ fun L => parameter L p := by
    refine parameter_built p fun value hv => hd _ (mem_cons_of_mem _ ?_)
    grind
  refine .assoc (.bind (.mapList decl.params hparam) fun params => ?_)
  exact hk _ rfl rfl

theorem facts_of_plain
    (hb : f.body = .script body closure) (ho : f.owner = none) : f.facts = [.scope closure] := by
  unfold Overload.facts
  rw [hb, ho]

theorem facts_of_member {c : ClassId} (hb : f.body = .script body closure) (ho : f.owner = some c) :
    f.facts = [.scope closure, .membersIn closure, .members c closure] := by
  unfold Overload.facts
  rw [hb, ho]

theorem overload_of_parts {decl : FunctionDecl} (hd : ∀ d ∈ decl.parts, C.code d)
    (hb : f.body = .script decl.body closure) : C.overload f :=
  Law.overload_script hb (hd _ mem_cons_self)

theorem function_built (decl : FunctionDecl) (hh : .here ∈ Γ) (hd : ∀ d ∈ decl.parts, C.code d) :
    Built C Γ fun L => function L decl := by
  refine .site hh fun scope => ?_
  refine build_built decl none scope hd fun f hb ho => ?_
  refine .newOverload f ?_ (overload_of_parts hd hb) fun id => ?_
  · intro k hk
    rw [facts_of_plain hb ho] at hk
    simp_all
  · refine addOverload_built scope id f mem_cons_self ?_
    rw [ho]
    exact .free (by simp)

theorem lambda_built (decl : FunctionDecl) (hd : ∀ d ∈ decl.parts, C.code d) :
    Built C Γ fun L => lambda L decl := by
  refine .scope fun scope => ?_
  refine build_built decl none scope hd fun f hb ho => ?_
  refine .newOverload f ?_ (overload_of_parts hd hb) fun id => newFunction_built _ _ _
  intro k hk
  rw [facts_of_plain hb ho] at hk
  simp_all

theorem initial_built (e : Option Expr) (he : ∀ value, e = some value → C.code (.expr value)) :
    Built C Γ fun L => initial L e := by
  cases e with
  | some e => exact .evaluate e (he e rfl)
  | none => exact .pure _

theorem memberVariable_built (c : ClassId) (decl : VarDecl) (hc : .type c ∈ Γ)
    (hd : .declared c ∈ Γ) (hi : ∀ value, decl.initializer = some value → C.code (.expr value)) :
    Built C Γ fun L => memberVariable L c decl := by
  refine .of_each fun m => ?_
  by_cases hstatic :
      (decl.modifiers.isStatic || decl.isConst || (m.heap.classAt c).isStatic) = true
  · refine ⟨fun L => do
      let info ← Eval.ask (·.classAt c)
      let value ← initial L decl.initializer
      defineVariable info.scope decl.name
        ⟨.slot value, decl.isConst, true, access decl.modifiers, some c⟩,
      .find (.type c hc hd) fun info _ => .bind (initial_built _ hi) fun _ => ?_,
      fun L limit => congrFun (if_pos hstatic) _⟩
    exact defineVariable_built _ _ _ (.member c (by simp [hd]) (by simp)) (.inr ⟨c, by simp⟩)
  · refine .ask (.ite _ (absurd · hstatic) fun _ => .ite _ (fun _ => .of_built (.fail _ rfl))
      fun hfree => ?_)
    let f : FieldInit := ⟨decl.name, decl.initializer, access decl.modifiers, c⟩
    have hadd : (m.heap.classAt c).addField f =
        { m.heap.classAt c with fields := (m.heap.classAt c).fields ++ [f] } := by
      simp_all [Class.addField, f]
    refine ⟨_, .change (.field f hd hi), fun _ limit => ?_⟩
    exact congrArg (fun h => Outcome.done () { m.withLimit limit with heap := h })
      (updateClass_congr hadd.symm)

theorem accessor_built {k : Level → Option OverloadId → Eval β} (c : ClassId)
    (info : Class) (decl : PropertyDecl) (span : Span) (params : List Parameter)
    (body : Option (List Stmt))
    (hs : ∀ k ∈ [.scope info.scope, .membersIn info.scope, .members c info.scope], k ∈ Γ)
    (hb : ∀ stmts, body = some stmts → C.code (.body stmts)) (hk : ∀ f, Built C Γ fun L => k L f) :
    Built C Γ fun L => accessor c info decl span params body >>= k L := by
  cases body with
  | none => exact .bind (.pure _) hk
  | some body =>
    refine .assoc (.newOverload _ hs (Law.overload_script rfl (hb body rfl)) fun id => ?_)
    exact (hk (some id)).weaken (subset_cons_self _ _)

theorem memberProperty_built (c : ClassId) (decl : PropertyDecl) (span : Span)
    (hc : .type c ∈ Γ) (hd : .declared c ∈ Γ)
    (hb : ∀ stmts ∈ decl.getter.toList ++ decl.setter.toList, C.code (.body stmts)) :
    Built C Γ fun _ => memberProperty c decl span := by
  refine .find (.type c hc hd) fun info _ => ?_
  have hknown : ∀ k ∈ [.scope info.scope, .membersIn info.scope, .members c info.scope],
      k ∈ [.scope info.scope, .membersIn info.scope, .members c info.scope,
        .naming info.scope] ++ Γ := by
    simp
  refine accessor_built c info decl span _ _ hknown (fun body h => hb body (by simp [h]))
    fun getter => ?_
  refine accessor_built c info decl span _ _ hknown (fun body h => hb body (by simp [h]))
    fun setter => ?_
  exact defineVariable_built _ _ _ (.member c (by simp [hd]) (by simp)) (.inr ⟨c, by simp⟩)

theorem memberFunction_built (c : ClassId) (decl : FunctionDecl) (hc : .type c ∈ Γ)
    (hd : .declared c ∈ Γ) (hf : ∀ d ∈ decl.parts, C.code d) :
    Built C Γ fun L => memberFunction L c decl := by
  refine .find (.type c hc hd) fun info _ => ?_
  refine build_built decl (some c) info.scope hf fun f hb ho => ?_
  -- Whether it is static makes no difference to what is known of a function.
  let f' := if info.isStatic = true then { f with isStatic := true } else f
  have hsame : f'.body = f.body ∧ f'.owner = f.owner := by
    by_cases hi : info.isStatic = true
    · simp only [f', if_pos hi, and_self]
    · simp only [f', if_neg hi, and_self]
  have hb' : f'.body = .script decl.body info.scope := hsame.1.trans hb
  have ho' : f'.owner = some c := hsame.2.trans ho
  refine .newOverload f' (fun k hk => ?_) (overload_of_parts hf hb') fun id => ?_
  · rw [facts_of_member hb' ho'] at hk
    exact mem_append_left [_] hk |> mem_append_left Γ
  · refine addOverload_built _ id f' mem_cons_self ?_
    rw [ho']
    exact .member c (by simp [hd]) (by simp)

theorem member_built (c : ClassId) (stmt : Stmt) (hc : .type c ∈ Γ) (hd : .declared c ∈ Γ)
    (hh : .inside ∈ Γ) (hs : C.code (.member stmt)) : Built C Γ fun L => member L c stmt := by
  have hpart (d : Code) (h : d ∈ stmt.memberParts) : C.code d := C.parts _ hs d h
  refine .locate stmt.span ?_
  cases stmt with
  | «variable» span decl =>
    exact memberVariable_built c decl hc hd fun e he => hpart _ (by simp [Stmt.memberParts, he])
  | property span decl =>
    refine memberProperty_built c decl span hc hd fun body hb => hpart _ ?_
    exact mem_map.mpr ⟨body, hb, rfl⟩
  | function decl => exact memberFunction_built c decl hc hd hpart
  | «class» | enum =>
    exact .execute _ (hpart _ (mem_singleton_self _)) (forall_mem_singleton.mpr hh)
      fun _ _ => .pure _
  | _ =>
    refine .bind (.ask _) fun name => .raise _ (Law.failure_fault ?_ none [])
    exact C.raises _ hs _ (.member _ rfl name)

theorem resolveType_known (name : String)
    (hk : ∀ Δ c, Γ ⊆ Δ → Known Δ c → Built C Δ fun L => k L c) :
    Built C Γ fun L => resolveType name >>= k L := by
  unfold resolveType
  by_cases hnull : name = "null"
  · simp only [if_pos hnull]
    exact hk Γ _ (List.Subset.refl Γ) (.inr (.inl rfl))
  · simp only [if_neg hnull]
    refine .assoc (.scope fun site => .assoc (.find (.name site name) fun found _ => ?_))
    rcases found with _ | ⟨binding, scope⟩
    · exact .fail (.unknownType name) rfl
    · cases binding with
      | type c => exact hk _ c (fun f hf => by simp [hf]) (.inr (.inr mem_cons_self))
      | family | «variable» => exact .fail (.notAClass name) rfl

theorem superClass_known (decl : ClassDecl)
    (name : String) (hk : ∀ Δ c, Γ ⊆ Δ → Known Δ c → Built C Δ fun L => k L c) :
    Built C Γ fun L => superClass decl name >>= k L := by
  refine .assoc (resolveType_known name fun Δ p hΔ hp => .assoc (.bind (.ask _) fun isStatic => ?_))
  by_cases h : (isStatic && !decl.modifiers.isStatic) = true
  · simp only [if_pos h]
    exact .fail (.staticSuper decl.name name) rfl
  · simp only [if_neg h]
    exact hk Δ p hΔ hp

theorem superClasses_known {k : Level → List ClassId → Eval β} (decl : ClassDecl)
    (names : List String)
    (hk : ∀ Δ found, Γ ⊆ Δ → (∀ p ∈ found, Known Δ p) → Built C Δ fun L => k L found) :
    Built C Γ fun L => Eval.mapList (superClass decl) names >>= k L := by
  have honto (names : List String) : ∀ Δ found, Γ ⊆ Δ → (∀ p ∈ found, Known Δ p) →
      Built C Δ fun L => (fun m => Eval.mapOnto (superClass decl) names found m) >>= k L := by
    induction names with
    | nil =>
      intro Δ found hΔ hfound
      exact hk Δ found.reverse hΔ fun p hp => hfound p (mem_reverse.mp hp)
    | cons name names ih =>
      intro Δ found hΔ hfound
      refine .assoc (superClass_known decl name fun Δ' p hΔ' hp => ?_)
      refine ih Δ' (p :: found) (List.Subset.trans hΔ hΔ') fun q hq => ?_
      rcases mem_cons.mp hq with rfl | hq
      · exact hp
      · exact (hfound q hq).weaken hΔ'
  exact honto names Γ [] (List.Subset.refl Γ) (by simp)

theorem members_built (body : List Stmt) (c : ClassId) (hc : .type c ∈ Γ) (hd : .declared c ∈ Γ)
    (hb : ∀ s ∈ body, C.code (.member s)) :
    Built C Γ fun L => (do
      let scope ← Eval.ask fun h => (h.classAt c).scope
      Eval.inScope scope (Eval.forList (member L c) body) : Eval Unit) := by
  refine .find (.bodyScope c hc hd) fun scope _ =>
    .inBody scope [.type c, .declared c] (by simp) (by simp) (by simp [hc, hd]) (by simp) ?_
  exact .forList body fun stmt hs =>
    member_built c stmt (by simp) (by simp) mem_cons_self (hb stmt hs)

theorem classMembers_built (scope : ScopeId) (decl : ClassDecl) (c : ClassId)
    (hc : .type c ∈ Γ) (hd : .declared c ∈ Γ) (hn : .named c ∈ Γ) (ho : .naming scope ∈ Γ)
    (hb : ∀ s ∈ decl.body, C.code (.member s)) :
    Built C Γ fun L => classMembers L scope decl c :=
  .bind (bindClass_built scope decl.name c hn ho) fun _ => members_built decl.body c hc hd hb

theorem classDecl_built (decl : ClassDecl) (hh : .inside ∈ Γ)
    (hb : ∀ s ∈ decl.body, C.code (.member s)) : Built C Γ fun L => classDecl L decl := by
  unfold classDecl classBody
  simp only [bind_assoc]
  refine .siteInside hh fun scope =>
    superClasses_known decl decl.supers fun Δ found hΔ hfound => ?_
  have hscope : .scope scope ∈ Δ := hΔ (by simp)
  have hown : .naming scope ∈ Δ := hΔ (by simp)
  refine .declare decl.name _ decl.modifiers.isStatic (access decl.modifiers) scope hscope ?_
    ?_ fun c => ?_
  · intro p hp
    split at hp
    · exact .inl (mem_singleton.mp hp)
    · exact hfound p hp
  · cases found <;> cases decl.modifiers.isStatic <;> simp
  · exact classMembers_built scope decl c (by simp [newClassFacts]) (by simp [newClassFacts])
      (by simp [newClassFacts]) (mem_append_right _ hown) hb

theorem variantValue_built (next : Int64) (value : Option Expr)
    (hv : ∀ e, value = some e → C.code (.expr e)) :
    Built C Γ fun L => variantValue L next value := by
  cases value with
  | some e => exact .bind (.evaluate e (hv e rfl)) fun v => .locate _ (expectInt_built v)
  | none => exact .pure _

theorem variants_built (c : ClassId) (scope : ScopeId) (hd : .declared c ∈ Γ)
    (hs : .members c scope ∈ Γ) (vs : List (String × Option Expr))
    (hv : ∀ v ∈ vs, ∀ e, v.2 = some e → C.code (.expr e)) :
    ∀ next, Built C Γ fun L => variants L c scope next vs := by
  induction vs with
  | nil => intro next; exact .pure _
  | cons variant rest ih =>
    intro next
    refine .bind (variantValue_built next variant.2 (hv variant mem_cons_self))
      fun n => .bind (defineVariable_built _ _ _ (.member c hd hs) (.inr ⟨c, hs⟩))
        fun _ => ih ?_ (n + 1)
    grind

theorem enumDecl_built (decl : EnumDecl) (hh : .inside ∈ Γ)
    (hv : ∀ v ∈ decl.variants, ∀ e, v.2 = some e → C.code (.expr e)) :
    Built C Γ fun L => enumDecl L decl := by
  refine .siteInside hh fun scope => ?_
  refine .newClass _ _ _ _ scope mem_cons_self (by simp) (fun _ => rfl) fun c => ?_
  refine .find (.bodyScope c (by simp [newClassFacts]) (by simp [newClassFacts])) fun body _ => ?_
  refine .bind (variants_built c body ?_ ?_ decl.variants hv 0) fun _ =>
    bindClass_built _ _ _ ?_ ?_
  all_goals simp [newClassFacts]

end Declaration

namespace Expression

theorem place_built : (e : Expr) → C.code (.expr e) →
    (e.isTarget = false → C.fault .invalidTarget ∧ C.fault .assignThroughSuper) →
    Built C Γ fun L => place L e
  | .name _ name, _, _ => .pure _
  | .member _ target name, he, _ =>
    .bind (.evaluate target (C.part he (mem_singleton_self _))) fun _ => .pure _
  | .index _ target index, he, _ =>
    .bind (.evaluate target (C.part he (by simp [Code.parts, Expr.parts]))) fun _ =>
      .bind (.evaluate index (C.part he (by simp [Code.parts, Expr.parts]))) fun _ => .pure _
  | .group _ inner, he, ht => by
      exact place_built inner (C.part he (mem_singleton_self _)) fun _ => ht rfl
  | .super _ _, _, ht => .raise _ (Law.failure_fault (ht rfl).2 none [])
  | .literal _ _, _, ht | .interpolated _ _, _, ht | .this _, _, ht | .binary _ _ _ _, _, ht
  | .unary _ _ _, _, ht | .assign _ _ _ _, _, ht | .call _ _ _, _, ht | .list _ _, _, ht
  | .dict _ _, _, ht | .range _ _ _, _, ht | .lambda _, _, ht =>
    .raise _ (Law.failure_fault (ht rfl).1 none [])

theorem readPlace_built (span : Span) (p : Place) : Built C Γ fun L => readPlace L span p := by
  cases p with
  | name name => exact Member.getName_built name
  | member target name => exact Member.get_built target name span
  | index => exact .operate _ _ _ _

theorem writePlace_built (span : Span) (value : Value) (p : Place) :
    Built C Γ fun L => writePlace L span value p := by
  cases p with
  | name name => exact Member.setName_built name value
  | member target name => exact Member.set_built target name value span
  | index => exact .bind (.operate _ _ _ _) fun _ => .pure _

theorem assign_built (span : Span) (target : Expr) (op : Option BinaryOp) (value : Expr)
    (he : C.code (.expr (.assign span target op value))) :
    Built C Γ fun L => assign L span target op value := by
  have hv : C.code (.expr value) := C.part he (by simp [Code.parts, Expr.parts])
  refine .bind (place_built target (C.part he (by simp [Code.parts, Expr.parts])) fun ht => ?_)
    fun p => ?_
  · exact ⟨C.raises _ he _ (.target span target op value ht),
      C.raises _ he _ (.superTarget span target op value ht)⟩
  · refine .bind ?_ fun v => .bind (writePlace_built _ v p) fun _ => .pure _
    cases op with
    | none => exact .evaluate value hv
    | some op =>
      refine .bind (readPlace_built _ p) fun current => ?_
      exact .bind (.evaluate value hv) fun _ => .operate _ _ _ _

theorem binary_built (span : Span) (op : BinaryOp) (left right : Expr)
    (hl : C.code (.expr left)) (hr : C.code (.expr right)) :
    Built C Γ fun L => binary L span op left right := by
  refine .bind (.evaluate left hl) fun a => ?_
  cases decided op a with
  | some b => exact .pure _
  | none => exact .bind (.evaluate right hr) fun _ => .operate _ _ _ _

theorem pieceText_built (p : Piece) (hp : ∀ d ∈ p.parts, C.code d) :
    Built C Γ fun L => pieceText L p := by
  cases p with
  | text s => exact .pure _
  | hole e => exact .bind (.evaluate e (hp _ (mem_singleton_self _))) fun v => .stringify v

theorem arguments_built (args : List Argument) (ha : ∀ a ∈ args, C.code (.expr a.value)) :
    Built C Γ fun L => arguments L args := by
  refine .bind (.mapList args fun a hmem => ?_) fun values => .pure _
  exact .bind (.evaluate a.value (ha a hmem)) fun _ => .pure _

theorem range_built (first last : Expr) (hf : C.code (.expr first)) (hl : C.code (.expr last)) :
    Built C Γ fun L => range L first last := by
  refine .bind (.evaluate first hf) fun a => ?_
  refine .bind (.evaluate last hl) fun b => ?_
  split
  · exact Eval.newRange_built _
  · exact .bind (.ask _) fun _ => .bind (.ask _) fun _ => .fail _ rfl

theorem this_built : Built C Γ fun _ => this := by
  refine .scope fun site => ?_
  refine .bind (.ask _) fun found => ?_
  cases found with
  | some id => exact .pure _
  | none => exact .fail _ rfl

theorem run_built (e : Expr) (he : C.code (.expr e)) : Built C Γ fun L => run L e := by
  have hpart (d : Code) (h : d ∈ e.parts) : C.code d := C.parts _ he d h
  refine .locate e.span ?_
  cases e with
  | literal => exact .pure _
  | interpolated span parts =>
    refine .bind (.mapList parts fun p hp => pieceText_built p fun d hd => ?_) fun _ => .pure _
    exact hpart d (mem_flatMap.mpr ⟨p, hp, hd⟩)
  | name span name => exact Member.getName_built name
  | this => exact this_built
  | super span name => exact Member.getSuper_built name
  | binary span op left right =>
    exact binary_built span op left right (hpart _ (by simp [Expr.parts]))
      (hpart _ (by simp [Expr.parts]))
  | unary span op operand =>
    exact .bind (.evaluate operand (hpart _ (mem_singleton_self _))) fun _ =>
      .operate _ _ _ _
  | assign span target op value => exact assign_built span target op value he
  | call span callee args =>
    refine .bind (.evaluate callee (hpart _ mem_cons_self)) fun f =>
      .bind (arguments_built args fun a ha => hpart _ (mem_cons_of_mem _ ?_)) fun _ =>
        Calling.value_built _ _ _
    exact mem_map.mpr ⟨a, ha, rfl⟩
  | list span items =>
    refine .bind (.mapList items fun e hmem => .evaluate e (hpart _ ?_)) fun _ =>
      newList_built _
    exact mem_map.mpr ⟨e, hmem, rfl⟩
  | dict span entries =>
    have hentry (e : Expr × Expr) (he : e ∈ entries) (d : Code)
        (hd : d ∈ [.expr e.1, .expr e.2]) : C.code d :=
      hpart d (mem_flatMap.mpr ⟨e, he, hd⟩)
    refine .bind (.mapList entries fun e hmem => ?_) fun _ => newDict_built _
    exact .bind (.evaluate e.1 (hentry e hmem _ (by simp))) fun _ =>
      .bind (.evaluate e.2 (hentry e hmem _ (by simp))) fun _ => .pure _
  | range span first last =>
    exact range_built first last (hpart _ (by simp [Expr.parts])) (hpart _ (by simp [Expr.parts]))
  | group span inner => exact .evaluate inner (hpart _ (mem_singleton_self _))
  | index span target index =>
    exact .bind (.evaluate target (hpart _ (by simp [Expr.parts]))) fun t =>
      .bind (.evaluate index (hpart _ (by simp [Expr.parts]))) fun _ => .operate _ _ _ _
  | member span target name =>
    exact .bind (.evaluate target (hpart _ (mem_singleton_self _))) fun _ =>
      Member.get_built _ _ _
  | lambda decl => exact Declaration.lambda_built decl hpart

end Expression

namespace Import

variable {β : Type}

theorem programFrom_cons (L : Level) (last : Value) (stmt : Stmt) (rest : List Stmt) :
    programFrom L last (stmt :: rest) =
      (L.execute stmt >>= fun
        | .next => programFrom L last rest
        | .value v => programFrom L v rest
        | .return v => pure v
        | _ => Eval.raise (.fault .loopControlAtTop (some stmt.span) []) : Eval Value) := by
  funext m
  rw [Eval.bind_apply, programFrom]
  cases L.execute stmt m with
  | done flow m => cases flow <;> rfl
  | failed | stopped => rfl

theorem programFrom_built (program items : List Stmt) (hp : C.code (.body program))
    (hi : items ⊆ program) (hh : [.here, .inside] ⊆ Γ) :
    ∀ last, Built C Γ fun L => programFrom L last items := by
  induction items with
  | nil => intro last; exact .pure _
  | cons stmt rest ih =>
    intro last
    obtain ⟨hmem, hrest⟩ := cons_subset.mp hi
    simp only [programFrom_cons]
    refine .execute stmt (C.part hp (mem_map.mpr ⟨stmt, hmem, rfl⟩)) (stmt.needs_subset hh)
      fun flow hflow => ?_
    have hloops := C.loops program hp stmt hmem flow hflow
    cases flow with
    | next => exact ih hrest last
    | value v => exact ih hrest v
    | «return» => exact .pure _
    | «break» | «continue» => exact .raise _ (Law.failure_fault (hloops rfl).1 _ _)

theorem program_built (items : List Stmt) (hi : C.code (.body items)) (hh : [.here, .inside] ⊆ Γ) :
    Built C Γ fun L => program L items :=
  programFrom_built items items hi (List.Subset.refl items) hh .null

theorem fromFile_built (r : Except FileProblem α) : Built C Γ fun _ => fromFile r := by
  cases r with
  | ok a => exact .pure _
  | error e => exact .raise _ (Law.failure_of_none rfl)

theorem fromFile_known {k : Level → α → Eval β} (r : Except FileProblem α)
    (hk : ∀ a, r = .ok a → Built C Γ fun L => k L a) :
    Built C Γ fun L => fromFile r >>= k L := by
  cases r with
  | ok a => exact hk a rfl
  | error e => exact .raise (.file e) (Law.failure_of_none rfl)

theorem fromSource_known {k : Level → List Stmt → Eval β} (source : String)
    (hk : ∀ items, parseProgram source = .ok items → Built C Γ fun L => k L items) :
    Built C Γ fun L => fromSource (parseProgram source) >>= k L := by
  cases hparse : parseProgram source with
  | error e => exact .raise (.syntactic e []) (Law.failure_of_none rfl)
  | ok items => exact hk items hparse

theorem find_known {k : Level → String → Eval β} (path : String)
    (hk : ∀ d file, C.disk d → d.Finds path file → Built C Γ fun L => k L file) :
    Built C Γ fun L => find path >>= k L := by
  refine .assoc (.disk fun d hd => ?_)
  dsimp only
  split
  · exact fromFile_known _ fun file hfile => hk d file hd ⟨_, hfile, .inl rfl⟩
  · refine .assoc (.bind (.read _ fun _ _ => rfl) fun dirs => ?_)
    cases hfound : (dirs.map fun dir =>
        Path.join dir (Path.withExtension path sourceExtension)).find? d.isFile with
    | none => exact .fail (.moduleNotFound path) rfl
    | some place =>
      obtain ⟨dir, _, rfl⟩ := mem_map.mp (mem_of_find?_eq_some hfound)
      exact fromFile_known _ fun file hfile => hk d file hd ⟨_, hfile, .inr ⟨dir, rfl⟩⟩

theorem runModule_built (path : String) (scope : ScopeId) (items : List Stmt)
    (hm : .importing ∈ Γ) (hs : .scope scope ∈ Γ) (ho : .own scope ∈ Γ)
    (hi : C.code (.body items)) : Built C Γ fun L => runModule L path scope items := by
  refine .bracket _ _ (fun r => ?_) (fun _ => rfl) (fun _ => rfl) (.inr hm) ?_
  · -- The module that was entered last stands first on record.
    simp [Registers.leaveModule, Registers.enterModule]
  · refine .bracket _ _ (fun _ => rfl) (fun _ => rfl) (fun _ => rfl) (.inl fun _ => rfl) ?_
    exact .inScope scope hs ho (program_built items hi (subset_append_left [_, _] _))

section

variable {k : Level → ClassId → Eval β} (path : String) (hp : C.file path) (hm : .importing ∈ Γ)
  (hk : ∀ Δ c, Γ ⊆ Δ → .module c ∈ Δ → .named c ∈ Δ → Built C Δ fun L => k L c)
include path hp hm hk

theorem runFile_known : Built C Γ fun L => runFile L path >>= k L := by
  unfold runFile
  simp only [bind_assoc]
  refine .disk fun disk hdisk => fromFile_known _ fun source hsource => ?_
  refine fromSource_known source fun items hitems => ?_
  refine .globals fun globals => ?_
  refine .newScope _ _ (.module globals mem_cons_self) fun scope => ?_
  refine .bind (runModule_built path scope items (by simp [hm]) (by simp) (by simp) ?_) fun _ => ?_
  · exact hp disk hdisk source items hsource hitems
  · refine .export path _ scope globals (by simp [hm]) (by simp) (by simp) fun c => ?_
    exact hk _ c (fun k hk => by simp [hk]) (by simp) (by simp)

theorem loadInside_known : Built C Γ fun L => load L path >>= k L := by
  refine .assoc (.modules path fun found => ?_)
  cases found with
  | some c =>
    exact hk _ c (subset_append_right _ _) (by simp [moduleFacts]) (by simp [moduleFacts])
  | none =>
    refine .assoc (.bind (.read _ fun _ _ => rfl) fun loading => ?_)
    by_cases hl : loading.contains path = true
    · simp only [if_pos hl]
      exact .fail (.circularImport path) rfl
    · simp only [if_neg hl]
      exact runFile_known path hp hm hk

end

theorem load_built (path : String) (hm : .importing ∈ Γ) (hp : C.file path) :
    Built C Γ fun L => load L path := by
  have hload : Built C Γ fun L => load L path >>= fun c => pure c :=
    loadInside_known path hp hm fun _ _ _ _ _ => .pure _
  simp only [bind_pure] at hload
  exact hload

theorem load_known {k : Level → ClassId → Eval β} (path : String)
    (hpath : Path.IsCanonical path) (hp : C.file path)
    (hk : ∀ Δ c, Γ ⊆ Δ → .module c ∈ Δ → .named c ∈ Δ → Built C Δ fun L => k L c) :
    Built C Γ fun L => load L path >>= k L := by
  refine .load path hpath ?_ (fun items hitems => ?_) fun c => ?_
  · exact loadInside_known path hp mem_cons_self fun Δ c hΔ => hk Δ c
      fun _ h => hΔ (mem_cons_of_mem _ h)
  · obtain ⟨d, source, hd, hsource, hparse⟩ := hitems
    exact program_built items (hp d hd source items hsource hparse) (List.Subset.refl _)
  · exact hk _ c (subset_append_right [_, _] Γ) (by simp) (by simp)

def take (scope : ScopeId) (c : ClassId) (name : String) : Option Binding → Eval Unit
  | none => do Eval.fail (.notExported (← Eval.ask (·.className c)) name)
  | some (.type d) => Declaration.bindClass scope name d
  | some (.family overloads) =>
    Eval.change (·.updateScope scope fun s =>
      { s with functions := s.functions.insert name overloads })
  | some (.variable _) =>
    Eval.change fun h => h.updateScope scope (·.copy name (h.scopeAt (h.classAt c).scope))

theorem importName_eq (c : ClassId) (name : String) :
    importName c name = Eval.scope >>= fun scope =>
      Eval.ask (fun h => (h.scopeAt (h.classAt c).scope).local? name) >>= take scope c name := by
  funext m
  unfold importName
  rw [Eval.bind_apply, Eval.bind_apply]
  dsimp only [Eval.scope, Eval.read]
  rw [Eval.bind_apply, Eval.bind_apply]
  dsimp only [Eval.ask]
  cases hfound : (m.heap.scopeAt (m.heap.classAt c).scope).local? name with
  | none => rfl
  | some binding =>
    cases binding with
    | type | family => rfl
    | «variable» =>
      have hv := Scope.find?_of_local? hfound
      refine congrArg (fun h => Outcome.done () { m with heap := h })
        (updateScope_congr ?_)
      unfold Scope.copy
      rw [hv]

theorem importName_built (c : ClassId) (name : String) (hc : .module c ∈ Γ) (hh : .here ∈ Γ) :
    Built C Γ fun _ => importName c name := by
  simp only [importName_eq]
  refine .site hh fun scope => ?_
  refine .find (.export c name (by simp [hc])) fun found _ => ?_
  rcases found with _ | binding
  · exact .bind (.ask _) fun _ => .fail _ rfl
  · cases binding with
    | type d => exact Declaration.bindClass_built _ _ _ (by simp [exportFacts]) (by simp)
    | family overloads =>
      exact .change (.family scope name overloads (by simp [exportFacts]) (by simp))
    | «variable» v => exact .change (.copy scope name c (by simp [hc]) (by simp))

theorem run_built {span : Span} (path : String) (form : ImportForm)
    (hs : C.code (.stmt (.importModule span path form))) (hh : .here ∈ Γ) :
    Built C Γ fun L => run L path form := by
  refine find_known path fun d file hd hfile => ?_
  refine load_known file hfile.isCanonical (C.imports span path form hs d hd file hfile)
    fun Δ c hΔ hm hn => ?_
  have hbind (name : String) : Built C Δ fun _ => (do
      Declaration.bindClass (← Eval.scope) name c : Eval Unit) :=
    .site (hΔ hh) fun _ => Declaration.bindClass_built _ _ _ (by simp [hn]) (by simp)
  cases form with
  | whole given =>
    cases given with
    | some name => exact hbind name
    | none => exact .bind (.ask _) hbind
  | names names => exact .forList names fun name _ => importName_built c name hm (hΔ hh)

end Import

namespace Statement

theorem sequenceFrom_cons (L : Level) (last : Flow) (stmt : Stmt) (rest : List Stmt) :
    sequenceFrom L last (stmt :: rest) =
      (L.execute stmt >>= fun
        | .next => sequenceFrom L last rest
        | .value v => sequenceFrom L (.value v) rest
        | flow => pure flow : Eval Flow) := by
  funext m
  rw [Eval.bind_apply, sequenceFrom]
  cases L.execute stmt m with
  | done flow m => cases flow <;> rfl
  | failed | stopped => rfl

theorem sequenceFrom_built (body : List Stmt) (hb : ∀ s ∈ body, C.code (.stmt s))
    (hh : [.here, .inside] ⊆ Γ) : ∀ last, Built C Γ fun L => sequenceFrom L last body := by
  induction body with
  | nil => intro last; exact .pure _
  | cons stmt rest ih =>
    intro last
    have hrest (s : Stmt) (hs : s ∈ rest) : C.code (.stmt s) := hb s (mem_cons_of_mem stmt hs)
    simp only [sequenceFrom_cons]
    refine .execute stmt (hb stmt mem_cons_self) (stmt.needs_subset hh) fun flow _ => ?_
    cases flow with
    | next => exact ih hrest last
    | value v => exact ih hrest (.value v)
    | «return» | «break» | «continue» => exact .pure _

theorem innerScope_built {k : Level → ScopeId → Eval β}
    (hk : ∀ Γ' s, .scope s ∈ Γ' → .own s ∈ Γ' → Built C Γ' fun L => k L s) :
    Built C Γ fun L => innerScope >>= k L := by
  refine .assoc (.scope fun outer => ?_)
  refine .newScope _ _ (.block outer mem_cons_self) fun inner => ?_
  exact hk _ inner (by simp) (by simp)

theorem block_built (body : List Stmt) (hb : ∀ s ∈ body, C.code (.stmt s)) :
    Built C Γ fun L => block L body :=
  innerScope_built fun _ inner hs ho =>
    .inScope inner hs ho (sequenceFrom_built body hb (subset_append_left [_, _] _) _)

theorem innerScope_noConstants (m : Machine) (s : ScopeId) (m' : Machine)
    (hrun : innerScope m = .done s m') : m'.heap.NoConstants s := by
  cases hrun
  exact newScope_noConstants _ _ _

theorem blockWith_built (name : Option String) (v : Value) (body : List Stmt)
    (hb : ∀ s ∈ body, C.code (.stmt s)) : Built C Γ fun L => blockWith L name v body := by
  have hbody (Γ' : List Fact) (inner : ScopeId) (hs : .scope inner ∈ Γ') (ho : .own inner ∈ Γ') :
      Built C Γ' fun L => Eval.inScope inner (sequence L body) :=
    .inScope inner hs ho (sequenceFrom_built body hb (subset_append_left [_, _] _) _)
  cases name with
  | none => exact innerScope_built hbody
  | some name =>
    -- There is no constant in the new scope, so it makes no difference to keep constants.
    have hsame (L : Level) : blockWith L (some name) v body = innerScope >>= fun inner =>
        Calling.bindName inner name v >>= fun _ => Eval.inScope inner (sequence L body) := by
      refine bind_congr_noConstants innerScope_noConstants fun inner m hfree => ?_
      exact bind_congr_at (Calling.setVariable_eq_bindName hfree name v) _
    simp only [hsame]
    exact innerScope_built fun Γ' inner hs ho =>
      .bind (Calling.bindName_built inner name v ho) fun _ => hbody Γ' inner hs ho

theorem condition_built (e : Expr) (he : C.code (.expr e)) : Built C Γ fun L => condition L e :=
  .bind (.evaluate e he) fun _ => .ask _

theorem whileLoop_built (test : Expr) (body : List Stmt) (ht : C.code (.expr test))
    (hb : ∀ s ∈ body, C.code (.stmt s)) : Built C Γ fun L => whileLoop L test body := by
  refine .loop (.bind (condition_built test ht) fun holds => ?_)
  exact .ite _ (.bind (block_built body hb) fun _ => .pure _) (.pure _)

theorem isMissing_of_fatal (e : Failure) (he : e.isFatal = true) : isMissing e = false := by
  cases e with
  | fault f span notes =>
    have hkind : f.kind.isFatal = true := he
    change (some f.kind == some FaultKind.undefinedName) = false
    cases hk : f.kind with
    | undefinedName => rw [hk] at hkind; cases hkind
    | _ => rfl
  | syntactic | thrown | file => cases he

theorem enumeratorOf_built (v : Value) (span : Span) :
    Built C Γ fun L => enumeratorOf L v span := by
  refine .attempt (Member.get_built v _ span) (fun r hr => ?_) fun L e he => ?_
  · cases r with
    | ok method => exact Calling.value_built _ _ _
    | error e => exact .ite _ (.bind (.ask _) fun _ => .fail _ rfl) (.raise e (hr e rfl))
  · dsimp only
    rw [isMissing_of_fatal e he]
    rfl

theorem moveNext_built (enumerator : Value) (span : Span) :
    Built C Γ fun L => moveNext L enumerator span := by
  refine .bind (.ask _) fun found => ?_
  cases found with
  | some state => exact Enumeration.move_built _ _
  | none => exact .bind (Member.call_built _ _ _) fun _ => .ask _

theorem currentElement_built (enumerator : Value) (span : Span) :
    Built C Γ fun L => currentElement L enumerator span := by
  refine .bind (.ask _) fun found => ?_
  cases found with
  | some state => exact Enumeration.current_built _
  | none => exact Member.get_built _ _ _

theorem forLoop_built (binding : String) (iterable : Expr) (body : List Stmt)
    (hi : C.code (.expr iterable)) (hb : ∀ s ∈ body, C.code (.stmt s)) :
    Built C Γ fun L => forLoop L binding iterable body := by
  refine .bind (.evaluate iterable hi) fun v => ?_
  refine .bind (enumeratorOf_built v _) fun enumerator => ?_
  refine .loop (.bind (moveNext_built enumerator _) fun moved => ?_)
  refine .ite _ ?_ (.pure _)
  refine .bind (currentElement_built enumerator _) fun item => ?_
  exact .bind (blockWith_built _ item body hb) fun _ => .pure _

theorem caseMatches_built (subject : Value) (values : List Expr)
    (hv : ∀ e ∈ values, C.code (.expr e)) : Built C Γ fun L => caseMatches L subject values := by
  induction values with
  | nil => exact .pure _
  | cons e rest ih =>
    refine .bind (.evaluate e (hv e mem_cons_self)) fun candidate => ?_
    refine .bind (Operation.equal_built _ _) fun _ => .ite _ (.pure _) (ih fun e he => ?_)
    exact hv e (mem_cons_of_mem _ he)

theorem switch_built (subject : Expr) (cases : List SwitchCase)
    (defaultBody : Option (List Stmt)) (hs : C.code (.expr subject))
    (hc : ∀ c ∈ cases, ∀ d ∈ c.parts, C.code d) (hd : ∀ s ∈ defaultBody.getD [], C.code (.stmt s)) :
    Built C Γ fun L => switch L subject cases defaultBody := by
  have hvalues (c : SwitchCase) (hmem : c ∈ cases) (e : Expr) (he : e ∈ c.values) :
      C.code (.expr e) := hc c hmem _ (by simp [SwitchCase.parts, he])
  refine .bind (.evaluate subject hs) fun v => ?_
  refine .firstSome cases (fun c hmem => caseMatches_built v c.values (hvalues c hmem))
    fun found hfound => ?_
  cases found with
  | some body =>
    obtain ⟨c, hmem, rfl⟩ := hfound body rfl
    refine .bind (block_built c.body fun s hs => ?_) fun flow => ?_
    · exact hc c hmem _ (by simp [SwitchCase.parts, hs])
    · cases flow <;> exact .pure _
  | none =>
    cases defaultBody with
    | some body =>
      refine .bind (block_built body hd) fun flow => ?_
      cases flow <;> exact .pure _
    | none => exact .pure _

theorem setField_built (v : Value) (name : String) (value : Value) :
    Built C Γ fun _ => setField v name value := by
  refine .find (.slots v) fun found _ => ?_
  cases found with
  | some scope => exact Member.assignSlot_built _ _ _ mem_cons_self
  | none => exact .pure _

theorem faultObject_built (f : Fault) (span : Option Span) :
    Built C Γ fun L => faultObject L f span := by
  refine .bind (Calling.instantiate_built _) fun object => ?_
  refine .bind (setField_built _ _ _) fun _ => ?_
  exact .bind (setField_built _ _ _) fun _ => .pure _

theorem caughtValue_built (e : Failure) : Built C Γ fun L => caughtValue L e := by
  cases e with
  | thrown | syntactic | file => exact .pure _
  | fault f span notes => exact .ite _ (.pure _) (.bind (faultObject_built f span) fun _ => .pure _)

theorem catches_built (v : Value) (clause : CatchClause) : Built C Γ fun _ => catches v clause := by
  unfold catches
  cases clause.classes with
  | none => exact .pure _
  | some names =>
    refine .bind (.locate _ (Declaration.resolveTypes_built names)) fun accepted => ?_
    exact .bind (.ask _) fun _ => .ask _

theorem resume_built (outcome : Except Failure α)
    (ho : ∀ e, outcome = .error e → C.failure e) : Built C Γ fun _ => Eval.resume outcome := by
  cases outcome with
  | ok a => exact .pure a
  | error e => exact .raise e (ho e rfl)

def Guarded.Lawful (C : Law) : Guarded → Prop
  | .escaped e => C.failure e
  | .pending outcome => ∀ e, outcome = .error e → C.failure e

theorem settle_built (finallyBody : Option (List Stmt)) (g : Guarded) (hg : g.Lawful C)
    (hf : ∀ s ∈ finallyBody.getD [], C.code (.stmt s)) :
    Built C Γ fun L => settle L finallyBody g := by
  cases g with
  | escaped e => exact .raise e hg
  | pending outcome =>
    cases finallyBody with
    | none => exact resume_built outcome hg
    | some final =>
      refine .ite _ (resume_built outcome hg) ?_
      refine .bind (block_built final hf) fun flow => ?_
      cases flow with
      | next | value => exact resume_built outcome hg
      | «return» | «break» | «continue» => exact .pure _

theorem settle_of_fatal (L : Level) (finallyBody : Option (List Stmt)) (e : Failure)
    (he : e.isFatal = true) : settle L finallyBody (.pending (.error e)) = Eval.raise e := by
  cases finallyBody with
  | none => rfl
  | some final =>
    change (if e.isFatal = true then _ else _) = _
    rw [if_pos he]
    rfl

theorem caughtValue_of_fatal (L : Level) (e : Failure) (he : e.isFatal = true) :
    caughtValue L e = pure none := by
  cases e with
  | fault => exact if_pos he
  | syntactic | thrown | file => cases he

theorem handled_built (e : Failure) (handlers : List CatchClause)
    (finallyBody : Option (List Stmt)) (he : C.failure e)
    (hh : ∀ clause ∈ handlers, ∀ s ∈ clause.body, C.code (.stmt s))
    (hf : ∀ s ∈ finallyBody.getD [], C.code (.stmt s)) :
    Built C Γ fun L => handle L e handlers >>= settle L finallyBody := by
  have hsame : Guarded.Lawful C (.pending (.error e)) := by
    rintro _ ⟨⟩
    exact he
  refine .assoc (.bind (caughtValue_built e) fun caught => ?_)
  cases caught with
  | none => exact settle_built finallyBody (.escaped e) he hf
  | some v =>
    refine .assoc (.firstSome handlers (fun clause _ => catches_built v clause)
      fun found hfound => ?_)
    cases found with
    | none => exact settle_built finallyBody (.pending (.error e)) hsame hf
    | some clause =>
      obtain ⟨_, hmem, rfl⟩ := hfound clause rfl
      refine .assoc (.attempt (blockWith_built _ v _ (hh _ hmem)) (fun r hr => ?_)
        fun L e he => ?_)
      · exact settle_built finallyBody (.pending r) hr hf
      · exact settle_of_fatal L finallyBody e he

theorem tryStatement_built (body : List Stmt) (handlers : List CatchClause)
    (finallyBody : Option (List Stmt)) (hb : ∀ s ∈ body, C.code (.stmt s))
    (hh : ∀ clause ∈ handlers, ∀ s ∈ clause.body, C.code (.stmt s))
    (hf : ∀ s ∈ finallyBody.getD [], C.code (.stmt s)) :
    Built C Γ fun L => tryStatement L body handlers finallyBody := by
  refine .assoc (.attempt (block_built body hb) (fun r hr => ?_) fun L e he => ?_)
  · cases r with
    | ok flow => exact settle_built finallyBody (.pending (.ok flow)) (fun _ => nofun) hf
    | error e => exact handled_built e handlers finallyBody (hr e rfl) hh hf
  · change (caughtValue L e >>= _) >>= settle L finallyBody = Eval.raise e
    rw [caughtValue_of_fatal L e he]
    rfl

theorem throwValue_built (v : Value) (span : Span) :
    Built C Γ fun _ => (throwValue v span : Eval α) := by
  have hthrow : Built C Γ fun _ => (do
      let message ← Eval.ask (thrownMessage · v)
      Eval.raise (.thrown v (← Eval.typeName v) message span) : Eval α) :=
    .bind (.ask _) fun _ => .bind (.ask _) fun _ => .raise _ (Law.failure_of_none rfl)
  refine .bind (.ask _) fun line => ?_
  exact .ite _ (.bind (setField_built _ _ _) fun _ => hthrow) hthrow

theorem initialValue_built (decl : VarDecl)
    (hi : ∀ value, decl.initializer = some value → C.code (.expr value)) :
    Built C Γ fun L => initialValue L decl := by
  unfold initialValue
  cases he : decl.initializer with
  | none => exact .pure _
  | some e =>
    refine .bind (.evaluate e (hi e he)) fun v => ?_
    cases decl.types with
    | none => exact .pure _
    | some names =>
      refine .bind (.bind (Declaration.resolveTypes_built names) fun accepted => ?_)
        fun _ => .pure _
      refine .bind (.ask _) fun c => ?_
      exact .ite _ (.pure _) (.bind (.ask _) fun _ => .fail _ rfl)

theorem variableDecl_built (decl : VarDecl) (hh : .here ∈ Γ)
    (hi : ∀ value, decl.initializer = some value → C.code (.expr value)) :
    Built C Γ fun L => variableDecl L decl := by
  refine .bind (initialValue_built decl hi) fun v => ?_
  exact .site hh fun _ => Declaration.defineVariable_built _ _ _ (.free (by simp)) (.inl (by simp))

theorem ifStatement_built (test : Expr) (thenBody : List Stmt) (elseBody : Option (List Stmt))
    (ht : C.code (.expr test)) (hthen : ∀ s ∈ thenBody, C.code (.stmt s))
    (helse : ∀ s ∈ elseBody.getD [], C.code (.stmt s)) :
    Built C Γ fun L => ifStatement L test thenBody elseBody := by
  refine .bind (condition_built test ht) fun holds => ?_
  refine .ite _ (block_built thenBody hthen) ?_
  cases elseBody with
  | some body => exact block_built body helse
  | none => exact .pure _

theorem declaring_built {x : Level → Eval Unit} (hx : Built C Γ x) :
    Built C Γ fun L => declaring (x L) :=
  .bind hx fun _ => .pure _

theorem run_built (stmt : Stmt) (hs : C.code (.stmt stmt))
    (hh : ∀ k ∈ stmt.needs, k ∈ Γ) : Built C Γ fun L => run L stmt := by
  have hpart (d : Code) (h : d ∈ stmt.parts) : C.code d := C.parts _ hs d h
  refine .locate stmt.span ?_
  cases stmt with
  | «variable» span decl =>
    have hhere := forall_mem_singleton.mp hh
    refine declaring_built (variableDecl_built decl hhere fun e he => hpart _ ?_)
    simp [Stmt.parts, he]
  | function decl =>
    have hhere := forall_mem_singleton.mp hh
    exact declaring_built (Declaration.function_built decl hhere hpart)
  | «class» decl =>
    have hinside := forall_mem_singleton.mp hh
    refine declaring_built (Declaration.classDecl_built decl hinside fun s hs => hpart _ ?_)
    exact mem_map.mpr ⟨s, hs, rfl⟩
  | enum decl =>
    have hinside := forall_mem_singleton.mp hh
    refine declaring_built (Declaration.enumDecl_built decl hinside fun v hv e he => hpart _ ?_)
    exact mem_flatMap.mpr ⟨v, hv, by simp [he]⟩
  | property span decl =>
    exact .raise _ (Law.failure_fault (C.raises _ hs _ (.property span decl)) none [])
  | importModule span path form =>
    exact declaring_built (Import.run_built path form hs (forall_mem_singleton.mp hh))
  | expr e => exact .bind (.evaluate e (hpart _ (mem_singleton_self _))) fun _ => .pure _
  | block span body => exact block_built body fun s hs => hpart _ (mem_map.mpr ⟨s, hs, rfl⟩)
  | «if» span test thenBody elseBody =>
    exact ifStatement_built test thenBody elseBody (hpart _ mem_cons_self)
      (fun s hs => hpart _ (by simp [Stmt.parts, hs]))
      fun s hs => hpart _ (by simp [Stmt.parts, hs])
  | «while» span test body =>
    exact whileLoop_built test body (hpart _ mem_cons_self)
      fun s hs => hpart _ (by simp [Stmt.parts, hs])
  | «for» span binding iterable body =>
    exact forLoop_built binding iterable body (hpart _ mem_cons_self)
      fun s hs => hpart _ (by simp [Stmt.parts, hs])
  | switch span subject cases defaultBody =>
    refine switch_built subject cases defaultBody (hpart _ mem_cons_self)
      (fun c hc d hd => hpart d (mem_cons_of_mem _ (mem_append_left _ ?_)))
      fun s hs => hpart _ (by simp [Stmt.parts, hs])
    exact mem_flatMap.mpr ⟨c, hc, hd⟩
  | «try» span body handlers finallyBody =>
    refine tryStatement_built body handlers finallyBody
      (fun s hs => hpart _ (by simp [Stmt.parts, hs]))
      (fun clause hc s hs => hpart _ (mem_map.mpr ⟨s, ?_, rfl⟩))
      fun s hs => hpart _ (by simp [Stmt.parts, hs])
    grind
  | throw span e =>
    exact .bind (.evaluate e (hpart _ (mem_singleton_self _))) fun v => throwValue_built v span
  | «return» span e =>
    refine .bind (Declaration.initial_built e fun value he => hpart _ ?_) fun _ => .pure _
    simp [Stmt.parts, he]
  | «break» | «continue» => exact .pure _

end Statement

namespace Invocation

theorem checkAccess_built (f : Overload) : Built C Γ fun _ => checkAccess f := by
  refine .scope fun site => ?_
  refine .bind (.ask _) fun allowed => ?_
  exact .ite _ (.pure _) (.bind (.ask _) fun _ => .fail _ rfl)

theorem checkReceiver_built (f : Overload) (receiver : Option Value) :
    Built C Γ fun _ => checkReceiver f receiver := by
  unfold checkReceiver
  split
  · refine .bind (.ask _) fun held => ?_
    exact .ite _ (.pure _) (.bind (.ask _) fun _ => .fail _ rfl)
  · exact .pure _

theorem frame_of_plain {f : Overload} (ho : f.owner = none) (closure : ScopeId)
    (receiver : Option Value) :
    frame f closure receiver =
      Eval.create (·.newScope (.frame closure none) (some closure)) := by
  have hbound (h : Heap) : boundInstance? h f receiver = none := by
    unfold boundInstance?
    rw [ho]
  unfold frame
  simp only [hbound]
  rfl

theorem frame_built {k : Level → ScopeId → Eval β} (f : Overload) (body : List Stmt)
    (closure : ScopeId) (receiver : Option Value) (hb : f.body = .script body closure)
    (hf : ∀ k ∈ f.facts, k ∈ Γ)
    (hk : ∀ Γ' s, .scope s ∈ Γ' → .own s ∈ Γ' → Built C Γ' fun L => k L s) :
    Built C Γ fun L => frame f closure receiver >>= k L := by
  have hplain (Γ' : List Fact) (hc : .scope closure ∈ Γ') :
      Built C Γ' fun L => Eval.create (·.newScope (.frame closure none) (some closure)) >>= k L :=
    .newScope _ _ (.function closure hc) fun s => hk _ s (by simp) (by simp)
  cases ho : f.owner with
  | none =>
    rw [Declaration.facts_of_plain hb ho] at hf
    simp only [frame_of_plain ho]
    exact hplain Γ (hf _ (mem_singleton_self _))
  | some c =>
    rw [Declaration.facts_of_member hb ho] at hf
    have hc : .scope closure ∈ Γ := hf _ mem_cons_self
    have hm : .membersIn closure ∈ Γ := hf _ (mem_cons_of_mem _ mem_cons_self)
    refine .assoc (.find (.receiver f receiver) fun found _ => ?_)
    cases found with
    | some bound =>
      refine .newScope _ _ (.method closure bound.1 bound.2 (mem_append_right _ hc)
        (mem_append_right _ hm) mem_cons_self
        (mem_cons_of_mem _ mem_cons_self)) fun s => ?_
      exact hk _ s (by simp) (by simp)
    | none => exact hplain _ (mem_append_right _ hc)

theorem runBody_cons (L : Level) (stmt : Stmt) (rest : List Stmt) : runBody L (stmt :: rest) =
      (L.execute stmt >>= fun
        | .next => runBody L rest
        | .value _ => runBody L rest
        | .return v => pure v
        | _ => Eval.raise (.fault .loopControlInFunction (some stmt.span) []) : Eval Value) := by
  funext m
  rw [Eval.bind_apply, runBody]
  cases L.execute stmt m with
  | done flow m => cases flow <;> rfl
  | failed | stopped => rfl

theorem runBody_built (body stmts : List Stmt) (hb : C.code (.body body)) (hi : stmts ⊆ body)
    (hh : [.here, .inside] ⊆ Γ) : Built C Γ fun L => runBody L stmts := by
  induction stmts with
  | nil => exact .pure _
  | cons stmt rest ih =>
    obtain ⟨hmem, hrest⟩ := cons_subset.mp hi
    simp only [runBody_cons]
    refine .execute stmt (C.part hb (mem_map.mpr ⟨stmt, hmem, rfl⟩)) (stmt.needs_subset hh)
      fun flow hflow => ?_
    have hloops := C.loops body hb stmt hmem flow hflow
    cases flow with
    | next | value => exact ih hrest
    | «return» => exact .pure _
    | «break» | «continue» => exact .raise _ (Law.failure_fault (hloops rfl).2 _ _)

theorem frame_noConstants (f : Overload) (closure : ScopeId) (receiver : Option Value)
    (m : Machine) (s : ScopeId) (m' : Machine) (hrun : frame f closure receiver m = .done s m') :
    m'.heap.NoConstants s := by
  obtain ⟨found, m₁, _, hnew⟩ := bind_done hrun
  cases found with
  | none | some =>
    cases hnew
    exact newScope_noConstants _ _ _

theorem script_eq (L : Level) (f : Overload) (body : List Stmt) (closure : ScopeId)
    (receiver : Option Value) (arguments : List Value) :
    script L f body closure receiver arguments = frame f closure receiver >>= fun scope =>
      Eval.forList (fun p => Calling.bindName scope p.1.name p.2) (f.params.zip arguments) >>=
        fun _ => Eval.inScope scope (runBody L body) := by
  refine bind_congr_noConstants (frame_noConstants f closure receiver) fun s m hfree => ?_
  exact bind_congr_at (Calling.forList_bindName (f.params.zip arguments) m hfree) _

theorem script_built (f : Overload) (body : List Stmt) (closure : ScopeId)
    (receiver : Option Value) (arguments : List Value) (hb : f.body = .script body closure)
    (hf : ∀ k ∈ f.facts, k ∈ Γ) (hc : C.overload f) :
    Built C Γ fun L => script L f body closure receiver arguments := by
  simp only [script_eq]
  refine frame_built f body closure receiver hb hf fun Γ' scope hs ho => ?_
  refine .bind (.forList _ fun p _ => Calling.bindName_built _ _ _ ho) fun _ => ?_
  exact .inScope scope hs ho (runBody_built body body (hc body closure hb) (List.Subset.refl body)
    (subset_append_left [_, _] _))

theorem body_built (f : Overload) (receiver : Option Value) (arguments : List Value)
    (hf : ∀ k ∈ f.facts, k ∈ Γ) (hc : C.overload f) :
    Built C Γ fun L => body L f receiver arguments := by
  unfold body
  cases hb : f.body with
  | native native => exact Library.run_built native _
  | script stmts closure => exact script_built f stmts closure receiver arguments hb hf hc

theorem invoke_built (id : OverloadId) (receiver : Option Value) (arguments : List Value)
    (span : Span) : Built C Γ fun L => invoke L id receiver arguments span := by
  refine .find (.overload id) fun f hf => ?_
  refine .bind (checkAccess_built f) fun _ => ?_
  refine .bind (checkReceiver_built f receiver) fun _ => ?_
  exact .nested f span (.body f receiver arguments (fun s h => mem_append_left _ h) hf)

end Invocation

namespace Hosting

theorem isFatal_annotate (note : Option String) (e : Failure) :
    (annotate note e).isFatal = e.isFatal := by
  cases note with
  | none => rfl
  | some note => cases e <;> rfl

theorem fault?_annotate (note : Option String) (e : Failure) :
    (annotate note e).fault? = e.fault? := by
  cases note with
  | none => rfl
  | some note => cases e <;> rfl

theorem evalSource_built (source : String) (hh : [.here, .inside] ⊆ Γ)
    (hs : ∀ items, parseProgram source = .ok items → C.code (.body items)) :
    Built C Γ fun L => evalSource L source := by
  refine .bind (.read _ fun _ _ => rfl) fun note => ?_
  refine .mapFailure _ (isFatal_annotate note) (fault?_annotate note) ?_
  exact Import.fromSource_known source fun items hi => Import.program_built items (hs items hi) hh

theorem evalFile_built (path : String) (hp : C.file path) (hh : [.here, .inside] ⊆ Γ) :
    Built C Γ fun L => evalFile L path := by
  refine .disk fun disk hdisk => Import.fromFile_known _ fun source hsource => ?_
  refine .bind (Import.fromFile_built _) fun file => ?_
  refine .bracket _ _ (fun _ => rfl) (fun _ => rfl) (fun _ => rfl) (.inl fun _ => rfl) ?_
  exact evalSource_built source hh fun items => hp disk hdisk source items hsource

theorem call_built (name : String) (arguments : List Value) :
    Built C Γ fun L => call L name arguments :=
  .bind (Member.getName_built name) fun callee => Calling.value_built callee _ _

end Hosting

end ClassScript
