import ClassScript.Proofs.Constants

/-!
# Members of an Enumeration

A member without a value gets the number after that of the member before it. Numbers are words, so
the smallest one comes after the greatest, and there the members do not go up.

An expression that gives a member its value can run anything, but nothing changes the members that
are there already: they are constants of a class.
-/

namespace ClassScript

open List Heap
open Eval hiding pure

variable {name : String} {v : Variable}

/-- An expression is evaluated to a value on the way from one machine to another. -/
def Machine.Finds (L : Level) (m m' : Machine) (e : Expr) (v : Value) : Prop :=
  ∃ m₁ m₂, m.Runs m₁ ∧ L.evaluate e m₁ = .done v m₂ ∧ m₂.Runs m'

/-- Members of a class have numbers: their own, or the one after that of the member before them. -/
inductive EnumDecl.Counted (L : Level) (m m' : Machine) (c : ClassId) :
    (previous : Option Int64) → List (String × Option Expr) → Prop
  | nil {previous : Option Int64} : Counted L m m' c previous []
  | own {previous : Option Int64} {name : String} {e : Expr} {rest : List (String × Option Expr)}
      {n : Int64} (hvalue : m.Finds L m' e (.int n))
      (hbound : m'.heap.varAt? (m'.heap.classAt c).scope name =
        some (.numbered n true true (some c)))
      (hrest : Counted L m m' c (some n) rest) : Counted L m m' c previous ((name, some e) :: rest)
  | first {name : String} {rest : List (String × Option Expr)}
      (hbound : m'.heap.varAt? (m'.heap.classAt c).scope name =
        some (.numbered 0 true true (some c)))
      (hrest : Counted L m m' c (some 0) rest) : Counted L m m' c none ((name, none) :: rest)
  | next {previous n : Int64} {name : String} {rest : List (String × Option Expr)}
      (hnext : if previous = Int64.maxValue then n = Int64.minValue
        else n.toInt = previous.toInt + 1)
      (hbound : m'.heap.varAt? (m'.heap.classAt c).scope name =
        some (.numbered n true true (some c)))
      (hrest : Counted L m m' c (some n) rest) :
      Counted L m m' c (some previous) ((name, none) :: rest)

theorem Word.add_one (n : Int64) :
    if n = Int64.maxValue then n + 1 = Int64.minValue else (n + 1).toInt = n.toInt + 1 := by
  split
  · next h => subst h; decide
  · next h =>
    have hne : n.toInt ≠ Int64.maxValue.toInt := fun heq => h (Int64.toInt_inj.mp heq)
    have hle := n.toInt_le
    have hge := n.minValue_le_toInt
    change n.toInt ≠ 9223372036854775807 at hne
    change n.toInt ≤ 9223372036854775807 at hle
    change -9223372036854775808 ≤ n.toInt at hge
    rw [Int64.toInt_add, show (1 : Int64).toInt = 1 from rfl]
    exact Int.bmod_eq_of_le (by omega) (by omega)

variable {watch : Machine → Bool} {n : Nat} {m m₁ m₂ m' : Machine} {S : ScopeId → Prop}
variable {Γ : List Fact} {c : ClassId} {s : ScopeId}

theorem Eval.locate_done {α : Type} {span : Span} {x : Eval α} {a : α}
    (hrun : Eval.locate span x m = .done a m') : x m = .done a m' := by
  unfold Eval.locate at hrun
  split at hrun <;> simp_all

theorem Machine.Runs.member (hrun : m.Runs m') (hplain : m.heap.PlainFields)
    (hkind : (m.heap.scopeAt s).kind = .classBody c)
    (hv : m.heap.varAt? s name = some v) (hconst : v.isConst = true) :
    m'.heap.varAt? s name = some v := by
  refine (hrun.keeps (I := fun m => m.heap.PlainFields ∧ (m.heap.scopeAt s).kind = .classBody c ∧
    m.heap.varAt? s name = some v) (fun a b hmove hk => ?_) ⟨hplain, hkind, hv⟩).2.2
  obtain ⟨hplain, hkind, hv⟩ := hk
  refine ⟨hmove.plainFields hplain, (Runs.kind (.single hmove) (lt_of_varAt? hv)).trans hkind, ?_⟩
  rcases hmove.member hplain hkind hv with hsame | ⟨hnot, _⟩
  · exact hsame
  · rw [hconst] at hnot
    cases hnot

namespace Declaration

theorem variantValue_done {L : Level} {next number : Int64} {value : Option Expr}
    (hdone : variantValue L next value m = .done number m') :
    (∀ e, value = some e → L.evaluate e m = .done (.int number) m') ∧
      (value = none → number = next) := by
  cases value with
  | none =>
    cases hdone
    exact ⟨nofun, fun _ => rfl⟩
  | some e =>
    refine ⟨?_, nofun⟩
    rintro _ ⟨⟩
    obtain ⟨v, m₁, hvalue, hint⟩ := bind_done hdone
    cases v with
    | int k =>
      cases hint
      exact hvalue
    | _ => cases hint

theorem defineVariable_done (hs : s < m.heap.scopes.size)
    (hdone : defineVariable s name v m = .done () m') : m'.heap.varAt? s name = some v := by
  obtain ⟨taken, m₁, hask, hset⟩ := bind_done hdone
  cases hask
  split at hset
  · cases hset
  · cases hset
    rw [varAt?_updateScope _ hs]
    exact (OrderedMap.find?_insert _ _ _ _).trans (if_pos rfl)

theorem variants_counted (hd : .declared c ∈ Γ) (hs : .members c s ∈ Γ) (hafter : m₂.Runs m')
    (hscope : (m'.heap.classAt c).scope = s) (members : List (String × Option Expr))
    (hbefore : m.Runs m₁) (hkind : (m₁.heap.scopeAt s).kind = .classBody c)
    (hlt : s < m₁.heap.scopes.size) (hplain : m₁.heap.PlainFields) (hb : m₁.Begins S Γ)
    (previous : Option Int64)
    (hdone : variants (watchedLevel watch n) c s (previous.elim 0 (· + 1)) members m₁ =
      .done () m₂) :
    EnumDecl.Counted (watchedLevel watch n) m m' c previous members := by
  induction members generalizing m₁ previous S with
  | nil => exact .nil
  | cons member rest ih =>
    obtain ⟨name, value⟩ := member
    obtain ⟨number, m₃, hvalue, hdone⟩ := bind_done hdone
    obtain ⟨_, m₄, hdefine, hrest⟩ := bind_done hdone
    obtain ⟨hrun₃, T, hb₃⟩ :=
      (variantValue_built _ value fun _ _ => False.elim).done watch n hb hvalue
    obtain ⟨hrun₄, U, hb₄⟩ := (defineVariable_built (C := False) s name _ (.member c hd hs)
      (.inr ⟨c, hs⟩)).done watch n hb₃ hdefine
    have hend := (((variants_built c s hd hs rest fun _ _ _ _ => False.elim) _).done watch n hb₄
      hrest).1.trans hafter
    have hlt₃ := Nat.lt_of_lt_of_le hlt hrun₃.grows.scopes
    have hrun := hrun₃.trans hrun₄
    have hkind₄ := (hrun.kind hlt).trans hkind
    have hplain₄ := hrun.plainFields hplain
    have hbound := hend.member hplain₄ hkind₄ (defineVariable_done hlt₃ hdefine) rfl
    rw [← hscope] at hbound
    have hothers := ih (hbefore.trans hrun) hkind₄
      (Nat.lt_of_lt_of_le hlt₃ hrun₄.grows.scopes) hplain₄ hb₄ (some number) hrest
    obtain ⟨hown, hnext⟩ := variantValue_done hvalue
    cases value with
    | some e => exact .own ⟨m₁, m₃, hbefore, hown e rfl, hrun₄.trans hend⟩ hbound hothers
    | none =>
      obtain rfl := hnext rfl
      cases previous with
      | none => exact .first hbound hothers
      | some number => exact .next (Word.add_one number) hbound hothers

theorem enumDecl_counted (hb : m.Begins S [.inside]) (hplain : m.heap.PlainFields)
    {decl : EnumDecl} (hdone : enumDecl (watchedLevel watch n) decl m = .done () m') :
    ∃ c, (m'.heap.scopeAt m.registers.scope).classes.find? decl.name = some c ∧
      EnumDecl.Counted (watchedLevel watch n) m m' c none decl.variants := by
  have hsite : m.Begins S [.scope m.registers.scope, .naming m.registers.scope, .inside] :=
    hb.known (Δ := [_, _]) (hb.fits.siteInside mem_cons_self) (by simp [Fact.Allowed])
  let c := m.heap.classes.size
  let m₁ : Machine :=
    { m with
      heap := (m.heap.newClass (Class.fresh decl.name [] true (access decl.modifiers))
        (some m.registers.scope)).2 }
  obtain ⟨hmade, -, hnew⟩ : m.Seals S m₁ S ∧ m.Upholds m₁ ∧
      m₁.Begins S (newClassFacts c ++
        [.scope m.registers.scope, .naming m.registers.scope, .inside]) :=
    hsite.newClass mem_cons_self decl.name true (access decl.modifiers) (forall_mem_nil _)
      fun _ => rfl
  have hbody := hnew.find (.bodyScope c (by simp [newClassFacts]) (by simp [newClassFacts]))
  have hthere : c < m₁.heap.classes.size :=
    hnew.ready.knows.holds (.type c) (by simp [newClassFacts])
  have hclass := hnew.steady.linked.heap.classes c hthere
  let s := (m₁.heap.classAt c).scope
  obtain ⟨_, m₂, hvariants, hbind⟩ := bind_done (m := m₁)
    (x := variants (watchedLevel watch n) c s 0 decl.variants) hdone
  obtain ⟨hrun₂, T, hb₂⟩ := (variants_built (C := False) c s (by simp [newClassFacts])
    (by simp [s]) decl.variants (fun _ _ _ _ => False.elim) 0).done watch n hbody hvariants
  have hrun₃ := ((bindClass_built (C := False) m.registers.scope decl.name c
    (by simp [newClassFacts]) (by simp)).done watch n hb₂ hbind).1
  refine ⟨c, ?_, variants_counted (by simp [newClassFacts]) (by simp) hrun₃
    ((hrun₂.trans hrun₃).grows.classScope c hthere) decl.variants hmade.runs hclass.kind
    hclass.scope (hmade.runs.plainFields hplain) hbody none hvariants⟩
  have hcurrent : m.registers.scope < m₂.heap.scopes.size :=
    Nat.lt_of_lt_of_le hb.steady.linked.scope (hmade.runs.trans hrun₂).grows.scopes
  cases hbind
  rw [scopeAt_updateScope, if_pos ⟨rfl, hcurrent⟩]
  exact (OrderedMap.find?_insert _ _ _ _).trans (if_pos rfl)

end Declaration

/-- At any time of a session, a declaration of an enumeration that ends has counted its members: a
    member has the value that its expression had when it was evaluated, or the number after that of
    the member before it, which is zero for the first one. Only after the greatest word comes the
    smallest. -/
theorem InSession.enum_counted {m₀ m m' : Machine} (hm : InSession m₀) (hrun : m₀.Runs m)
    {watch : Machine → Bool} {n : Nat} {decl : EnumDecl} {flow : Flow}
    (hdone : (watchedLevel watch (n + 1)).execute (.enum decl) m = .done flow m') :
    ∃ c, (m'.heap.scopeAt m.registers.scope).classes.find? decl.name = some c ∧
      EnumDecl.Counted (watchedLevel watch n) m m' c none decl.variants := by
  have hsteady := hrun.steady hm.steady
  have hinside : m.Begins (fun _ => False) [.inside] :=
    hsteady.begins.known (Δ := [.inside]) (hsteady.begins.fits.cons trivial trivial
      fun h => h.elim hsteady.current id) (forall_mem_singleton.mpr trivial)
  have hbody : Eval.locate decl.span (Statement.declaring
      (Declaration.enumDecl (watchedLevel watch n) decl)) m = .done flow m' := enter_done hdone
  obtain ⟨_, m₁, hdecl, hnext⟩ := bind_done (locate_done hbody)
  cases hnext
  exact Declaration.enumDecl_counted hinside (hrun.plainFields hm.plainFields) hdecl

def Declaration.colors (first : Int64) : EnumDecl :=
  ⟨"Color", [("Red", some (.literal default (.int first))), ("Green", none), ("Blue", none)], .none,
    default⟩

theorem InSession.enum_counted_colors :
    let m := Machine.initial Config.standard default []
    ∃ m' c, (level 20).execute (.enum (Declaration.colors 5)) m = .done .next m' ∧
      EnumDecl.Counted (level 19) m m' c none (Declaration.colors 5).variants := by
  intro m
  have hcheck : ((level 20).execute (.enum (Declaration.colors 5)) m).endsIn
      (fun flow _ => flow = .next) = true := by
    decide +kernel
  obtain ⟨_, m', hdone, hflow⟩ := Outcome.done_of_endsIn hcheck
  obtain rfl := of_decide_eq_true hflow
  obtain ⟨c, -, hcounted⟩ := InSession.enum_counted (.idle (.initial _ _ _)) .refl hdone
  exact ⟨m', c, hdone, hcounted⟩

theorem Declaration.last_color_lowest :
    let m' := ((level 20).execute (.enum (Declaration.colors (Int64.maxValue - 1)))
      (Machine.initial Config.standard default [])).machine
    m'.heap.varAt? (m'.heap.classAt 50).scope "Green" =
        some (.numbered Int64.maxValue true true (some 50)) ∧
      m'.heap.varAt? (m'.heap.classAt 50).scope "Blue" =
        some (.numbered Int64.minValue true true (some 50)) := by
  decide +kernel

end ClassScript
