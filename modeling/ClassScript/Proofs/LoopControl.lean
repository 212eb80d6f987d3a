import ClassScript.Proofs.Lawful

/-!
# Loop Control in Its Place

Running a `break` or a `continue` without a loop to leave is a fault. It does not occur if no body
of a function, and no program, has one that leads out of it: control leaves a statement by one of
the two only if the statement has it inside, and not inside a loop of its own.
-/

namespace ClassScript

open List

variable {flow : Flow} {α : Type} {o : Outcome α}

inductive Exit where
  | «break»
  | «continue»
deriving DecidableEq, Repr

def Flow.exit? : Flow → Option Exit
  | .break => some .break
  | .continue => some .continue
  | .next | .value _ | .return _ => none

def Stmt.exit? : Stmt → Option Exit
  | .break _ => some .break
  | .continue _ => some .continue
  | _ => none

/-- The statements inside a statement out of which control may leave it in one of the two ways. -/
def Stmt.through (exit : Exit) : Stmt → List Stmt
  | .block _ body => body
  | .if _ _ thenBody elseBody => thenBody ++ elseBody.getD []
  | .switch _ _ cases defaultBody =>
    if exit = .break then [] else cases.flatMap (·.body) ++ defaultBody.getD []
  | .try _ body handlers finallyBody =>
    body ++ handlers.flatMap (·.body) ++ finallyBody.getD []
  | _ => []

/-- The statement is a `break` or `continue`, or has one inside that leads out of it. -/
inductive Stmt.Exits (exit : Exit) : Stmt → Prop
  | here {s : Stmt} (hs : s.exit? = some exit) : Exits exit s
  | inside {s t : Stmt} (ht : t ∈ s.through exit) (h : Exits exit t) : Exits exit s

def Flow.LeadsOut (body : List Stmt) (flow : Flow) : Prop :=
  ∀ exit, flow.exit? = some exit → ∃ s ∈ body, s.Exits exit

theorem Flow.LeadsOut.of_none (h : flow.exit? = none) (body : List Stmt) : flow.LeadsOut body := by
  intro exit hexit
  rw [h] at hexit
  cases hexit

theorem Flow.LeadsOut.mono {body body' : List Stmt} (h : flow.LeadsOut body)
    (hb : body ⊆ body') : flow.LeadsOut body' := by
  intro exit hexit
  obtain ⟨s, hs, hs'⟩ := h exit hexit
  exact ⟨s, hb hs, hs'⟩

def Eval.Yields {α : Type} (P : α → Prop) (x : Eval α) : Prop :=
  ∀ m a m', x m = .done a m' → P a

namespace Eval.Yields

variable {α β : Type} {P Q : α → Prop} {R : β → Prop} {x : Eval α} {k : α → Eval β}

theorem pure {a : α} (ha : P a) : Yields P (Pure.pure a : Eval α) := by
  intro m b m' h
  cases h
  exact ha

theorem raise (e : Failure) : Yields P (Eval.raise e : Eval α) := fun _ _ _ h => nomatch h

theorem bindWith (hx : x.Yields P) (hk : ∀ a, P a → (k a).Yields R) : (x >>= k).Yields R := by
  intro m b m' h
  obtain ⟨a, m₁, hxm, hkm⟩ := Eval.bind_done h
  exact hk a (hx m a m₁ hxm) m₁ b m' hkm

theorem bind (hk : ∀ a, (k a).Yields R) : (x >>= k).Yields R :=
  bindWith (P := fun _ => True) (fun _ _ _ _ => trivial) fun a _ => hk a

theorem mono (hx : x.Yields P) (h : ∀ a, P a → Q a) : x.Yields Q :=
  fun m a m' hrun => h a (hx m a m' hrun)

theorem ite {c : Prop} [Decidable c] {y : Eval α} (hx : x.Yields P) (hy : y.Yields P) :
    Yields P (if c then x else y) := by
  split
  · exact hx
  · exact hy

theorem locate (span : Span) (hx : x.Yields P) : (Eval.locate span x).Yields P := by
  intro m a m' h
  unfold Eval.locate at h
  cases hxm : x m with
  | done =>
    rw [hxm] at h
    cases h
    exact hx m _ _ hxm
  | failed | stopped =>
    rw [hxm] at h
    cases h

theorem bracket (enter leave : Registers → Registers) (hx : x.Yields P) :
    (Eval.bracket enter leave x).Yields P := by
  intro m a m' h
  unfold Eval.bracket at h
  cases hxm : x { m with registers := enter m.registers } with
  | done =>
    rw [hxm] at h
    cases h
    exact hx _ _ _ hxm
  | failed | stopped =>
    rw [hxm] at h
    cases h

theorem inScope (s : ScopeId) (hx : x.Yields P) : (Eval.inScope s x).Yields P :=
  fun m => bracket (·.goTo s) (·.goTo m.registers.scope) hx m

theorem attempt (hx : x.Yields P) : (Eval.attempt x).Yields fun r => ∀ a, r = .ok a → P a := by
  intro m r m' h
  unfold Eval.attempt at h
  cases hxm : x m with
  | done =>
    rw [hxm] at h
    cases h
    intro a ha
    cases ha
    exact hx m _ _ hxm
  | failed => grind
  | stopped =>
    rw [hxm] at h
    cases h

theorem resume {r : Except Failure α} (hr : ∀ a, r = .ok a → P a) : (Eval.resume r).Yields P := by
  cases r with
  | ok a => exact pure (hr a rfl)
  | error e => exact raise e

theorem loop {step : Eval (Option α)} (hstep : step.Yields fun r => ∀ a, r = some a → P a)
    (n : Nat) : Yields P (Eval.loop step n) := by
  induction n with
  | zero => exact fun _ _ _ h => nomatch h
  | succ n ih =>
    rw [Eval.loop_succ]
    refine bindWith hstep fun answer hanswer => ?_
    cases answer with
    | some a => exact pure (hanswer a rfl)
    | none => exact ih

theorem firstSome {test : α → Eval Bool} {g : α → β} (as : List α) :
    Yields (fun found => ∀ b, found = some b → ∃ a ∈ as, g a = b)
      (Eval.firstSome (fun a => do
        if ← test a then return some (g a) else return none) as) := by
  induction as with
  | nil => exact pure fun b (h : none = some b) => nomatch h
  | cons a rest ih =>
    rw [Eval.firstSome_cons, bind_assoc]
    refine bind fun answer => ?_
    cases answer with
    | true =>
      refine pure fun b hb => ⟨a, mem_cons_self, ?_⟩
      exact Option.some.inj hb
    | false =>
      refine ih.mono fun found hfound b hb => ?_
      grind

end Eval.Yields

namespace Statement

variable {L : Level}

def Hands (L : Level) : Prop :=
  ∀ s, (L.execute s).Yields fun flow => flow.LeadsOut [s]

theorem sequenceFrom_yields (hL : Hands L) (body : List Stmt) : ∀ last : Flow,
    last.exit? = none → Eval.Yields (Flow.LeadsOut body) (sequenceFrom L last body) := by
  induction body with
  | nil => exact fun last hlast => .pure (.of_none hlast _)
  | cons s rest ih =>
    intro last hlast
    have hrest (last : Flow) (h : last.exit? = none) :
        Eval.Yields (Flow.LeadsOut (s :: rest)) (sequenceFrom L last rest) :=
      (ih last h).mono fun _ hflow => hflow.mono (subset_cons_self ..)
    rw [sequenceFrom_cons]
    refine .bindWith (hL s) fun flow hflow => ?_
    have hfirst : flow.LeadsOut (s :: rest) := hflow.mono (by simp)
    cases flow with
    | next => exact hrest last hlast
    | value v => exact hrest (.value v) rfl
    | «return» | «break» | «continue» => exact .pure hfirst

theorem block_yields (hL : Hands L) (body : List Stmt) :
    (block L body).Yields (Flow.LeadsOut body) :=
  .bind fun inner => .inScope inner (sequenceFrom_yields hL body .next rfl)

theorem blockWith_yields (hL : Hands L) (name : Option String) (v : Value) (body : List Stmt) :
    (blockWith L name v body).Yields (Flow.LeadsOut body) := by
  refine .bind fun inner => ?_
  have hbody : (Eval.inScope inner (sequence L body)).Yields (Flow.LeadsOut body) :=
    .inScope inner (sequenceFrom_yields hL body .next rfl)
  cases name with
  | some name => exact .bind fun _ => hbody
  | none => exact hbody

theorem afterRound_exit? {result : Flow} (h : afterRound flow = some result) :
    result.exit? = none := by
  cases flow with
  | next | value v | «continue» => cases h
  | «break» | «return» v =>
    cases h
    rfl

theorem whileLoop_yields (test : Expr) (body : List Stmt) :
    (whileLoop L test body).Yields (·.exit? = none) := by
  refine .loop (.bind fun holds => ?_) _
  refine .ite (.bind fun flow => .pure fun result h => afterRound_exit? h) (.pure ?_)
  intro result h
  cases h
  rfl

theorem forLoop_yields (binding : String) (iterable : Expr) (body : List Stmt) :
    (forLoop L binding iterable body).Yields (·.exit? = none) := by
  refine .bind fun v => .bind fun enumerator => .loop (.bind fun more => ?_) _
  refine .ite (.bind fun item => .bind fun flow => .pure fun result h => afterRound_exit? h)
    (.pure ?_)
  intro result h
  cases h
  rfl

theorem switch_yields (hL : Hands L) (span : Span) (subject : Expr) (cases : List SwitchCase)
    (defaultBody : Option (List Stmt)) :
    (switch L subject cases defaultBody).Yields
      (Flow.LeadsOut [.switch span subject cases defaultBody]) := by
  refine .bind fun v => .bindWith (Eval.Yields.firstSome cases) fun found hfound => ?_
  have hbodies (body : List Stmt) (hbody : (found.orElse fun _ => defaultBody) = some body) :
      body ⊆ cases.flatMap (·.body) ++ defaultBody.getD [] := by
    cases found with
    | none | some => grind
  cases hchosen : found.orElse fun _ => defaultBody with
  | none => exact .pure (.of_none rfl _)
  | some body =>
    refine .bindWith (block_yields hL body) fun flow hflow => ?_
    cases flow with
    | next | value | «return» | «break» => exact .pure (.of_none rfl _)
    | «continue» =>
      refine .pure fun exit hexit => ⟨_, mem_singleton_self _, ?_⟩
      obtain ⟨s, hs, hleaves⟩ := hflow exit hexit
      cases hexit
      exact .inside (hbodies body hchosen hs) hleaves

theorem guarded_yields (hL : Hands L) (body : List Stmt) (handlers : List CatchClause) :
    (guarded L body handlers).Yields fun ended =>
      ∀ flow, ended = .pending (.ok flow) → flow.LeadsOut (body ++ handlers.flatMap (·.body)) := by
  refine .bindWith (block_yields hL body).attempt fun outcome houtcome => ?_
  cases outcome with
  | ok flow =>
    refine .pure fun flow' h => ?_
    cases h
    exact (houtcome flow rfl).mono (subset_append_left _ _)
  | error e =>
    refine .bind fun caught => ?_
    cases caught with
    | none => exact .pure fun _ h => nomatch h
    | some v =>
      refine .bindWith (Eval.Yields.firstSome handlers) fun chosen hchosen => ?_
      cases chosen with
      | none => exact .pure fun _ h => nomatch h
      | some clause =>
        refine .bindWith (blockWith_yields hL _ v _).attempt fun outcome houtcome => ?_
        refine .pure fun flow h => ?_
        cases h
        refine (houtcome flow rfl).mono fun s hs => mem_append_right _ ?_
        grind

theorem tryStatement_yields (hL : Hands L) (body : List Stmt) (handlers : List CatchClause)
    (finallyBody : Option (List Stmt)) :
    (tryStatement L body handlers finallyBody).Yields
      (Flow.LeadsOut (body ++ handlers.flatMap (·.body) ++ finallyBody.getD [])) := by
  refine .bindWith (guarded_yields hL body handlers) fun ended hended => ?_
  cases ended with
  | escaped e => exact .raise e
  | pending outcome =>
    have hresume : (Eval.resume outcome).Yields
        (Flow.LeadsOut (body ++ handlers.flatMap (·.body) ++ finallyBody.getD [])) := by
      refine .resume fun flow hflow => ?_
      exact (hended flow (congrArg _ hflow)).mono (subset_append_left _ _)
    cases finallyBody with
    | none => exact hresume
    | some final =>
      refine .ite hresume (.bindWith (block_yields hL final) fun flow hflow => ?_)
      have hfinal := hflow.mono
        (subset_append_right (body ++ handlers.flatMap (·.body)) final)
      cases flow with
      | next | value v => exact hresume
      | «return» v | «break» | «continue» => exact .pure hfinal

theorem ifStatement_yields (hL : Hands L) (test : Expr) (thenBody : List Stmt)
    (elseBody : Option (List Stmt)) :
    (ifStatement L test thenBody elseBody).Yields
      (Flow.LeadsOut (thenBody ++ elseBody.getD [])) := by
  refine .bind fun holds => .ite ?_ ?_
  · exact (block_yields hL thenBody).mono fun _ h => h.mono (subset_append_left _ _)
  · cases elseBody with
    | none => exact .pure (.of_none rfl _)
    | some body =>
      exact (block_yields hL body).mono fun _ h => h.mono (subset_append_right _ _)

theorem run_yields (hL : Hands L) (s : Stmt) : (run L s).Yields fun flow => flow.LeadsOut [s] := by
  have hnone {x : Eval Flow} (hx : x.Yields (·.exit? = none)) :
      x.Yields fun flow => flow.LeadsOut [s] :=
    hx.mono fun _ h => .of_none h _
  have hdeclaring (x : Eval Unit) : (declaring x).Yields (·.exit? = none) :=
    .bind fun _ => .pure rfl
  -- What leads out of a statement inside leads out of the one around it.
  have hthrough {x : Eval Flow} {body : List Stmt} (hx : x.Yields (Flow.LeadsOut body))
      (hb : ∀ exit, body ⊆ s.through exit) : x.Yields fun flow => flow.LeadsOut [s] := by
    refine hx.mono fun flow hflow exit hexit => ⟨s, mem_singleton_self s, ?_⟩
    obtain ⟨t, ht, hleaves⟩ := hflow exit hexit
    exact .inside (hb exit ht) hleaves
  have hself (flow : Flow) (h : flow.exit? = s.exit?) : flow.LeadsOut [s] :=
    fun exit hexit => ⟨s, mem_singleton_self s, .here (h.symm.trans hexit)⟩
  refine .locate s.span ?_
  cases s with
  | «variable» | function | «class» | enum | importModule => exact hnone (hdeclaring _)
  | property => exact .raise _
  | expr | «return» => exact .bind fun _ => .pure (.of_none rfl _)
  | block span body => exact hthrough (block_yields hL body) fun _ => List.Subset.refl _
  | «if» span test thenBody elseBody =>
    exact hthrough (ifStatement_yields hL test thenBody elseBody) fun _ => List.Subset.refl _
  | «while» span test body => exact hnone (whileLoop_yields test body)
  | «for» span binding iterable body => exact hnone (forLoop_yields binding iterable body)
  | switch span subject cases defaultBody => exact switch_yields hL span subject cases defaultBody
  | «try» span body handlers finallyBody =>
    exact hthrough (tryStatement_yields hL body handlers finallyBody) fun _ => List.Subset.refl _
  | throw span e =>
    refine .bind fun v => .bind fun line => ?_
    have hraise : Eval.Yields (Flow.LeadsOut [.throw span e]) (do
        let message ← Eval.ask (thrownMessage · v)
        Eval.raise (.thrown v (← Eval.typeName v) message span)) :=
      .bind fun _ => .bind fun _ => .raise _
    exact .ite (.bind fun _ => hraise) hraise
  | «break» | «continue» => exact .pure (hself _ rfl)

end Statement

variable {A : String → Prop} {disk : Disk}

theorem watchedLevel_hands (watch : Machine → Bool) (n : Nat) :
    Statement.Hands (watchedLevel watch n) := by
  induction n with
  | zero => exact fun _ _ _ _ h => nomatch h
  | succ n ih => exact fun s m flow m' h => Statement.run_yields ih s m flow m' (enter_done h)

/-- In all bodies of the code, loop control is in its place, and imports are of paths from a set. -/
inductive Code.Placed (A : String → Prop) : Code → Prop
  | intro {c : Code}
      (body : ∀ b, c = .body b → ∀ s ∈ b, ∀ exit, ¬ s.Exits exit)
      (imports : ∀ span path form, c = .stmt (.importModule span path form) → A path)
      (parts : ∀ d ∈ c.parts, d.Placed A) : Placed A c

def Disk.Placed (A : String → Prop) (d : Disk) : Prop :=
  ∀ path, A path → ∀ file, d.Finds path file → ∀ source items, d.readText file = .ok source →
    parseProgram source = .ok items → Code.Placed A (.body items)

theorem Code.Placed.literal (A : String → Prop) (span : Span) (value : Literal) :
    Code.Placed A (.expr (.literal span value)) :=
  .intro (fun _ h => nomatch h) (fun _ _ _ h => nomatch h) (forall_mem_nil _)

/-- The rule that loop control is in its place, in the code and in all that it imports
    from a disk. -/
def Law.placed (A : String → Prop) (disk : Disk) : Law where
  code := Code.Placed A
  fault f := f.isLoopControl = false
  flow s flow := flow.LeadsOut [s]
  disk d := d = disk ∧ d.Placed A
  parts := fun _ ⟨_, _, hparts⟩ => hparts
  raises := by
    rintro _ _ _ (_ | _ | _ | _) <;> rfl
  loops := by
    rintro b ⟨hbody, _, _⟩ s hs flow hflow hleaves
    obtain ⟨exit, hexit⟩ : ∃ exit, flow.exit? = some exit := by
      cases flow with
      | next | value v | «return» v => cases hleaves
      | «break» | «continue» => exact ⟨_, rfl⟩
    obtain ⟨t, ht, hexits⟩ := hflow exit hexit
    rw [mem_singleton.mp ht] at hexits
    exact absurd hexits (hbody b rfl s hs exit)
  ordinary _ hf := (Bool.or_eq_false_iff.mp hf).2
  flows _ hL s m flow m' := Statement.run_yields (fun s m flow m' => hL s m flow m') s m flow m'
  literal := .literal A
  imports := by
    rintro span path form ⟨_, himports, _⟩ d ⟨rfl, hplaced⟩ file hfile d' ⟨rfl, _⟩
    exact hplaced path (himports span path form rfl) file hfile

def Stmt.staysWithin (exit : Exit) : Nat → Stmt → Bool
  | 0, _ => false
  | n + 1, s => s.exit? != some exit && (s.through exit).all (staysWithin exit n)

def Code.isClosedWithin (n : Nat) : Code → Bool
  | .body b => b.all fun s => s.staysWithin .break n && s.staysWithin .continue n
  | _ => true

def Code.importsFrom (paths : List String) : Code → Bool
  | .stmt (.importModule _ path _) => paths.contains path
  | _ => true

def Code.placedWithin (paths : List String) : Nat → Code → Bool
  | 0, _ => false
  | n + 1, c => c.isClosedWithin n && c.importsFrom paths && c.parts.all (placedWithin paths n)

theorem Stmt.not_exits_of_staysWithin {exit : Exit} (n : Nat) :
    ∀ s : Stmt, s.staysWithin exit n = true → ¬ s.Exits exit := by
  induction n with
  | zero => exact fun _ h => nomatch h
  | succ n ih =>
    intro s h
    obtain ⟨hself, hinside⟩ := Bool.and_eq_true_iff.mp h
    rintro (hs | ⟨ht, hexits⟩)
    · exact bne_iff_ne.mp hself hs
    · simp_all

theorem Code.placed_of_placedWithin {paths : List String} (n : Nat) :
    ∀ c : Code, c.placedWithin paths n = true → c.Placed (· ∈ paths) := by
  induction n with
  | zero => exact fun _ h => nomatch h
  | succ n ih =>
    intro c h
    obtain ⟨h, hparts⟩ := Bool.and_eq_true_iff.mp h
    obtain ⟨hclosed, himports⟩ := Bool.and_eq_true_iff.mp h
    refine .intro ?_ ?_ fun d hd => ih d (all_eq_true.mp hparts d hd)
    · rintro b rfl s hs exit
      obtain ⟨hbreak, hcontinue⟩ := Bool.and_eq_true_iff.mp (all_eq_true.mp hclosed s hs)
      cases exit with
      | «break» => exact s.not_exits_of_staysWithin n hbreak
      | «continue» => exact s.not_exits_of_staysWithin n hcontinue
    · rintro span path form rfl
      exact contains_iff_mem.mp himports

def Failure.isLoopControl : Failure → Bool
  | .fault f _ _ => f.isLoopControl
  | _ => false

def Outcome.IsLoopControl {α : Type} : Outcome α → Prop
  | .failed e _ => e.isLoopControl = true
  | _ => False

def Outcome.divertLoopControl {α : Type} (elsewhere : Machine → Machine) : Outcome α → Outcome α
  | .failed e m => if e.isLoopControl then .stopped (elsewhere m) else .failed e m
  | o => o

theorem Failure.not_isLoopControl {e : Failure}
    (he : (Law.placed A disk).failure e) : ¬ e.isLoopControl = true := by
  cases e with
  | fault f span notes => exact Bool.eq_false_iff.mp (he f rfl)
  | syntactic | thrown | file => exact Bool.false_ne_true

theorem Outcome.Clean.not_isLoopControl (ho : o.Clean (.placed A disk)) : ¬ o.IsLoopControl := by
  cases o with
  | done | stopped => exact id
  | failed e m => exact Failure.not_isLoopControl (ho.failure e m rfl)

theorem Outcome.Clean.divertLoopControl
    (ho : o.Clean (.placed A disk)) (elsewhere : Machine → Machine) :
    o.divertLoopControl elsewhere = o := by
  cases o with
  | done | stopped => rfl
  | failed e m => exact if_neg (Failure.not_isLoopControl (ho.failure e m rfl))

/-- A machine that occurs if all programs keep to the condition, with all that they
    import. -/
inductive ReachableByPlaced (A : String → Prop) (disk : Disk) : Machine → Prop
  | initial (config : Config) (hosts : List HostClass) :
      ReachableByPlaced A disk (Machine.initial config disk hosts)
  | request {m : Machine} (hm : ReachableByPlaced A disk m) (watch : Machine → Bool) (n : Nat)
      (r : Request) (hr : r.Obeys (.placed A disk)) :
      ReachableByPlaced A disk (r.perform (watchedLevel watch n) m).machine

theorem ReachableByPlaced.obeys (hdisk : disk.Placed A)
    {m : Machine} (hm : ReachableByPlaced A disk m) : m.Obeys (.placed A disk) := by
  induction hm with
  | initial config hosts =>
    have hread : (Law.placed A disk).disk disk := ⟨rfl, hdisk⟩
    exact Machine.initial_obeys config hread hosts
  | @request m _ watch n r hr ih =>
    exact ((r.perform_obeying [] hr).agrees (watchedLevel_agrees watch n) m ih).2.machine

/-- Control leaves a statement by `break` or `continue` only if the statement has it inside, not in
    a loop of its own, and for `break` not in a switch. If loop control is in its place in all
    programs and in what they import, no request reaches the fault. -/
theorem Request.perform_placed :
    (∀ watch n (s : Stmt) m flow m', (watchedLevel watch n).execute s m = .done flow m' →
      ∀ exit, flow.exit? = some exit → s.Exits exit) ∧
    ∀ A disk, Disk.Placed A disk → ∀ m, ReachableByPlaced A disk m →
      ∀ r : Request, r.Obeys (.placed A disk) → ∀ n elsewhere,
        r.perform (changedLevel (fun _ => Outcome.divertLoopControl elsewhere) n) m =
            r.perform (level n) m ∧
          ¬ (r.perform (level n) m).IsLoopControl := by
  constructor
  · intro watch n s m flow m' hrun exit hexit
    obtain ⟨t, ht, hexits⟩ := watchedLevel_hands watch n s m flow m' hrun exit hexit
    rw [mem_singleton.mp ht] at hexits
    exact hexits
  · intro A disk hdisk m hm r hr n elsewhere
    have hlevels := level_agrees_changed (C := .placed A disk)
      (fun _ _ ho => ho.divertLoopControl elsewhere) n
    obtain ⟨hsame, hclean⟩ := (r.perform_obeying [] hr).agrees hlevels m (hm.obeys hdisk)
    exact ⟨hsame, hclean.not_isLoopControl⟩

example :
    let f := Stmt.function ⟨"f", [], [.break default], .none, default⟩
    let call := Stmt.expr (.call default (.name default "f") [])
    let guarded := Request.module [f, .try default [call] [⟨none, none, [], default⟩] none]
    (guarded.perform (changedLevel (fun _ => Outcome.divertLoopControl id) 20)
      (Machine.initial Config.standard default [])).stopsAtDepth 1 = true := by
  decide +kernel

def Request.skips : String :=
  "for i in 1..6 \x7b switch i \x7b case 2 \x7b continue; \x7d case 3 \x7b break; \x7d\n" ++
  "default \x7b print(i); \x7d \x7d\n" ++
  "try \x7b if i == 5 \x7b break; \x7d \x7d finally \x7b print(\".\"); \x7d \x7d"

theorem Request.skips_placed :
    (∃ m', (level 2).execute (.block default [.break default])
        (Machine.initial Config.standard default []) = .done .break m' ∧
      Stmt.Exits .break (.block default [.break default])) ∧
    ∃ items, parseProgram skips = .ok items ∧ Code.Placed (· ∈ []) (.body items) ∧
      (∀ elsewhere, (Request.module items).perform
          (changedLevel (fun _ => Outcome.divertLoopControl elsewhere) 24)
          (Machine.initial Config.standard default []) =
        (Request.module items).perform (level 24) (Machine.initial Config.standard default [])) ∧
      ((Request.module items).perform (level 24)
        (Machine.initial Config.standard default [])).machine.output = "1..4.5." := by
  have hcheck : (parseProgram skips).toOption.map (fun items =>
      ((Code.body items).placedWithin [] 20, ((Request.module items).perform (level 24)
        (Machine.initial Config.standard default [])).machine.output)) =
      some (true, "1..4.5.") := by
    decide +kernel
  obtain ⟨m', hblock⟩ : ∃ m', (level 2).execute (.block default [.break default])
      (Machine.initial Config.standard default []) = .done .break m' := ⟨_, rfl⟩
  refine ⟨⟨m', hblock, Request.perform_placed.1 (fun _ => false) 2 _ _ .break m' hblock .break rfl⟩,
    ?_⟩
  cases hitems : parseProgram skips with
  | ok items =>
    rw [hitems] at hcheck
    have hboth := Prod.mk.inj (Option.some.inj hcheck)
    have hplaced : Code.Placed (· ∈ []) (.body items) := Code.placed_of_placedWithin 20 _ hboth.1
    refine ⟨items, rfl, hplaced, fun elsewhere => ?_, hboth.2⟩
    exact (Request.perform_placed.2 (· ∈ []) default (fun _ h => absurd h not_mem_nil) _
      (.initial Config.standard []) (.module items) hplaced 24 elsewhere).1
  | error e =>
    rw [hitems] at hcheck
    cases hcheck

end ClassScript
