import ClassScript.Proofs.Steps

/-!
# Runs Are Sequences of Steps

Every computation takes a machine from step to step, wherever it ends or is stopped.

That a step puts no names into the scope of a finished module cannot be seen from the step alone, so
a run is followed together with the scopes of the modules that have been finished on the way.
-/

namespace ClassScript

open List Heap Registers

variable {Γ : List Fact} {f : Heap → Heap} {S T : ScopeId → Prop} {path : String} {c : ClassId}
variable {m' : Machine} {k : Fact} {α : Type} {n : Nat} {L : Level} {x : Level → Eval α}
variable {I : Machine → Prop}

/-! ## Modules under way -/

inductive Machine.Underway (watch : Machine → Bool) (m' : Machine) : Machine → List String → Prop
  | here {m : Machine} (hrun : m.Runs m')
      (hloading : m'.registers.loading = m.registers.loading) : Underway watch m' m []
  | module {m began : Machine} {path : String} {paths : List String} (n : Nat)
      (hrun : m.Runs began) (hloading : began.registers.loading = m.registers.loading)
      (henter : began.Runs (began.enterModule path))
      (hstop : Import.load (watchedLevel watch n) path began = .stopped m')
      (hinner : Underway watch m' (began.enterModule path) paths) :
      Underway watch m' m (paths ++ [path])

section

variable {watch : Machine → Bool}

namespace Machine.Underway

variable {m m' : Machine} {paths : List String}

theorem loading (h : Underway watch m' m paths) :
    m'.registers.loading = paths ++ m.registers.loading := by
  induction h with
  | here _ hloading => exact hloading
  | @module m began path paths _ _ hloading _ _ _ ih =>
    rw [ih, loading_enterModule, hloading, append_assoc]
    rfl

theorem after {m₁ : Machine} (h : Underway watch m' m₁ paths) (hrun : m.Runs m₁)
    (hloading : m₁.registers.loading = m.registers.loading) : Underway watch m' m paths := by
  cases h with
  | here hrest hsame => exact .here (hrun.trans hrest) (hsame.trans hloading)
  | module n hrest hsame henter hstop hinner =>
    exact .module n (hrun.trans hrest) (hsame.trans hloading) henter hstop hinner

end Machine.Underway

end

variable {m : Machine} {s : ScopeId}

/-! ## Scopes that get no more names -/

inductive Machine.Leaves (m : Machine) (s : ScopeId) : Machine → Prop
  | same {m' : Machine} (hs : m'.heap.scopeAt s = m.heap.scopeAt s) : m.Leaves s m'
  | slot {Γ : List Fact} {name : String} {kept : Scope → Bool} (hΓ : m.Ready Γ)
      (hp : Assigning Γ s name kept) (value : Value) :
      m.Leaves s
        { m with
          heap := m.heap.updateScope s fun sc => if kept sc then sc else sc.assign name value }

theorem Write.leaves (hf : Write False Γ f) (hΓ : m.Ready Γ) (hS : m.Spares S Γ) (hs : S s) :
    m.Leaves s { m with heap := f m.heap } := by
  have hother {t : ScopeId} (f : Scope → Scope) (ht : ¬ S t) :
      m.Leaves s { m with heap := m.heap.updateScope t f } := by
    refine .same ?_
    rw [scopeAt_updateScope, if_neg]
    rintro ⟨rfl, -⟩
    exact ht hs
  cases hf with
  | «variable» t name v kept hv _ => exact hother _ (hv.apart hS)
  | @slot t name value kept hp =>
    by_cases hts : t = s
    · subst hts
      exact .slot hΓ hp value
    · refine .same ?_
      rw [scopeAt_updateScope, if_neg fun h => hts h.1]
  | overload t id f _ hp => exact hother _ (hp.apart hS)
  | copy t name c _ ho | family t name family _ ho | «class» t name c _ ho =>
    exact hother _ (hS.apart _ ho).2
  | field | contents => exact .same rfl

/-- A class is made of a module: the statements of its file have been run in a new scope,
    and have not failed. -/
inductive Import.Makes (path : String) : ScopeId → ClassId → Machine → Machine → Prop
  | intro {watch : Machine → Bool} {n : Nat} {began ended : Machine} {items : List Stmt} {v : Value}
      (hopen : Opens began path items)
      (hend : program (watchedLevel watch n) items (began.enterModule path) = .done v ended) :
      Makes path began.heap.scopes.size ((ended.leaveModule began path).moduleClass began path).1
        (ended.leaveModule began path) ((ended.leaveModule began path).rememberModule began path)

theorem Import.Makes.classScope
    (hmade : Makes path s c m m') : (m'.heap.classAt c).scope = m.heap.scopes.size := by
  cases hmade with
  | intro _ _ => exact congrArg Class.scope ((classAt_newClass _ _ _ _).trans (if_pos rfl))

theorem Import.Makes.modules
    (hmade : Makes path s c m m') : m'.modules = (path, c) :: m.modules := by
  cases hmade with
  | intro _ _ => rfl

/-- A run with scopes that get no more names on the way: some from before, and those of the modules
    that are finished by the run. -/
inductive Machine.Seals (m : Machine) (S : ScopeId → Prop) : Machine → (ScopeId → Prop) → Prop
  | start : Seals m S m S
  | step {m₁ m₂ : Machine} {T : ScopeId → Prop} (hrun : Seals m S m₁ T) (hmove : m₁.Moves m₂)
      (hkept : ∀ s, T s → m₁.Leaves s m₂) (hmodules : m₂.modules = m₁.modules) :
      Seals m S m₂ T
  | made {m₁ m₂ : Machine} {T : ScopeId → Prop} {path : String} {s : ScopeId} {c : ClassId}
      (hrun : Seals m S m₁ T) (hmove : m₁.Moves m₂) (hkept : ∀ s, T s → m₁.Leaves s m₂)
      (hmade : Import.Makes path s c m₁ m₂) (hnew : m.heap.scopes.size ≤ s)
      (hlt : s < m₁.heap.scopes.size) (hkind : (m₁.heap.scopeAt s).kind.IsOpened) :
      Seals m S m₂ fun t => T t ∨ t = s ∨ t = (m₂.heap.classAt c).scope

namespace Machine

namespace Seals

variable {m m₁ m₂ : Machine} {S T U : ScopeId → Prop}

theorem runs (h : m.Seals S m₁ T) : m.Runs m₁ := by
  induction h with
  | start => exact .refl
  | step _ hmove _ _ ih | made _ hmove _ _ _ _ _ ih => exact ih.trans (.single hmove)

theorem trans (h : m.Seals S m₁ T) (hrest : m₁.Seals T m₂ U) : m.Seals S m₂ U := by
  induction hrest with
  | start => exact h
  | step _ hmove hkept hmodules ih => exact .step ih hmove hkept hmodules
  | made _ hmove hkept hmade hnew hlt hkind ih =>
    exact .made ih hmove hkept hmade (Nat.le_trans h.runs.grows.scopes hnew) hlt hkind

theorem still (h : m.Seals S m₁ T) (hmove : m₁.Moves m₂) (hheap : m₂.heap = m₁.heap)
    (hmodules : m₂.modules = m₁.modules) : m.Seals S m₂ T :=
  .step h hmove (fun s _ => .same (congrArg (·.scopeAt s) hheap)) hmodules

theorem before (h : m.Seals S m₁ T) (hs : T s) : S s ∨ m.heap.scopes.size ≤ s := by
  induction h with
  | start => exact .inl hs
  | step _ _ _ _ ih => exact ih hs
  | made hrun _ _ hmade hnew _ _ ih =>
    rcases hs with hs | rfl | rfl
    · exact ih hs
    · exact .inr hnew
    · rw [hmade.classScope]
      exact .inr hrun.runs.grows.scopes

theorem old (h : m.Seals S m₁ T) (hS : ∀ s, S s → s < m.heap.scopes.size) :
    ∀ s, T s → s < m₁.heap.scopes.size := by
  induction h with
  | start => exact hS
  | step _ hmove _ _ ih => exact fun s hs => Nat.lt_of_lt_of_le (ih s hs) hmove.extend.grows.scopes
  | made hrun hmove _ hmade _ hlt _ ih =>
    have hgrows := hmove.extend.grows.scopes
    rintro s (hs | rfl | rfl)
    · exact Nat.lt_of_lt_of_le (ih s hs) hgrows
    · exact Nat.lt_of_lt_of_le hlt hgrows
    · have hc : _ < _ := (hmove.after.owned.heap.modules (_, _)
        (hmade.modules ▸ mem_cons_self)).lt
      exact (hmove.after.linked.heap.classes _ hc).scope

end Seals

end Machine

/-! ## Where computations begin -/

structure Machine.Begins (m : Machine) (S : ScopeId → Prop) (Γ : List Fact) : Prop where
  steady : m.Steady
  ready : m.Ready Γ
  spares : m.Spares S Γ

theorem Fact.Apart.or (hS : k.Apart S m) (hT : k.Apart T m) : k.Apart (fun s => S s ∨ T s) m := by
  cases k with
  | own | naming | declared => exact ⟨hS.1, fun h => h.elim hS.2 hT.2⟩
  | created =>
    obtain ⟨s, hs, hout⟩ := hS
    obtain ⟨t, ht, hout'⟩ := hT
    cases hs.symm.trans ht
    exact ⟨s, hs, fun h => h.elim hout hout'⟩
  | here | inside => exact fun h => h.elim hS hT
  | _ => trivial

theorem Found.allowed (hf : Found Γ m.heap k) : k.Allowed m := by
  cases hf with
  | link hk =>
    cases k with
    | scope | type | membersIn | members | fields | fieldsIn => trivial
    | _ => exact hk.elim
  | naming _ | named _ => trivial
  | exported _ hk => rcases mem_exportFacts hk with ⟨_, rfl⟩ | ⟨_, rfl⟩ <;> trivial

namespace Machine.Begins

variable {m m' : Machine} {S T : ScopeId → Prop} {Γ Δ : List Fact}

section

variable (hb : m.Begins S Γ)
include hb

theorem mono (hΔ : ∀ k ∈ Δ, k ∈ Γ) : m.Begins S Δ :=
  ⟨hb.steady, hb.ready.mono hΔ, hb.spares.mono hΔ⟩

theorem fits : m.Fits (fun s => m.heap.Settled s ∨ S s) Γ :=
  ⟨hb.steady.linked, hb.steady.owned, hb.ready.knows.stands, hb.ready.knows.holds,
    fun s hs => hs.elim hb.steady.lt_of_settled (hb.spares.old s),
    fun k hk => (hb.ready.spares.apart k hk).or (hb.spares.apart k hk)⟩

theorem known (hfits : m.Fits (fun s => m.heap.Settled s ∨ S s) (Δ ++ Γ))
    (hallowed : ∀ k ∈ Δ, k.Allowed m) : m.Begins S (Δ ++ Γ) :=
  ⟨hb.steady, ⟨hfits.knows, hfits.spares.subset hfits.linked fun _ => .inl,
    forall_mem_append.mpr ⟨hallowed, hb.ready.allowed⟩⟩,
    hfits.spares.subset hfits.linked fun _ => .inr⟩

theorem find {f : Heap → α} {known : α → List Fact} {learned : α → Prop}
    (hf : Finding False Γ f known learned) : m.Begins S (known (f m.heap) ++ Γ) := by
  have hfits := hb.fits
  have hfound := hf.found m.heap
  exact hb.known (hfits.append
    (hf.holds hfits.linked.heap hfits.linked.root hfits.spares.holds)
    (fun k hk => (hfound k hk).stands hfits.linked hfits.owned hfits.knows)
    fun k hk => (hfound k hk).apart hfits.linked hfits.spares) fun k hk => (hfound k hk).allowed

theorem here (hS : ¬ S m.registers.scope) (hroom : (m.heap.scopeAt m.registers.scope).kind.IsOpened)
    :
    m.Begins S (.here :: .inside :: Γ) := by
  have hnot : ¬ (m.heap.Settled m.registers.scope ∨ S m.registers.scope) :=
    fun h => h.elim hb.steady.current hS
  have hinside := hb.fits.cons (k := .inside) trivial trivial hnot
  exact hb.known (Δ := [.here, .inside]) (hinside.cons trivial trivial hnot)
    (forall_mem_cons.mpr ⟨hroom, forall_mem_singleton.mpr trivial⟩)

theorem modules (path : String) : m.Begins S (moduleFacts (m.modules.lookup path) ++ Γ) :=
  hb.known (hb.fits.modules path) fun k hk => by
    rcases mem_moduleFacts hk with ⟨_, rfl⟩ | ⟨_, rfl⟩ <;> trivial

theorem later (hrun : m.Seals S m' T) (hup : m.Upholds m')
    (hr : m'.registers.scope = m.registers.scope) : m'.Begins T Γ := by
  have hm' := hrun.runs.steady hb.steady
  have hgrows := hrun.runs.grows
  refine ⟨hm', hb.ready.later hb.steady hm' ⟨hm'.linked, hgrows⟩ hup hr,
    hb.spares.later hb.steady.linked hgrows hr (hrun.old hb.spares.old) fun s hs hT => ?_⟩
  exact (hrun.before hT).resolve_right (Nat.not_le.mpr hs)

theorem enter {r : Registers} (hr : r.scope < m.heap.scopes.size) (hset : ¬ m.heap.Settled r.scope)
    (hS : ¬ S r.scope) (hhere : .here ∈ Γ → (m.heap.scopeAt r.scope).kind.IsOpened)
    (hloading : r.loading = m.registers.loading) : Begins { m with registers := r } S Γ :=
  ⟨hb.steady.withRegisters hr hset (hb.steady.recorded.of_eq hloading rfl rfl),
    hb.ready.withRegisters hset hhere, hb.spares.withRegisters hS⟩

theorem makes {h : Heap} (hstep : m.Step { m with heap := h })
    (hmade : m.Keeps (fun s => m.heap.Settled s ∨ S s) { m with heap := h } ∧
      Fits { m with heap := h } (fun s => m.heap.Settled s ∨ S s) (Δ ++ Γ))
    (hscopes : ∀ s, s < m.heap.scopes.size → h.scopeAt s = m.heap.scopeAt s)
    (hsame : ∀ c g, (h.classAt c).ancestors = some g → (m.heap.classAt c).ancestors = some g)
    (hallowed : ∀ k ∈ Δ, k.Allowed { m with heap := h }) :
    m.Seals S { m with heap := h } S ∧ m.Upholds { m with heap := h } ∧
      Begins { m with heap := h } S (Δ ++ Γ) := by
  obtain ⟨hkeeps, hfits⟩ := hmade
  have hmove := Moves.of_upholds hb.steady hstep hkeeps.leads hkeeps.upholds
  refine ⟨.step .start hmove (fun s hs => .same (hscopes s (hb.spares.old s hs))) rfl,
    hkeeps.upholds, hmove.after, ⟨hfits.knows, ?_, ?_⟩,
    hfits.spares.subset hfits.linked fun _ => .inr⟩
  · exact hfits.spares.subset hfits.linked fun s hs =>
      .inl (hs.of_same hb.steady.owned.heap hkeeps.leads.grows hsame)
  · exact forall_mem_append.mpr ⟨hallowed,
      (hb.ready.later hb.steady hmove.after hkeeps.leads hkeeps.upholds rfl).allowed⟩

theorem newScope {kind : ScopeKind} {parent : Option ScopeId} (hopen : Opening Γ kind parent) :
    let m' := { m with heap := (m.heap.newScope kind parent).2 }
    m.Seals S m' S ∧ m.Upholds m' ∧ m'.Begins S (.scope m.heap.scopes.size ::
      .opened m.heap.scopes.size :: .own m.heap.scopes.size :: Γ) := by
  have hnew (s : ScopeId) := m.heap.scopeAt_newScope kind parent s
  refine hb.makes (Δ := [_, _, _]) (.newScope kind parent hopen.isOpened) (hb.fits.newScope hopen)
    (fun s hs => (hnew s).trans (if_neg (Nat.ne_of_lt hs))) (fun _ _ => id) ?_
  simp only [forall_mem_cons]
  refine ⟨trivial, trivial, ?_, forall_mem_nil _⟩
  change ((m.heap.newScope kind parent).2.scopeAt _).kind.IsOpened
  rw [hnew, if_pos rfl]
  exact hopen.isOpened

theorem newInstance (type : ClassId) :
    let m' := { m with heap := (m.heap.newInstance type).2 }
    m.Seals S m' S ∧ m.Upholds m' ∧ m'.Begins S (.created m.heap.objects.size :: Γ) :=
  hb.makes (Δ := [_]) (.newInstance type) (hb.fits.newInstance type)
    (fun _ hs => (scopeAt_newScope ..).trans (if_neg (Nat.ne_of_lt hs))) (fun _ _ => id)
    (forall_mem_singleton.mpr trivial)

theorem newOverload {f : Overload} (hf : ∀ k ∈ f.facts, k ∈ Γ) :
    let m' := { m with heap := (m.heap.newOverload f).2 }
    m.Seals S m' S ∧ m.Upholds m' ∧ m'.Begins S (.overload m.heap.overloads.size f :: Γ) :=
  hb.makes (Δ := [_]) (.newOverload f) (hb.fits.newOverload hf) (fun _ _ => rfl) (fun _ _ => id)
    (forall_mem_singleton.mpr trivial)

theorem newClass {parent : ScopeId} (hp : .scope parent ∈ Γ) (name : String) {supers : List ClassId}
    (isStatic : Bool) (access : Access) (hs : ∀ p ∈ supers, Known Γ p)
    (hroot : supers = [] → isStatic = true) :
    let new := m.heap.newClass (Class.fresh name supers isStatic access) (some parent)
    let m' := { m with heap := new.2 }
    m.Seals S m' S ∧ m.Upholds m' ∧ m'.Begins S (newClassFacts new.1 ++ Γ) := by
  refine hb.makes (Δ := newClassFacts m.heap.classes.size)
    (.newClass name supers isStatic access (some parent) hroot)
    (hb.fits.newClass hp name isStatic access fun p hq =>
      (hs p hq).named hb.steady.owned hb.ready.knows)
    (fun _ hs => (scopeAt_newScope ..).trans (if_neg (Nat.ne_of_lt hs)))
    (fun c g hg => ?_) ?_
  · rw [classAt_newClass] at hg
    split at hg
    · cases hg
    · exact hg
  · simp only [newClassFacts, forall_mem_cons]
    have hlt := hb.steady.owned.object.lt
    exact ⟨trivial, (Nat.ne_of_lt hlt).symm, trivial, forall_mem_nil _⟩

end

end Machine.Begins

/-! ## Steps that end where they began -/

section Steps

variable {m : Machine}

theorem Machine.Moves.write (hm : m.Steady) (hΓ : m.Ready Γ)
    (hf : Write False Γ f) : m.Moves { m with heap := f m.heap } :=
  .of_upholds hm (.write hf hΓ) (.of_heap hm.linked (hf.leads hm.linked.heap))
    (hf.upholds hm.linked hm.owned hΓ.knows)

theorem Machine.Moves.print (hm : m.Steady) (output : String) :
    m.Moves { m with output := output } :=
  ⟨hm, ⟨{ hm.linked with }, ⟨hm.owned.heap, hm.owned.object, hm.owned.null⟩, hm.current,
    hm.recorded.of_eq rfl rfl rfl⟩, .still rfl rfl rfl, .refl _ _⟩

theorem Machine.Moves.flatten (hm : m.Steady)
    (hdeclared : (Fact.declared c).Stands m.heap m.modules)
    (hnone : (m.heap.classAt c).ancestors = none)
    (hcurrent : m.registers.scope ≠ (m.heap.classAt c).scope) :
    m.Moves { m with heap := m.heap.flatten c } := by
  obtain ⟨hn, hmodules⟩ := hdeclared
  have hlead := flatten_leads hm.linked.heap c
  obtain ⟨howned, hext, hothers⟩ := flatten_owned hm.owned.heap hm.linked.heap hn hnone hmodules
  refine ⟨hm, ⟨(Machine.Leads.of_heap hm.linked hlead).linked,
    ⟨howned, hm.owned.object.extends hext, hm.owned.null.extends hext⟩, fun hset => ?_,
    hm.recorded.of_eq rfl rfl rfl⟩, .flatten c hn hmodules hnone, hext⟩
  have hgrows := hext.grows
  obtain ⟨d, g, hg, hs | hs⟩ := hset
  · by_cases hdc : d = c
    · rw [hdc, hgrows.classScope c hn.lt] at hs
      exact hcurrent hs
    · rw [hothers d hdc] at hg
      rw [hgrows.classScope d (lt_of_ancestors hg)] at hs
      exact hm.current ⟨d, g, hg, .inl hs⟩
  · rcases hext.fresh d g hg with hold | hnew
    · rw [hgrows.classScope g (hm.owned.heap.shadows d g hold)] at hs
      exact hm.current ⟨d, g, hold, .inr hs⟩
    · -- What holds the members of the ancestors is new, and so is its scope.
      have hkind := (hlead.linked.classes g (howned.shadows d g hg)).kind
      rw [← hs, hgrows.kind _ hm.linked.scope] at hkind
      exact Nat.not_lt.mpr hnew ((hm.owned.heap.scopes _).body g hkind)

end Steps

/-! ## Computations -/

inductive Outcome.Steps {α : Type} (watch : Machine → Bool) (m : Machine) (S : ScopeId → Prop) :
    Outcome α → Prop
  | done {a : α} {m' : Machine} {T : ScopeId → Prop} (hrun : m.Seals S m' T)
      (hup : m.Upholds m') : Steps watch m S (.done a m')
  | failed {e : Failure} {m' : Machine} {T : ScopeId → Prop} (hrun : m.Seals S m' T)
      (hup : m.Upholds m') : Steps watch m S (.failed e m')
  | stopped {m' : Machine} {T : ScopeId → Prop} {paths : List String} (hrun : m.Seals S m' T)
      (hunder : Machine.Underway watch m' m paths) : Steps watch m S (.stopped m')

variable {watch : Machine → Bool}

namespace Outcome.Steps

variable {α : Type} {m : Machine} {S : ScopeId → Prop} {o : Outcome α}

theorem seals (h : o.Steps watch m S) : ∃ T, m.Seals S o.machine T := by
  cases h with
  | done hrun _ | failed hrun _ | stopped hrun _ => exact ⟨_, hrun⟩

theorem runs (h : o.Steps watch m S) : m.Runs o.machine := h.seals.elim fun _ hrun => hrun.runs

theorem after {m₁ : Machine} (h : o.Steps watch m₁ T) (hrun : m.Seals S m₁ T) (hup : m.Upholds m₁)
    (hloading : m₁.registers.loading = m.registers.loading) : o.Steps watch m S := by
  cases h with
  | done hrest hup' => exact .done (hrun.trans hrest) (hup.trans hup')
  | failed hrest hup' => exact .failed (hrun.trans hrest) (hup.trans hup')
  | stopped hrest hunder => exact .stopped (hrun.trans hrest) (hunder.after hrun.runs hloading)

end Outcome.Steps

def Eval.Stepping {α : Type} (watch : Machine → Bool) (Γ : List Fact) (x : Eval α) : Prop :=
  ∀ (m : Machine) (S : ScopeId → Prop), m.Begins S Γ → (x m).Steps watch m S

def Level.Stepping (watch : Machine → Bool) (L : Level) : Prop :=
  L.Entries fun _ Γ x => x.Stepping watch Γ

namespace Eval.Stepping

variable {α β : Type} {Γ : List Fact} {x : Eval α} {enter leave : Registers → Registers}

theorem of_same (hx : ∀ m, (x m).machine = m) : x.Stepping watch Γ := by
  intro m S hb
  have hsame := hx m
  have hup := Machine.Upholds.refl hb.steady.owned
  generalize x m = o at hsame ⊢
  cases o with
  | done => cases hsame; exact .done .start hup
  | failed => cases hsame; exact .failed .start hup
  | stopped => cases hsame; exact .stopped .start (.here .refl rfl)

theorem mono {Δ : List Fact} (hx : x.Stepping watch Δ) (hΔ : ∀ k ∈ Δ, k ∈ Γ) : x.Stepping watch Γ :=
  fun m S hb => hx m S (hb.mono hΔ)

theorem of_nil (hx : x.Stepping watch []) : x.Stepping watch Γ :=
  hx.mono fun _ hk => absurd hk not_mem_nil

theorem bind {k : α → Eval β} (hr : x.Restoring) (hx : x.Stepping watch Γ)
    (hk : ∀ a, (k a).Stepping watch Γ) : (x >>= k).Stepping watch Γ := by
  intro m S hb
  have hrestores := hr m
  have hfirst := hx m S hb
  rw [Eval.bind_apply]
  generalize x m = o at hrestores hfirst ⊢
  cases hfirst with
  | done hrun hup =>
    cases hrestores with
    | done hregisters _ =>
      exact (hk _ _ _ (hb.later hrun hup (congrArg Registers.scope hregisters))).after hrun hup
        (congrArg Registers.loading hregisters)
  | failed hrun hup => exact .failed hrun hup
  | stopped hrun hunder => exact .stopped hrun hunder

theorem mapFailure (f : Failure → Failure) (hx : x.Stepping watch Γ) :
    (Eval.mapFailure f x).Stepping watch Γ := by
  intro m S hb
  have hsteps := hx m S hb
  unfold Eval.mapFailure
  generalize x m = o at hsteps ⊢
  cases hsteps with
  | done hrun hup => exact .done hrun hup
  | failed hrun hup => exact .failed hrun hup
  | stopped hrun hunder => exact .stopped hrun hunder

theorem attempt (hx : x.Stepping watch Γ) : (Eval.attempt x).Stepping watch Γ := by
  intro m S hb
  have hsteps := hx m S hb
  unfold Eval.attempt
  generalize x m = o at hsteps ⊢
  cases hsteps with
  | done hrun hup | failed hrun hup => exact .done hrun hup
  | stopped hrun hunder => exact .stopped hrun hunder

theorem bracket (hr : x.Restoring) (hx : x.Stepping watch Γ)
    (hback : leave (enter m.registers) = m.registers)
    (hloading : (enter m.registers).loading = m.registers.loading) (hm : m.Steady)
    (hb : Machine.Begins { m with registers := enter m.registers } S Γ) :
    (Eval.bracket enter leave x m).Steps watch m S := by
  let m₁ : Machine := { m with registers := enter m.registers }
  have henter : m.Seals S m₁ S :=
    .still .start ⟨hm, hb.steady, .still rfl rfl rfl, .refl _ _⟩ rfl rfl
  have hrestores := hr m₁
  have hsteps : (x m₁).Steps watch m S :=
    (hx m₁ S hb).after henter (Heap.Upholds.refl hm.owned.heap) hloading
  have hleave (m₂ : Machine) (T : ScopeId → Prop) (hrun : m.Seals S m₂ T) (hup : m.Upholds m₂)
      (hregisters : m₂.registers = m₁.registers) :
      m.Seals S { m₂ with registers := leave m₂.registers } T := by
    have hsame : leave m₂.registers = m.registers := by
      rw [hregisters]
      exact hback
    rw [hsame]
    refine hrun.still
      (.leave hm (hrun.runs.steady hm) hrun.runs.grows hup fun path hp => ?_) rfl rfl
    rw [hregisters]
    exact hloading.symm ▸ hp
  unfold Eval.bracket
  generalize x m₁ = o at hsteps hrestores ⊢
  cases hsteps with
  | done hrun hup =>
    cases hrestores with
    | done hregisters _ => exact .done (hleave _ _ hrun hup hregisters) hup
  | failed hrun hup =>
    cases hrestores with
    | failed hregisters _ => exact .failed (hleave _ _ hrun hup hregisters) hup
  | stopped hrun hunder => exact .stopped hrun hunder

theorem bracket_here (hr : x.Restoring) (hx : x.Stepping watch Γ) (hback : ∀ r, leave (enter r) = r)
    (hscope : ∀ r, (enter r).scope = r.scope) (hloading : ∀ r, (enter r).loading = r.loading) :
    (Eval.bracket enter leave x).Stepping watch Γ := by
  intro m S hb
  have hcurrent : ¬ m.heap.Settled (enter m.registers).scope := by
    rw [hscope]
    exact hb.steady.current
  refine hx.bracket hr (hback _) (hloading _) hb.steady ⟨hb.steady.withRegisters ?_ hcurrent
    (hb.steady.recorded.of_eq (hloading _) rfl rfl),
    hb.ready.withRegisters hcurrent fun hhere => ?_,
    (hb.spares.later hb.steady.linked (.refl _) (hscope _) hb.spares.old fun _ _ => id)⟩
  · rw [hscope]
    exact hb.steady.linked.scope
  · rw [hscope]
    exact hb.ready.allowed _ hhere

theorem loop {step : Eval (Option α)} (hr : step.Restoring) (hstep : step.Stepping watch Γ)
    (n : Nat) : Eval.Stepping watch Γ (Eval.loop step n) := by
  induction n with
  | zero => exact of_same fun _ => rfl
  | succ n ih =>
    rw [Eval.loop_succ]
    refine bind hr hstep fun answer => ?_
    cases answer with
    | some a => exact of_same fun _ => rfl
    | none => exact ih

end Eval.Stepping

variable {m : Machine} {S : ScopeId → Prop} {path : String}

/-! ## Importing -/

theorem Machine.Steady.begins (hm : m.Steady) : m.Begins (fun _ => False) [] :=
  ⟨hm, .nil hm, forall_mem_nil _, fun _ => False.elim, forall_mem_nil _⟩

theorem Machine.Begins.enterModule (hb : m.Begins S [])
    (hpath : Path.IsCanonical path) {items : List Stmt} (hopen : Import.Opens m path items) :
    m.Seals S (m.enterModule path) S ∧ m.Upholds (m.enterModule path) ∧
      (m.enterModule path).Begins S [.here, .inside] := by
  have hm := hb.steady
  have hglobals : m.Begins S [.scope m.globals] := hb.known (Δ := [_])
    (hb.fits.cons hm.linked.globals trivial trivial) (forall_mem_singleton.mpr trivial)
  obtain ⟨hnew, hup, hbegins⟩ := hglobals.newScope (.module m.globals mem_cons_self)
  have hown : .own m.heap.scopes.size ∈ [.scope m.heap.scopes.size, .opened m.heap.scopes.size,
      .own m.heap.scopes.size, Fact.scope m.globals] := by simp
  obtain ⟨hlt, hset⟩ := hbegins.ready.spares.apart _ hown
  have hout : ¬ S m.heap.scopes.size := hb.spares.new
  obtain ⟨text, hread, _⟩ := hopen.text
  have hrecorded : (m.enterModule path).Recorded :=
    ⟨forall_mem_cons.mpr ⟨hopen.fresh, hm.recorded.apart⟩,
      nodup_cons.mpr ⟨hopen.out, hm.recorded.once⟩,
      forall_mem_cons.mpr ⟨⟨hpath, text, hread⟩, hm.recorded.files⟩⟩
  have hsteady : (m.enterModule path).Steady := hbegins.steady.withRegisters hlt hset hrecorded
  have hbare : (m.enterModule path).Begins S [] :=
    ⟨hsteady, .nil hsteady, forall_mem_nil _, hbegins.spares.old, forall_mem_nil _⟩
  exact ⟨hnew.still ⟨hbegins.steady, hsteady, .still rfl rfl rfl, .refl _ _⟩ rfl rfl, hup,
    hbare.here hout (hbegins.ready.allowed _ hown)⟩

theorem Machine.Moves.leaveModule (hm : m.Steady)
    (hm' : m'.Steady) (hg : m.heap.Grows m'.heap) (hu : m.Upholds m')
    (hregisters : m'.registers = (m.enterModule path).registers) :
    m'.Moves (m'.leaveModule m path) := by
  have hsame : m'.leaveModule m path = { m' with registers := m.registers } := by
    rw [← registers_leaveModule hregisters]
    rfl
  rw [hsame]
  refine .leave hm hm' hg hu ?_
  rw [hregisters]
  exact subset_cons_self _ _

theorem Machine.Steady.not_remembered (hm' : m'.Steady)
    (hregisters : m'.registers = (m.enterModule path).registers) :
    m'.modules.lookup path = none := by
  refine hm'.recorded.apart path ?_
  rw [hregisters]
  exact mem_cons_self

theorem Import.load_stepping (hpath : Path.IsCanonical path)
    (hlevel : L = watchedLevel watch n) (hR : L.Restoring)
    (hp : ∀ m items, Opens m path items → (program L items).Stepping watch [.here, .inside]) :
    (load L path).Stepping watch [] := by
  intro m S hb
  have hm := hb.steady
  -- What is known when the statements have been run.
  have hran {items : List Stmt} (hopen : Opens m path items) :
      let o := program L items (m.enterModule path)
      o.Steps watch (m.enterModule path) S ∧ o.Restores (m.enterModule path) := by
    have hbuilt : Built False [.here, .inside] fun L => program L items :=
      program_built items False.elim (List.Subset.refl _)
    exact ⟨hp m items hopen _ S (hb.enterModule hpath hopen).2.2, hbuilt.restores hR _⟩
  have hends := load_ends L path m
  generalize hload : load L path m = o at hends ⊢
  cases hends with
  | cached => exact .done .start (.refl hm.owned)
  | refused | unread => exact .failed .start (.refl hm.owned)
  | @done items v m' hopen hend =>
    obtain ⟨hsteps, hrestores⟩ := hran hopen
    obtain ⟨henter, hentered, hbegan⟩ := hb.enterModule hpath hopen
    rw [hend] at hsteps hrestores
    cases hsteps with
    | done hrest hrested =>
    cases hrestores with
    | done hregisters _ =>
      have hrun := henter.trans hrest
      have hup := hentered.trans hrested
      have hm' := hrun.runs.steady hm
      have hleft := hrun.still (.leaveModule hm hm' hrun.runs.grows hup hregisters) rfl rfl
      -- The class is made of the scope in which the statements were run.
      have hscope : m.heap.scopes.size < (m.enterModule path).heap.scopes.size :=
        Nat.lt_of_lt_of_eq (Nat.lt_succ_self _) (Array.size_push _).symm
      have hkind : (m'.heap.scopeAt m.heap.scopes.size).kind.IsOpened := by
        rw [hrest.runs.grows.kind _ hscope]
        exact hbegan.ready.allowed .here mem_cons_self
      have hlt := Nat.lt_of_lt_of_le hscope hrest.runs.grows.scopes
      have hout : path ∉ (m'.leaveModule m path).registers.loading := by
        rw [Machine.registers_leaveModule hregisters]
        exact hopen.out
      obtain ⟨hmove, hmade⟩ := Machine.Moves.export (hleft.runs.steady hm) (Path.stem path) hlt
        hkind (Nat.lt_of_lt_of_le hm.linked.globals hrun.runs.grows.scopes)
        (hm'.not_remembered hregisters) hout
      subst hlevel
      refine .done (.made hleft hmove (fun s hs => .same (exportClass_scopeAt _ _ _
        (hleft.old hb.spares.old s hs))) (.intro hopen hend) (Nat.le_refl _) hlt hkind) ?_
      exact Heap.Upholds.trans hup hmade
  | @failed items e m' hopen hend =>
    obtain ⟨hsteps, hrestores⟩ := hran hopen
    obtain ⟨henter, hentered, -⟩ := hb.enterModule hpath hopen
    rw [hend] at hsteps hrestores
    cases hsteps with
    | failed hrest hrested =>
    cases hrestores with
    | failed hregisters _ =>
      have hrun := henter.trans hrest
      have hup := hentered.trans hrested
      exact .failed (hrun.still (.leaveModule hm (hrun.runs.steady hm) hrun.runs.grows hup
        hregisters) rfl rfl) hup
  | stopped hopen hend =>
    obtain ⟨hsteps, -⟩ := hran hopen
    have henter := (hb.enterModule hpath hopen).1
    rw [hend] at hsteps
    cases hsteps with
    | stopped hrest hunder =>
      exact .stopped (henter.trans hrest)
        (.module n .refl rfl henter.runs (hlevel ▸ hload) hunder)

/-! ## Everything -/

theorem Built.stepping (hx : Built False Γ x) (hlevel : L = watchedLevel watch n) (hR : L.Restoring)
    (hS : L.Stepping watch) : (x L).Stepping watch Γ := by
  induction hx with
  | pure | raise | ask | read => exact .of_same fun _ => rfl
  | bind hx _ ihx ihk => exact .bind (hx.restores hR) ihx ihk
  | find hf _ ihk => exact fun m S hb => ihk _ (hf.learned_of_false _) m S (hb.find hf)
  | scope _ ihk =>
    exact fun m S hb => ihk _ m S (hb.known (Δ := [_])
      (hb.fits.cons hb.steady.linked.scope trivial trivial) (forall_mem_singleton.mpr trivial))
  | site hh _ ihk =>
    intro m S hb
    refine ihk _ m S (hb.known (Δ := [_, _, _]) (hb.fits.site hh) ?_)
    simp only [forall_mem_cons]
    exact ⟨trivial, hb.ready.allowed .here hh, trivial, forall_mem_nil _⟩
  | siteInside hh _ ihk =>
    intro m S hb
    refine ihk _ m S (hb.known (Δ := [_, _]) (hb.fits.siteInside hh) ?_)
    simp only [forall_mem_cons]
    exact ⟨trivial, trivial, forall_mem_nil _⟩
  | disk _ ihk => exact fun m S hb => ihk _ trivial m S hb
  | globals _ ihk =>
    exact fun m S hb => ihk _ m S (hb.known (Δ := [_])
      (hb.fits.cons hb.steady.linked.globals trivial trivial)
      (forall_mem_singleton.mpr trivial))
  | modules path _ ihk => exact fun m S hb => ihk _ m S (hb.modules path)
  | change hf =>
    intro m S hb
    exact .done (.step .start (.write hb.steady hb.ready hf)
      (fun s hs => hf.leaves hb.ready hb.spares hs) rfl)
      (hf.upholds hb.steady.linked hb.steady.owned hb.ready.knows)
  | create hf =>
    intro m S hb
    have hkeeps := hf.keeps hb.fits
    have hmove := Machine.Moves.of_upholds hb.steady (.create hf hb.ready) hkeeps.leads
      hkeeps.upholds
    refine .done (.step .start hmove (fun s hs => .same ?_) rfl) hkeeps.upholds
    cases hf <;> rfl
  | newScope kind parent hopen _ ihk =>
    intro m S hb
    obtain ⟨hrun, hup, hnew⟩ := hb.newScope hopen
    exact (ihk _ _ S hnew).after hrun hup rfl
  | newInstance type _ ihk =>
    intro m S hb
    obtain ⟨hrun, hup, hnew⟩ := hb.newInstance type
    exact (ihk _ _ S hnew).after hrun hup rfl
  | newOverload f hf _ _ ihk =>
    intro m S hb
    obtain ⟨hrun, hup, hnew⟩ := hb.newOverload hf
    exact (ihk _ _ S hnew).after hrun hup rfl
  | newClass name supers isStatic access parent hp hs hroot _ ihk =>
    intro m S hb
    obtain ⟨hrun, hup, hnew⟩ := hb.newClass hp name isStatic access hs hroot
    exact (ihk _ _ S hnew).after hrun hup rfl
  | @declare Γ k name supers isStatic access parent hp hs hroot hk ihk =>
    intro m S hb
    obtain ⟨hmade, hmadeUp, hnew⟩ := hb.newClass hp name isStatic access hs hroot
    let made := m.heap.newClass (Class.fresh name supers isStatic access) (some parent)
    let m₁ : Machine := { m with heap := made.2 }
    have hrestores := (hk made.1).restores hR m₁
    have hfirst : (k L made.1 m₁).Steps watch m₁ S := ihk made.1 m₁ S hnew
    change ((k L made.1 >>= fun _ => Eval.change (·.flatten made.1)) m₁).Steps watch m S
    rw [Eval.bind_apply]
    generalize k L made.1 m₁ = o at hrestores hfirst ⊢
    cases hfirst with
    | @done a m₂ T hrest hrested =>
      cases hrestores with
      | done hregisters _ =>
        have hrun := hmade.trans hrest
        have hm₂ := hrun.runs.steady hb.steady
        have hgrows := hrest.runs.grows
        have hdeclared := hnew.ready.knows.stands _ (declared_mem made.1 Γ)
        have hfresh := newClass_ancestors m.heap (some parent)
          (c := Class.fresh name supers isStatic access) rfl
        -- The scope of the class is newer than what was there, and older than the rest.
        have hscope : (m₂.heap.classAt made.1).scope = m.heap.scopes.size := hgrows.scope_newClass
        have hflatten := Machine.Moves.flatten hm₂
          (hdeclared.extends (Heap.Upholds.extend hrested))
          ((Heap.Upholds.settled hrested _ hdeclared.1.lt).trans hfresh)
          (ne_of_eq_of_ne (congrArg Registers.scope hregisters)
            (ne_of_ne_of_eq (Nat.ne_of_lt hb.steady.linked.scope) hscope.symm))
        refine .done (.step hrun hflatten (fun s hs => .same ?_) rfl) ?_
        · refine flatten_scopeAt hm₂.linked.heap
            (Nat.lt_of_lt_of_le hdeclared.1.lt hgrows.classes)
            (hrun.old hb.spares.old s hs) (ne_of_ne_of_eq ?_ hscope.symm)
          rcases hrest.before hs with hbefore | hafter
          · exact Nat.ne_of_lt (hb.spares.old s hbefore)
          · exact Nat.ne_of_gt (Nat.lt_of_lt_of_le
              (Nat.lt_of_lt_of_eq (Nat.lt_succ_self _) (Array.size_push _).symm) hafter)
        · exact flatten_upholds hmadeUp hrested hm₂.linked.heap (Nat.le_refl _) hfresh
            hdeclared
    | failed hrest hrested => exact .failed (hmade.trans hrest) (hmadeUp.trans hrested)
    | stopped hrest hunder => exact .stopped (hmade.trans hrest) (hunder.after hmade.runs rfl)
  | «export» path name source parent hi _ _ _ _ => exact fun m _ hb => (hb.ready.allowed _ hi).elim
  | print =>
    exact fun m S hb => .done (.still .start (.print hb.steady _) rfl rfl)
      (Heap.Upholds.refl hb.steady.owned.heap)
  | mapFailure f _ _ _ ihx => exact ihx.mapFailure f
  | attempt hx _ _ ihx ihk =>
    exact .bind (hx.restores hR).attempt ihx.attempt fun r => ihk r fun _ _ _ _ => False.elim
  | inScope s hs ho hx ihx =>
    intro m S hb
    obtain ⟨hlt, hset⟩ := hb.ready.spares.apart _ ho
    have hout : ¬ S s := (hb.spares.apart _ ho).2
    have hroom : (m.heap.scopeAt s).kind.IsOpened := hb.ready.allowed _ ho
    exact ihx.bracket (hx.restores hR) (goTo_goTo m.registers s) rfl hb.steady
      ((hb.enter (r := m.registers.goTo s) hlt hset hout (fun _ => hroom) rfl).here hout hroom)
  | inBody s Δ hs ho hΔ hh hx ihx =>
    intro m S hb
    obtain ⟨hlt, hset⟩ := hb.ready.spares.apart _ ho
    have hout : ¬ S s := (hb.spares.apart _ ho).2
    have hentered := (hb.mono hΔ).enter (r := m.registers.goTo s) hlt hset hout
      (fun hhere => absurd hhere hh) rfl
    exact ihx.bracket (hx.restores hR) (goTo_goTo m.registers s) rfl hb.steady
      (hentered.known (Δ := [.inside])
        (hentered.fits.cons trivial trivial fun h => h.elim hset hout)
        (forall_mem_singleton.mpr trivial))
  | bracket enter leave hback hscope _ hloading hx ihx =>
    intro m S hb
    have hsame := hloading.resolve_right fun hi => (hb.ready.allowed _ hi).elim
    exact ihx.bracket_here (hx.restores hR) hback hscope hsame m S hb
  | @load Γ β k path hpath _ _ _ _ ihp ihk =>
    intro m S hb
    have hrestores := (Import.load_built (C := False) (Γ := [.importing]) path
      mem_cons_self fun _ _ _ _ _ _ => False.elim).restores hR m
    -- The statements of the file know nothing of what is known here.
    have hsteps := Import.load_stepping hpath hlevel hR
      (fun m items hopen => hopen.text.elim fun text htext =>
        ihp items ⟨m.disk, text, trivial, htext.1, htext.2⟩) m S
      (hb.mono fun _ hk => absurd hk not_mem_nil)
    change ((Import.load L path >>= k L) m).Steps watch m S
    rw [Eval.bind_apply]
    generalize hload : Import.load L path m = o at hrestores hsteps ⊢
    cases hsteps with
    | done hrun hup =>
      cases hrestores with
      | done hregisters _ =>
        have hnext := (hb.later hrun hup (congrArg Registers.scope hregisters)).modules path
        rw [Import.lookup_of_load hload] at hnext
        exact (ihk _ _ _ hnext).after hrun hup (congrArg Registers.loading hregisters)
    | failed hrun hup => exact .failed hrun hup
    | stopped hrun hunder => exact .stopped hrun hunder
  | pointwise y _ hxy ihy =>
    intro m S hb
    have hsame := hxy m L m.config.maxDepth
    exact hsame ▸ ihy m m S hb
  | nested f span hx ihx =>
    intro m S hb
    dsimp only
    rw [Eval.bind_apply, Invocation.checkDepth_apply]
    by_cases hd : m.registers.depth < m.config.maxDepth
    · rw [if_pos hd]
      exact ihx.bracket_here (hx.restores hR) leaveCall_enterCall (fun _ => rfl)
        (fun _ => rfl) m S hb
    · rw [if_neg hd]
      exact .failed .start (.refl hb.steady.owned)
  | loop hstep ihstep => exact .loop (hstep.restores hR) ihstep L.rounds
  | evaluate e _ => exact (hS.evaluate e).of_nil
  | execute stmt _ hh _ ihk =>
    exact .bind (hR.execute stmt) ((hS.execute stmt).mono hh) fun flow => ihk flow trivial
  | invoke f receiver arguments span => exact (hS.invoke f receiver arguments span).of_nil
  | body f receiver arguments hf _ => exact (hS.body f receiver arguments).mono hf
  | stringify v => exact (hS.stringify v).of_nil
  | operate op left rest span => exact (hS.operate op left rest span).of_nil
  | serialize outer v => exact (hS.serialize outer v).of_nil
  | deserialize j c => exact (hS.deserialize j c).of_nil

theorem watchedLevel_stepping (watch : Machine → Bool) (n : Nat) :
    (watchedLevel watch n).Stepping watch := by
  refine watchedLevel_entries (fun _ _ => .of_same fun _ => rfl) (fun hy hx m S hb => ?_)
    (fun n hS _ _ _ hbuilt => hbuilt.stepping rfl (watchedLevel_restoring watch n) hS) n
  rcases hy m with hstop | hsame
  · rw [hstop]
    exact .stopped .start (.here .refl rfl)
  · rw [hsame]
    exact hx m S hb

theorem Built.steps (hx : Built False Γ x) (watch : Machine → Bool) (n : Nat) (hb : m.Begins S Γ) :
    (x (watchedLevel watch n) m).Steps watch m S :=
  hx.stepping rfl (watchedLevel_restoring watch n) (watchedLevel_stepping watch n) m S hb

theorem Built.done (hx : Built False Γ x)
    (watch : Machine → Bool) (n : Nat) (hb : m.Begins S Γ) {a : α}
    (hdone : x (watchedLevel watch n) m = .done a m') : m.Runs m' ∧ ∃ T, m'.Begins T Γ := by
  have hsteps := hx.steps watch n hb
  have hrestores := hx.restores (watchedLevel_restoring watch n) m
  rw [hdone] at hsteps hrestores
  cases hsteps with
  | done hrun hup =>
    cases hrestores with
    | done hregisters _ =>
      exact ⟨hrun.runs, _, hb.later hrun hup (congrArg Registers.scope hregisters)⟩

/-! ## Machines that occur -/

/-- A machine that waits for a request: a new one, or where a request to one that waited
    has ended. -/
inductive Idle : Machine → Prop
  | initial (config : Config) (disk : Disk) (hosts : List HostClass) :
      Idle (Machine.initial config disk hosts)
  | done {m m' : Machine} (hm : Idle m) (watch : Machine → Bool) (n : Nat) (r : Request)
      (reply : Reply) (hend : r.perform (watchedLevel watch n) m = .done reply m') : Idle m'
  | failed {m m' : Machine} (hm : Idle m) (watch : Machine → Bool) (n : Nat) (r : Request)
      (e : Failure) (hend : r.perform (watchedLevel watch n) m = .failed e m') : Idle m'

/-- A machine that occurs if requests are made one after the other: it waits for one, or
    is where one that was made to such a machine is stopped. -/
inductive InSession : Machine → Prop
  | idle {m : Machine} (hm : Idle m) : InSession m
  | running {m : Machine} (hm : Idle m) (watch : Machine → Bool) (n : Nat) (r : Request) :
      InSession (r.perform (watchedLevel watch n) m).machine

theorem Idle.keeps (hinitial : ∀ config disk hosts, I (Machine.initial config disk hosts))
    (hrequest : ∀ (m : Machine) (watch : Machine → Bool) (n : Nat) (r : Request), Idle m →
      (r.perform (watchedLevel watch n) m).machine.registers = m.registers → I m →
        I (r.perform (watchedLevel watch n) m).machine) (hm : Idle m) : I m := by
  have hback (watch : Machine → Bool) (n : Nat) (r : Request) (m : Machine) :=
    (r.perform_built []).restores (watchedLevel_restoring watch n) m
  induction hm with
  | initial config disk hosts => exact hinitial config disk hosts
  | @done m m' hm watch n r reply hend ih =>
    have hrestores := hback watch n r m
    have hkept := hrequest m watch n r hm
    rw [hend] at hrestores hkept
    cases hrestores with
    | done hregisters _ => exact hkept hregisters ih
  | @failed m m' hm watch n r e hend ih =>
    have hrestores := hback watch n r m
    have hkept := hrequest m watch n r hm
    rw [hend] at hrestores hkept
    cases hrestores with
    | failed hregisters _ => exact hkept hregisters ih

theorem Idle.reachable (hm : Idle m) : Reachable m :=
  hm.keeps .initial fun _ watch n r _ _ hreachable => .request hreachable watch n r

theorem InSession.reachable (hm : InSession m) : Reachable m := by
  cases hm with
  | idle hm => exact hm.reachable
  | running hm watch n r => exact .request hm.reachable watch n r

theorem Idle.current (hm : Idle m) : (m.heap.scopeAt m.registers.scope).kind = .module := by
  refine hm.keeps (I := fun m => (m.heap.scopeAt m.registers.scope).kind = .module)
    (fun config disk hosts => ?_) fun m watch n r hm hregisters hkind => ?_
  · unfold Machine.initial
    rw [scopeAt_newScope]
    exact congrArg Scope.kind (if_pos rfl)
  · -- Kinds do not change.
    have hkeeps := (r.perform_built []).keeps watch n
      (.here hm.reachable.linked hm.reachable.owned)
    rw [hregisters, hkeeps.leads.grows.kind _ hm.reachable.linked.scope]
    exact hkind

theorem Idle.loading (hm : Idle m) : m.registers.loading = [] :=
  hm.keeps (I := fun m => m.registers.loading = []) (fun _ _ _ => rfl)
    fun _ _ _ _ _ hregisters hnone => (congrArg Registers.loading hregisters).trans hnone

theorem Idle.steady (hm : Idle m) : m.Steady := by
  have hlinked := hm.reachable.linked
  have howned := hm.reachable.owned
  have hrecorded : m.Recorded := by constructor <;> rw [hm.loading] <;> simp
  refine ⟨hlinked, howned, fun hset => ?_, hrecorded⟩
  obtain ⟨c, hc, hscope⟩ := hset.of_class howned.heap
  have hkind := (hlinked.heap.classes c hc).kind
  rw [← hscope, hm.current] at hkind
  cases hkind

theorem Idle.begins (hm : Idle m)
    (hold : ∀ s, S s → s < m.heap.scopes.size) (hout : ¬ S m.registers.scope) :
    m.Begins S [.here, .inside] := by
  refine Machine.Begins.here
    ⟨hm.steady, .nil hm.steady, forall_mem_nil _, hold, forall_mem_nil _⟩ hout ?_
  rw [hm.current]
  trivial

theorem Idle.steps (hm : Idle m) (watch : Machine → Bool) (n : Nat) (r : Request) :
    (r.perform (watchedLevel watch n) m).Steps watch m fun _ => False :=
  (r.perform_built []).steps watch n (hm.begins (fun _ => False.elim) id)

theorem Idle.runs (hm : Idle m) (watch : Machine → Bool) (n : Nat) (r : Request) :
    m.Runs (r.perform (watchedLevel watch n) m).machine :=
  (hm.steps watch n r).runs

theorem InSession.invariant (hinitial : ∀ config disk hosts, I (Machine.initial config disk hosts))
    (hmove : ∀ m m', m.Moves m' → I m → I m') (hm : InSession m) : I m := by
  have hidle {m : Machine} (hm : Idle m) : I m :=
    hm.keeps hinitial fun _ watch n r hm _ => (hm.runs watch n r).keeps hmove
  cases hm with
  | idle hm => exact hidle hm
  | running hm watch n r => exact (hm.runs watch n r).keeps hmove (hidle hm)

theorem InSession.steady (hm : InSession m) : m.Steady :=
  hm.invariant (fun config disk hosts => (Idle.initial config disk hosts).steady)
    fun _ _ hmove _ => hmove.after

/-! ## Machines and finished modules -/

theorem Idle.sealing {m₀ : Machine} (hm : Idle m) (hm₀ : Idle m₀)
    (hrun : m₀.Seals (fun _ => False) m S) (hscope : m.registers.scope = m₀.registers.scope)
    (watch : Machine → Bool) (n : Nat) (r : Request) :
    ∃ T, m₀.Seals (fun _ => False) (r.perform (watchedLevel watch n) m).machine T := by
  have hcurrent : ¬ S m.registers.scope := by
    rw [hscope]
    intro hs
    rcases hrun.before hs with hin | hnew
    · exact hin
    · exact absurd hm₀.steady.linked.scope (Nat.not_lt.mpr hnew)
  obtain ⟨T, hrest⟩ := ((r.perform_built []).steps watch n
    (hm.begins (hrun.old fun _ => False.elim) hcurrent)).seals
  exact ⟨T, hrun.trans hrest⟩

theorem Idle.sealed (hm : Idle m) :
    ∃ config disk hosts S, (Machine.initial config disk hosts).Seals (fun _ => False) m S ∧
      m.registers = (Machine.initial config disk hosts).registers := by
  refine hm.keeps (I := fun m => ∃ config disk hosts S,
    (Machine.initial config disk hosts).Seals (fun _ => False) m S ∧
      m.registers = (Machine.initial config disk hosts).registers)
    (fun config disk hosts => ⟨config, disk, hosts, _, .start, rfl⟩) ?_
  rintro m watch n r hm hregisters ⟨config, disk, hosts, S, hrun, hsame⟩
  obtain ⟨T, hrest⟩ := hm.sealing (.initial config disk hosts) hrun
    (congrArg Registers.scope hsame) watch n r
  exact ⟨config, disk, hosts, T, hrest, hregisters.trans hsame⟩

theorem InSession.sealed (hm : InSession m) :
    ∃ config disk hosts S, (Machine.initial config disk hosts).Seals (fun _ => False) m S := by
  cases hm with
  | idle hm =>
    obtain ⟨config, disk, hosts, S, hrun, -⟩ := hm.sealed
    exact ⟨config, disk, hosts, S, hrun⟩
  | running hm watch n r =>
    obtain ⟨config, disk, hosts, S, hrun, hsame⟩ := hm.sealed
    exact ⟨config, disk, hosts, hm.sealing (.initial config disk hosts) hrun
      (congrArg Registers.scope hsame) watch n r⟩

end ClassScript
